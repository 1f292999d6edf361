import Handset.Dex.Sample
import Handset.Proofs.Dex.CodeItems
import Handset.Proofs.Machine.BlankRegisters
import Handset.Proofs.Machine.Unserved

/-!
# Where instructions are fetched

A run stops behind the code but not before it: a place before the first instruction counts from the end. Such a
place is reached only by a jump, since all other operations go forwards and handlers lie in the code or behind
it. So a run stays inside the code exactly if none of its jumps goes further back than it stands, and always if
there are no code bytes to take a distance from.
-/
namespace Handset.Act

open Step

open Dex (CodeItem Instruction TryBlock)

variable {α β : Type} {pools : Pools} {code : CodeItem} {m s t u : Machine} {op : Operation} {i : Instruction}

/-! ### Jumps -/

/-- The action looks at registers and services and changes nothing. -/
structure Looks (x : Act α) : Prop where
  quiet : Quiet x
  congr : ∀ m s : Machine, m.registers = s.registers → m.services = s.services → (x.on m).1 = (x.on s).1

theorem looks_lift (x : Except Fault α) : Looks (lift x : Act α) :=
  ⟨quiet_lift x, fun m s _ _ => by rw [on_lift, on_lift]⟩

theorem looks_pure (a : α) : Looks (pure a : Act α) := ⟨quiet_pure a, fun _ _ _ _ => rfl⟩

theorem looks_register (n : Nat) : Looks (register n) :=
  ⟨quiet_register n, fun m s hregisters _ => by rw [on_register, on_register, hregisters]⟩

theorem looks_service (name : String) : Looks (service name) := by
  refine ⟨quiet_service name, fun m s _ hservices => ?_⟩
  simp only [service, on_bind, on_get, hservices]
  cases s.services <;> rfl

theorem looks_bind {x : Act α} {f : α → Act β} (hx : Looks x) (hf : ∀ a, Looks (f a)) : Looks (x >>= f) :=
  ⟨quiet_bind hx.quiet fun a => (hf a).quiet, fun m s hregisters hservices =>
    hx.quiet.answer_bind_congr (hx.congr m s hregisters hservices) fun a =>
      (hf a).congr m s hregisters hservices⟩

theorem looks_operand (i : Instruction) (distance width : Nat) : Looks (operand i distance width) :=
  looks_bind (looks_service _) fun _ => looks_lift _

theorem looks_signedOperand (i : Instruction) (distance width : Nat) :
    Looks (signedOperand i distance width) :=
  looks_bind (looks_service _) fun _ => looks_lift _

theorem looks_codeWord (place : Nat) : Looks (codeWord place) :=
  looks_bind (looks_service _) fun _ => looks_lift _

theorem looks_signedCodeWord (place : Nat) : Looks (signedCodeWord place) :=
  looks_bind (looks_service _) fun _ => looks_lift _

theorem looks_packedTarget (v : Value) (left key place : Nat) : Looks (packedTarget v left key place) := by
  induction left generalizing key place with
  | zero => exact looks_pure _
  | succ left ih =>
    refine looks_bind (looks_signedCodeWord _) fun target => ?_
    split
    · exact looks_pure _
    · exact ih _ _

theorem looks_sparseTarget (v : Value) (left place : Nat) : Looks (sparseTarget v left place) := by
  induction left generalizing place with
  | zero => exact looks_pure _
  | succ left ih =>
    refine looks_bind (looks_codeWord _) fun key => looks_bind (looks_signedCodeWord _) fun target => ?_
    split
    · exact looks_pure _
    · exact ih _

/-- How far a jump goes: a signed distance from the code bytes, or past its own operands. -/
def jumpDistance (op : Operation) (i : Instruction) : Act Int :=
  match op with
  | .branch test => do
    let distance ← signedOperand i 1 2
    let v ← register i.a
    let w ← register i.b
    let taken ← lift (Value.compare test v w)
    pure (if taken then distance else 2)
  | .branchZero test => do
    let distance ← signedOperand i 1 2
    let v ← register i.a
    let taken ← lift (Value.compare test v (.int 0))
    pure (if taken then distance else 2)
  | .jump bytes => signedOperand i 1 bytes
  | .packedSwitch => do
    let v ← register i.a
    let table ← operand i 1 4
    let first ← codeWord table
    let size ← codeWord (table + 4)
    packedTarget v size first (table + 8)
  | .sparseSwitch => do
    let v ← register i.a
    let table ← operand i 1 4
    let size ← codeWord table
    sparseTarget v size (table + 4)
  | _ => pure 0

theorem looks_jumpDistance (op : Operation) (i : Instruction) : Looks (jumpDistance op i) := by
  cases op with
  | branch test =>
    exact looks_bind (looks_signedOperand _ _ _) fun _ => looks_bind (looks_register _) fun _ =>
      looks_bind (looks_register _) fun _ => looks_bind (looks_lift _) fun _ => looks_pure _
  | branchZero test =>
    exact looks_bind (looks_signedOperand _ _ _) fun _ => looks_bind (looks_register _) fun _ =>
      looks_bind (looks_lift _) fun _ => looks_pure _
  | jump bytes => exact looks_signedOperand _ _ _
  | packedSwitch =>
    exact looks_bind (looks_register _) fun _ => looks_bind (looks_operand _ _ _) fun _ =>
      looks_bind (looks_codeWord _) fun _ => looks_bind (looks_codeWord _) fun _ =>
        looks_packedTarget _ _ _ _
  | sparseSwitch =>
    exact looks_bind (looks_register _) fun _ => looks_bind (looks_operand _ _ _) fun _ =>
      looks_bind (looks_codeWord _) fun _ => looks_sparseTarget _ _ _
  | _ => exact looks_pure _

theorem perform_of_jumps (pools : Pools) (i : Instruction) (h : op.jumps = true) :
    perform pools op i = jumpDistance op i >>= advance := by
  have hchoice (b : Bool) (distance : Int) : (if b then advance distance else advance 2) =
      advance (if b then distance else 2) := by cases b <;> rfl
  cases op with
  | branch test => simp only [perform, branch, jumpDistance, bind_assoc, pure_bind, hchoice]
  | branchZero test => simp only [perform, branchZero, jumpDistance, bind_assoc, pure_bind, hchoice]
  | jump bytes => rfl
  | packedSwitch => simp only [perform, packedSwitch, jumpDistance, bind_assoc]
  | sparseSwitch => simp only [perform, sparseSwitch, jumpDistance, bind_assoc]
  | _ => cases h

/-! ### One instruction -/

theorem exists_of_on_step (h : (step pools code).on s = (.ok (), t)) :
    ∃ i w, fetch code.instructions s.pc = .ok i ∧
      (dispatch pools i).on { s with allowance := s.allowance - 1 } = (.ok (), w) ∧
      lookAtHeap.on w = (.ok (), t) := by
  rw [on_step] at h
  cases hfetch : fetch code.instructions s.pc with
  | error e =>
    rw [hfetch] at h
    cases h
  | ok i =>
    rw [hfetch] at h
    dsimp only at h
    split at h
    · cases h
    · obtain ⟨_, w, hdispatch, hlook⟩ := exists_of_on_bind h
      exact ⟨i, w, rfl, hdispatch, hlook⟩

theorem heapBlind_le_pc (p : Int) : HeapBlind fun m => p ≤ m.pc := fun _ _ _ _ _ h => h

/-- Whatever does not jump goes forwards. -/
theorem robust_le_pc (p : Int) (h : op.jumps = false) : Robust (fun m => p ≤ m.pc) op i where
  write n v _ := by
    intro m hm
    rw [on_setRegister]
    split <;> exact hm
  raise _ _ := keeps_modify fun _ hm => hm
  advance distance hdistance := by
    have hpos : 0 ≤ distance := hdistance.resolve_left (by rw [h]; exact Bool.false_ne_true)
    exact keeps_modify fun m hm => Int.le_trans hm (Int.le_add_of_nonneg_right hpos)
  services _ := keeps_modify fun _ hm => hm
  createObject _ := (heapBlind_le_pc p).createObject
  createArray := (heapBlind_le_pc p).createArray
  setArrayElement := (heapBlind_le_pc p).setArrayElement
  setObjectField := (heapBlind_le_pc p).setObjectField
  report := (heapBlind_le_pc p).report

/-- After the look at the heap the run stands where the instruction left it. -/
theorem pc_lookAtHeap {w : Machine} (h : lookAtHeap.on w = (.ok (), t)) :
    t.pc = w.pc ∧ t.pending = w.pending := by
  have hkept : HeapBlind fun m => m.pc = w.pc ∧ m.pending = w.pending := fun _ _ _ _ _ hm => hm
  have hlook := hkept.lookAtHeap w ⟨rfl, rfl⟩
  rwa [h] at hlook

theorem pc_step_of_jump (hfetch : fetch code.instructions s.pc = .ok i)
    (hop : Operation.ofOpcode? i.opcode = some op) (hjumps : op.jumps = true)
    (h : (step pools code).on s = (.ok (), t)) :
    ∃ d, ((jumpDistance op i).on s).1 = .ok d ∧ t.pc = s.pc + d ∧ t.pending = s.pending := by
  obtain ⟨i', w, hfetch', hdispatch, hlook⟩ := exists_of_on_step h
  obtain rfl := Except.ok.inj (hfetch.symm.trans hfetch')
  obtain ⟨hpc, hpending⟩ := pc_lookAtHeap hlook
  obtain ⟨log, hon⟩ := exists_on_dispatch pools hop { s with allowance := s.allowance - 1 }
  rw [hon, perform_of_jumps pools i hjumps] at hdispatch
  obtain ⟨d, hd, hmove⟩ := (looks_jumpDistance op i).quiet.exists_of_on_bind hdispatch
  obtain rfl := congrArg Prod.snd hmove
  have hlooks := (looks_jumpDistance op i).congr { s with allowance := s.allowance - 1, log } s rfl rfl
  exact ⟨d, hlooks.symm.trans hd, hpc, hpending⟩

/-- An instruction that completes is a jump or goes forwards. -/
theorem jumps_or_le_pc_step (h : (step pools code).on s = (.ok (), t)) :
    (∃ i op, fetch code.instructions s.pc = .ok i ∧ Operation.ofOpcode? i.opcode = some op ∧
      op.jumps = true) ∨ s.pc ≤ t.pc := by
  obtain ⟨i, w, hfetch, hdispatch, hlook⟩ := exists_of_on_step h
  rw [(pc_lookAtHeap hlook).1]
  cases hop : Operation.ofOpcode? i.opcode with
  | none =>
    unfold dispatch at hdispatch
    rw [hop] at hdispatch
    obtain rfl := congrArg Prod.snd hdispatch
    exact .inr (Int.le_add_of_nonneg_right Int.one_nonneg)
  | some op =>
    cases hjumps : op.jumps with
    | true => exact .inl ⟨i, op, hfetch, hop, hjumps⟩
    | false =>
      obtain ⟨log, hon⟩ := exists_on_dispatch pools hop { s with allowance := s.allowance - 1 }
      have hforward := Robust.perform pools (robust_le_pc s.pc hjumps (i := i))
        { s with allowance := s.allowance - 1, log } (Int.le_refl _)
      rw [← hon, hdispatch] at hforward
      exact .inr hforward

theorem pc_of_settle (h : (settle code).on t = (.ok .go, u)) :
    u.pc = t.pc ∨ ∃ block ∈ code.tries, u.pc = block.handler := by
  simp only [settle, on_bind, on_get] at h
  split at h
  · cases h
  · split at h
    · obtain rfl : t = u := congrArg Prod.snd h
      exact .inl rfl
    · split at h
      next block hblock =>
        obtain rfl := congrArg Prod.snd h
        exact .inr ⟨block, Array.mem_of_find?_eq_some hblock, rfl⟩
      next =>
        rw [(quiet_lift _).on_bind, on_lift] at h
        cases hwritten : t.pending.written <;> rw [hwritten] at h <;> cases h

/-! ### Whole runs -/

/-- The instruction that is due is a jump that goes further back than the run stands, and it completes. -/
def FallsShort (pools : Pools) (code : CodeItem) (s : Machine) : Prop :=
  ∃ i op d t, fetch code.instructions s.pc = .ok i ∧ Operation.ofOpcode? i.opcode = some op ∧
    op.jumps = true ∧ ((jumpDistance op i).on s).1 = .ok d ∧ s.pc + d < 0 ∧
    (step pools code).on s = (.ok (), t)

/-- After such a jump the run goes on before the code. -/
theorem FallsShort.exists_visits (h : FallsShort pools code s) (hs : Visits pools code m s) :
    ∃ u, Visits pools code m u ∧ u.pc < 0 := by
  obtain ⟨i, op, d, t, hfetch, hop, hjumps, hd, hneg, hstep⟩ := h
  obtain ⟨d', hd', hpc, hpending⟩ := pc_step_of_jump hfetch hop hjumps hstep
  obtain rfl := Except.ok.inj (hd.symm.trans hd')
  have hbefore : t.pc < 0 := by rwa [hpc]
  have hinside : t.pc < code.instructions.size := by omega
  exact ⟨t, hs.next hstep (settle_ready hinside (hpending.trans hs.ready.2)), hbefore⟩

/-- A run that starts in the code and gets before it has fallen short. -/
theorem Visits.exists_fallsShort (h : Visits pools code m s) (hm : 0 ≤ m.pc)
    (hhandlers : ∀ block ∈ code.tries, 0 ≤ block.handler) (hneg : s.pc < 0) :
    ∃ s', Visits pools code m s' ∧ 0 ≤ s'.pc ∧ FallsShort pools code s' := by
  have hsettle {t u : Machine} (hu : (settle code).on t = (.ok .go, u)) (hneg : u.pc < 0) : t.pc < 0 := by
    rcases pc_of_settle hu with hsame | ⟨block, hblock, hhandler⟩
    · omega
    · have := hhandlers block hblock
      omega
  induction h with
  | first hs => exact absurd (hsettle hs hneg) (Int.not_lt.mpr hm)
  | @next s t u hs ht hu ih =>
    by_cases hbefore : s.pc < 0
    · exact ih hbefore
    · have htneg := hsettle hu hneg
      rcases jumps_or_le_pc_step ht with ⟨i, op, hfetch, hop, hjumps⟩ | hforward
      · obtain ⟨d, hd, hpc, -⟩ := pc_step_of_jump hfetch hop hjumps ht
        have hshort : s.pc + d < 0 := by omega
        exact ⟨s, hs, Int.not_lt.mp hbefore, i, op, d, t, hfetch, hop, hjumps, hd, hshort, ht⟩
      · omega

theorem unmet_jumpDistance (i : Instruction) (h : op.jumps = true) : Unmet (jumpDistance op i) := by
  cases op with
  | branch | branchZero => exact (unmet_signedOperand _ _ _).bind _
  | jump => exact unmet_signedOperand _ _ _
  | packedSwitch | sparseSwitch => exact .after (quiet_register _) fun _ => (unmet_operand _ _ _).bind _
  | _ => cases h

/-- Without services no jump completes. -/
theorem not_fallsShort_of_unserved (h : s.services = none) : ¬FallsShort pools code s := by
  rintro ⟨i, op, d, t, -, -, hjumps, hd, -, -⟩
  obtain ⟨e, he⟩ := unmet_jumpDistance i hjumps s h
  rw [he] at hd
  cases hd

theorem Visits.services_eq_none (h : Visits pools code m s) (hm : m.services = none) :
    s.services = none := by
  have hblind : HeapBlind fun s : Machine => s.services = none := fun _ _ _ _ _ hs => hs
  refine h.of_keeps (keeps_settle hblind fun _ _ _ hs => hs)
    (keeps_step hblind (fun _ _ hs => hs) fun i _ s hs => ?_) hm
  obtain ⟨registers, pc, pending, log, hstate⟩ := state_dispatch_of_unserved pools i hs
  rw [hstate]
  exact hs

/-- Places before the code count from its end. -/
theorem fetch_of_neg {instructions : Array Instruction} {pc : Int} (h : pc < 0) :
    fetch instructions pc = Dex.entry instructions.reverse (-pc - 1).toNat := by
  unfold fetch Dex.entry
  rw [if_pos h]
  dsimp only
  by_cases hout : pc + instructions.size < 0
  · have hnone : instructions.reverse[(-pc - 1).toNat]? = none := by
      apply Array.getElem?_eq_none
      rw [Array.size_reverse]
      omega
    rw [if_pos hout, hnone]
  · have hin : (-pc - 1).toNat < instructions.size := by omega
    have hplace : instructions.size - 1 - (-pc - 1).toNat = (pc + instructions.size).toNat := by omega
    rw [if_neg hout, Array.getElem?_reverse hin, hplace]
    cases instructions[(pc + instructions.size).toNat]? <;> rfl

/-- In every interpretation of a method of an image, an instruction is due only before the end of the code. It
can be due before the beginning, and is then taken from the end; this happens exactly if a jump that is made
inside the code goes further back than the run stands, and so never on a machine without services. -/
theorem fetch_before_code_iff {d : Bytes} {c : Callee} {code : CodeItem}
    (h : HasCode (codeAt? (Dex.parse d).1) c code) (pools : Pools) (m : Machine) :
    (∃ log, (interpret pools (codeAt? (Dex.parse d).1) c).on m = match c.id with
      | .ok _ => (execute pools code).on (prepared m code log)
      | .error e => (.error e, prepared m code m.log)) ∧
    ∀ log,
      (∀ s, Visits pools code (prepared m code log) s → s.pc < code.instructions.size ∧
        (s.pc < 0 → fetch code.instructions s.pc =
          Dex.entry code.instructions.reverse (-s.pc - 1).toNat)) ∧
      ((∃ s, Visits pools code (prepared m code log) s ∧ s.pc < 0) ↔
        ∃ s, Visits pools code (prepared m code log) s ∧ 0 ≤ s.pc ∧ FallsShort pools code s) ∧
      (m.services = none → ∀ s, Visits pools code (prepared m code log) s → 0 ≤ s.pc) := by
  have hhandlers : ∀ block ∈ code.tries, 0 ≤ block.handler := by
    obtain ⟨offset, key, -, -, -, hcode⟩ := h
    unfold codeAt? at hcode
    split at hcode
    next i =>
      split at hcode
      · cases hcode
      · exact Dex.handler_readCodeItem (Dex.codeRead_parse d _ code hcode)
    next => cases hcode
  refine ⟨on_interpret pools h m, fun log => ⟨fun s hs => ⟨hs.ready.1, fetch_of_neg⟩, ?_, ?_⟩⟩
  · constructor
    · rintro ⟨s, hs, hneg⟩
      exact hs.exists_fallsShort (Int.le_refl 0) hhandlers hneg
    · rintro ⟨s, hs, -, hshort⟩
      exact hshort.exists_visits hs
  · intro hservices s hs
    refine Int.not_lt.mp fun hneg => ?_
    obtain ⟨s', hs', -, hshort⟩ := hs.exists_fallsShort (Int.le_refl 0) hhandlers hneg
    exact not_fallsShort_of_unserved (hs'.services_eq_none hservices) hshort

open Bytes (littleEndian)

/-- An image with one method, whose first instruction jumps one place back and whose second does nothing. -/
def backwardImage : Bytes :=
  #[100, 101, 120, 10, 48, 51, 53, 0] ++ Array.replicate 36 0
    ++ Dex.Sample.join ([96, 100, 104, 0, 116, 124, 0, 1, 1, 1, 0, 1, 1].map (littleEndian 4))
    ++ Dex.Sample.join ([184, 0, 0, 0, 0, 0, 0].map (littleEndian 4))
    ++ Dex.Sample.join ([0, 0, 0, 0, 0, 0, 156, 0].map (littleEndian 4))
    ++ #[0, 0, 1, 0, 0, 0, 0xA4, 1]
    ++ #[0, 0, 0, 0, 0, 0, 0, 0, 0, 0, 0, 0, 2, 0, 0, 0, 0x3B, 0xFF, 0xF0, 0]
    ++ #[4, 109, 97, 105, 110]

def backwardMethod : Callee :=
  ⟨.object [("class_name", .text "main"), ("name", .text "main"), ("code_off", .int 164)]⟩

def backwardCode : CodeItem where
  registersSize := 0
  insSize := 0
  outsSize := 0
  triesSize := 0
  instructions := #[⟨0x3B, 0xFF, 180⟩, ⟨0xF0, 0, 182⟩]
  tries := #[]

theorem hasCode_backwardMethod :
    HasCode (codeAt? (Dex.parse backwardImage).1) backwardMethod backwardCode := by
  have hcode : codeAt? (Dex.parse backwardImage).1 (.int 164) = some backwardCode := by decide +kernel
  exact ⟨.int 164, .int 164, rfl, rfl, rfl, hcode⟩

/-- A machine with the bytes of the image at hand. -/
def backwardMachine : Machine where
  services := some { code := backwardImage }

theorem visits_backward :
    Visits {} backwardCode (prepared backwardMachine backwardCode #[])
      (prepared backwardMachine backwardCode #[]) :=
  .first (settle_ready (by decide) rfl)

/-- The jump of the method completes before the code, and so does the instruction that is taken from there. -/
theorem step_backward : ∃ t,
    (step {} backwardCode).on (prepared backwardMachine backwardCode #[]) = (.ok (), t) ∧ t.pc = -1 ∧
      t.pending.isNone = true ∧ ((step {} backwardCode).on t).1.toOption = some () := by
  have h : ((step {} backwardCode).on (prepared backwardMachine backwardCode #[])).1.toOption = some () ∧
      ((step {} backwardCode).on (prepared backwardMachine backwardCode #[])).2.pc = -1 ∧
      ((step {} backwardCode).on (prepared backwardMachine backwardCode #[])).2.pending.isNone = true ∧
      ((step {} backwardCode).on
        ((step {} backwardCode).on (prepared backwardMachine backwardCode #[])).2).1.toOption = some () := by
    decide +kernel
  rcases hstep : (step {} backwardCode).on (prepared backwardMachine backwardCode #[]) with ⟨r, t⟩
  rw [hstep] at h
  obtain ⟨hr, hrest⟩ := h
  obtain rfl : r = .ok () := eq_ok_of_toOption hr
  exact ⟨t, rfl, hrest⟩

theorem fetch_before_backwardCode :
    HasCode (codeAt? (Dex.parse backwardImage).1) backwardMethod backwardCode ∧
      ∃ s, Visits {} backwardCode (prepared backwardMachine backwardCode #[]) s ∧ s.pc < 0 := by
  refine ⟨hasCode_backwardMethod, ?_⟩
  apply ((fetch_before_code_iff hasCode_backwardMethod {} backwardMachine).2 #[]).2.1.mpr
  have hdistance : ((jumpDistance (.jump 1) ⟨0x3B, 0xFF, 180⟩).on
      (prepared backwardMachine backwardCode #[])).1 = .ok (-1) := eq_ok_of_toOption (by decide +kernel)
  obtain ⟨t, ht, -⟩ := step_backward
  exact ⟨_, visits_backward, Int.le_refl 0, ⟨0x3B, 0xFF, 180⟩, .jump 1, -1, t, rfl, rfl, rfl, hdistance,
    by decide, ht⟩

/-- Code of an image can make the run execute an instruction at a place before the code. -/
theorem backward_jump_executes_before_code :
    HasCode (codeAt? (Dex.parse backwardImage).1) backwardMethod backwardCode ∧
      ∃ s t, Visits {} backwardCode (prepared backwardMachine backwardCode #[]) s ∧ s.pc = -1 ∧
        (step {} backwardCode).on s = (.ok (), t) := by
  obtain ⟨s, hs, hpc, hnone, hstep⟩ := step_backward
  have hinside : s.pc < backwardCode.instructions.size := by
    rw [hpc]
    decide
  have hready : s.pending = .none := by
    cases hpending : s.pending with
    | none => rfl
    | _ =>
      rw [hpending] at hnone
      cases hnone
  exact ⟨hasCode_backwardMethod, s, _, visits_backward.next hs (settle_ready hinside hready), hpc,
    Prod.ext (eq_ok_of_toOption hstep) rfl⟩

end Handset.Act
