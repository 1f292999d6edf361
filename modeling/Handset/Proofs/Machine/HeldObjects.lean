import Handset.Proofs.Machine.CollectionExactness
import Handset.Proofs.Machine.Runs

/-!
# Objects that a register holds

A collection starts from the registers and the registers of the frames, so it keeps every object whose
number one of them holds. Collections come from two places: allocation collects before the new number
is written, with the registers as they were, and the look at the heap after an instruction collects with
the registers as they have become. Nothing else takes an object away.
-/
namespace Handset

open Step

namespace Machine

/-- A place from which a collection starts: a register, or a register of a frame of the call stack. -/
inductive Slot where
  | register (n : Nat)
  | frame (f n : Nat)

def frameValues (frame : Value) : Except Fault (List Value) := do
  (← frame.partOr "registers" (.list [])).walk

/-- The operation may write to the slot; none writes to a frame. -/
def Slot.WrittenBy (op : Operation) (i : Dex.Instruction) : Slot → Prop
  | .register n => op.Writes i n
  | .frame _ _ => False

/-- What a slot holds, if it exists. There are no registers while something else stands in their
place. -/
def held? (m : Machine) : Slot → Option Value
  | .register n => if m.registersInstead.isSome then none else m.registers[n]?
  | .frame f n => do
    let frames ← (← m.callStack).walk.toOption
    let values ← (frameValues (← frames[f]?)).toOption
    values[n]?

/-- The slot holds this number. -/
def Holds (m : Machine) (slot : Slot) (id : Nat) : Prop :=
  (m.held? slot).bind Value.int? = some (id : Int)

def Lives (m : Machine) (id : Nat) (className : Value) : Prop :=
  ∃ o, (id, o) ∈ m.objects ∧ o.className = className

instance (m : Machine) (slot : Slot) (id : Nat) : Decidable (m.Holds slot id) :=
  inferInstanceAs (Decidable (_ = _))

theorem lives_succ_iff {m : Machine} {p : Nat} {className : Value} :
    m.Lives (p + 1) className ↔ ∃ o, m.cells[p]? = some (.object o) ∧ o.className = className := by
  simp [Lives, mem_objects_iff]

theorem Lives.exists_place {m : Machine} {id : Nat} {className : Value} (h : m.Lives id className) :
    ∃ p, id = p + 1 := by
  obtain ⟨o, ho, -⟩ := h
  obtain ⟨p, hp, -⟩ := mem_objects_iff.mp ho
  exact ⟨p, hp⟩

theorem Lives.of_cell {m t : Machine} {p : Nat} {className : Value} (h : m.Lives (p + 1) className)
    (hcell : t.cells[p]? = m.cells[p]?) : t.Lives (p + 1) className := by
  rw [lives_succ_iff] at h ⊢
  rwa [hcell]

theorem object?_eq_some_iff {m : Machine} {v : Value} {p : Nat} {o : Obj} :
    m.object? v = some (p, o) ↔ m.place? v = some p ∧ m.cells[p]? = some (.object o) := by
  unfold object?
  constructor
  · intro h
    split at h
    · cases h
    next q hq =>
      split at h
      next hcell =>
        obtain ⟨rfl, rfl⟩ := Prod.mk.inj (Option.some.inj h)
        exact ⟨hq, hcell⟩
      next => cases h
  · rintro ⟨hp, hcell⟩
    rw [hp]
    dsimp only
    rw [hcell]

theorem array?_eq_some_iff {m : Machine} {v : Value} {p : Nat} {type : Value} {items : Array Value} :
    m.array? v = some (p, type, items) ↔ m.place? v = some p ∧ m.cells[p]? = some (.array type items) := by
  unfold array?
  constructor
  · intro h
    split at h
    · cases h
    next q hq =>
      split at h
      next hcell =>
        obtain ⟨rfl, hrest⟩ := Prod.mk.inj (Option.some.inj h)
        obtain ⟨rfl, rfl⟩ := Prod.mk.inj hrest
        exact ⟨hq, hcell⟩
      next => cases h
  · rintro ⟨hp, hcell⟩
    rw [hp]
    dsimp only
    rw [hcell]

theorem getElem?_setCell {m : Machine} {p : Nat} {c : Cell} (hp : m.cells[p]? = some c) (d : Cell) (q : Nat) :
    (m.setCell p d).cells[q]? = if p = q then some d else m.cells[q]? := by
  have hsize := (Array.getElem?_eq_some_iff.mp hp).1
  simp only [setCell, Array.getElem?_setIfInBounds, hsize, if_true]

private theorem mem_of_mapM {α β : Type} {f : α → Except Fault β} {xs : List α} {ys : List β} {x : α}
    {y : β} (h : xs.mapM f = .ok ys) (hx : x ∈ xs) (hy : f x = .ok y) : y ∈ ys := by
  induction xs generalizing ys with
  | nil => cases hx
  | cons a xs ih =>
    rw [List.mapM_cons] at h
    obtain ⟨b, hb, h⟩ := exists_of_bind_eq_ok h
    obtain ⟨bs, hbs, h⟩ := exists_of_bind_eq_ok h
    obtain rfl : b :: bs = ys := Except.ok.inj h
    rcases List.mem_cons.mp hx with rfl | hx
    · obtain rfl := Except.ok.inj (hb.symm.trans hy)
      exact List.mem_cons_self
    · exact List.mem_cons_of_mem _ (ih hbs hx)

/-- Marking starts from the registers, or what stands in their place, and from the frames. -/
theorem exists_of_roots {m : Machine} {callStack : Value} {values : List Value}
    (h : m.roots callStack = .ok values) : ∃ own framed, values = own ++ framed ∧
      (m.registersInstead = none → own = m.registers.toList) ∧
      frameRegisters callStack = .ok framed := by
  unfold roots at h
  cases hinstead : m.registersInstead with
  | none =>
    rw [hinstead] at h
    obtain ⟨own, hown, h⟩ := exists_of_bind_eq_ok h
    obtain ⟨framed, hframed, h⟩ := exists_of_bind_eq_ok h
    exact ⟨own, framed, (Except.ok.inj h).symm, fun _ => (Except.ok.inj hown).symm, hframed⟩
  | some w =>
    rw [hinstead] at h
    obtain ⟨own, -, h⟩ := exists_of_bind_eq_ok h
    obtain ⟨framed, hframed, h⟩ := exists_of_bind_eq_ok h
    exact ⟨own, framed, (Except.ok.inj h).symm, nofun, hframed⟩

/-- What a slot holds is among the values that marking starts from. -/
theorem mem_roots_of_held {m : Machine} {slot : Slot} {v callStack : Value} {values : List Value}
    (hheld : m.held? slot = some v) (hstack : m.callStack = some callStack)
    (hroots : m.roots callStack = .ok values) : v ∈ values := by
  obtain ⟨own, framed, rfl, hown, hframed⟩ := exists_of_roots hroots
  cases slot with
  | register n =>
    simp only [held?] at hheld
    split at hheld
    · cases hheld
    next hinstead =>
      rw [hown (Option.not_isSome_iff_eq_none.mp hinstead)]
      exact List.mem_append_left _ (Array.mem_toList_iff.mpr (Array.mem_of_getElem? hheld))
  | frame f n =>
    simp only [held?, hstack, Option.bind_eq_bind, Option.bind_some, Option.bind_eq_some_iff] at hheld
    obtain ⟨frames, hframes, frame, hframe, held, hregisters, hv⟩ := hheld
    obtain ⟨frames', hframes', hframed⟩ := exists_of_bind_eq_ok hframed
    obtain rfl := Except.ok.inj ((eq_ok_of_toOption hframes).symm.trans hframes')
    obtain ⟨registers, hregisters', hframed⟩ := exists_of_bind_eq_ok hframed
    obtain rfl : registers.flatten = framed := Except.ok.inj hframed
    have hmem : held ∈ registers :=
      mem_of_mapM hregisters' (List.mem_of_getElem? hframe) (eq_ok_of_toOption hregisters)
    exact List.mem_append_right _ (List.mem_flatten.mpr ⟨held, hmem, List.mem_of_getElem? hv⟩)

end Machine

namespace Act

open Machine (Slot IsMarked Traced)

open Dex (CodeItem Instruction)

variable {slot : Slot} {p id : Nat} {className : Value}

theorem heapBlind_held (slot : Slot) (Q : Option Value → Prop) : HeapBlind fun m => Q (m.held? slot) := by
  intro m cells used collections log h
  cases slot with
  | register n => exact h
  | frame f n => exact h

theorem heapBlind_holds (slot : Slot) (id : Nat) : HeapBlind fun m => m.Holds slot id :=
  heapBlind_held slot fun w => w.bind Value.int? = some (id : Int)

/-- The slot holds the number of an object of this class that is in the heap. -/
def Secure (slot : Slot) (id : Nat) (className : Value) (m : Machine) : Prop :=
  m.Holds slot id ∧ m.Lives id className

/-- Marking that succeeds has started from the roots and marked what they lead to. -/
theorem exists_of_mark {m : Machine} {marks : Machine.Marks} (h : (mark.on m).1 = .ok marks) :
    ∃ callStack values, m.callStack = some callStack ∧ m.roots callStack = .ok values ∧
      Traced m.cells marks (values.map (0, ·)) m.blankMarks := by
  simp only [mark, on_bind, on_get] at h
  split at h
  · split at h
    next callStack hstack =>
      cases hroots : m.roots callStack with
      | error e =>
        rw [hroots, on_bind_error (on_lift _ m)] at h
        cases h
      | ok values =>
        rw [hroots, on_bind_ok (on_lift _ m), on_lift] at h
        exact ⟨callStack, values, hstack, hroots, Machine.trace_eq_ok_iff.mp h⟩
    next => cases h
  · cases h

theorem yields_mark :
    Yields (Secure slot (p + 1) className) mark fun marks => IsMarked marks p := by
  rintro m ⟨hholds, hlives⟩ marks hmarks
  obtain ⟨callStack, values, hstack, hroots, htraced⟩ := exists_of_mark hmarks
  obtain ⟨v, hheld, hv⟩ := Option.bind_eq_some_iff.mp hholds
  obtain ⟨o, ho, -⟩ := Machine.lives_succ_iff.mp hlives
  have hreferent : Machine.referent? m.cells v = some p :=
    Machine.referent?_eq_some_iff.mpr ⟨hv, o, ho⟩
  have hmem : (0, v) ∈ values.map (0, ·) :=
    List.mem_map.mpr ⟨v, Machine.mem_roots_of_held hheld hstack hroots, rfl⟩
  exact htraced.pending_marked m.size_blankMarks _ hmem p hreferent

theorem keeps_cell_removeObjects {places : List Nat} (hp : p ∉ places) (c : Option Cell) :
    Keeps (fun m => m.cells[p]? = c) (removeObjects places) := by
  refine keeps_removeObjects (fun m q hq hm => ?_) fun _ _ hm => hm
  rw [← hm]
  have hne : q ≠ p := fun h => hp (h ▸ hq)
  exact Array.getElem?_setIfInBounds_ne hne

theorem lives_sweep (keep : Nat → Bool) (hp : keep p = true) :
    Keeps (fun m => m.Lives (p + 1) className) (sweep keep) := by
  refine keeps_get_bind fun m hm => hm.of_cell ?_
  have hkept : p ∉ m.doomed keep := by simp [Machine.mem_doomed_iff, hp]
  exact keeps_bind (P := fun t => t.cells[p]? = m.cells[p]?) (keeps_cell_removeObjects hkept _)
    (fun _ => keeps_report (fun _ _ h => h) _ _) m rfl

theorem secure_report (level : Level) (text : String) :
    Keeps (Secure slot id className) (report level text : Act Unit) :=
  keeps_report (fun m log hm => ⟨heapBlind_holds slot id m m.cells m.used m.collections log hm.1, hm.2⟩)
    level text

theorem secure_collect : Keeps (Secure slot id className) collect := by
  intro m hm
  obtain ⟨p, rfl⟩ := hm.2.exists_place
  refine keeps_bind (keeps_modify fun m hm => ?_) (fun _ =>
    keeps_bind_of_yields quiet_mark.keeps yields_mark fun marks hmarks => ?_) m hm
  · exact ⟨heapBlind_holds slot _ m m.cells m.used _ m.log hm.1, hm.2⟩
  · have hsweep : Keeps (Secure slot (p + 1) className)
        (sweep fun p => (marks.getD p none).isSome) := by
      intro m hm
      exact ⟨(heapBlind_holds slot _).sweep _ m hm.1,
        lives_sweep (fun p => (marks.getD p none).isSome) hmarks m hm.2⟩
    exact keeps_bind hsweep fun _ => keeps_reportCollection secure_report marks

theorem secure_collectIfNeeded : Keeps (Secure slot id className) collectIfNeeded :=
  keeps_collectIfNeeded secure_report secure_collect

theorem secure_lookAtHeap : Keeps (Secure slot id className) lookAtHeap :=
  keeps_lookAtHeap secure_collectIfNeeded

theorem lives_push {m : Machine} (h : m.Lives id className) (c : Cell) (used : Value) :
    Machine.Lives { m with cells := m.cells.push c, used } id className := by
  obtain ⟨p, rfl⟩ := h.exists_place
  obtain ⟨o, ho, -⟩ := Machine.lives_succ_iff.mp h
  refine h.of_cell ?_
  have hp : p ≠ m.cells.size := Nat.ne_of_lt (Array.getElem?_eq_some_iff.mp ho).1
  simp [Array.getElem?_push, hp]

theorem secure_announce (name : Value) (n : Nat) :
    Keeps (Secure slot id className) (announce name n) :=
  keeps_announce secure_report secure_collectIfNeeded name n

theorem secure_createObject (name : Value) :
    Keeps (Secure slot id className) (createObject name) := by
  intro m hm
  have hpushed (c : Cell) (used : Value) :
      Secure slot id className { m with cells := m.cells.push c, used } :=
    ⟨heapBlind_holds slot id m _ used m.collections m.log hm.1, lives_push hm.2 c used⟩
  rw [on_createObject]
  split
  next used _ => exact secure_announce name m.nextId _ (hpushed _ used)
  next => exact hpushed .vacated m.used

theorem lives_createArray (type length : Value) :
    Keeps (fun m => m.Lives id className) (createArray type length) := by
  refine keeps_bind (quiet_service _).keeps fun _ => ?_
  split
  · exact (quiet_refuse _).keeps
  · split
    · exact (quiet_refuse _).keeps
    · exact keeps_get_bind fun m hm => lives_push hm _ m.used

theorem lives_setCell {m : Machine} (h : m.Lives id className) {q : Nat} {c : Cell}
    (hc : ∀ o, m.cells[q]? = some (.object o) → ∃ o', c = .object o' ∧ o'.className = o.className) :
    (m.setCell q c).Lives id className := by
  obtain ⟨p, rfl⟩ := h.exists_place
  obtain ⟨o, ho, hname⟩ := Machine.lives_succ_iff.mp h
  by_cases hq : q = p
  · subst hq
    obtain ⟨o', rfl, hname'⟩ := hc o ho
    have hsize : q < m.cells.size := (Array.getElem?_eq_some_iff.mp ho).1
    refine Machine.lives_succ_iff.mpr ⟨o', ?_, hname'.trans hname⟩
    exact Array.getElem?_setIfInBounds_self_of_lt hsize
  · exact h.of_cell (Array.getElem?_setIfInBounds_ne hq)

theorem array?_of_element {array index : Value} {m : Machine} {r : Nat × Value × Array Value × Nat}
    (h : ((element array index).on m).1 = .ok r) : m.array? array = some (r.1, r.2.1, r.2.2.1) := by
  simp only [element, on_bind, on_get] at h
  split at h
  · cases h
  next p type items harray =>
    split at h
    · cases h
    · split at h
      · cases h
      · obtain rfl := Except.ok.inj h
        exact harray

theorem lives_setArrayElement (array index value : Value) :
    Keeps (fun m => m.Lives id className) (setArrayElement array index value) := by
  refine keeps_bind (quiet_service _).keeps fun _ m hm => ?_
  rw [(quiet_element array index).on_bind]
  cases helement : ((element array index).on m).1 with
  | error e => exact hm
  | ok r =>
    have hcell := (Machine.array?_eq_some_iff.mp (array?_of_element helement)).2
    refine lives_setCell hm fun o ho => ?_
    rw [hcell] at ho
    cases ho

theorem lives_setObjectField (object : Value) (field : Nat) (value : Value) :
    Keeps (fun m => m.Lives id className) (setObjectField object field value) := by
  refine keeps_bind (quiet_service _).keeps fun _ => keeps_get_bind fun m hm => ?_
  cases hobject : m.object? object with
  | none => exact hm
  | some found =>
    obtain ⟨q, o⟩ := found
    have hcell := (Machine.object?_eq_some_iff.mp hobject).2
    refine lives_setCell hm fun o' ho' => ?_
    obtain rfl : o = o' := by
      rw [hcell] at ho'
      exact Cell.object.inj (Option.some.inj ho')
    exact ⟨_, rfl, rfl⟩

/-- Only allocation can take an object away. -/
theorem robust_lives {op : Operation} (hop : op ≠ .newInstance) (i : Instruction) :
    Robust (fun m => m.Lives id className) op i where
  write n v _ := by
    intro m hm
    rw [on_setRegister]
    split <;> exact hm
  raise _ _ := keeps_modify fun _ hm => hm
  advance _ _ := keeps_modify fun _ hm => hm
  services _ := keeps_modify fun _ hm => hm
  createObject h := absurd h hop
  createArray := lives_createArray
  setArrayElement := lives_setArrayElement
  setObjectField := lives_setObjectField
  report := keeps_report fun _ _ hm => hm

theorem lives_newInstance (pools : Pools) (i : Instruction) {m : Machine}
    (hm : Secure slot id className m) : ((newInstance pools i).on m).2.Lives id className := by
  have hrest (name : Value) (n : Nat) : Keeps (fun m => m.Lives id className) (do
      setRegister i.a (.int n)
      let shown ← lift name.written
      report .debug s!"创建实例: {shown} (ID: {n})"
      advance 2) := by
    refine keeps_bind (fun m hm => ?_) fun _ => keeps_bind (quiet_lift _).keeps fun _ =>
      keeps_bind (keeps_report (fun _ _ hm => hm) _ _) fun _ => keeps_modify fun _ hm => hm
    rw [on_setRegister]
    split <;> exact hm
  unfold newInstance
  rw [(quiet_operand _ _ _).on_bind]
  cases ((operand i 2 2).on m).1 with
  | error e => exact hm.2
  | ok index =>
    dsimp only
    rw [(quiet_lift _).on_bind, on_lift]
    cases Dex.entry pools.types index with
    | error e => exact hm.2
    | ok name =>
      dsimp only
      -- the slot counts until the new number is written; after that nothing is collected
      have hcreated := secure_createObject name m hm
      rcases hcreate : (createObject name).on m with ⟨outcome | n, t⟩
      · rw [on_bind_error hcreate]
        rw [hcreate] at hcreated
        exact hcreated.2
      · rw [on_bind_ok hcreate]
        rw [hcreate] at hcreated
        exact hrest name n t hcreated.2

theorem lives_perform (pools : Pools) (op : Operation) (i : Instruction) {m : Machine}
    (hm : Secure slot id className m) : ((perform pools op i).on m).2.Lives id className := by
  by_cases hop : op = .newInstance
  · subst hop
    exact lives_newInstance pools i hm
  · exact (robust_lives hop i).perform pools m hm.2

theorem lives_dispatch (pools : Pools) (i : Instruction) {m : Machine}
    (hm : Secure slot id className m) : ((dispatch pools i).on m).2.Lives id className := by
  unfold dispatch
  split
  next op _ => exact lives_perform pools op i (secure_report _ _ m hm)
  next => exact hm.2

/-- A slot that holds the number of an object before an instruction and after it has kept the object. -/
theorem lives_step {pools : Pools} {code : CodeItem} {m : Machine} (hm : Secure slot id className m)
    (hheld : ((step pools code).on m).2.Holds slot id) :
    ((step pools code).on m).2.Lives id className := by
  revert hheld
  rw [on_step]
  cases fetch code.instructions m.pc with
  | error e => exact fun _ => hm.2
  | ok i =>
    dsimp only
    split
    · exact fun _ => hm.2
    next =>
      intro hheld
      have hpaid : Secure slot id className { m with allowance := m.allowance - 1 } := by
        cases slot <;> exact hm
      have hlives := lives_dispatch pools i hpaid
      rcases hdispatch : (dispatch pools i).on { m with allowance := m.allowance - 1 } with ⟨outcome, t⟩
      rw [hdispatch] at hlives
      cases outcome with
      | error e => rwa [on_bind_error hdispatch]
      | ok _ =>
        rw [on_bind_ok hdispatch] at hheld ⊢
        -- the look at the heap leaves the slot as the instruction has left it
        have hsame : (lookAtHeap.on t).2.held? slot = t.held? slot :=
          (heapBlind_held slot (· = t.held? slot)).lookAtHeap t rfl
        have hholds : t.Holds slot id := by
          unfold Machine.Holds at hheld ⊢
          rwa [hsame] at hheld
        exact (secure_lookAtHeap t ⟨hholds, hlives⟩).2

theorem held_settle (code : CodeItem) (m : Machine) :
    ((settle code).on m).2.held? slot = m.held? slot := by
  obtain ⟨pc, pending, log, hstate⟩ := state_settle code m
  rw [hstate]
  cases slot <;> rfl

theorem lives_settle (code : CodeItem) : Keeps (fun m => m.Lives id className) (settle code) := by
  intro m hm
  obtain ⟨pc, pending, log, hstate⟩ := state_settle code m
  rw [hstate]
  exact hm

theorem lives_after_succ {pools : Pools} {code : CodeItem} {steps : Nat} {m : Machine}
    (hm : Secure slot id className (after pools code steps m))
    (hheld : (after pools code (steps + 1) m).Holds slot id) :
    (after pools code (steps + 1) m).Lives id className := by
  rcases after_succ pools code steps m with hsame | hnext
  · rw [hsame]
    exact hm.2
  · rw [hnext] at hheld ⊢
    have hlives := @lives_step slot id className pools code _ hm
    rcases hstep : (step pools code).on (after pools code steps m) with ⟨outcome, t⟩
    rw [hstep] at hlives
    cases outcome with
    | error e =>
      rw [on_bind_error hstep] at hheld ⊢
      exact hlives hheld
    | ok _ =>
      rw [on_bind_ok hstep] at hheld ⊢
      unfold Machine.Holds at hheld
      rw [held_settle] at hheld
      exact lives_settle code t (hlives hheld)

/-- An instruction leaves the slots alone that it does not write. -/
theorem held_dispatch (pools : Pools) {i : Instruction}
    (hi : ∀ op, Operation.ofOpcode? i.opcode = some op → ¬ slot.WrittenBy op i) (w : Option Value) :
    Keeps (fun m => m.held? slot = w) (dispatch pools i) := by
  have hheap : HeapBlind fun m => m.held? slot = w := heapBlind_held slot (· = w)
  have hmoved (distance : Int) : Keeps (fun m => m.held? slot = w) (advance distance) :=
    keeps_modify fun m hm => by cases slot <;> exact hm
  unfold dispatch
  split
  next op hop =>
    refine keeps_bind (hheap.report _ _) fun _ => Robust.perform pools
      (hheap.robust (fun n v hn m hm => ?_) ?_ ?_ ?_)
    · -- a write to another register, or to a register while frames are looked at
      rw [on_setRegister]
      split
      · rw [← hm]
        cases slot with
        | register k =>
          have hk : n ≠ k := fun hk => hi op hop (hk ▸ hn)
          simp only [Machine.held?, Array.getElem?_setIfInBounds_ne hk]
        | frame f k => rfl
      · exact hm
    · exact fun _ _ => keeps_modify fun m hm => by cases slot <;> exact hm
    · exact fun m pc hm => by cases slot <;> exact hm
    · exact fun m services hm => by cases slot <;> exact hm
  next => exact keeps_bind (hheap.report _ _) fun _ => hmoved 1

/-- A slot that no instruction of the code writes keeps what it holds for the whole run. -/
theorem held_after (pools : Pools) {code : CodeItem}
    (hcode : ∀ i ∈ code.instructions, ∀ op, Operation.ofOpcode? i.opcode = some op →
      ¬ slot.WrittenBy op i) (steps : Nat) (m : Machine) :
    (after pools code steps m).held? slot = m.held? slot := by
  have hheap : HeapBlind fun s => s.held? slot = m.held? slot := heapBlind_held slot (· = m.held? slot)
  have hstep : Keeps (fun s => s.held? slot = m.held? slot) (step pools code) :=
    keeps_step hheap (fun s allowance hs => by cases slot <;> exact hs)
      fun i hi => held_dispatch pools (hcode i hi) _
  have hsettle : Keeps (fun s => s.held? slot = m.held? slot) (settle code) :=
    fun s hs => (held_settle code s).trans hs
  exact keeps_run hsettle hstep steps m rfl

/-- What a register or a register of a frame holds is not collected. Along a run of any code, an object
whose number a slot holds at some point stays in the heap, under its class, as long as the slot goes on
holding the number. This is so within each instruction, even the one that ends it, and in the look at the
heap that follows. A slot that no instruction of the code writes, in particular one of a frame, holds what
it holds for the whole run. -/
theorem held_object_survives (pools : Pools) (code : CodeItem) (m : Machine) (slot : Slot) (id : Nat)
    (className : Value) :
    (∀ first last, first ≤ last →
      (∀ steps, first ≤ steps → steps ≤ last → (after pools code steps m).Holds slot id) →
      (after pools code first m).Lives id className → (after pools code last m).Lives id className) ∧
    (∀ s : Machine, s.Holds slot id → s.Lives id className →
      (∀ i, ((dispatch pools i).on s).2.Lives id className) ∧
      (lookAtHeap.on s).2.Lives id className ∧ (lookAtHeap.on s).2.Holds slot id) ∧
    ((∀ i ∈ code.instructions, ∀ op, Operation.ofOpcode? i.opcode = some op → ¬ slot.WrittenBy op i) →
      ∀ steps, (after pools code steps m).held? slot = m.held? slot) := by
  refine ⟨?_, ?_, fun hcode steps => held_after pools hcode steps m⟩
  · intro first last hle hheld hlives
    induction last, hle using Nat.le_induction with
    | base => exact hlives
    | succ last hle ih =>
      have hsecure : Secure slot id className (after pools code last m) :=
        ⟨hheld last hle (Nat.le_succ last),
          ih fun steps hfirst hlast => hheld steps hfirst (Nat.le_succ_of_le hlast)⟩
      exact lives_after_succ hsecure (hheld (last + 1) (Nat.le_succ_of_le hle) le_rfl)
  · intro s hholds hlives
    have hlooked := secure_lookAtHeap s ⟨hholds, hlives⟩
    exact ⟨fun i => lives_dispatch pools i ⟨hholds, hlives⟩, hlooked.2, hlooked.1⟩

/-- Makes an object and goes back to the start. -/
def allocatingLoop : CodeItem where
  registersSize := 4
  insSize := 0
  outsSize := 0
  triesSize := 0
  instructions := #[⟨0x22, 0, 0⟩, ⟨0xF0, 0, 0⟩, ⟨0x3B, 0, 4⟩]
  tries := #[]

/-- Two objects, of which register 3 holds the first, in a heap that is always too full. -/
def crowdedMachine : Machine where
  registers := #[.none, .none, .none, .int 1]
  registersReady := true
  callStack := some (.list [])
  cells := #[.object { className := .text "LA;" }, .object { className := .text "LB;" }]
  used := .int 2048
  heapSize := .int 1024
  services := some { code := #[0, 0, 0, 0, 0, 0xFE] }

/-- The object in register 3 is there after a million instructions, with collections at every turn. -/
theorem crowdedMachine_keeps_held_object :
    crowdedMachine.Lives 1 (.text "LA;") ∧ crowdedMachine.Holds (.register 3) 1 ∧
      (after { types := #[.text "LC;"] } allocatingLoop 1000000 crowdedMachine).Lives 1 (.text "LA;") := by
  have hlives : crowdedMachine.Lives 1 (.text "LA;") := ⟨_, List.mem_cons_self, rfl⟩
  have hunwritten : ∀ i ∈ allocatingLoop.instructions, ∀ op, Operation.ofOpcode? i.opcode = some op →
      ¬ (Slot.register 3).WrittenBy op i := by
    intro i hi op hop hwrites
    simp only [allocatingLoop, List.mem_toArray, List.mem_cons, List.not_mem_nil, or_false] at hi
    rcases hi with rfl | rfl | rfl
    · obtain rfl := Option.some.inj hop
      cases hwrites
    · obtain rfl := Option.some.inj hop
      exact hwrites
    · obtain rfl := Option.some.inj hop
      exact hwrites
  obtain ⟨hsurvives, -, hsame⟩ := held_object_survives { types := #[.text "LC;"] } allocatingLoop
    crowdedMachine (.register 3) 1 (.text "LA;")
  have hheld (steps : Nat) : (after { types := #[.text "LC;"] } allocatingLoop steps crowdedMachine).Holds
      (.register 3) 1 := by
    rw [Machine.Holds, hsame hunwritten steps]
    rfl
  exact ⟨hlives, rfl, hsurvives 0 1000000 (Nat.zero_le _) (fun steps _ _ => hheld steps)
    (lives_settle allocatingLoop crowdedMachine hlives)⟩

end Act

end Handset
