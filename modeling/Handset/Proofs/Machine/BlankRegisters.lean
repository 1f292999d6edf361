import Handset.Machine.Calls
import Handset.Proofs.Machine.Runs
import Mathlib.Algebra.Group.Nat.Defs

/-!
# Interpreted code never computes

The operands of an instruction are digits of its opcode, so each operation always has the same ones.
Since interpretation starts with empty registers, this leaves only three registers that code can ever
fill, and what it can fill them with are integers. Whatever the code, comparisons, array accesses and
arithmetic find an empty register among their operands and fail.
-/
namespace Handset

open Dex (CodeItem Instruction)

namespace Operation

theorem opcode_lt {n : Nat} {op : Operation} (h : ofOpcode? n = some op) : n < 256 := by
  refine Nat.lt_of_not_le fun hn => ?_
  obtain ⟨k, rfl⟩ := Nat.exists_eq_add_of_le' hn
  have hnone : ofOpcode? (k + 256) = none := by with_unfolding_all rfl
  rw [hnone] at h
  cases h

/-- The registers that interpreted code can fill. -/
def fillable : List Nat := [2, 11, 12]

/-- Is there never a number in this register or pair? -/
def idle : Width → Nat → Bool
  | .single, n => !fillable.contains n
  | .wide, n => n != 11

/-- What the operands of the operations are, as far as it decides about what they can write. -/
def confined (op : Operation) (a b c : Nat) : Bool :=
  c == 0 && match op with
  | .newInstance | .newArray | .instanceOf => a == 2
  | .unary width _ => idle width b
  | .extend => a == 11 && idle .single b
  | .convert .single .integer .single => idle .single b || (a == 11 && b == 12)
  | .convert _ .floating .wide => true
  | .convert source _ _ => idle source b
  | .narrow .byte => a == 12
  | .narrow .half => idle .single b
  | .narrow _ | .move _ _ | .moveResult _ | .load _ | .instanceGet _ | .staticGet _ => false
  | _ => true

/-- Comparisons, array accesses and arithmetic with two operands. -/
def computes : Operation → Bool
  | .compare _ _ | .arrayGet _ | .arrayPut _ | .binary _ _ => true
  | _ => false

/-- The opcodes of the operations that compute. -/
def IsComputingOpcode (n : Nat) : Prop :=
  0x2A ≤ n ∧ n ≤ 0x2E ∨ 0x44 ≤ n ∧ n ≤ 0x51 ∨ 0x90 ≤ n ∧ n ≤ 0xAF

theorem exists_of_isComputingOpcode {n : Nat} (h : IsComputingOpcode n) :
    ∃ op, ofOpcode? n = some op ∧ op.computes = true := by
  have htable : ∀ n < 0xB0, (0x2A ≤ n ∧ n ≤ 0x2E ∨ 0x44 ≤ n ∧ n ≤ 0x51 ∨ 0x90 ≤ n ∧ n ≤ 0xAF) →
      (ofOpcode? n).any computes = true := by
    decide +kernel
  exact (Option.any_eq_true _ _).mp (htable n (by unfold IsComputingOpcode at h; omega) h)

theorem confined_of_opcode {op : Operation} {i : Instruction} (h : ofOpcode? i.opcode = some op) :
    op.confined i.a i.b i.c = true := by
  have htable : ∀ n < 256, (ofOpcode? n).all (·.confined (n / 16 % 16) (n % 16) (n / 256 % 16)) := by
    decide +kernel
  have := htable i.opcode (opcode_lt h)
  rwa [h] at this

end Operation

namespace Act

open Step

/-- What register `n` can hold: nothing, an integer if it is 2, a byte if it is 11 or 12. -/
def Holdable (n : Nat) (v : Value) : Prop :=
  v = .none ∨ ∃ k, v = .int k ∧ (n = 2 ∨ (n = 11 ∨ n = 12) ∧ 0 ≤ k ∧ k < 256)

/-- Every register holds what it can hold. -/
def Blank (m : Machine) : Prop :=
  ∀ n v, m.registers[n]? = some v → Holdable n v

theorem heapBlind_blank : HeapBlind Blank := fun _ _ _ _ _ h => h

theorem blank_setRegister {n : Nat} {v : Value} (h : Holdable n v) : Keeps Blank (setRegister n v) := by
  intro m hm
  rw [on_setRegister]
  split
  next hn =>
    intro k w hk
    by_cases hnk : n = k
    · subst hnk
      rw [Array.getElem?_setIfInBounds_self_of_lt hn] at hk
      exact Option.some.inj hk ▸ h
    · rw [Array.getElem?_setIfInBounds_ne hnk] at hk
      exact hm k w hk
  next => exact hm

/-- The faults of an operation that meets an empty or a missing register: it does not take such values,
or the register or an array is not there. Register 2 can hold the number of an object, which is too large
to work with only from `2 ^ 64` binary digits on. -/
inductive Futile (m : Machine) : Fault → Prop where
  | kindMismatch : Futile m .kindMismatch
  | itemOutOfRange : Futile m .itemOutOfRange
  | noArray : Futile m (.refused .noArray)
  | badIndex : Futile m (.refused .badIndex)
  | noService (name : String) : m.services = none → Futile m (.noMember "DalvikVM" name)
  | tooLarge (k : Int) : m.registers[2]? = some (.int k) → 2 ^ 64 ≤ k.natAbs.log2 → Futile m .tooLarge

section Reading

variable {m : Machine}

theorem reads_register (hm : Blank m) (n : Nat) :
    Reads m (register n) (fun v => m.registers[n]? = some v ∧ Holdable n v) (Futile m) := by
  refine ⟨quiet_register n m, ?_⟩
  rw [on_register]
  cases h : m.registers[n]? with
  | none => exact .itemOutOfRange
  | some v => exact ⟨rfl, hm n v h⟩

private theorem shiftUp_word (k : Int) (memory : Memory) :
    (Value.int k).shiftUp (.int 32) memory =
      if k = 0 then .ok (.int 0)
      else if 2305843009213693945 < k.natAbs.log2 / 30 + 3 then .error .tooLarge
      else .ok (.int (Bitwise.up k 32)) := by
  have hplaces := memory.places_ge
  have hroom : (if memory.places < 32 then .error .outOfMemory else .ok (.int (Bitwise.up k 32))) =
      (.ok (.int (Bitwise.up k 32)) : Except Fault Value) := if_neg (by omega)
  rw [← hroom]
  rfl

theorem reads_withMemory {α : Type} {f : Memory → Except Fault α} {Q : α → Prop} {E : Fault → Prop}
    (h : Reads m (lift (f m.memory) : Act α) Q E) : Reads m (withMemory f) Q E :=
  h

theorem reads_shiftUp_word (k : Int) (hk : 2 ^ 64 ≤ k.natAbs.log2 → m.registers[2]? = some (.int k)) :
    Reads m (withMemory ((Value.int k).shiftUp (.int 32))) (fun v => ∃ j, v = .int j) (Futile m) := by
  refine reads_withMemory ?_
  rw [shiftUp_word]
  split
  · exact reads_lift (fun a ha => ⟨0, by cases ha; rfl⟩) (by rintro _ ⟨⟩)
  · split
    next hlarge =>
      refine reads_lift (by rintro _ ⟨⟩) fun e he => ?_
      cases he
      have hsize : 2 ^ 64 ≤ k.natAbs.log2 := by omega
      exact .tooLarge k (hk hsize) hsize
    next => exact reads_lift (fun a ha => ⟨_, by cases ha; rfl⟩) (by rintro _ ⟨⟩)

/-- What fails for reasons of kind is never answered. -/
theorem reads_mismatch {α : Type} {Q : α → Prop} {x : Except Fault α} (h : x = .error .kindMismatch) :
    Reads m (lift x : Act α) Q (Futile m) := by
  subst h
  exact ⟨rfl, .kindMismatch⟩

/-- The only pair of registers that can hold a number is 11 and 12. -/
theorem reads_pair (hm : Blank m) (n : Nat) :
    Reads m (pair n) (fun v => n = 11 ∧ ∃ k, v = .int k) (Futile m) := by
  refine reads_bind (reads_register hm (n + 1)) ?_
  rintro high ⟨hhigh, rfl | ⟨k, rfl, hk⟩⟩
  · exact reads_bind (Q := fun _ => False) (reads_withMemory (reads_mismatch rfl)) fun _ => False.elim
  · refine reads_bind (reads_shiftUp_word k ?_) ?_
    · intro hsize
      rcases hk with hn | ⟨-, hlow, hhigh⟩
      · rwa [← hn]
      · have : k.natAbs.log2 ≤ k.natAbs := Nat.log2_le_self _
        omega
    · rintro _ ⟨j, rfl⟩
      refine reads_bind (reads_register hm n) ?_
      rintro low ⟨-, rfl | ⟨l, rfl, hl⟩⟩
      · exact reads_mismatch rfl
      · exact reads_lift (fun a ha => ⟨by omega, _, by cases ha; rfl⟩) (by rintro _ ⟨⟩)

/-- An operand is empty or an integer, and one that is no operand of interpreted code is empty. -/
theorem reads_load (hm : Blank m) (w : Width) (n : Nat) :
    Reads m (load w n) (fun v => v = .none ∨ n ∈ Operation.fillable ∧ ∃ k, v = .int k)
      (Futile m) := by
  cases w with
  | single =>
    refine (reads_register hm n).mono ?_
    rintro v ⟨-, h | ⟨k, hv, hk⟩⟩
    · exact .inl h
    · refine .inr ⟨?_, k, hv⟩
      rcases hk with rfl | ⟨rfl | rfl, -⟩ <;> decide
  | wide =>
    refine (reads_pair hm n).mono ?_
    rintro v ⟨rfl, hv⟩
    exact .inr ⟨by decide, hv⟩

theorem reads_second (hm : Blank m) (w : Width) : Reads m (load w 0) (· = .none) (Futile m) := by
  refine (reads_load hm w 0).mono ?_
  rintro v (rfl | ⟨h, -⟩)
  · rfl
  · exact absurd h (by decide)

theorem reads_service (name : String) : Reads m (service name) (fun _ => True) (Futile m) := by
  refine ⟨quiet_service name m, ?_⟩
  simp only [service, on_bind, on_get]
  cases h : m.services with
  | some s => trivial
  | none => exact .noService name h

theorem reads_element (array : Value) :
    Reads m (element array .none) (fun _ => False) (Futile m) := by
  refine ⟨quiet_element array .none m, ?_⟩
  simp only [element, on_bind, on_get]
  cases m.array? array with
  | none => exact .noArray
  | some found => exact .badIndex

theorem reads_deliver (hm : Blank m) (kind : Kind) (n : Nat) :
    Reads m (deliver kind n) (fun _ => True) (Futile m) := by
  cases kind with
  | plain => exact (reads_register hm n).mono fun _ _ => trivial
  | wide => exact (reads_pair hm n).mono fun _ _ => trivial
  | boolean | byte | half =>
    refine reads_bind (reads_register hm n) ?_
    rintro _ ⟨-, rfl | ⟨k, rfl, -⟩⟩
    · exact ⟨rfl, .kindMismatch⟩
    · exact ⟨rfl, trivial⟩

theorem refuses_arrayGet (hm : Blank m) (kind : Kind) {i : Instruction} (hc : i.c = 0) :
    Reads m (arrayGet kind i) (fun _ => False) (Futile m) := by
  refine reads_bind (reads_register hm i.b) fun array _ => ?_
  rw [hc]
  refine reads_bind (reads_second hm .single) ?_
  rintro _ rfl
  have harray : Reads m (arrayElement array .none) (fun _ => False) (Futile m) :=
    reads_bind (reads_service _) fun _ _ => reads_bind (reads_element array) fun _ => False.elim
  exact reads_bind harray fun _ => False.elim

theorem refuses_arrayPut (hm : Blank m) (kind : Kind) {i : Instruction} (hc : i.c = 0) :
    Reads m (arrayPut kind i) (fun _ => False) (Futile m) := by
  refine reads_bind (reads_register hm i.b) fun array _ => ?_
  rw [hc]
  refine reads_bind (reads_second hm .single) ?_
  rintro _ rfl
  refine reads_bind (reads_deliver hm kind i.a) fun v _ => ?_
  have harray : Reads m (setArrayElement array .none v) (fun _ => False) (Futile m) :=
    reads_bind (reads_service _) fun _ _ => reads_bind (reads_element array) fun _ => False.elim
  exact reads_bind harray fun _ => False.elim

theorem refuses_compare (hm : Blank m) (width : Width) (inverted : Bool) {i : Instruction}
    (hc : i.c = 0) : Reads m (compare width inverted i) (fun _ => False) (Futile m) := by
  refine reads_bind (reads_load hm width i.b) fun v hv => ?_
  rw [hc]
  refine reads_bind (reads_second hm width) ?_
  rintro _ rfl
  refine reads_bind (Q := fun _ => False) (reads_mismatch ?_) fun _ => False.elim
  rcases hv with rfl | ⟨-, k, rfl⟩ <;> cases inverted <;> rfl

theorem refuses_binary (hm : Blank m) (width : Width) (op : BinaryOp) {i : Instruction}
    (hc : i.c = 0) : Reads m (binary width op i) (fun _ => False) (Futile m) := by
  refine reads_bind (reads_load hm width i.b) fun v hv => ?_
  rw [hc]
  refine reads_bind (reads_second hm _) ?_
  rintro _ rfl
  have heval : BinaryOp.eval op width v .none m.memory = .error .kindMismatch := by
    rcases hv with rfl | ⟨-, k, rfl⟩ <;> cases op <;> cases width <;> rfl
  have hzero : (BinaryOp.isDivision op && Value.same .none (.int 0)) = false := by
    cases op <;> rfl
  simp only [hzero, Bool.false_eq_true, if_false]
  exact reads_bind (Q := fun _ => False) (reads_withMemory (reads_mismatch heval)) fun _ => False.elim

end Reading

section Invariant

variable (pools : Pools) {op : Operation} {i : Instruction}

theorem yields_register (n : Nat) : Yields Blank (register n) (Holdable n) :=
  fun _ hm => ((reads_register hm n).mono fun _ h => h.2).yields

theorem yields_load (w : Width) (n : Nat) :
    Yields Blank (load w n) fun v => v = .none ∨ n ∈ Operation.fillable ∧ ∃ k, v = .int k :=
  fun _ hm => (reads_load hm w n).yields

theorem yields_pair (n : Nat) : Yields Blank (pair n) fun v => n = 11 ∧ ∃ k, v = .int k :=
  fun _ hm => (reads_pair hm n).yields

/-- Operations without a register to write leave the registers as they are. -/
theorem blank_of_not_writes (h : ∀ n, ¬ op.Writes i n) : Keeps Blank (perform pools op i) :=
  Robust.perform pools <| heapBlind_blank.robust (fun n _ hn => absurd hn (h n))
    (fun _ _ => keeps_modify fun _ hm => hm) (fun _ _ hm => hm) fun _ _ hm => hm

theorem blank_of_refuses {act : Act Unit}
    (h : ∀ m, Blank m → Reads m act (fun _ => False) (Futile m)) : Keeps Blank act := by
  intro m hm
  rwa [(h m hm).1]

theorem blank_advance (distance : Int) : Keeps Blank (advance distance) :=
  keeps_modify fun _ hm => hm

theorem blank_newInstance (ha : i.a = 2) : Keeps Blank (newInstance pools i) := by
  refine keeps_bind (quiet_operand _ _ _).keeps fun _ => keeps_bind (quiet_lift _).keeps fun _ => ?_
  refine keeps_bind (heapBlind_blank.createObject _) fun id => ?_
  refine keeps_bind (blank_setRegister (.inr ⟨id, rfl, .inl ha⟩)) fun _ => ?_
  exact keeps_bind (quiet_lift _).keeps fun _ => keeps_bind (heapBlind_blank.report _ _) fun _ =>
    blank_advance _

theorem blank_newArray (ha : i.a = 2) : Keeps Blank (newArray pools i) := by
  refine keeps_bind (quiet_operand _ _ _).keeps fun _ => keeps_bind (quiet_register _).keeps fun _ => ?_
  refine keeps_bind (quiet_lift _).keeps fun _ =>
    keeps_bind (heapBlind_blank.createArray _ _) fun id => ?_
  exact keeps_bind (blank_setRegister (.inr ⟨id, rfl, .inl ha⟩)) fun _ => blank_advance _

theorem blank_instanceOf (ha : i.a = 2) : Keeps Blank (instanceOf pools i) := by
  refine keeps_bind (quiet_operand _ _ _).keeps fun _ => keeps_bind (quiet_lift _).keeps fun _ => ?_
  refine keeps_bind (quiet_register _).keeps fun _ => keeps_bind (quiet_typeOf _).keeps fun _ => ?_
  exact keeps_bind (blank_setRegister (.inr ⟨_, rfl, .inl ha⟩)) fun _ => blank_advance _

theorem yields_idle {w : Width} {n : Nat} (h : Operation.idle w n = true) :
    Yields Blank (load w n) (· = .none) := by
  cases w with
  | single =>
    intro m hm v hv
    rcases yields_load .single n m hm v hv with hnone | ⟨hn, -⟩
    · exact hnone
    · simp [Operation.idle, hn] at h
  | wide =>
    intro m hm v hv
    obtain ⟨rfl, -⟩ := yields_pair n m hm v hv
    cases h

/-- What comes after a failure keeps everything. -/
theorem keeps_of_mismatch {α : Type} {x : Except Fault α} {f : α → Act Unit}
    (hx : x = .error .kindMismatch) : Keeps Blank (do f (← lift x)) := by
  subst hx
  exact fun m hm => hm

theorem blank_of_idle {α : Type} {w : Width} {n : Nat} {x : Value → Except Fault α} {f : α → Act Unit}
    (h : Operation.idle w n = true) (hx : x .none = .error .kindMismatch) :
    Keeps Blank (do f (← lift (x (← load w n)))) := by
  refine keeps_bind_of_yields (quiet_load w n).keeps (yields_idle h) ?_
  rintro _ rfl
  exact keeps_of_mismatch hx

theorem blank_unary {width : Width} (op : UnaryOp) (h : Operation.idle width i.b = true) :
    Keeps Blank (unary width op i) := by
  refine blank_of_idle h ?_
  cases op <;> rfl

theorem blank_extend (ha : i.a = 11) (h : Operation.idle .single i.b = true) :
    Keeps Blank (perform pools .extend i) := by
  refine keeps_bind_of_yields (quiet_register _).keeps (yields_idle (w := .single) h) ?_
  rintro _ rfl
  refine keeps_bind (blank_setRegister (.inl rfl)) fun _ => keeps_bind (blank_setRegister ?_) fun _ =>
    blank_advance _
  exact .inr ⟨0, rfl, .inr ⟨.inr (by omega), by decide, by decide⟩⟩

theorem blank_convert_idle {source : Width} (kind : NumberKind) (target : Width)
    (h : Operation.idle source i.b = true) : Keeps Blank (convert source kind target i) := by
  refine blank_of_idle h ?_
  cases kind <;> rfl

theorem blank_convert_wide_double (source : Width) : Keeps Blank (convert source .floating .wide i) := by
  refine keeps_bind (quiet_load _ _).keeps fun v => ?_
  refine keeps_bind_of_yields (quiet_lift _).keeps (yields_lift (Q := fun r => ∃ d, r = .double d) ?_) ?_
  · intro r hr
    cases hd : v.toDouble with
    | ok d => exact ⟨d, by simpa [NumberKind.convert, hd, Except.map] using hr.symm⟩
    | error e => simp [NumberKind.convert, hd, Except.map] at hr
  · rintro _ ⟨d, rfl⟩
    exact keeps_bind (keeps_of_mismatch rfl) fun _ => blank_advance _

theorem blank_convert_byte (ha : i.a = 11) (hb : i.b = 12) :
    Keeps Blank (convert .single .integer .single i) := by
  refine keeps_bind_of_yields (quiet_register _).keeps (yields_register i.b) ?_
  rintro _ (rfl | ⟨k, rfl, hk⟩)
  · exact keeps_of_mismatch rfl
  · have hbyte : 0 ≤ k ∧ k < 256 := by omega
    change Keeps Blank (do setRegister i.a (.int k); advance 1)
    exact keeps_bind (blank_setRegister (.inr ⟨k, rfl, .inr ⟨.inl ha, hbyte⟩⟩)) fun _ => blank_advance _

theorem blank_convert {source target : Width} {kind : NumberKind} {c : Nat}
    (h : (Operation.convert source kind target).confined i.a i.b c = true) :
    Keeps Blank (convert source kind target i) := by
  simp only [Operation.confined, Bool.and_eq_true] at h
  obtain ⟨-, h⟩ := h
  cases kind with
  | floating =>
    cases target with
    | wide => exact blank_convert_wide_double source
    | single => cases source <;> exact blank_convert_idle .floating .single h
  | integer =>
    cases target with
    | wide => cases source <;> exact blank_convert_idle .integer .wide h
    | single =>
      cases source with
      | wide => exact blank_convert_idle .integer .single h
      | single =>
        rcases Bool.or_eq_true_iff.mp h with hidle | hbyte
        · exact blank_convert_idle .integer .single hidle
        · obtain ⟨ha, hb⟩ := Bool.and_eq_true_iff.mp hbyte
          exact blank_convert_byte (eq_of_beq ha) (eq_of_beq hb)

theorem both_byte (k : Int) : 0 ≤ Bitwise.both k 0xFF ∧ Bitwise.both k 0xFF < 256 := by
  cases k with
  | ofNat m =>
    have : m &&& 255 ≤ 255 := Nat.and_le_right
    simp only [Bitwise.both]
    omega
  | negSucc m =>
    have hand : 255 &&& m < 2 ^ 8 := Nat.lt_of_le_of_lt Nat.and_le_left (by decide)
    have : 255 ^^^ (255 &&& m) < 2 ^ 8 := Nat.xor_lt_two_pow (by decide) hand
    simp only [Bitwise.both, Bitwise.without]
    omega

theorem blank_narrow_byte (ha : i.a = 12) : Keeps Blank (narrow .byte i) := by
  refine keeps_bind_of_yields (quiet_register _).keeps (yields_register i.b) ?_
  rintro _ (rfl | ⟨k, rfl, -⟩)
  · exact keeps_bind (keeps_of_mismatch rfl) fun _ => blank_advance _
  · exact keeps_bind (blank_setRegister (.inr ⟨_, rfl, .inr ⟨.inr ha, both_byte k⟩⟩)) fun _ =>
      blank_advance _

theorem blank_narrow_half (h : Operation.idle .single i.b = true) : Keeps Blank (narrow .half i) := by
  refine keeps_bind_of_yields (quiet_register _).keeps (yields_idle (w := .single) h) ?_
  rintro _ rfl
  exact keeps_bind (keeps_of_mismatch rfl) fun _ => blank_advance _

theorem blank_perform (h : Operation.ofOpcode? i.opcode = some op) :
    Keeps Blank (perform pools op i) := by
  have hconfined := Operation.confined_of_opcode h
  obtain ⟨hc, hop⟩ := Bool.and_eq_true_iff.mp hconfined
  replace hc : i.c = 0 := eq_of_beq hc
  cases op with
  | move | moveResult | load | instanceGet | staticGet => cases hop
  | newInstance => exact blank_newInstance pools (eq_of_beq hop)
  | newArray => exact blank_newArray pools (eq_of_beq hop)
  | instanceOf => exact blank_instanceOf pools (eq_of_beq hop)
  | arrayGet kind => exact blank_of_refuses fun m hm => refuses_arrayGet hm kind hc
  | compare width inverted => exact blank_of_refuses fun m hm => refuses_compare hm width inverted hc
  | binary width op => exact blank_of_refuses fun m hm => refuses_binary hm width op hc
  | unary width op => exact blank_unary op hop
  | extend =>
    obtain ⟨ha, hb⟩ := Bool.and_eq_true_iff.mp hop
    exact blank_extend pools (eq_of_beq ha) hb
  | convert source kind target => exact blank_convert hconfined
  | narrow kind =>
    cases kind with
    | byte => exact blank_narrow_byte (eq_of_beq hop)
    | half => exact blank_narrow_half hop
    | plain | wide | boolean => cases hop
  | _ => exact blank_of_not_writes pools fun _ hn => hn

theorem blank_dispatch (i : Instruction) : Keeps Blank (dispatch pools i) := by
  unfold dispatch
  split
  next op hop => exact keeps_bind (heapBlind_blank.report _ _) fun _ => blank_perform pools hop
  next => exact keeps_bind (heapBlind_blank.report _ _) fun _ => blank_advance _

theorem blank_step (code : CodeItem) : Keeps Blank (step pools code) :=
  keeps_step heapBlind_blank (fun _ _ hm => hm) fun i _ => blank_dispatch pools i

theorem blank_settle (code : CodeItem) : Keeps Blank (settle code) :=
  keeps_settle heapBlind_blank fun _ _ _ hm => hm

theorem refuses_perform {m : Machine} (hm : Blank m) (h : Operation.ofOpcode? i.opcode = some op)
    (hop : op.computes = true) : Reads m (perform pools op i) (fun _ => False) (Futile m) := by
  have hc : i.c = 0 := eq_of_beq (Bool.and_eq_true_iff.mp (Operation.confined_of_opcode h)).1
  cases op with
  | compare width inverted => exact refuses_compare hm width inverted hc
  | arrayGet kind => exact refuses_arrayGet hm kind hc
  | arrayPut kind => exact refuses_arrayPut hm kind hc
  | binary width op => exact refuses_binary hm width op hc
  | _ => cases hop

theorem Futile.congr {m s : Machine} {f : Fault} (h : Futile s f)
    (hregisters : s.registers = m.registers) (hservices : s.services = m.services) : Futile m f := by
  cases h with
  | kindMismatch => exact .kindMismatch
  | itemOutOfRange => exact .itemOutOfRange
  | noArray => exact .noArray
  | badIndex => exact .badIndex
  | noService name hnone => exact .noService name (hservices ▸ hnone)
  | tooLarge k hk hsize => exact .tooLarge k (hregisters ▸ hk) hsize

/-- Where the registers are blank, an instruction that computes fails and writes only to the log. -/
theorem refuses_dispatch {m : Machine} (hm : Blank m) (h : Operation.IsComputingOpcode i.opcode) :
    ∃ fault log, Futile m fault ∧ (dispatch pools i).on m = (.error fault, { m with log }) := by
  obtain ⟨op, hop, hcomputes⟩ := Operation.exists_of_isComputingOpcode h
  have hdispatch : ∃ log, (dispatch pools i).on m = (perform pools op i).on { m with log } := by
    simp only [dispatch, hop]
    exact ⟨_, rfl⟩
  obtain ⟨log, hlog⟩ := hdispatch
  have hlogged : Blank { m with log } := hm
  obtain ⟨hstate, hanswer⟩ := refuses_perform pools hlogged hop hcomputes
  rcases hperform : (perform pools op i).on { m with log } with ⟨outcome, t⟩
  rw [hperform] at hstate hanswer
  cases outcome with
  | ok _ => exact hanswer.elim
  | error fault =>
    refine ⟨fault, log, ?_, ?_⟩
    · exact Futile.congr (s := { m with log }) hanswer rfl rfl
    · rw [hlog, hperform]
      exact congrArg _ hstate

end Invariant

/-- The machine as interpretation sets it up for a method's code. -/
def prepared (m : Machine) (code : CodeItem) (log : Log) : Machine :=
  { m with
    registers := Array.replicate code.registersSize .none
    registersReady := true
    registersInstead := none
    pc := 0
    pending := .none
    log }

theorem blank_prepared (m : Machine) (code : CodeItem) (log : Log) : Blank (prepared m code log) := by
  intro n v hv
  have hv : (Array.replicate code.registersSize Value.none)[n]? = some v := hv
  rw [Array.getElem?_replicate] at hv
  split at hv
  · exact .inl (Option.some.inj hv).symm
  · cases hv

/-- The method has this code: it stands under the method's offset, which is not zero. -/
def HasCode (code? : Key → Option CodeItem) (c : Callee) (code : CodeItem) : Prop :=
  ∃ offset key, c.codeOffset = .ok offset ∧ offset.same (.int 0) = false ∧ offset.key = .ok key ∧
    code? key = some code

/-- Interpretation sets up the machine, writes the method's name to the log and runs the code. -/
theorem on_interpret (pools : Pools) {code? : Key → Option CodeItem} {c : Callee} {code : CodeItem}
    (h : HasCode code? c code) (m : Machine) :
    ∃ log, (interpret pools code? c).on m = match c.id with
      | .ok _ => (execute pools code).on (prepared m code log)
      | .error e => (.error e, prepared m code m.log) := by
  obtain ⟨offset, key, hoffset, hsome, hkey, hcode⟩ := h
  simp only [interpret, on_bind, hoffset, on_lift, hsome, Bool.false_eq_true, if_false, hkey, hcode,
    on_modify]
  cases c.id with
  | ok id => exact ⟨_, rfl⟩
  | error e => exact ⟨m.log, rfl⟩

theorem Blank.holds {m : Machine} (hm : Blank m) (n : Nat) (v : Value) (hv : m.registers[n]? = some v) :
    v = .none ∨ n ∈ [2, 11, 12] ∧ ∃ k, v = .int k := by
  rcases hm n v hv with hnone | ⟨k, hk, hn⟩
  · exact .inl hnone
  · refine .inr ⟨?_, k, hk⟩
    simp only [List.mem_cons, List.not_mem_nil, or_false]
    omega

/-- Whatever code a method has, in every state that its interpretation reaches all registers are empty
but 2, 11 and 12, which can hold integers. So no comparison, array access or arithmetic ever succeeds:
it fails, and nothing changes but the log. -/
theorem interpret_never_computes (pools : Pools) {code? : Key → Option CodeItem} {c : Callee}
    {code : CodeItem} (h : HasCode code? c code) (m : Machine) :
    (∀ n v, ((interpret pools code? c).on m).2.registers[n]? = some v →
      v = .none ∨ n ∈ [2, 11, 12] ∧ ∃ k, v = .int k) ∧
    (∃ log, (interpret pools code? c).on m = match c.id with
      | .ok _ => (execute pools code).on (prepared m code log)
      | .error e => (.error e, prepared m code m.log)) ∧
    ∀ log s, Visits pools code (prepared m code log) s →
      (∀ n v, s.registers[n]? = some v → v = .none ∨ n ∈ [2, 11, 12] ∧ ∃ k, v = .int k) ∧
      ∀ i, fetch code.instructions s.pc = .ok i → Operation.IsComputingOpcode i.opcode →
        ∀ allowance, ∃ fault log, Futile s fault ∧
          (dispatch pools i).on { s with allowance } = (.error fault, { s with allowance, log }) := by
  refine ⟨?_, on_interpret pools h m, ?_⟩
  · obtain ⟨log, hinterpret⟩ := on_interpret pools h m
    rw [hinterpret]
    cases c.id with
    | ok id =>
      exact (keeps_execute (blank_settle code) (blank_step pools code) _
        (blank_prepared m code log)).holds
    | error e => exact (blank_prepared m code m.log).holds
  · intro log s hs
    have hblank : Blank s := hs.of_keeps (blank_settle code) (blank_step pools code)
      (blank_prepared m code log)
    refine ⟨hblank.holds, fun i _ hi allowance => ?_⟩
    have hspent : Blank { s with allowance } := hblank
    obtain ⟨fault, log, hfutile, hdispatch⟩ := refuses_dispatch pools hspent hi
    exact ⟨fault, log, hfutile.congr rfl rfl, hdispatch⟩

/-- Fills registers 11 and 12 and then tries to add. -/
def addingCode : CodeItem where
  registersSize := 13
  insSize := 0
  outsSize := 0
  triesSize := 0
  instructions := #[⟨0xB6, 0, 0⟩, ⟨0xBC, 0, 2⟩, ⟨0x9B, 0, 4⟩]
  tries := #[]

/-- A method with a code offset. -/
def addingMethod : Callee :=
  ⟨.object [("class_name", .text "LA;"), ("name", .text "main"), ("code_off", .int 1)]⟩

/-- The third instruction adds to the pair of registers 11 and 12, and fails. -/
theorem interpret_addingMethod :
    HasCode (fun _ => some addingCode) addingMethod addingCode ∧
    ∃ s i, Visits {} addingCode (prepared {} addingCode #[]) s ∧ s.registers[11]? = some (.int 0) ∧
      fetch addingCode.instructions s.pc = .ok i ∧ Operation.IsComputingOpcode i.opcode ∧
      ∃ fault log, Futile s fault ∧ (dispatch {} i).on s = (.error fault, { s with log }) := by
  have hcode : HasCode (fun _ => some addingCode) addingMethod addingCode :=
    ⟨.int 1, .int 1, rfl, rfl, rfl, rfl⟩
  have hfirst : Visits {} addingCode (prepared {} addingCode #[]) _ := .first rfl
  have hthird := (hfirst.next rfl rfl).next rfl rfl
  refine ⟨hcode, _, _, hthird, rfl, rfl, ?_, ?_⟩
  · exact .inr (.inr ⟨by decide, by decide⟩)
  · exact ((interpret_never_computes {} hcode {}).2.2 #[] _ hthird).2 _ rfl
      (.inr (.inr ⟨by decide, by decide⟩)) _

end Act

end Handset
