import Handset.Proofs.Dex.Blocks
import Handset.Proofs.Machine.Footprint
import Handset.Proofs.Number.Rationals
import Handset.Proofs.Number.Words

/-!
# The two kinds of switch

A switch looks for its key in a table of the code bytes. A packed table has the first of its keys, which
follow each other, and their targets in a row; a sparse table has each key beside its target. Both are
searched from the beginning, and a value of any kind equals at most one of the keys, so two tables with the
same keys and targets lead to the same place: the target of the key, or behind the operand if there is none.
-/
namespace Handset

namespace Value

variable {v : Value} {n k : Int}

/-- The value is a number, of either kind or a truth value, and this integer is what it stands for. -/
def Equals (v : Value) (n : Int) : Prop :=
  ∃ c, v.num? = some c ∧ c.isFinite = true ∧ c.value = n

theorem Equals.unique (h : v.Equals n) (h' : v.Equals k) : n = k := by
  obtain ⟨c, hc, -, hn⟩ := h
  obtain ⟨c', hc', -, hk⟩ := h'
  cases hc.symm.trans hc'
  exact Int.cast_injective (hn.symm.trans hk)

theorem same_int_iff (v : Value) (n : Int) : same v (.int n) = true ↔ v.Equals n := by
  have hnum {c : Num} (hv : v.num? = some c) : c.eq (.int n) = true ↔ v.Equals n := by
    rw [Num.eq_int_iff]
    constructor
    · exact fun h => ⟨c, hv, h⟩
    · rintro ⟨c', hc', h⟩
      cases hv.symm.trans hc'
      exact h
  have hnone (hv : v.num? = Option.none) : ¬v.Equals n := by
    rintro ⟨c, hc, -⟩
    cases hv.symm.trans hc
  cases v with
  | bool b => exact hnum rfl
  | int i => exact hnum rfl
  | double d => exact hnum rfl
  | _ => exact iff_of_false Bool.false_ne_true (hnone rfl)

end Value

namespace Bytes

/-- The word stands in the data at this offset. -/
def HoldsWord (d : Bytes) (offset n : Nat) : Prop :=
  n < 2 ^ 32 ∧ Holds d offset (littleEndian 4 n)

/-- The word stands in the data at this offset, in two's complement. -/
def HoldsSigned (d : Bytes) (offset : Nat) (t : Int) : Prop :=
  Bitwise.Within 31 t ∧ Holds d offset (littleEndian 4 (t % 2 ^ 32).toNat)

instance (d : Bytes) (offset n : Nat) : Decidable (HoldsWord d offset n) :=
  inferInstanceAs (Decidable (_ ∧ _))

instance (d : Bytes) (offset : Nat) (t : Int) : Decidable (HoldsSigned d offset t) :=
  inferInstanceAs (Decidable (_ ∧ _))

variable {d : Bytes} {o n : Nat} {t : Int}

theorem HoldsWord.word (h : HoldsWord d o n) : Dex.word d 4 o = .ok n :=
  Dex.word_of_holds h.2 h.1

theorem signed_emod (h : Bitwise.Within 31 t) : signed 4 (t % 2 ^ 32).toNat = t := by
  obtain ⟨hlow, hhigh⟩ := h
  unfold signed
  simp only [Nat.shiftLeft_eq, Nat.one_mul]
  split <;> omega

theorem HoldsSigned.signedWord (h : HoldsSigned d o t) : Dex.signedWord d 4 o = .ok t := by
  have hrange : (t % 2 ^ 32).toNat < 256 ^ 4 := by omega
  rw [Dex.signedWord, Dex.word_of_holds h.2 hrange]
  exact congrArg Except.ok (signed_emod h.1)

/-- A complete table of targets for consecutive keys. -/
structure PackedTable (d : Bytes) (place first : Nat) (targets : List Int) : Prop where
  first : HoldsWord d place first
  size : HoldsWord d (place + 4) targets.length
  targets : ∀ k t, targets[k]? = some t → HoldsSigned d (place + 8 + 4 * k) t

/-- A complete table of pairs of a key and a target. -/
structure SparseTable (d : Bytes) (place : Nat) (entries : List (Nat × Int)) : Prop where
  size : HoldsWord d place entries.length
  keys : ∀ k key t, entries[k]? = some (key, t) → HoldsWord d (place + 4 + 8 * k) key
  targets : ∀ k key t, entries[k]? = some (key, t) → HoldsSigned d (place + 8 + 8 * k) t

end Bytes

/-- The targets with their keys, which follow each other from `first` on. -/
def keyed (first : Nat) (targets : List Int) : List (Nat × Int) :=
  (targets.zipIdx first).map fun (t, key) => (key, t)

namespace Act

open Step

open Bytes (PackedTable SparseTable HoldsWord HoldsSigned)

open Dex (Instruction)

variable {m : Machine} {s : Services} {v : Value}

/-- The target of the first key that equals the value, or the distance to the next instruction. -/
def scan (v : Value) : List (Nat × Int) → Int
  | [] => 4
  | (key, t) :: rest => if Value.same v (.int key) then t else scan v rest

theorem on_codeWord (hs : m.services = some s) {place n : Nat} (h : HoldsWord s.code place n) :
    (codeWord place).on m = (.ok n, m) := by
  rw [codeWord, on_bind_ok (on_service hs _), on_lift, h.word]

theorem on_signedCodeWord (hs : m.services = some s) {place : Nat} {t : Int}
    (h : HoldsSigned s.code place t) : (signedCodeWord place).on m = (.ok t, m) := by
  rw [signedCodeWord, on_bind_ok (on_service hs _), on_lift, h.signedWord]

/-- The search through a packed table goes from key to key and from target to target. -/
theorem on_packedTarget (hs : m.services = some s) (targets : List Int) (key place : Nat)
    (h : ∀ k t, targets[k]? = some t → HoldsSigned s.code (place + 4 * k) t) :
    (packedTarget v targets.length key place).on m = (.ok (scan v (keyed key targets)), m) := by
  induction targets generalizing key place with
  | nil => rfl
  | cons t rest ih =>
    have htarget : HoldsSigned s.code place t := h 0 t rfl
    have hrest (k : Nat) (u : Int) (hu : rest[k]? = some u) : HoldsSigned s.code (place + 4 + 4 * k) u := by
      have hplace : place + 4 + 4 * k = place + 4 * (k + 1) := by omega
      rw [hplace]
      exact h (k + 1) u hu
    rw [List.length_cons, packedTarget, on_bind_ok (on_signedCodeWord hs htarget)]
    simp only [keyed, List.zipIdx_cons, List.map_cons, scan]
    split
    · rfl
    · exact ih (key + 1) (place + 4) hrest

theorem on_sparseTarget (hs : m.services = some s) (entries : List (Nat × Int)) (place : Nat)
    (hkeys : ∀ k key t, entries[k]? = some (key, t) → HoldsWord s.code (place + 8 * k) key)
    (htargets : ∀ k key t, entries[k]? = some (key, t) → HoldsSigned s.code (place + 4 + 8 * k) t) :
    (sparseTarget v entries.length place).on m = (.ok (scan v entries), m) := by
  induction entries generalizing place with
  | nil => rfl
  | cons entry rest ih =>
    obtain ⟨key, t⟩ := entry
    have hkey : HoldsWord s.code place key := hkeys 0 key t rfl
    have htarget : HoldsSigned s.code (place + 4) t := htargets 0 key t rfl
    rw [List.length_cons, sparseTarget, on_bind_ok (on_codeWord hs hkey),
      on_bind_ok (on_signedCodeWord hs htarget), scan]
    split
    · rfl
    · apply ih
      · intro k key' u hu
        have hplace : place + 8 + 8 * k = place + 8 * (k + 1) := by omega
        rw [hplace]
        exact hkeys (k + 1) key' u hu
      · intro k key' u hu
        have hplace : place + 8 + 4 + 8 * k = place + 4 + 8 * (k + 1) := by omega
        rw [hplace]
        exact htargets (k + 1) key' u hu

theorem on_packedSwitch (pools : Pools) (hs : m.services = some s) {i : Instruction} {place first : Nat}
    {targets : List Int} (hv : m.registers[i.a]? = some v)
    (hplace : Dex.word s.code 4 (i.offset + 1) = .ok place) (h : PackedTable s.code place first targets) :
    (perform pools .packedSwitch i).on m =
      (.ok (), { m with pc := m.pc + scan v (keyed first targets) }) := by
  rw [perform, packedSwitch, on_bind_ok (on_register_of_some hv), on_bind_ok (on_operand hs hplace),
    on_bind_ok (on_codeWord hs h.first), on_bind_ok (on_codeWord hs h.size),
    on_bind_ok (on_packedTarget hs targets first _ h.targets)]
  rfl

theorem on_sparseSwitch (pools : Pools) (hs : m.services = some s) {i : Instruction} {place : Nat}
    {entries : List (Nat × Int)} (hv : m.registers[i.a]? = some v)
    (hplace : Dex.word s.code 4 (i.offset + 1) = .ok place) (h : SparseTable s.code place entries) :
    (perform pools .sparseSwitch i).on m = (.ok (), { m with pc := m.pc + scan v entries }) := by
  rw [perform, sparseSwitch, on_bind_ok (on_register_of_some hv), on_bind_ok (on_operand hs hplace),
    on_bind_ok (on_codeWord hs h.size), on_bind_ok (on_sparseTarget hs entries _ h.keys h.targets)]
  rfl

/-- Among consecutive keys the search finds the one that the value equals. -/
theorem scan_keyed (first k : Nat) {targets : List Int} {t : Int} (ht : targets[k]? = some t)
    (hv : v.Equals (first + k : Nat)) : scan v (keyed first targets) = t := by
  induction targets generalizing first k with
  | nil => cases ht
  | cons u rest ih =>
    simp only [keyed, List.zipIdx_cons, List.map_cons, scan]
    split
    next hsame =>
      have hkey := hv.unique ((Value.same_int_iff v first).mp hsame)
      obtain rfl : k = 0 := by omega
      exact Option.some.inj ht
    next hother =>
      cases k with
      | zero => exact absurd ((Value.same_int_iff v first).mpr hv) hother
      | succ k =>
        have hnext : first + (k + 1) = first + 1 + k := by omega
        rw [hnext] at hv
        exact ih (first + 1) k ht hv

theorem scan_keyed_of_none (first : Nat) {targets : List Int}
    (hv : ∀ k < targets.length, ¬v.Equals (first + k : Nat)) : scan v (keyed first targets) = 4 := by
  induction targets generalizing first with
  | nil => rfl
  | cons u rest ih =>
    simp only [keyed, List.zipIdx_cons, List.map_cons, scan]
    have hfirst : ¬Value.same v (.int first) = true := by
      rw [Value.same_int_iff]
      exact hv 0 (Nat.succ_pos _)
    rw [if_neg hfirst]
    refine ih (first + 1) fun k hk => ?_
    have hnext : first + 1 + k = first + (k + 1) := by omega
    rw [hnext]
    exact hv (k + 1) (Nat.succ_lt_succ hk)

/-- A packed and a sparse switch whose tables have the same consecutive keys with the same targets do the
same with every value: they move the program counter, by the target of the key that the value equals or by 4
if it equals none, and change nothing else. -/
theorem switches_agree (pools : Pools) (i j : Instruction) (m : Machine) (s : Services) (v : Value)
    (place place' first : Nat) (targets : List Int) (hs : m.services = some s)
    (hi : m.registers[i.a]? = some v) (hj : m.registers[j.a]? = some v)
    (hplace : Dex.word s.code 4 (i.offset + 1) = .ok place)
    (hplace' : Dex.word s.code 4 (j.offset + 1) = .ok place')
    (hpacked : PackedTable s.code place first targets)
    (hsparse : SparseTable s.code place' (keyed first targets)) :
    ∃ d : Int,
      (perform pools .packedSwitch i).on m = (.ok (), { m with pc := m.pc + d }) ∧
      (perform pools .sparseSwitch j).on m = (.ok (), { m with pc := m.pc + d }) ∧
      (∀ k t, targets[k]? = some t → v.Equals (first + k : Nat) → d = t) ∧
      ((∀ k < targets.length, ¬v.Equals (first + k : Nat)) → d = 4) :=
  ⟨scan v (keyed first targets), on_packedSwitch pools hs hi hplace hpacked,
    on_sparseSwitch pools hs hj hplace' hsparse, fun k _ ht hv => scan_keyed first k ht hv,
    fun hv => scan_keyed_of_none first hv⟩

/-- Two switches with their tables, packed at 16 and sparse at 36, for the keys 5 and 6. -/
def switchingCode : Bytes :=
  #[0x3E, 16, 0, 0, 0, 0, 0, 0, 0x3F, 36, 0, 0, 0, 0, 0, 0]
    ++ #[5, 0, 0, 0, 2, 0, 0, 0, 7, 0, 0, 0, 0xFD, 0xFF, 0xFF, 0xFF, 0, 0, 0, 0]
    ++ #[2, 0, 0, 0, 5, 0, 0, 0, 7, 0, 0, 0, 6, 0, 0, 0, 0xFD, 0xFF, 0xFF, 0xFF]

/-- A machine whose key is the double 6. -/
def switchingMachine : Machine where
  registers := #[.none, .none, .none, .double ⟨0x4018000000000000⟩]
  pc := 10
  services := some { code := switchingCode }

theorem switchingCode_packed : PackedTable switchingCode 16 5 [7, -3] where
  first := by decide
  size := by decide
  targets k t ht := by
    rcases k with _ | _ | k
    · cases ht; decide
    · cases ht; decide
    · cases ht

theorem switchingCode_sparse : SparseTable switchingCode 36 (keyed 5 [7, -3]) where
  size := by decide
  keys k key t ht := by
    rcases k with _ | _ | k
    · cases ht; decide
    · cases ht; decide
    · cases ht
  targets k key t ht := by
    rcases k with _ | _ | k
    · cases ht; decide
    · cases ht; decide
    · cases ht

/-- The double 6 equals the second key, whose target is three places back. -/
theorem switches_of_switchingMachine_agree :
    PackedTable switchingCode 16 5 [7, -3] ∧ SparseTable switchingCode 36 (keyed 5 [7, -3]) ∧
    (perform {} .packedSwitch ⟨0x3E, 0, 0⟩).on switchingMachine =
      (.ok (), { switchingMachine with pc := 7 }) ∧
    (perform {} .sparseSwitch ⟨0x3F, 0, 8⟩).on switchingMachine =
      (.ok (), { switchingMachine with pc := 7 }) := by
  have hkey : (Value.double ⟨0x4018000000000000⟩).Equals (5 + 1 : Nat) :=
    (Value.same_int_iff _ _).mp (by decide +kernel)
  obtain ⟨d, hpacked, hsparse, hfound, -⟩ := switches_agree {} ⟨0x3E, 0, 0⟩ ⟨0x3F, 0, 8⟩ switchingMachine
    { code := switchingCode } (.double ⟨0x4018000000000000⟩) 16 36 5 [7, -3] rfl rfl rfl
    (eq_ok_of_toOption (by decide +kernel)) (eq_ok_of_toOption (by decide +kernel)) switchingCode_packed
    switchingCode_sparse
  obtain rfl : d = -3 := hfound 1 (-3) rfl hkey
  exact ⟨switchingCode_packed, switchingCode_sparse, hpacked, hsparse⟩

end Act

end Handset
