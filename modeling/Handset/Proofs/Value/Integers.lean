import Handset.Value.Arithmetic
import Handset.Value.Key
import Mathlib.Algebra.Group.Nat.Defs

/-!
# Integers among the values

A truth value counts as an integer in sums, differences and messages. Messages can show every integer of
a thousand bits, so a number that fits a signed word is never the reason for a failure.
-/
namespace Handset.Value

theorem add_of_int? {v : Value} {n : Int} (h : v.int? = some n) (i : Int) :
    (int i).add v = .ok (int (i + n)) := by
  cases v with
  | bool b => cases h; rfl
  | int j => cases h; rfl
  | _ => cases h

theorem sub_of_int? {v : Value} {n : Int} (h : v.int? = some n) (i : Int) :
    (int i).sub v = .ok (int (i - n)) := by
  cases v with
  | bool b => cases h; rfl
  | int j => cases h; rfl
  | _ => cases h

theorem written_of_int? {v : Value} {n : Int} (h : v.int? = some n) (hn : n.natAbs.log2 < 1000) :
    v.written = .ok v.display := by
  cases v with
  | bool b => rfl
  | int i =>
    obtain rfl : i = n := Option.some.inj h
    have hdigits : i.natAbs.log2 + 1 ≤ writableDigits := by
      unfold writableDigits
      omega
    have hlt : i.natAbs < 10 ^ writableDigits :=
      calc i.natAbs < 2 ^ (i.natAbs.log2 + 1) := Nat.lt_log2_self
        _ ≤ 10 ^ (i.natAbs.log2 + 1) := Nat.pow_le_pow_left (by omega) _
        _ ≤ 10 ^ writableDigits := Nat.pow_le_pow_right (by omega) hdigits
    simp [written, isWritable, hlt]
  | _ => cases h

theorem field?_eq_find? (fields : List (String × Value)) (key : String) :
    field? fields key = Table.find? fields key := by
  induction fields with
  | nil => rfl
  | cons entry rest ih =>
    obtain ⟨k, v⟩ := entry
    by_cases hk : k = key
    · simp [field?, Table.find?, hk]
    · simpa [field?, Table.find?, hk] using ih

end Handset.Value
