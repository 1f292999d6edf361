import Handset.Text.Utf8
import Mathlib.Algebra.Group.Nat.Defs

/-!
# Reading back what was encoded

The bytes of a text are cut into its characters again, so decoding the bytes of a text gives the text.
-/
namespace Handset.Text.Utf8

private theorem part_one {v : Nat} (h : v < 128) (rest : List UInt8) :
    part (UInt8.ofNat v) rest = (some (Char.ofNat v), rest) := by
  have hnat : (UInt8.ofNat v).toNat = v := by rw [UInt8.toNat_ofNat']; omega
  rw [part, hnat, if_pos h]

private theorem continuation_succ {count low high acc n : Nat} (hlow : low ≤ n) (hhigh : n ≤ high)
    (hn : n < 256) (rest : List UInt8) :
    continuation (count + 1) low high acc (UInt8.ofNat n :: rest) =
      continuation count 0x80 0xBF (acc * 64 + n % 64) rest := by
  have hnat : (UInt8.ofNat n).toNat = n := by rw [UInt8.toNat_ofNat']; omega
  rw [continuation, hnat, if_pos ⟨hlow, hhigh⟩]

private theorem part_many {n count low high : Nat} (hn : 128 ≤ n) (hn' : n < 256)
    (hlead : lead (UInt8.ofNat n) = some (count, low, high)) (rest : List UInt8) :
    part (UInt8.ofNat n) rest =
      let taken := continuation count low high (n % 2 ^ (6 - count)) rest
      (taken.1.map Char.ofNat, taken.2) := by
  have hnat : (UInt8.ofNat n).toNat = n := by rw [UInt8.toNat_ofNat']; omega
  rw [part, hnat, if_neg (by omega), hlead]
  simp only [leadBits, hnat, Nat.one_shiftLeft]

private theorem part_two {v : Nat} (h : 128 ≤ v) (h' : v ≤ 2047) (rest : List UInt8) :
    part (UInt8.ofNat (v / 64 % 32 + 192)) (UInt8.ofNat (v % 64 + 128) :: rest) =
      (some (Char.ofNat v), rest) := by
  have hnat : (UInt8.ofNat (v / 64 % 32 + 192)).toNat = v / 64 % 32 + 192 := by
    rw [UInt8.toNat_ofNat']; omega
  have hlead : lead (UInt8.ofNat (v / 64 % 32 + 192)) = some (1, 0x80, 0xBF) := by
    rw [lead, hnat, if_pos (by omega)]
  have hvalue : (v / 64 % 32 + 192) % 2 ^ (6 - 1) * 64 + (v % 64 + 128) % 64 = v := by omega
  rw [part_many (by omega) (by omega) hlead,
    continuation_succ (by omega) (by omega) (by omega), hvalue]
  rfl

/-- The range of the second byte of three leaves out what two bytes can hold and the surrogates. -/
private theorem lead_three {v : Nat} (h : 2048 ≤ v) (h' : v ≤ 65535) (hvalid : v < 0xD800 ∨ 0xDFFF < v) :
    ∃ low high, lead (UInt8.ofNat (v / 4096 % 16 + 224)) = some (2, low, high) ∧
      low ≤ v / 64 % 64 + 128 ∧ v / 64 % 64 + 128 ≤ high := by
  have hnat : (UInt8.ofNat (v / 4096 % 16 + 224)).toNat = v / 4096 % 16 + 224 := by
    rw [UInt8.toNat_ofNat']; omega
  simp only [lead, hnat]
  rw [if_neg (by omega)]
  split
  · exact ⟨_, _, rfl, by omega, by omega⟩
  · split
    · exact ⟨_, _, rfl, by omega, by omega⟩
    · rw [if_pos (by omega)]
      exact ⟨_, _, rfl, by omega, by omega⟩

private theorem part_three {v : Nat} (h : 2048 ≤ v) (h' : v ≤ 65535) (hvalid : v < 0xD800 ∨ 0xDFFF < v)
    (rest : List UInt8) :
    part (UInt8.ofNat (v / 4096 % 16 + 224))
        (UInt8.ofNat (v / 64 % 64 + 128) :: UInt8.ofNat (v % 64 + 128) :: rest) =
      (some (Char.ofNat v), rest) := by
  obtain ⟨low, high, hlead, hlow, hhigh⟩ := lead_three h h' hvalid
  have hvalue : ((v / 4096 % 16 + 224) % 2 ^ (6 - 2) * 64 + (v / 64 % 64 + 128) % 64) * 64 +
      (v % 64 + 128) % 64 = v := by omega
  rw [part_many (by omega) (by omega) hlead, continuation_succ hlow hhigh (by omega),
    continuation_succ (by omega) (by omega) (by omega), hvalue]
  rfl

/-- The range of the second byte of four leaves out what three bytes can hold and what no character is. -/
private theorem lead_four {v : Nat} (h : 65536 ≤ v) (h' : v < 0x110000) :
    ∃ low high, lead (UInt8.ofNat (v / 262144 % 8 + 240)) = some (3, low, high) ∧
      low ≤ v / 4096 % 64 + 128 ∧ v / 4096 % 64 + 128 ≤ high := by
  have hnat : (UInt8.ofNat (v / 262144 % 8 + 240)).toNat = v / 262144 % 8 + 240 := by
    rw [UInt8.toNat_ofNat']; omega
  simp only [lead, hnat]
  rw [if_neg (by omega), if_neg (by omega), if_neg (by omega), if_neg (by omega)]
  split
  · exact ⟨_, _, rfl, by omega, by omega⟩
  · split
    · exact ⟨_, _, rfl, by omega, by omega⟩
    · rw [if_pos (by omega)]
      exact ⟨_, _, rfl, by omega, by omega⟩

private theorem part_four {v : Nat} (h : 65536 ≤ v) (h' : v < 0x110000) (rest : List UInt8) :
    part (UInt8.ofNat (v / 262144 % 8 + 240))
        (UInt8.ofNat (v / 4096 % 64 + 128) :: UInt8.ofNat (v / 64 % 64 + 128) ::
          UInt8.ofNat (v % 64 + 128) :: rest) =
      (some (Char.ofNat v), rest) := by
  obtain ⟨low, high, hlead, hlow, hhigh⟩ := lead_four h h'
  have hvalue : (((v / 262144 % 8 + 240) % 2 ^ (6 - 3) * 64 + (v / 4096 % 64 + 128) % 64) * 64 +
      (v / 64 % 64 + 128) % 64) * 64 + (v % 64 + 128) % 64 = v := by omega
  rw [part_many (by omega) (by omega) hlead, continuation_succ hlow hhigh (by omega),
    continuation_succ (by omega) (by omega) (by omega),
    continuation_succ (by omega) (by omega) (by omega), hvalue]
  rfl

private theorem parts_of_part {first : UInt8} {tail rest : List UInt8} {c : Char}
    (h : part first tail = (some c, rest)) : parts (first :: tail) = some c :: parts rest := by
  rw [parts, h]

theorem parts_utf8EncodeChar (c : Char) (rest : List UInt8) :
    parts (String.utf8EncodeChar c ++ rest) = some c :: parts rest := by
  have hvalid : c.val.toNat < 0xD800 ∨ 0xDFFF < c.val.toNat ∧ c.val.toNat < 0x110000 := c.valid
  have hchar : Char.ofNat c.val.toNat = c := Char.ofNat_toNat c
  unfold String.utf8EncodeChar
  generalize c.val.toNat = v at hvalid hchar ⊢
  subst hchar
  dsimp only
  split
  · exact parts_of_part (part_one (by omega) rest)
  · split
    · exact parts_of_part (part_two (by omega) (by omega) rest)
    · split
      · exact parts_of_part (part_three (by omega) (by omega) (by omega) rest)
      · exact parts_of_part (part_four (by omega) (by omega) rest)

theorem parts_utf8Encode (cs : List Char) : parts (cs.flatMap String.utf8EncodeChar) = cs.map some := by
  induction cs with
  | nil => rw [List.flatMap_nil, parts, List.map_nil]
  | cons c cs ih => rw [List.flatMap_cons, parts_utf8EncodeChar, ih, List.map_cons]

theorem toList_encode (s : String) :
    (encode s).toList = s.toList.flatMap String.utf8EncodeChar := by
  rw [encode, String.toUTF8_eq_toByteArray, ← String.utf8Encode_toList]
  simp [List.utf8Encode]

theorem decode_encode (s : String) : decode (encode s) = s := by
  rw [decode, toList_encode, parts_utf8Encode, List.map_map]
  exact (congrArg String.ofList (List.map_id _)).trans String.ofList_toList

theorem decode?_encode (s : String) : decode? (encode s) = some s := by
  have hparts : parts (encode s).toList = s.toList.map some := by
    rw [toList_encode, parts_utf8Encode]
  have hall (cs : List Char) : (cs.map some).mapM id = some cs := by
    induction cs with
    | nil => rfl
    | cons c cs ih =>
      rw [List.map_cons, List.mapM_cons, ih]
      rfl
  rw [decode?, hparts, hall, Option.map_some, String.ofList_toList]

theorem size_encode_le (s : String) : (encode s).size ≤ 4 * s.length := by
  rw [← Array.length_toList, toList_encode, ← String.length_toList]
  induction s.toList with
  | nil => exact Nat.le_refl 0
  | cons c cs ih =>
    have := Char.utf8Size_le_four c
    rw [List.flatMap_cons, List.length_append, List.length_cons, String.length_utf8EncodeChar]
    omega

end Handset.Text.Utf8
