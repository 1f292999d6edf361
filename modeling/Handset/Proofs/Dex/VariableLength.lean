import Handset.Proofs.Dex.SampleLayout
import Mathlib

/-!
# Numbers of variable length

What stands at an offset as a number of variable length, for any bytes and any offset. An offset before the first
byte counts from the end, and reading then runs on over the end into the whole data. The number ends with the first
byte whose high bit is clear; the low bits of its bytes are its digits to the base 128. Encoding a number that was
read takes no more bytes than it was read from.
-/
namespace Handset.Dex.Leb128

/-- The bytes from an offset on: those up to the end, and after the bytes before the end all of the data. -/
def ahead (d : Bytes) (offset : Int) : List UInt8 :=
  if offset < 0 then d.toList.drop (d.size + offset).toNat ++ d.toList else d.toList.drop offset.toNat

/-- Is this the last byte of a number? -/
def isLast (byte : UInt8) : Bool :=
  byte &&& 0x80 == 0

/-- The bytes of the number in front: up to and including the first one whose high bit is clear. -/
def upToLast (bytes : List UInt8) : List UInt8 :=
  bytes.take (bytes.findIdx isLast + 1)

/-- The number whose digits to the base 128 are the low seven bits of the bytes, lowest first. -/
def total (bytes : List UInt8) : Nat :=
  (bytes.mapIdx fun i byte => (byte &&& 0x7F).toNat * 128 ^ i).sum

/-- The low seven bits of the bytes put side by side: each byte is shifted by the seven bits of all those before it
and joined bit by bit to what they gave. -/
def gathered (bytes : List UInt8) : Nat × Nat :=
  bytes.foldl (fun found byte => (found.1 ||| (byte &&& 0x7F).toNat <<< found.2, found.2 + 7)) (0, 0)

variable {byte : UInt8} {bytes : List UInt8} {d : Bytes}

/-! ### Low bits and high bits -/

theorem toNat_and_mask (byte : UInt8) : (byte &&& 0x7F).toNat = byte.toNat % 128 := by
  rw [UInt8.toNat_and]
  exact Nat.and_two_pow_sub_one_eq_mod byte.toNat 7

theorem isLast_iff (byte : UInt8) : isLast byte = true ↔ byte.toNat < 128 := by
  have hall : ∀ n < 256, n &&& 128 = 0 ↔ n < 128 := by decide +kernel
  rw [isLast, beq_iff_eq, ← UInt8.toNat_inj, UInt8.toNat_and]
  exact hall byte.toNat byte.toNat_lt

/-! ### Digits to the base 128 -/

@[simp] theorem total_nil : total [] = 0 := rfl

theorem total_cons (byte : UInt8) (bytes : List UInt8) :
    total (byte :: bytes) = byte.toNat % 128 + 128 * total bytes := by
  have hfrom (k : Nat) : (bytes.mapIdx fun i byte => (byte &&& 0x7F).toNat * 128 ^ (i + k)).sum =
      128 ^ k * total bytes := by
    unfold total
    induction bytes generalizing k with
    | nil => rfl
    | cons first rest ih =>
      have hnext : (rest.mapIdx fun i byte => (byte &&& 0x7F).toNat * 128 ^ (i + 1 + k)).sum =
          128 ^ k * (rest.mapIdx fun i byte => (byte &&& 0x7F).toNat * 128 ^ (i + 1)).sum := by
        rw [ih 1, ← Nat.mul_assoc, ← Nat.pow_add, ← ih (k + 1)]
        simp only [Nat.add_assoc, Nat.add_comm k 1]
      rw [List.mapIdx_cons, List.mapIdx_cons, List.sum_cons, List.sum_cons, hnext, Nat.zero_add, Nat.pow_zero,
        Nat.mul_one, Nat.mul_add, Nat.mul_comm (first &&& 0x7F).toNat]
  rw [total, List.mapIdx_cons, List.sum_cons, hfrom 1, Nat.pow_zero, Nat.mul_one, Nat.pow_one, toNat_and_mask]

theorem total_lt (bytes : List UInt8) : total bytes < 128 ^ bytes.length := by
  induction bytes with
  | nil => exact Nat.one_pos
  | cons byte bytes ih =>
    rw [total_cons, List.length_cons, Nat.pow_succ]
    omega

/-- Putting bits side by side adds up digits, since what is there is below the shift. -/
theorem gathered_eq (bytes : List UInt8) : gathered bytes = (total bytes, 7 * bytes.length) := by
  have hfrom (value shift : Nat) (hvalue : value < 2 ^ shift) :
      bytes.foldl (fun found byte => (found.1 ||| (byte &&& 0x7F).toNat <<< found.2, found.2 + 7)) (value, shift) =
        (value + 2 ^ shift * total bytes, shift + 7 * bytes.length) := by
    induction bytes generalizing value shift with
    | nil => rfl
    | cons byte bytes ih =>
      have hjoin : value ||| (byte.toNat % 128) <<< shift = value + 2 ^ shift * (byte.toNat % 128) := by
        rw [Nat.or_comm, ← Nat.shiftLeft_add_eq_or_of_lt hvalue, Nat.shiftLeft_eq, Nat.mul_comm, Nat.add_comm]
      have hlow : byte.toNat % 128 ≤ 127 := by omega
      have hbelow : value + 2 ^ shift * (byte.toNat % 128) < 2 ^ (shift + 7) := by
        have := Nat.mul_le_mul_left (2 ^ shift) hlow
        rw [Nat.pow_add]
        omega
      rw [List.foldl_cons, toNat_and_mask, hjoin, ih _ _ hbelow, total_cons, List.length_cons, Nat.pow_add]
      congr 1
      · rw [Nat.mul_add, ← Nat.mul_assoc, Nat.add_assoc]
      · omega
  have hall := hfrom 0 0 Nat.one_pos
  rwa [Nat.zero_add, Nat.zero_add, Nat.pow_zero, Nat.one_mul] at hall

/-! ### Reading on from an offset -/

theorem upToLast_cons (byte : UInt8) (bytes : List UInt8) :
    upToLast (byte :: bytes) = byte :: if isLast byte then [] else upToLast bytes := by
  unfold upToLast
  rw [List.findIdx_cons, List.take_succ_cons]
  cases isLast byte <;> rfl

/-- The bytes of a number are some whose high bits are set and one more. -/
theorem exists_upToLast (h : ∃ byte ∈ bytes, isLast byte = true) :
    ∃ high last rest, bytes = high ++ last :: rest ∧ (∀ byte ∈ high, ¬ isLast byte = true) ∧ isLast last = true ∧
      upToLast bytes = high ++ [last] := by
  induction bytes with
  | nil => simp at h
  | cons byte bytes ih =>
    rw [upToLast_cons]
    by_cases hlast : isLast byte = true
    · exact ⟨[], byte, bytes, rfl, List.forall_mem_nil _, hlast, by rw [if_pos hlast]; rfl⟩
    · have hbytes : ∃ byte ∈ bytes, isLast byte = true := by
        obtain ⟨b, hb, hblast⟩ := h
        rcases List.mem_cons.mp hb with rfl | hb
        · exact absurd hblast hlast
        · exact ⟨b, hb, hblast⟩
      obtain ⟨high, last, rest, rfl, hhigh, hend, hspan⟩ := ih hbytes
      refine ⟨byte :: high, last, rest, rfl, List.forall_mem_cons.mpr ⟨hlast, hhigh⟩, hend, ?_⟩
      rw [if_neg hlast, hspan]
      rfl

theorem ahead_size (d : Bytes) : ahead d d.size = [] := by
  rw [ahead, if_neg (by omega), Int.toNat_natCast, List.drop_eq_nil_of_le (by simp)]

/-- The byte at an offset comes first, then those from the next offset on; after the last byte before the end, which
is at offset -1, comes offset 0. -/
theorem exists_ahead {o : Int} (hlow : -(d.size : Int) ≤ o) (hhigh : o < d.size) :
    ∃ byte, Bytes.at? d o = some byte ∧ ahead d o = byte :: ahead d (o + 1) := by
  have hstep (k : Nat) (hk : k < d.size) : d.toList.drop k = d[k] :: d.toList.drop (k + 1) :=
    List.drop_eq_getElem_cons (by simpa using hk)
  unfold Bytes.at? ahead
  split
  next hneg =>
    have hplace : (d.size + o).toNat < d.size := by omega
    refine ⟨d[(d.size + o).toNat], ?_, ?_⟩
    · rw [if_neg (by omega), Int.add_comm, Array.getElem?_eq_getElem]
    · rw [hstep _ hplace, List.cons_append]
      split
      next => rw [show (d.size + (o + 1)).toNat = (d.size + o).toNat + 1 by omega]
      next =>
        obtain rfl : o = -1 := by omega
        rw [show ((d.size : Int) + -1).toNat + 1 = d.size by omega, List.drop_eq_nil_of_le (by simp)]
        rfl
  next hneg =>
    have hplace : o.toNat < d.size := by omega
    refine ⟨d[o.toNat], Array.getElem?_eq_getElem hplace, ?_⟩
    rw [hstep _ hplace, if_neg (by omega), show (o + 1).toNat = o.toNat + 1 by omega]

theorem readLast_eq {left : Nat} (hleft : left ≤ 2 * d.size) :
    readLast d left =
      if (ahead d (d.size - left)).any isLast then
        some (total (upToLast (ahead d (d.size - left))), (upToLast (ahead d (d.size - left))).length)
      else none := by
  induction left with
  | zero =>
    rw [Int.natCast_zero, Int.sub_zero, ahead_size]
    rfl
  | succ left ih =>
    obtain ⟨byte, hbyte, hahead⟩ := exists_ahead (d := d) (o := d.size - (left + 1 : Nat)) (by omega) (by omega)
    rw [show (d.size : Int) - (left + 1 : Nat) + 1 = d.size - left by omega] at hahead
    rw [readLast, hbyte, hahead, ih (by omega), List.any_cons, upToLast_cons]
    dsimp only
    by_cases hlast : isLast byte = true
    · have hlow := (isLast_iff byte).mp hlast
      rw [if_pos hlow, hlast, Bool.true_or, if_pos rfl, if_pos rfl, total_cons, total_nil, Nat.mod_eq_of_lt hlow]
      rfl
    · have hhigh : ¬ byte.toNat < 128 := fun hlow => hlast ((isLast_iff byte).mpr hlow)
      have hmod : byte.toNat % 128 = byte.toNat - 128 := by
        have := byte.toNat_lt
        omega
      rw [if_neg hhigh, Bool.eq_false_iff.mpr hlast, Bool.false_or, if_neg Bool.false_ne_true, total_cons, hmod]
      by_cases hany : (ahead d (d.size - left)).any isLast = true
      · rw [if_pos hany, if_pos hany]
        rfl
      · rw [if_neg hany, if_neg hany]

/-- What is read at any offset of any bytes. -/
theorem read_eq (d : Bytes) (o : Int) :
    read d o =
      if (-(d.size : Int) ≤ o ∧ o < d.size) ∧ ∃ byte ∈ ahead d o, isLast byte = true then
        .ok (total (upToLast (ahead d o)), (upToLast (ahead d o)).length)
      else .error .byteOutOfRange := by
  unfold read
  by_cases hrange : -(d.size : Int) ≤ o ∧ o < d.size
  · have hback : (d.size : Int) - ((d.size : Int) - o).toNat = o := by omega
    rw [readLast_eq (by omega), hback]
    by_cases hany : (ahead d o).any isLast = true
    · rw [if_pos hany, if_pos ⟨hrange, List.any_eq_true.mp hany⟩]
    · rw [if_neg hany, if_neg fun h => hany (List.any_eq_true.mpr h.2)]
  · have hnone : readLast d ((d.size : Int) - o).toNat = none := by
      cases hleft : ((d.size : Int) - o).toNat with
      | zero => rfl
      | succ left =>
        have hat : Bytes.at? d ((d.size : Int) - (left + 1 : Nat)) = none := by
          rw [Bytes.at?, if_pos (by omega), if_pos (by omega)]
        rw [readLast, hat]
    rw [hnone, if_neg fun h => hrange h.1]

theorem mark_ne_zero_iff (byte : UInt8) : byte &&& 0x80 ≠ 0 ↔ ¬ isLast byte = true := by
  simp [isLast]

theorem out_of_range_or_endless_iff (d : Bytes) (o : Int) :
    ((o < -(d.size : Int) ∨ d.size ≤ o) ∨ ∀ byte ∈ ahead d o, byte &&& 0x80 ≠ 0) ↔
      ¬ ((-(d.size : Int) ≤ o ∧ o < d.size) ∧ ∃ byte ∈ ahead d o, isLast byte = true) := by
  have hrange : (o < -(d.size : Int) ∨ d.size ≤ o) ↔ ¬ (-(d.size : Int) ≤ o ∧ o < d.size) := by omega
  have hbytes : (∀ byte ∈ ahead d o, byte &&& 0x80 ≠ 0) ↔ ¬ ∃ byte ∈ ahead d o, isLast byte = true := by
    simp only [mark_ne_zero_iff, not_exists, not_and]
  rw [hrange, hbytes]
  exact Classical.not_and_iff_not_or_not.symm

theorem length_encode_le_of_read {o : Int} {v n : Nat} (h : read d o = .ok (v, n)) : (encode v).length ≤ n := by
  rw [read_eq] at h
  split at h
  next hread =>
    obtain ⟨high, last, rest, -, -, -, hspan⟩ := exists_upToLast hread.2
    have hlt := total_lt (high ++ [last])
    rw [hspan] at h
    obtain ⟨rfl, rfl⟩ := Prod.mk.inj (Except.ok.inj h)
    rw [List.length_append, List.length_singleton] at hlt ⊢
    exact Sample.length_encode_le high.length hlt
  next => cases h

/-- Numbers of variable length. The encoding of a number is read back from wherever it stands, with the count of its
bytes. Reading ends for all bytes and offsets: it fails exactly if the offset is out of range or if no byte ahead has
a clear high bit; otherwise it gives the sum of the low seven bits of the bytes up to the first such byte, each times
its power of 128, which is also what they give when they are shifted and joined bit by bit, and the count of these
bytes. Encoding what was read takes no more bytes than were read. -/
theorem variable_length_numbers :
    (∀ (v : Nat) (p q : Bytes), read (p ++ (encode v).toArray ++ q) p.size = .ok (v, (encode v).length)) ∧
    (∀ (d : Bytes) (o : Int),
      (read d o = .error .byteOutOfRange ↔
        (o < -(d.size : Int) ∨ d.size ≤ o) ∨ ∀ byte ∈ ahead d o, byte &&& 0x80 ≠ 0) ∧
      (¬ ((o < -(d.size : Int) ∨ d.size ≤ o) ∨ ∀ byte ∈ ahead d o, byte &&& 0x80 ≠ 0) →
        ∃ high last rest, ahead d o = high ++ last :: rest ∧ (∀ byte ∈ high, byte &&& 0x80 ≠ 0) ∧
          last &&& 0x80 = 0 ∧ read d o = .ok (total (high ++ [last]), high.length + 1) ∧
          (gathered (high ++ [last])).1 = total (high ++ [last]))) ∧
    ∀ (d : Bytes) (o : Int) (v n : Nat), read d o = .ok (v, n) → (encode v).length ≤ n := by
  refine ⟨fun v p q => read_of_holds ⟨p, q, rfl, rfl⟩, fun d o => ⟨?_, fun h => ?_⟩,
    fun d o v n h => length_encode_le_of_read h⟩
  · rw [out_of_range_or_endless_iff, read_eq]
    split
    next h => exact iff_of_false (fun hok => by cases hok) (not_not_intro h)
    next h => exact iff_of_true rfl h
  · have hread := Classical.not_not.mp (mt (out_of_range_or_endless_iff d o).mpr h)
    obtain ⟨high, last, rest, hahead, hhigh, hlast, hspan⟩ := exists_upToLast hread.2
    refine ⟨high, last, rest, hahead, fun byte hmem => (mark_ne_zero_iff byte).mpr (hhigh byte hmem),
      eq_of_beq hlast, ?_, ?_⟩
    · rw [read_eq, if_pos hread, hspan, List.length_append, List.length_singleton]
    · rw [gathered_eq]

/-- Before the end of two bytes, reading goes on at their start: the number takes the last byte and the first. -/
theorem number_around_the_end :
    read #[0x05, 0x81] (-1) = .ok (641, 2) ∧ (encode 641).length ≤ 2 := by
  have hread : read #[0x05, 0x81] (-1) = .ok (641, 2) := rfl
  exact ⟨hread, variable_length_numbers.2.2 #[0x05, 0x81] (-1) 641 2 hread⟩

end Handset.Dex.Leb128
