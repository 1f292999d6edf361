import Handset.Dex.Sample
import Handset.Proofs.Text.Transcoding

/-!
# Blocks of bytes

Where the blocks of a byte string stand. A block inside a block stands inside the whole; of blocks
written one after the other, each stands where those before it end, and blocks of one width stand at
the multiples of it. A word or a number of variable length that was written as a block is read back
from its place.
-/
namespace Handset

namespace Bytes

/-- The block stands in the data at this offset. -/
def Holds (d : Bytes) (offset : Nat) (block : Bytes) : Prop :=
  ∃ before after : Bytes, d = before ++ block ++ after ∧ before.size = offset

variable {d x y block : Bytes} {o k : Nat}

theorem holds_append_left (x y : Bytes) : Holds (x ++ y) 0 x :=
  ⟨#[], y, by simp, rfl⟩

theorem holds_append_right (x y : Bytes) : Holds (x ++ y) x.size y :=
  ⟨x, #[], by simp, rfl⟩

theorem Holds.trans (h : Holds d o x) (h' : Holds x k y) : Holds d (o + k) y := by
  obtain ⟨before, after, rfl, rfl⟩ := h
  obtain ⟨inner, rest, rfl, rfl⟩ := h'
  exact ⟨before ++ inner, rest ++ after, by simp only [Array.append_assoc], by simp⟩

theorem holds_append_middle (x y z : Bytes) : Holds (x ++ y ++ z) x.size y :=
  ⟨x, z, rfl, rfl⟩

theorem Holds.left (h : Holds d o (x ++ y)) : Holds d o x :=
  h.trans (holds_append_left x y)

theorem Holds.right (h : Holds d o (x ++ y)) : Holds d (o + x.size) y :=
  h.trans (holds_append_right x y)

theorem Holds.size_le (h : Holds d o block) : o + block.size ≤ d.size := by
  obtain ⟨before, after, rfl, rfl⟩ := h
  simp only [Array.size_append]
  omega

theorem Holds.extract (h : Holds d o block) : d.extract o (o + block.size) = block := by
  obtain ⟨before, after, rfl, rfl⟩ := h
  simp [Array.extract_append]

theorem holds_iff_extract :
    Holds d o block ↔ o + block.size ≤ d.size ∧ d.extract o (o + block.size) = block := by
  refine ⟨fun h => ⟨h.size_le, h.extract⟩, fun ⟨hsize, h⟩ => ?_⟩
  have hleft : d.extract 0 o ++ d.extract o (o + block.size) = d.extract 0 (o + block.size) := by
    rw [Array.extract_append_extract, Nat.zero_min, Nat.max_eq_right (Nat.le_add_right o block.size)]
  have hright : d.extract 0 (o + block.size) ++ d.extract (o + block.size) d.size = d := by
    rw [Array.extract_append_extract, Nat.zero_min, Nat.max_eq_right hsize, Array.extract_size]
  refine ⟨d.extract 0 o, d.extract (o + block.size) d.size, ?_, by rw [Array.size_extract]; omega⟩
  calc d = d.extract 0 (o + block.size) ++ d.extract (o + block.size) d.size := hright.symm
    _ = d.extract 0 o ++ block ++ d.extract (o + block.size) d.size := by rw [← hleft, h]

instance (d : Bytes) (o : Nat) (block : Bytes) : Decidable (Holds d o block) :=
  decidable_of_iff _ holds_iff_extract.symm

theorem bound_of_le {size i : Nat} (h : i ≤ size) : bound size i = i := by
  unfold bound
  rw [if_neg (by omega), Int.toNat_natCast, Nat.min_eq_left h]

theorem Holds.slice (h : Holds d o block) : slice d o (o + block.size : Nat) = block := by
  have hle := h.size_le
  rw [Bytes.slice, bound_of_le (by omega), bound_of_le hle, h.extract]

theorem Holds.getElem? (h : Holds d o block) (hk : k < block.size) : d[o + k]? = block[k]? := by
  obtain ⟨before, after, rfl, rfl⟩ := h
  rw [Array.append_assoc, Array.getElem?_append_right (by omega), Array.getElem?_append_left (by omega)]
  congr 1
  omega

@[simp] theorem size_littleEndian (width value : Nat) : (littleEndian width value).size = width := by
  induction width generalizing value with
  | zero => rfl
  | succ width ih => simp [littleEndian, ih]; omega

theorem ofLittleEndian_cons (b : UInt8) (rest : Bytes) :
    ofLittleEndian (#[b] ++ rest) = b.toNat + 256 * ofLittleEndian rest := by
  simp [ofLittleEndian]

theorem ofLittleEndian_littleEndian {width value : Nat} (h : value < 256 ^ width) :
    ofLittleEndian (littleEndian width value) = value := by
  induction width generalizing value with
  | zero =>
    have : value = 0 := by omega
    subst this
    rfl
  | succ width ih =>
    have hdiv : value / 256 < 256 ^ width := by
      rw [Nat.div_lt_iff_lt_mul (by decide)]
      rwa [Nat.pow_succ] at h
    rw [littleEndian, ofLittleEndian_cons, ih hdiv, UInt8.toNat_ofNat', Nat.mod_mod]
    exact Nat.mod_add_div _ _

end Bytes

namespace Dex

open Bytes (Holds)

variable {d : Bytes} {o : Nat}

theorem word_of_holds {width value : Nat} (h : Holds d o (Bytes.littleEndian width value))
    (hvalue : value < 256 ^ width) : word d width o = .ok value := by
  have hslice := h.slice
  rw [Bytes.size_littleEndian] at hslice
  simp only [word]
  rw [← Int.natCast_add, hslice, if_pos (Bytes.size_littleEndian _ _),
    Bytes.ofLittleEndian_littleEndian hvalue]

namespace Leb128

theorem readLast_succ {byte : UInt8} {left : Nat} (hbyte : d[o]? = some byte)
    (hleft : o + (left + 1) = d.size) :
    readLast d (left + 1) =
      if byte.toNat < 128 then some (byte.toNat, 1)
      else (readLast d left).map fun r => (byte.toNat - 128 + 128 * r.1, r.2 + 1) := by
  have hplace : (d.size : Int) - (left + 1 : Nat) = o := by omega
  have hat : Bytes.at? d o = some byte := by
    rw [Bytes.at?, if_neg (by omega), Int.toNat_natCast, hbyte]
  rw [readLast, hplace, hat]
  dsimp only
  split
  · rfl
  · cases readLast d left <;> rfl

theorem readLast_of_holds {n left : Nat} (h : Holds d o (encode n).toArray)
    (hleft : o + left = d.size) : readLast d left = some (n, (encode n).length) := by
  induction n using encode.induct generalizing o left with
  | case1 n hn =>
    rw [encode, if_pos hn] at h ⊢
    have hle := h.size_le
    have hbyte : d[o]? = some (UInt8.ofNat n) := h.getElem? (k := 0) (by simp)
    obtain ⟨left, rfl⟩ : ∃ k, left = k + 1 := ⟨left - 1, by simp at hle; omega⟩
    have hnat : (UInt8.ofNat n).toNat = n := by rw [UInt8.toNat_ofNat']; omega
    rw [readLast_succ hbyte hleft, hnat, if_pos hn]
    rfl
  | case2 n hn ih =>
    rw [encode, if_neg hn] at h ⊢
    have hle := h.size_le
    have hbyte : d[o]? = some (UInt8.ofNat (n % 128 + 128)) := h.getElem? (k := 0) (by simp)
    obtain ⟨left, rfl⟩ : ∃ k, left = k + 1 := ⟨left - 1, by simp at hle; omega⟩
    have hrest : Holds d (o + 1) (encode (n / 128)).toArray := by
      rw [← List.singleton_append, ← List.append_toArray] at h
      exact h.right
    have hnat : (UInt8.ofNat (n % 128 + 128)).toNat = n % 128 + 128 := by
      rw [UInt8.toNat_ofNat']; omega
    have hvalue : n % 128 + 128 - 128 + 128 * (n / 128) = n := by omega
    rw [readLast_succ hbyte hleft, hnat, if_neg (by omega), ih hrest (by omega), Option.map_some, hvalue]
    rfl

theorem read_of_holds {n : Nat} (h : Holds d o (encode n).toArray) :
    read d o = .ok (n, (encode n).length) := by
  have hle := h.size_le
  rw [read, readLast_of_holds h (by omega)]

end Leb128

theorem readString_of_holds {s : String} (h : Holds d o (Sample.stringItem s)) :
    readString d o = .ok s := by
  have hslice := h.right.slice
  rw [List.size_toArray] at hslice
  simp only [readString, Leb128.read_of_holds h.left, bind, Except.bind, pure, Except.pure]
  rw [← Int.natCast_add, ← Int.natCast_add, hslice, Text.Utf8.decode_encode]

namespace Sample

@[simp] theorem join_nil : join [] = #[] := rfl

theorem foldl_append_eq (acc : Bytes) (blocks : List Bytes) :
    blocks.foldl (· ++ ·) acc = acc ++ join blocks := by
  induction blocks generalizing acc with
  | nil => simp
  | cons block rest ih =>
    have hjoin : join (block :: rest) = block ++ join rest := by
      change rest.foldl (· ++ ·) (#[] ++ block) = _
      rw [ih, Array.empty_append]
    rw [List.foldl_cons, ih, hjoin, Array.append_assoc]

@[simp] theorem join_cons (block : Bytes) (rest : List Bytes) :
    join (block :: rest) = block ++ join rest := by
  rw [join, List.foldl_cons, foldl_append_eq, Array.empty_append]

@[simp] theorem join_append (xs ys : List Bytes) : join (xs ++ ys) = join xs ++ join ys := by
  induction xs with
  | nil => simp
  | cons x xs ih => simp [ih, Array.append_assoc]

/-- How far into the joined blocks each block stands. -/
def startOf (blocks : List Bytes) (k : Nat) : Nat :=
  (join (blocks.take k)).size

theorem holds_join {blocks : List Bytes} {k : Nat} {block : Bytes} (h : blocks[k]? = some block) :
    Holds (join blocks) (startOf blocks k) block := by
  obtain ⟨hk, rfl⟩ := List.getElem?_eq_some_iff.mp h
  have hsplit : blocks = blocks.take k ++ blocks[k] :: blocks.drop (k + 1) := by
    rw [← List.drop_eq_getElem_cons hk, List.take_append_drop]
  refine ⟨join (blocks.take k), join (blocks.drop (k + 1)), ?_, rfl⟩
  calc join blocks = join (blocks.take k ++ blocks[k] :: blocks.drop (k + 1)) := congrArg join hsplit
    _ = join (blocks.take k) ++ blocks[k] ++ join (blocks.drop (k + 1)) := by
      rw [join_append, join_cons, Array.append_assoc]

theorem size_join_of_uniform {blocks : List Bytes} {width : Nat} (h : ∀ b ∈ blocks, b.size = width) :
    (join blocks).size = width * blocks.length := by
  induction blocks with
  | nil => rfl
  | cons block rest ih =>
    rw [join_cons, Array.size_append, h block List.mem_cons_self,
      ih fun b hb => h b (List.mem_cons_of_mem _ hb), List.length_cons, Nat.mul_succ, Nat.add_comm]

theorem holds_row {blocks : List Bytes} {width k : Nat} {block : Bytes}
    (h : ∀ b ∈ blocks, b.size = width) (hk : blocks[k]? = some block) :
    Holds (join blocks) (width * k) block := by
  have hstart : startOf blocks k = width * k := by
    obtain ⟨hlt, -⟩ := List.getElem?_eq_some_iff.mp hk
    rw [startOf, size_join_of_uniform fun b hb => h b (List.mem_of_mem_take hb), List.length_take,
      Nat.min_eq_left (by omega)]
  rw [← hstart]
  exact holds_join hk

theorem uniform_words (width : Nat) (values : List Nat) :
    ∀ b ∈ values.map (Bytes.littleEndian width), b.size = width := by
  intro b hb
  obtain ⟨v, -, rfl⟩ := List.mem_map.mp hb
  exact Bytes.size_littleEndian width v

@[simp] theorem size_row (width : Nat) (values : List Nat) : (row width values).size = width * values.length := by
  rw [row, size_join_of_uniform (uniform_words width values), List.length_map]

end Sample

end Dex

end Handset
