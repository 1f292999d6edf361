import Handset.Proofs.Dex.Blocks

/-!
# Texts behind their length

A text stands in an image as the number of its bytes and the bytes. What was written so is read back, whatever
stands around it. Other bytes are read as some text as well, since ill-formed runs are replaced and what is
missing at the end of the data is left out; only a length without an end makes the reading fail.
-/
namespace Handset

namespace Text.Utf8

theorem length_parts_le (bytes : List UInt8) : (parts bytes).length ≤ bytes.length := by
  induction bytes using parts.induct with
  | case1 =>
    rw [parts]
    exact Nat.le_refl _
  | case2 first rest ih =>
    have hrest := part_length_le first rest
    rw [parts, List.length_cons, List.length_cons]
    omega

theorem length_decode_le (b : Bytes) : (decode b).length ≤ b.size := by
  rw [decode, String.length_ofList, List.length_map]
  exact length_parts_le b.toList

end Text.Utf8

theorem Bytes.size_slice_add_le (d : Bytes) (start : Int) (length : Nat) :
    (Bytes.slice d start (start + length)).size ≤ length := by
  rw [Bytes.slice, Array.size_extract]
  unfold Bytes.bound
  split <;> split <;> omega

namespace Dex

/-- Once the length is read, so is the text, from as many bytes as there are of it. -/
theorem readString_of_read {d : Bytes} {offset : Int} {n k : Nat} (h : Leb128.read d offset = .ok (n, k)) :
    readString d offset = .ok (Text.Utf8.decode (Bytes.slice d (offset + k) (offset + k + n))) := by
  rw [readString, h]
  rfl

/-- A text that is written behind its length is read back, whatever stands before and behind it. Other bytes are
read as some text whenever the length is read, from wherever this is; the text has at most as many characters
as there are bytes in the slice, and the slice not more than the length says. -/
theorem text_read_back :
    (∀ (s : String) (p q : Bytes),
      readString (p ++ (Leb128.encode (Text.Utf8.encode s).size).toArray ++ Text.Utf8.encode s ++ q) p.size =
        .ok s) ∧
    ∀ (d : Bytes) (offset : Int) (n k : Nat), Leb128.read d offset = .ok (n, k) →
      ∃ t, readString d offset = .ok t ∧
        t.length ≤ (Bytes.slice d (offset + k) (offset + k + n)).size ∧
        (Bytes.slice d (offset + k) (offset + k + n)).size ≤ n := by
  constructor
  · intro s p q
    refine readString_of_holds ⟨p, q, ?_, rfl⟩
    rw [Sample.stringItem, ← Array.append_assoc]
  · intro d offset n k h
    exact ⟨_, readString_of_read h, Text.Utf8.length_decode_le _, Bytes.size_slice_add_le _ _ _⟩

/-- A length of five before the first two bytes of a character of three, at the end of the data: the two bytes are
one ill-formed run. -/
theorem broken_text_read :
    Leb128.read #[65, 5, 0xE2, 0x82] 1 = .ok (5, 1) ∧
      ∃ t, readString #[65, 5, 0xE2, 0x82] 1 = .ok t ∧ t.length ≤ 2 ∧ t = "\uFFFD" := by
  have hread : Leb128.read #[65, 5, 0xE2, 0x82] 1 = .ok (5, 1) := rfl
  obtain ⟨t, ht, hlength, -⟩ := text_read_back.2 #[65, 5, 0xE2, 0x82] 1 5 1 hread
  refine ⟨hread, t, ht, hlength, ?_⟩
  obtain rfl := Except.ok.inj ((readString_of_read hread).symm.trans ht)
  decide +kernel

end Dex

end Handset
