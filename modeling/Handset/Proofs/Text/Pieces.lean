import Handset.Text.Pieces

/-!
# Texts and their pieces

Cutting a text at ends gives one piece more than there are ends. A part that holds no end stands in the text
exactly if it stands in one of the pieces, so to look for it line by line is to look for it in the whole.
-/
namespace Handset

namespace Text

variable {isEnd : Char → Bool} {c : Char} {rest : List Char}

theorem cutAll_of_end (hc : isEnd c = true) : cutAll isEnd (c :: rest) = [] :: cutAll isEnd rest := by
  rw [cutAll, if_pos hc]

theorem cutAll_of_not_end {p : List Char} {more : List (List Char)} (hc : ¬isEnd c = true)
    (hcut : cutAll isEnd rest = p :: more) : cutAll isEnd (c :: rest) = (c :: p) :: more := by
  rw [cutAll, if_neg hc, hcut]

/-- The first piece is what stands before the first end. -/
theorem exists_cutAll (isEnd : Char → Bool) (cs : List Char) :
    ∃ more, cutAll isEnd cs = cs.takeWhile (!isEnd ·) :: more := by
  induction cs with
  | nil => exact ⟨[], rfl⟩
  | cons c rest ih =>
    obtain ⟨more, hcut⟩ := ih
    by_cases hc : isEnd c = true
    · exact ⟨cutAll isEnd rest, by rw [cutAll_of_end hc, List.takeWhile_cons_of_neg (by simpa using hc)]⟩
    · exact ⟨more, by rw [cutAll_of_not_end hc hcut, List.takeWhile_cons_of_pos (by simpa using hc)]⟩

theorem length_cutAll (isEnd : Char → Bool) (cs : List Char) :
    (cutAll isEnd cs).length = cs.countP isEnd + 1 := by
  induction cs with
  | nil => rfl
  | cons c rest ih =>
    by_cases hc : isEnd c = true
    · rw [cutAll_of_end hc, List.length_cons, ih, List.countP_cons_of_pos hc]
    · obtain ⟨more, hcut⟩ := exists_cutAll isEnd rest
      rw [cutAll_of_not_end hc hcut, List.countP_cons_of_neg hc, ← ih, hcut]
      rfl

theorem isPrefixOf_takeWhile {part : List Char} (hpart : ∀ c ∈ part, isEnd c = false) (cs : List Char) :
    part.isPrefixOf (cs.takeWhile (!isEnd ·)) = part.isPrefixOf cs := by
  induction part generalizing cs with
  | nil => rfl
  | cons a part ih =>
    obtain ⟨ha, hrest⟩ := List.forall_mem_cons.mp hpart
    cases cs with
    | nil => rfl
    | cons c rest =>
      by_cases hc : isEnd c = true
      · have hne : (a == c) = false := by
          rw [beq_eq_false_iff_ne]
          rintro rfl
          exact Bool.false_ne_true (ha.symm.trans hc)
        simp [hc, List.isPrefixOf, hne]
      · rw [List.takeWhile_cons_of_pos (by simpa using hc), List.isPrefixOf, List.isPrefixOf, ih hrest]

/-- A part without ends stands in a text if it stands in one of its pieces. -/
theorem occurs_eq_any_cutAll {part : List Char} (hne : part ≠ []) (hpart : ∀ c ∈ part, isEnd c = false)
    (cs : List Char) : occurs part cs = (cutAll isEnd cs).any (occurs part) := by
  have hblank : occurs part [] = false := by simpa [occurs] using hne
  induction cs with
  | nil => simp [cutAll, hblank]
  | cons c rest ih =>
    rw [occurs, ← isPrefixOf_takeWhile hpart]
    by_cases hc : isEnd c = true
    · have hhead : part.isPrefixOf ([] : List Char) = false := by
        cases part with
        | nil => exact absurd rfl hne
        | cons a part => rfl
      rw [cutAll_of_end hc, List.takeWhile_cons_of_neg (by simpa using hc), List.any_cons, hhead, hblank, ih]
    · obtain ⟨more, hcut⟩ := exists_cutAll isEnd rest
      rw [cutAll_of_not_end hc hcut, List.takeWhile_cons_of_pos (by simpa using hc), ih, hcut, List.any_cons,
        List.any_cons, occurs, Bool.or_assoc]

theorem find?_holds_eq_none_iff {s mark : String} (hne : mark.toList ≠ []) (hmark : '\n' ∉ mark.toList) :
    (splitAt '\n' s).find? (holds · mark) = none ↔ holds s mark = false := by
  have hpart : ∀ c ∈ mark.toList, (c == '\n') = false := by
    intro c hc
    rw [beq_eq_false_iff_ne]
    rintro rfl
    exact hmark hc
  rw [holds, occurs_eq_any_cutAll hne hpart, List.any_eq_false, List.find?_eq_none, splitAt]
  simp [holds]

theorem tail_splitAt_eq_nil_iff {s : String} : (splitAt '\n' s).tail = [] ↔ '\n' ∉ s.toList := by
  rw [← List.length_eq_zero_iff, List.length_tail, splitAt, List.length_map, length_cutAll,
    Nat.add_sub_cancel, List.countP_eq_zero]
  simp only [beq_iff_eq, List.forall_mem_ne']

end Text

end Handset
