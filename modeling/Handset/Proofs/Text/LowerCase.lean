import Handset.Text.LetterCase
import Mathlib

/-!
# Lower case is final

Every character stands for itself in lower case or is replaced by characters that do. What replaces a character is
never a blank, a digit or a sign of ASCII, so these come only from themselves. That the ranges of the table keep apart
is checked range by range.
-/
namespace Handset.Text

/-- What is said of every character of a text is decided along the text, not by trying all characters. -/
instance decidableForallChar (p : Char → Prop) [DecidablePred p] (cs : List Char) : Decidable (∀ c ∈ cs, p c) :=
  List.decidableBAll p cs

instance decidableForallCharOf (p : Char → Prop) [DecidablePred p] (c? : Option Char) : Decidable (∀ c ∈ c?, p c) :=
  Option.decidableForallMem c?

/-- What is checked code by code holds of all characters with these codes. -/
@[elab_as_elim] theorem of_codes {P : Char → Prop} {bound : Nat} {c : Char} (hc : c.toNat < bound)
    (h : ∀ n < bound, P (Char.ofNat n)) : P c := by
  have hcode := h c.toNat hc
  rwa [Char.ofNat_toNat] at hcode

namespace LetterCase

open Character (isBlank blankRanges isDigit zeros otherDigitRanges decimalValue? inRanges)

variable {x c : Char} {cs before : List Char}

/-- The character stands for itself in lower case. -/
def Unmoved (x : Char) : Prop :=
  x ≠ 'Σ' ∧ lowerChar x = [x]

/-- A character that may replace others: it stands for itself, and it is no blank and none of the first characters
of ASCII, up to the small letters. -/
structure Settled (x : Char) : Prop where
  unmoved : Unmoved x
  letter : 0x61 ≤ x.toNat
  not_blank : isBlank x = false

/-! ### The table -/

def moved (n : Nat) (distance : Int) : Nat :=
  ((n : Int) + distance).toNat

/-- Where no replacement may lie: the blanks, the first characters of ASCII, the letter with two characters for its
lower case, and what is no character. -/
def barred : List (Nat × Nat) :=
  (0, 0x60) :: (0x130, 0x130) :: (0xD800, 0xDFFF) :: blankRanges

/-- Do the replacements of the first range lie outside the second range? Where both have every other code point, they
may be interleaved. -/
def keepsApart (r s : Range) : Bool :=
  moved r.2.1 r.2.2.2 < s.1 || s.2.1 < moved r.1 r.2.2.2 ||
    ((r.2.2.1 == 2 || r.1 == r.2.1) && s.2.2.1 == 2 && (moved r.1 r.2.2.2 + s.1) % 2 == 1)

theorem lowerRanges_kept_apart :
    (lowerRanges.all fun r => moved r.2.1 r.2.2.2 < 0x110000 &&
      (barred.all fun b => moved r.2.1 r.2.2.2 < b.1 || b.2 < moved r.1 r.2.2.2) &&
      lowerRanges.all (keepsApart r)) = true := by decide +kernel

def Range.has (r : Range) (n : Nat) : Bool :=
  r.1 ≤ n && n ≤ r.2.1 && (n - r.1) % r.2.2.1 == 0

/-- Outside ASCII the table decides. -/
theorem lowerChar_eq (hcode : 128 ≤ c.toNat) (hexpansion : c.toNat ≠ 0x130) :
    lowerChar c =
      (lowerRanges.find? (Range.has · c.toNat)).elim [c] fun r => [Char.ofNat (moved c.toNat r.2.2.2)] := by
  have hfirst : lowerExpansions.find? (·.1 == c.toNat) = none := by
    simpa [lowerExpansions] using Ne.symm hexpansion
  rw [lowerChar, if_neg (by omega)]
  dsimp only [mapped?]
  rw [hfirst]
  dsimp only
  generalize hfound : List.find? _ lowerRanges = found
  have hhas : lowerRanges.find? (Range.has · c.toNat) = found := hfound
  rw [hhas]
  cases found <;> rfl

theorem lowerChar_dotted : lowerChar (Char.ofNat 0x130) = [Char.ofNat 0x69, Char.ofNat 0x307] := by decide

theorem unmoved_of_ascii (hlow : 0x61 ≤ c.toNat) (hhigh : c.toNat < 128) : Unmoved c := by
  have hlower : 0x61 ≤ c.toNat → c.toLower = c := of_codes hhigh (by decide)
  refine ⟨?_, by rw [lowerChar, if_pos hhigh, hlower hlow]⟩
  rintro rfl
  exact absurd hhigh (by decide)

section Replacements

variable {r : Range} {n : Nat}

theorem not_barred (hr : r ∈ lowerRanges) (hn : r.has n = true) {b : Nat × Nat} (hb : b ∈ barred) :
    ¬ (b.1 ≤ moved n r.2.2.2 ∧ moved n r.2.2.2 ≤ b.2) := by
  have hrow := List.all_eq_true.mp lowerRanges_kept_apart r hr
  simp only [Bool.and_eq_true] at hrow
  have hb := List.all_eq_true.mp hrow.1.2 b hb
  simp only [Bool.or_eq_true, decide_eq_true_eq] at hb
  simp only [Range.has, Bool.and_eq_true, decide_eq_true_eq] at hn
  unfold moved at hb ⊢
  omega

/-- A replacement is in no range of the table. -/
theorem find?_moved (hr : r ∈ lowerRanges) (hn : r.has n = true) :
    lowerRanges.find? (Range.has · (moved n r.2.2.2)) = none := by
  have hrow := List.all_eq_true.mp lowerRanges_kept_apart r hr
  simp only [Bool.and_eq_true] at hrow
  have hstart : 0x60 < moved r.1 r.2.2.2 := by
    simpa using List.all_eq_true.mp hrow.1.2 (0, 0x60) (by decide)
  rw [List.find?_eq_none]
  intro s hs hhas
  have hs := List.all_eq_true.mp hrow.2 s hs
  simp only [keepsApart, Bool.or_eq_true, Bool.and_eq_true, decide_eq_true_eq, beq_iff_eq] at hs
  simp only [Range.has, Bool.and_eq_true, decide_eq_true_eq, beq_iff_eq] at hhas hn
  unfold moved at hs hhas hstart
  rcases hs with (hs | hs) | ⟨⟨hstep, htwo⟩, hodd⟩
  · omega
  · omega
  · rw [htwo] at hhas
    rcases hstep with hstep | hstep
    · rw [hstep] at hn
      omega
    · omega

theorem toNat_moved (hr : r ∈ lowerRanges) (hn : r.has n = true) :
    (Char.ofNat (moved n r.2.2.2)).toNat = moved n r.2.2.2 := by
  have hrow := List.all_eq_true.mp lowerRanges_kept_apart r hr
  simp only [Bool.and_eq_true, decide_eq_true_eq] at hrow
  have hmost := hrow.1.1
  have hsurrogate := not_barred hr hn (b := (0xD800, 0xDFFF)) (by decide)
  simp only [Range.has, Bool.and_eq_true, decide_eq_true_eq] at hn
  rw [Char.toNat_ofNat, if_pos]
  unfold moved at hmost hsurrogate ⊢
  unfold Nat.isValidChar
  omega

theorem settled_of_range (hr : r ∈ lowerRanges) (hn : r.has n = true) : Settled (Char.ofNat (moved n r.2.2.2)) := by
  have hfirst := not_barred hr hn (b := (0, 0x60)) (by decide)
  have hcode := toNat_moved hr hn
  have hnone := find?_moved hr hn
  have hunmoved : Unmoved (Char.ofNat (moved n r.2.2.2)) := by
    by_cases hascii : moved n r.2.2.2 < 128
    · exact unmoved_of_ascii (by omega) (by omega)
    · have hexpansion := not_barred hr hn (b := (0x130, 0x130)) (by decide)
      refine ⟨?_, by rw [lowerChar_eq (by omega) (by omega), hcode, hnone]; rfl⟩
      intro hsigma
      rw [hsigma] at hcode
      rw [← hcode] at hnone
      exact List.find?_eq_none.mp hnone (0x3A3, 0x3AB, 1, 32) (by decide) (by decide)
  refine ⟨hunmoved, by omega, ?_⟩
  rw [isBlank, Character.inRanges, hcode, List.any_eq_false]
  intro b hb
  have := not_barred hr hn (List.mem_cons_of_mem _ (List.mem_cons_of_mem _ (List.mem_cons_of_mem _ hb)))
  simpa using this

end Replacements

theorem lowerChar_cases (c : Char) : lowerChar c = [c] ∨ lowerChar c ≠ [] ∧ ∀ x ∈ lowerChar c, Settled x := by
  by_cases hascii : c.toNat < 128
  · have hlower : c.toLower = c ∨ 0x61 ≤ c.toLower.toNat ∧ c.toLower.toNat < 128 ∧ isBlank c.toLower = false :=
      of_codes hascii (by decide)
    rw [lowerChar, if_pos hascii]
    refine hlower.imp (congrArg fun x => [x]) fun ⟨hlow, hhigh, hblank⟩ => ⟨List.cons_ne_nil _ _, ?_⟩
    simpa using Settled.mk (unmoved_of_ascii hlow hhigh) hlow hblank
  · by_cases hexpansion : c.toNat = 0x130
    · obtain rfl : c = Char.ofNat 0x130 := by rw [← hexpansion, Char.ofNat_toNat]
      have hdot : lowerRanges.find? (Range.has · (Char.ofNat 0x307).toNat) = none := by decide
      have hmark : Unmoved (Char.ofNat 0x307) :=
        ⟨by decide, by rw [lowerChar_eq (by decide) (by decide), hdot]; rfl⟩
      rw [lowerChar_dotted]
      refine .inr ⟨List.cons_ne_nil _ _, ?_⟩
      simpa using And.intro (Settled.mk (unmoved_of_ascii (by decide) (by decide)) (by decide) (by decide))
        (Settled.mk hmark (by decide) (by decide))
    · rw [lowerChar_eq (by omega) hexpansion]
      cases hfound : lowerRanges.find? (Range.has · c.toNat) with
      | none => exact .inl rfl
      | some r =>
        refine .inr ⟨List.cons_ne_nil _ _, ?_⟩
        simpa using settled_of_range (List.mem_of_find?_eq_some hfound)
          (List.find?_some (p := (Range.has · c.toNat)) hfound)

/-! ### Texts -/

/-- What stands in lower case for the first of some characters is this character itself, or all of it is settled. -/
theorem exists_lowerFrom_cons (before : List Char) (c : Char) (cs : List Char) :
    ∃ piece, lowerFrom before (c :: cs) = piece ++ lowerFrom (c :: before) cs ∧
      (Unmoved c ∧ piece = [c] ∨ piece ≠ [] ∧ ∀ x ∈ piece, Settled x) := by
  by_cases hsigma : c = 'Σ'
  · have hsmall : Settled 'ς' ∧ Settled 'σ' := by
      have hnone : lowerRanges.find? (Range.has · 'ς'.toNat) = none ∧
          lowerRanges.find? (Range.has · 'σ'.toNat) = none := by decide
      exact ⟨⟨⟨by decide, by rw [lowerChar_eq (by decide) (by decide), hnone.1]; rfl⟩, by decide, by decide⟩,
        ⟨by decide, by rw [lowerChar_eq (by decide) (by decide), hnone.2]; rfl⟩, by decide, by decide⟩
    refine ⟨[lowerSigma before cs], by rw [lowerFrom, if_pos hsigma], .inr ⟨List.cons_ne_nil _ _, ?_⟩⟩
    rw [List.forall_mem_singleton, lowerSigma]
    split
    · exact hsmall.1
    · exact hsmall.2
  · exact ⟨lowerChar c, by rw [lowerFrom, if_neg hsigma], (lowerChar_cases c).imp_left fun h => ⟨⟨hsigma, h⟩, h⟩⟩

theorem mem_lowerFrom (h : x ∈ lowerFrom before cs) : Unmoved x ∧ (x ∈ cs ∨ Settled x) := by
  induction cs generalizing before with
  | nil => cases h
  | cons c cs ih =>
    obtain ⟨piece, heq, hpiece⟩ := exists_lowerFrom_cons before c cs
    rw [heq, List.mem_append] at h
    rcases h with h | h
    · rcases hpiece with ⟨hc, rfl⟩ | ⟨-, hpiece⟩
      · obtain rfl := List.mem_singleton.mp h
        exact ⟨hc, .inl List.mem_cons_self⟩
      · exact ⟨(hpiece x h).unmoved, .inr (hpiece x h)⟩
    · exact ⟨(ih h).1, (ih h).2.imp_left (List.mem_cons_of_mem _)⟩

theorem lowerFrom_of_unmoved (h : ∀ c ∈ cs, Unmoved c) (before : List Char) : lowerFrom before cs = cs := by
  induction cs generalizing before with
  | nil => rfl
  | cons c cs ih =>
    obtain ⟨⟨hsigma, hc⟩, hcs⟩ := List.forall_mem_cons.mp h
    rw [lowerFrom, if_neg hsigma, hc, ih hcs]
    rfl

theorem lower_of_unmoved {s : String} (h : ∀ c ∈ s.toList, Unmoved c) : lower s = s := by
  rw [lower, lowerFrom_of_unmoved h, String.ofList_toList]

theorem lower_lower (s : String) : lower (lower s) = lower s := by
  apply lower_of_unmoved
  intro c hc
  rw [lower, String.toList_ofList] at hc
  exact (mem_lowerFrom hc).1

/-- The first character of a text in lower case is the first one of the text, or settled. -/
theorem head?_lowerFrom {P : Char → Prop} (hsettled : ∀ x, Settled x → P x) (h : ∀ x ∈ cs.head?, P x) :
    ∀ x ∈ (lowerFrom before cs).head?, P x := by
  cases cs with
  | nil => exact h
  | cons c cs =>
    obtain ⟨piece, heq, ⟨-, rfl⟩ | ⟨hne, hpiece⟩⟩ := exists_lowerFrom_cons before c cs
    · rw [heq]
      exact h
    · obtain ⟨y, ys, rfl⟩ := List.exists_cons_of_ne_nil hne
      rw [heq]
      rintro x ⟨⟩
      exact hsettled y (hpiece y List.mem_cons_self)

theorem lowerFrom_ne_nil (h : cs ≠ []) : lowerFrom before cs ≠ [] := by
  obtain ⟨c, cs, rfl⟩ := List.exists_cons_of_ne_nil h
  obtain ⟨piece, heq, ⟨-, rfl⟩ | ⟨hne, -⟩⟩ := exists_lowerFrom_cons before c cs
  · rw [heq]
    exact List.cons_ne_nil _ _
  · rw [heq]
    exact List.append_ne_nil_of_left_ne_nil hne _

/-- The last character of a text in lower case is the last one of the text, or settled. -/
theorem getLast?_lowerFrom {P : Char → Prop} (hsettled : ∀ x, Settled x → P x) (h : ∀ x ∈ cs.getLast?, P x) :
    ∀ x ∈ (lowerFrom before cs).getLast?, P x := by
  induction cs generalizing before with
  | nil => exact h
  | cons c cs ih =>
    obtain ⟨piece, heq, hpiece⟩ := exists_lowerFrom_cons before c cs
    rw [heq, List.getLast?_append]
    cases cs with
    | nil =>
      rcases hpiece with ⟨-, rfl⟩ | ⟨-, hpiece⟩
      · exact h
      · intro x hx
        exact hsettled x (hpiece x (List.mem_of_getLast? hx))
    | cons d cs =>
      have hrest := @ih (c :: before) (by simpa using h)
      cases hlast : (lowerFrom (c :: before) (d :: cs)).getLast? with
      | none => exact absurd (List.getLast?_eq_none_iff.mp hlast) (lowerFrom_ne_nil (List.cons_ne_nil d cs))
      | some y =>
        rw [hlast] at hrest
        exact hrest

/-- A sign behind the first character in lower case stands behind the first one of the text. -/
theorem mem_of_mem_drop_lowerFrom (hx : x.toNat < 0x61) (h : x ∈ (lowerFrom before (c :: cs)).drop 1) : x ∈ cs := by
  have hnot : ¬ Settled x := fun hsettled => absurd hsettled.letter (by omega)
  obtain ⟨piece, heq, hpiece⟩ := exists_lowerFrom_cons before c cs
  have hrest (h : x ∈ lowerFrom (c :: before) cs) : x ∈ cs := (mem_lowerFrom h).2.resolve_right hnot
  rw [heq] at h
  rcases hpiece with ⟨-, rfl⟩ | ⟨hne, hpiece⟩
  · exact hrest h
  · obtain ⟨y, ys, rfl⟩ := List.exists_cons_of_ne_nil hne
    rcases List.mem_append.mp h with h | h
    · exact absurd (hpiece x (List.mem_cons_of_mem _ h)) hnot
    · exact hrest h

/-! ### Digits, and where a letter comes from -/

/-- All digits, decimal ones and others. -/
def digitRanges : List (Nat × Nat) :=
  zeros.map (fun start => (start, start + 9)) ++ otherDigitRanges

theorem exists_digitRange (h : isDigit c = true) : ∃ b ∈ digitRanges, b.1 ≤ c.toNat ∧ c.toNat ≤ b.2 := by
  have hranges : (∃ start ∈ zeros, start ≤ c.toNat ∧ c.toNat < start + 10) ∨
      ∃ b ∈ otherDigitRanges, b.1 ≤ c.toNat ∧ c.toNat ≤ b.2 := by
    simpa [isDigit, decimalValue?, inRanges] using h
  rcases hranges with ⟨start, hstart, hcode⟩ | ⟨b, hb, hcode⟩
  · exact ⟨(start, start + 9), List.mem_append_left _ (List.mem_map_of_mem hstart), hcode.1, Nat.le_of_lt_succ hcode.2⟩
  · exact ⟨b, List.mem_append_right _ hb, hcode⟩

theorem isBlank_of_isDigit (h : isDigit c = true) : isBlank c = false := by
  have hranges : (digitRanges.all fun b => blankRanges.all fun r => r.2 < b.1 || b.2 < r.1) = true := by
    decide
  obtain ⟨b, hb, hcode⟩ := exists_digitRange h
  have hrow := List.all_eq_true.mp hranges b hb
  rw [isBlank, inRanges, List.any_eq_false]
  intro r hr hin
  have := List.all_eq_true.mp hrow r hr
  simp only [Bool.and_eq_true, Bool.or_eq_true, decide_eq_true_eq] at hin this
  omega

/-- No digit has another lower case. -/
theorem lowerRanges_without_digits :
    (lowerRanges.all fun r => digitRanges.all fun b => r.2.1 < b.1 || b.2 < r.1) = true := by decide +kernel

theorem unmoved_of_isDigit (h : isDigit c = true) : Unmoved c := by
  obtain ⟨b, hb, hcode⟩ := exists_digitRange h
  have hsigma : isDigit 'Σ' = false := by decide
  have hne : c ≠ 'Σ' := by
    rintro rfl
    rw [hsigma] at h
    cases h
  refine ⟨hne, ?_⟩
  by_cases hascii : c.toNat < 128
  · have hlower : isDigit c = true → c.toLower = c := of_codes hascii (by decide)
    rw [lowerChar, if_pos hascii, hlower h]
  · have hdotted : isDigit (Char.ofNat 0x130) = false := by decide
    have hexpansion : c.toNat ≠ 0x130 := by
      intro hcode
      rw [← hcode, Char.ofNat_toNat, h] at hdotted
      cases hdotted
    have hnone : lowerRanges.find? (Range.has · c.toNat) = none := by
      rw [List.find?_eq_none]
      intro r hr hhas
      have hrow := List.all_eq_true.mp (List.all_eq_true.mp lowerRanges_without_digits r hr) b hb
      simp only [Range.has, Bool.and_eq_true, Bool.or_eq_true, decide_eq_true_eq, beq_iff_eq] at hrow hhas
      omega
    rw [lowerChar_eq (by omega) hexpansion, hnone]
    rfl

theorem notMem_lowerChar (hx : x = 'r' ∨ x = 's') (hcode : 128 ≤ c.toNat) : x ∉ lowerChar c := by
  have hletter : 0x72 ≤ x.toNat ∧ x.toNat ≤ 0x73 := by rcases hx with rfl | rfl <;> decide
  have hranges : (lowerRanges.all fun r =>
      r.2.1 < 128 || moved r.2.1 r.2.2.2 < 0x72 || 0x73 < moved r.1 r.2.2.2) = true := by decide
  by_cases hexpansion : c.toNat = 0x130
  · obtain rfl : c = Char.ofNat 0x130 := by rw [← hexpansion, Char.ofNat_toNat]
    rw [lowerChar_dotted]
    rcases hx with rfl | rfl <;> decide
  · rw [lowerChar_eq hcode hexpansion]
    cases hfound : lowerRanges.find? (Range.has · c.toNat) with
    | none =>
      intro hmem
      rw [List.mem_singleton.mp hmem] at hletter
      omega
    | some r =>
      intro hmem
      have hr := List.mem_of_find?_eq_some hfound
      have hhas := List.find?_some (p := (Range.has · c.toNat)) hfound
      have hrow := List.all_eq_true.mp hranges r hr
      rw [List.mem_singleton.mp hmem, toNat_moved hr hhas] at hletter
      simp only [Bool.or_eq_true, decide_eq_true_eq] at hrow
      simp only [Range.has, Bool.and_eq_true, decide_eq_true_eq, beq_iff_eq] at hhas
      unfold moved at hrow hletter
      omega

/-- The letters r and s come from no letters but those of ASCII. -/
theorem exists_of_mem_lowerFrom (hx : x = 'r' ∨ x = 's') (h : x ∈ lowerFrom before cs) :
    ∃ c ∈ cs, c.toNat < 128 ∧ c.toLower = x := by
  induction cs generalizing before with
  | nil => cases h
  | cons c cs ih =>
    rw [lowerFrom, List.mem_append] at h
    rcases h with h | h
    · have hsigma : x ∉ [lowerSigma before cs] := by
        rw [lowerSigma]
        rcases hx with rfl | rfl <;> split <;> decide
      split at h
      · exact absurd h hsigma
      · have hascii : c.toNat < 128 := Nat.lt_of_not_le fun hcode => notMem_lowerChar hx hcode h
        rw [lowerChar, if_pos hascii] at h
        exact ⟨c, List.mem_cons_self, hascii, (List.mem_singleton.mp h).symm⟩
    · obtain ⟨d, hd, hlower⟩ := ih h
      exact ⟨d, List.mem_cons_of_mem _ hd, hlower⟩

end LetterCase

end Handset.Text
