import Handset.Number.Decimal
import Handset.Number.Reading
import Mathlib.Algebra.Order.Ring.Rat
import Mathlib.Algebra.Order.Field.Power
import Mathlib.Tactic.IntervalCases
import Mathlib.Tactic.Linarith
import Mathlib.Tactic.Ring

/-!
# Decimal numerals

Digits before a point, digits after it and a power of ten. A numeral that is written and read back gives the
digits and the power that were written.
-/
namespace Handset.Number

/-! ### Digits -/

theorem ofDigits_append (cs ds : List Char) : ofDigits (cs ++ ds) = ofDigits cs * 10 ^ ds.length + ofDigits ds := by
  change Nat.ofDigitChars 10 (cs ++ ds) 0 = Nat.ofDigitChars 10 cs 0 * 10 ^ ds.length + Nat.ofDigitChars 10 ds 0
  rw [Nat.ofDigitChars_append, Nat.ofDigitChars_eq_ofDigitChars_zero, Nat.mul_comm]

theorem ofDigits_toDigits (n : Nat) : ofDigits (Nat.toDigits 10 n) = n := Nat.ofDigitChars_ten_toDigits

theorem ofDigits_replicate_zero (k : Nat) : ofDigits (List.replicate k '0') = 0 :=
  Nat.ofDigitChars_replicate_zero.trans (Nat.mul_zero _)

theorem ofDigits_zeros_append (k : Nat) (ds : List Char) : ofDigits (List.replicate k '0' ++ ds) = ofDigits ds := by
  rw [ofDigits_append, ofDigits_replicate_zero, Nat.zero_mul, Nat.zero_add]

theorem ofDigits_append_zeros (ds : List Char) (k : Nat) :
    ofDigits (ds ++ List.replicate k '0') = ofDigits ds * 10 ^ k := by
  rw [ofDigits_append, ofDigits_replicate_zero, Nat.add_zero, List.length_replicate]

theorem isDigit_of_mem_zeros {c : Char} {k : Nat} (hc : c ∈ List.replicate k '0') : c.isDigit = true := by
  rw [(List.mem_replicate.mp hc).2]
  rfl

theorem isDigit_of_mem_zero {c : Char} (hc : c ∈ ['0']) : c.isDigit = true :=
  isDigit_of_mem_zeros (k := 1) hc

theorem ofDigits_lt {ds : List Char} (hds : ∀ c ∈ ds, c.isDigit = true) : ofDigits ds < 10 ^ ds.length := by
  induction ds with
  | nil => exact Nat.one_pos
  | cons c cs ih =>
    have hdigit := hds c List.mem_cons_self
    rw [Char.isDigit, Bool.and_eq_true, decide_eq_true_iff, decide_eq_true_iff] at hdigit
    have hle : c.toNat ≤ 0x39 := hdigit.2
    have hone : ofDigits [c] = c.toNat - 0x30 := by
      change 10 * 0 + (c.toNat - 0x30) = _
      omega
    have hrest := ih fun c hc => hds c (List.mem_cons_of_mem _ hc)
    have hfirst : (c.toNat - 0x30) * 10 ^ cs.length ≤ 9 * 10 ^ cs.length := Nat.mul_le_mul_right _ (by omega)
    have happend := ofDigits_append [c] cs
    rw [List.singleton_append, hone] at happend
    rw [happend, List.length_cons, pow_succ]
    omega

theorem head?_toDigits {n : Nat} (hn : 0 < n) : (Nat.toDigits 10 n).head? ≠ some '0' := by
  induction n using Nat.strongRecOn with
  | ind n ih =>
    rw [Nat.toDigits_eq_if (by decide)]
    split
    next hlt =>
      intro h
      have hdigit := Option.some.inj h
      interval_cases n <;> exact absurd hdigit (by decide)
    next hge =>
      have hfront := ih (n / 10) (by omega) (by omega)
      obtain ⟨c, cs, hc⟩ := List.exists_cons_of_ne_nil (@Nat.toDigits_ne_nil (n / 10) 10)
      rw [hc] at hfront ⊢
      exact hfront

theorem digitsOf_bounds {n : Nat} (hn : 0 < n) :
    10 ^ ((Nat.toDigits 10 n).length - 1) ≤ n ∧ n < 10 ^ (Nat.toDigits 10 n).length := by
  have hpos := @Nat.length_toDigits_pos 10 n
  refine ⟨?_, (Nat.length_toDigits_le_iff (by decide) hpos).mp le_rfl⟩
  rcases Nat.eq_or_lt_of_le hpos with hone | hmore
  · rw [← hone]
    exact hn
  · apply Nat.le_of_not_lt
    intro hshort
    have := (@Nat.length_toDigits_le_iff 10 n _ (by decide) (by omega)).mpr hshort
    omega

/-- The digits in front are read, up to the first character that is none. -/
theorem takeWhile_digits {ds rest : List Char} (hds : ∀ c ∈ ds, c.isDigit = true)
    (hrest : ∀ c ∈ rest.head?, c.isDigit = false) :
    (ds ++ rest).takeWhile Char.isDigit = ds ∧ (ds ++ rest).dropWhile Char.isDigit = rest := by
  rw [List.takeWhile_append_of_pos hds, List.dropWhile_append_of_pos hds]
  cases rest with
  | nil => exact ⟨List.append_nil _, rfl⟩
  | cons c rest =>
    have hc : ¬ c.isDigit = true := by rw [hrest c rfl]; decide
    rw [List.takeWhile_cons_of_neg hc, List.dropWhile_cons_of_neg hc]
    exact ⟨List.append_nil _, rfl⟩

theorem toLower_digit {c : Char} (h : c.isDigit = true) : c.toLower = c := by
  rw [Char.isDigit, Bool.and_eq_true, decide_eq_true_iff, decide_eq_true_iff] at h
  unfold Char.toLower
  rw [dif_neg]
  rintro ⟨hup, -⟩
  exact absurd (UInt32.le_trans hup h.2) (by decide)

/-! ### Numerals -/

/-- A decimal numeral with a point or a power of ten, its sign apart. No zero stands in front of other digits. -/
structure Numeral where
  whole : List Char
  places : List Char
  power : Option Int
  whole_ne_nil : whole ≠ []
  isDigit_whole : ∀ c ∈ whole, c.isDigit = true
  isDigit_places : ∀ c ∈ places, c.isDigit = true
  leading : whole = ['0'] ∨ whole.head? ≠ some '0'
  marked : places ≠ [] ∨ power ≠ none

namespace Numeral

variable (n : Numeral)

def powerChars : Option Int → List Char
  | none => []
  | some e => 'e' :: (if e < 0 then '-' else '+') :: (Double.exponentText e.natAbs).toList

def placesChars : List Char → List Char
  | [] => []
  | c :: cs => '.' :: c :: cs

def chars : List Char :=
  n.whole ++ (placesChars n.places ++ powerChars n.power)

def digits : Nat :=
  ofDigits (n.whole ++ n.places)

/-- The power of ten that the last digit stands for. -/
def exponent : Int :=
  n.power.getD 0 - n.places.length

/-- The number that the numeral stands for. -/
def worth : ℚ :=
  n.digits * 10 ^ n.exponent

variable {n}

theorem chars_of_places_ne_nil (h : n.places ≠ []) :
    n.chars = n.whole ++ ('.' :: n.places ++ powerChars n.power) := by
  obtain ⟨c, cs, hc⟩ := List.exists_cons_of_ne_nil h
  rw [chars, hc]
  rfl

/-- Zeros at the end of the digits are made up for by the power. -/
theorem worth_eq {ds : List Char} {e : Int} {k : Nat} (hdigits : n.digits = ofDigits ds * 10 ^ k)
    (hexponent : n.exponent + k = e) : n.worth = ofDigits ds * 10 ^ e := by
  rw [worth, hdigits, ← hexponent, zpow_add₀ (by norm_num), zpow_natCast]
  push_cast
  ring

end Numeral

theorem exponentText_spec (e : Nat) :
    (Double.exponentText e).toList ≠ [] ∧ (∀ c ∈ (Double.exponentText e).toList, c.isDigit = true) ∧
      ofDigits (Double.exponentText e).toList = e := by
  have hdigits : (toString e).toList = Nat.toDigits 10 e := by
    rw [Nat.toString_eq_ofList_toDigits, String.toList_ofList]
  unfold Double.exponentText
  split
  · have hzero : s!"0{e}".toList = ['0'] ++ Nat.toDigits 10 e := by
      rw [String.toList_append, hdigits]
      rfl
    rw [hzero]
    refine ⟨List.cons_ne_nil _ _, fun c hc => ?_, ?_⟩
    · rcases List.mem_cons.mp hc with rfl | hc
      · rfl
      · exact Nat.isDigit_of_mem_toDigits (by decide) (by decide) hc
    · have hnone : ofDigits ['0'] = 0 := rfl
      rw [ofDigits_append, ofDigits_toDigits, hnone, Nat.zero_mul, Nat.zero_add]
  · rw [hdigits]
    exact ⟨Nat.toDigits_ne_nil, fun c hc => Nat.isDigit_of_mem_toDigits (by decide) (by decide) hc,
      ofDigits_toDigits e⟩

theorem readExponent?_digits {ds : List Char} (hne : ds ≠ []) (hds : ∀ c ∈ ds, c.isDigit = true) :
    readExponent? ('e' :: '-' :: ds) = some (-(ofDigits ds : Int)) ∧
      readExponent? ('e' :: '+' :: ds) = some ((ofDigits ds : Nat) : Int) := by
  have hall : ds.all Char.isDigit = true := List.all_eq_true.mpr hds
  have hempty : ds.isEmpty = false := List.isEmpty_eq_false_iff.mpr hne
  constructor
  · change (if ds.isEmpty || !ds.all Char.isDigit then none else some (-(ofDigits ds : Int))) = _
    rw [hall, hempty]
    rfl
  · change (if ds.isEmpty || !ds.all Char.isDigit then none else some ((ofDigits ds : Nat) : Int)) = _
    rw [hall, hempty]
    rfl

theorem readExponent?_powerChars (power : Option Int) :
    readExponent? (Numeral.powerChars power) = some (power.getD 0) := by
  cases power with
  | none => rfl
  | some e =>
    obtain ⟨hne, hdigits, hvalue⟩ := exponentText_spec e.natAbs
    obtain ⟨hminus, hplus⟩ := readExponent?_digits hne hdigits
    rw [Numeral.powerChars]
    split
    next hneg =>
      rw [hminus, hvalue, Option.getD_some]
      congr 1
      omega
    next hneg =>
      rw [hplus, hvalue, Option.getD_some]
      congr 1
      omega

theorem head?_powerChars (power : Option Int) : ∀ c ∈ (Numeral.powerChars power).head?, c = 'e' := by
  cases power with
  | none => nofun
  | some e =>
    intro c hc
    exact (Option.some.inj hc).symm

theorem head?_placesChars_append (n : Numeral) :
    ∀ c ∈ (Numeral.placesChars n.places ++ Numeral.powerChars n.power).head?, c = '.' ∨ c = 'e' := by
  intro c hc
  cases hplaces : n.places with
  | nil =>
    rw [hplaces] at hc
    exact .inr (head?_powerChars n.power c hc)
  | cons p ps =>
    rw [hplaces] at hc
    exact .inl (Option.some.inj hc).symm

/-- No numeral reads as the name of a number. -/
theorem map_toLower_chars_ne (n : Numeral) {first : Char} {word : List Char} (hfirst : first.isDigit = false) :
    n.chars.map Char.toLower ≠ first :: word := by
  intro h
  obtain ⟨c, cs, hc⟩ := List.exists_cons_of_ne_nil n.whole_ne_nil
  have hdigit := n.isDigit_whole c (by rw [hc]; exact List.mem_cons_self)
  rw [Numeral.chars, hc, List.cons_append, List.map_cons, toLower_digit hdigit] at h
  rw [(List.cons.inj h).1, hfirst] at hdigit
  cases hdigit

theorem readUnsigned?_chars (n : Numeral) (negative : Bool) :
    readUnsigned? negative n.chars = some (ofScientific negative n.digits n.exponent) := by
  have hname {first : Char} {cs : List Char} (word : String) (hword : word.toList = first :: cs)
      (hfirst : first.isDigit = false) : (String.ofList (n.chars.map Char.toLower) == word) = false := by
    rw [beq_eq_false_iff_ne]
    intro heq
    apply map_toLower_chars_ne n hfirst
    rw [← hword, ← heq, String.toList_ofList]
  obtain ⟨hwhole, hrest⟩ := takeWhile_digits n.isDigit_whole fun c hc => by
    rcases head?_placesChars_append n c hc with rfl | rfl <;> rfl
  obtain ⟨hplaces, hpower⟩ := takeWhile_digits n.isDigit_places fun c hc => by
    rw [head?_powerChars n.power c hc]
    rfl
  have hsome : n.whole.isEmpty = false := List.isEmpty_eq_false_iff.mpr n.whole_ne_nil
  unfold readUnsigned?
  dsimp only
  rw [hname "inf" rfl rfl, hname "infinity" rfl rfl, hname "nan" rfl rfl, Bool.or_self,
    if_neg Bool.false_ne_true, if_neg Bool.false_ne_true]
  rw [Numeral.chars, hwhole, hrest, hsome]
  rw [Bool.false_and, if_neg Bool.false_ne_true, Numeral.digits, Numeral.exponent]
  rcases hplace : n.places with _ | ⟨p, ps⟩
  · rcases hpow : n.power with _ | e
    · exact absurd hpow (n.marked.resolve_left (not_not_intro hplace))
    · change (readExponent? (Numeral.powerChars (some e))).map _ = _
      rw [readExponent?_powerChars]
      rfl
  · change (readExponent? (((p :: ps) ++ Numeral.powerChars n.power).dropWhile Char.isDigit)).map (fun e =>
      ofScientific negative (ofDigits (n.whole ++ ((p :: ps) ++ Numeral.powerChars n.power).takeWhile Char.isDigit))
        (e - (((p :: ps) ++ Numeral.powerChars n.power).takeWhile Char.isDigit).length)) = _
    rw [← hplace, hplaces, hpower, readExponent?_powerChars]
    rfl

end Handset.Number
