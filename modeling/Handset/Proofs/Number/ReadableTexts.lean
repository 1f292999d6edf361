import Handset.Proofs.Number.Numerals
import Handset.Proofs.Number.Rationals
import Handset.Proofs.Text.LowerCase

/-!
# Texts that read as numbers

What a text that reads as a number can hold, and which texts are sure to read as one: decimal digits of any script,
with a point among them or not. A digit that is no decimal digit is in no number.
-/
namespace Handset

namespace Double

theorem isNaN_ofFields (negative : Bool) {rest : Nat} (h : rest ≤ 2047 <<< 52) :
    (ofFields negative rest).isNaN = false := by
  have hbits : (ofFields negative rest).bits.toNat % 2 ^ 63 = rest := by
    rw [ofFields]
    dsimp only
    rw [UInt64.toNat_ofNat']
    split <;> omega
  rw [Bool.eq_false_iff]
  intro hnan
  rw [isNaN, Bool.and_eq_true, beq_iff_eq, bne_iff_ne, exponentField_eq, fraction_eq] at hnan
  omega

theorem isNaN_ofScientific (negative : Bool) (digits : Nat) (exponent : Int) :
    (Number.ofScientific negative digits exponent).isNaN = false := by
  have hratio (num den : Nat) : ((ofRatio? negative num den).getD (infinity negative)).isNaN = false := by
    unfold ofRatio?
    split
    · exact isNaN_ofFields negative (Nat.zero_le _)
    · dsimp only
      split
      next h => exact isNaN_ofFields negative h.le
      next => exact isNaN_ofFields negative le_rfl
  unfold Number.ofScientific
  dsimp only
  split
  next => exact isNaN_ofFields negative (Nat.zero_le _)
  split
  next => exact isNaN_ofFields negative le_rfl
  split
  next => exact isNaN_ofFields negative (Nat.zero_le _)
  split
  · exact hratio _ _
  · exact hratio _ _

end Double

namespace Number

open Text.Character

variable {c : Char} {cs ds : List Char} {s : String}

/-! ### What a number can hold -/

/-- May the character stand in an integer, blanks apart? -/
def isIntegral (c : Char) : Bool :=
  c.isDigit || "_+-".toList.contains c

/-- May the character stand in a number or in the name of one, blanks apart? -/
def isNumeral (c : Char) : Bool :=
  c.isDigit || "._+-einfaty".toList.contains c.toLower

theorem isNumeral_of_isIntegral (h : isIntegral c = true) : isNumeral c = true := by
  rw [isIntegral, Bool.or_eq_true] at h
  rcases h with h | h
  · rw [isNumeral, h, Bool.true_or]
  · have hsigns : ∀ c ∈ "_+-".toList, isNumeral c = true := by decide
    exact hsigns c (List.contains_iff_mem.mp h)

theorem mem_trimBlanks {blank : Char → Bool} (h : c ∈ cs) : blank c = true ∨ c ∈ trimBlanks blank cs := by
  have hkept {cs : List Char} (h : c ∈ cs) : blank c = true ∨ c ∈ cs.dropWhile blank := by
    rw [← List.takeWhile_append_dropWhile (p := blank) (l := cs), List.mem_append] at h
    exact h.imp_left fun h => List.all_eq_true.mp List.all_takeWhile c h
  rcases hkept h with h | h
  · exact .inl h
  · rw [trimBlanks, List.mem_reverse]
    exact hkept (List.mem_reverse.mpr h)

theorem mem_splitSign (h : c ∈ cs) : isIntegral c = true ∨ c ∈ (splitSign cs).2 := by
  unfold splitSign
  split
  · exact (List.mem_cons.mp h).imp_left fun hc => by rw [hc]; rfl
  · exact (List.mem_cons.mp h).imp_left fun hc => by rw [hc]; rfl
  · exact .inr h

theorem isIntegral_of_plainDigits? (h : plainDigits? cs = some ds) : ∀ c ∈ cs, isIntegral c = true := by
  have hdigit {c : Char} (hc : c.isDigit = true) : isIntegral c = true := by rw [isIntegral, hc, Bool.true_or]
  fun_induction plainDigits? cs generalizing ds with
  | case1 => cases h
  | case2 c hc => exact List.forall_mem_singleton.mpr (hdigit hc)
  | case3 => cases h
  | case4 c d rest hc ih =>
    obtain ⟨digits, hdigits, -⟩ := Option.map_eq_some_iff.mp h
    exact List.forall_mem_cons.mpr ⟨hdigit hc, List.forall_mem_cons.mpr ⟨rfl, ih hdigits⟩⟩
  | case5 => cases h
  | case6 c d rest _ hc ih =>
    obtain ⟨digits, hdigits, -⟩ := Option.map_eq_some_iff.mp h
    exact List.forall_mem_cons.mpr ⟨hdigit hc, ih hdigits⟩
  | case7 => cases h

/-- What an integer is read from. -/
theorem isIntegral_of_readInt? {i : Int} (h : readInt? s = some i) (hc : c ∈ normalize s) :
    isAsciiBlank c = true ∨ isIntegral c = true := by
  unfold readInt? at h
  dsimp only at h
  split at h
  · cases h
  next digits hdigits =>
    rcases mem_trimBlanks hc with hc | hc
    · exact .inl hc
    · exact .inr ((mem_splitSign hc).elim id (isIntegral_of_plainDigits? hdigits c))

theorem mem_of_dropUnderscores? (h : dropUnderscores? cs = some ds) : ∀ c ∈ cs, c = '_' ∨ c ∈ ds := by
  fun_induction dropUnderscores? cs generalizing ds with
  | case1 => exact List.forall_mem_nil _
  | case2 => cases h
  | case3 c =>
    obtain rfl := Option.some.inj h
    exact fun x hx => .inr hx
  | case4 c d rest _ _ ih =>
    obtain ⟨digits, hdigits, rfl⟩ := Option.map_eq_some_iff.mp h
    refine List.forall_mem_cons.mpr ⟨.inr List.mem_cons_self, List.forall_mem_cons.mpr ⟨.inl rfl, fun x hx => ?_⟩⟩
    exact (ih hdigits x hx).imp_right (List.mem_cons_of_mem _)
  | case5 => cases h
  | case6 c d rest _ _ ih =>
    obtain ⟨digits, hdigits, rfl⟩ := Option.map_eq_some_iff.mp h
    exact List.forall_mem_cons.mpr
      ⟨.inr List.mem_cons_self, fun x hx => (ih hdigits x hx).imp_right (List.mem_cons_of_mem _)⟩

theorem isNumeral_of_readExponent? {e : Int} (h : readExponent? cs = some e) : ∀ c ∈ cs, isNumeral c = true := by
  unfold readExponent? at h
  split at h
  · exact List.forall_mem_nil _
  next mark rest =>
    split at h
    next hmark =>
      dsimp only at h
      split at h
      · cases h
      next hdigits =>
        have hmark : isNumeral mark = true := by
          rw [Bool.or_eq_true, beq_iff_eq, beq_iff_eq] at hmark
          rcases hmark with rfl | rfl <;> rfl
        have hall : ¬(splitSign rest).2 = [] ∧ ∀ c ∈ (splitSign rest).2, c.isDigit = true := by simpa using hdigits
        refine List.forall_mem_cons.mpr ⟨hmark, fun c hc => ?_⟩
        rcases mem_splitSign hc with hc | hc
        · exact isNumeral_of_isIntegral hc
        · rw [isNumeral, hall.2 c hc, Bool.true_or]
    next => cases h

theorem isNumeral_of_readUnsigned? {negative : Bool} {d : Double} (h : readUnsigned? negative cs = some d) :
    ∀ c ∈ cs, isNumeral c = true := by
  have hname {word : String} (hword : ∀ c ∈ word.toList, "._+-einfaty".toList.contains c = true)
      (hcs : String.ofList (cs.map Char.toLower) = word) : ∀ c ∈ cs, isNumeral c = true := by
    intro c hc
    rw [isNumeral, hword, Bool.or_true]
    rw [← hcs, String.toList_ofList]
    exact List.mem_map_of_mem hc
  have hspan {cs : List Char} (hrest : ∀ c ∈ cs.dropWhile Char.isDigit, isNumeral c = true) :
      ∀ c ∈ cs, isNumeral c = true := by
    intro c hc
    rw [← List.takeWhile_append_dropWhile (p := Char.isDigit) (l := cs), List.mem_append] at hc
    rcases hc with hc | hc
    · rw [isNumeral, List.all_eq_true.mp List.all_takeWhile c hc, Bool.true_or]
    · exact hrest c hc
  unfold readUnsigned? at h
  dsimp only at h
  split at h
  next hinf =>
    rw [Bool.or_eq_true, beq_iff_eq, beq_iff_eq] at hinf
    exact hinf.elim (hname (by decide)) (hname (by decide))
  next =>
    split at h
    next hnan => exact hname (by decide) (beq_iff_eq.mp hnan)
    next =>
      apply hspan
      split at h
      next after hafter =>
        split at h
        · cases h
        · obtain ⟨e, he, -⟩ := Option.map_eq_some_iff.mp h
          rw [hafter]
          exact List.forall_mem_cons.mpr ⟨rfl, hspan (isNumeral_of_readExponent? he)⟩
      next =>
        split at h
        · cases h
        · obtain ⟨e, he, -⟩ := Option.map_eq_some_iff.mp h
          exact isNumeral_of_readExponent? he

/-- What a double is read from. -/
theorem isNumeral_of_readDouble? {d : Double} (h : readDouble? s = some d) (hc : c ∈ normalize s) :
    isAsciiBlank c = true ∨ isNumeral c = true := by
  unfold readDouble? at h
  split at h
  · cases h
  next ds hds =>
    dsimp only at h
    rcases mem_trimBlanks hc with hc | hc
    · exact .inl hc
    · right
      rcases mem_of_dropUnderscores? hds c hc with rfl | hc
      · rfl
      · rcases mem_splitSign hc with hc | hc
        · exact isNumeral_of_isIntegral hc
        · exact isNumeral_of_readUnsigned? h c hc

/-! ### What a text holds as it is read -/

theorem mem_normalize_of_ascii (hc : c ∈ s.toList) (hcode : c.toNat < 127) : c ∈ normalize s := by
  unfold normalize
  dsimp only
  split
  · exact hc
  · exact List.mem_map.mpr ⟨c, hc, by rw [if_pos hcode]⟩

/-- A number has no letter r or s. -/
theorem notMem_lower_of_readable (h : (readInt? s).isSome = true ∨ (readDouble? s).isSome = true) {x : Char}
    (hx : x = 'r' ∨ x = 's') : x ∉ (Text.LetterCase.lower s).toList := by
  intro hmem
  rw [Text.LetterCase.lower, String.toList_ofList] at hmem
  obtain ⟨c, hc, hcode, hlower⟩ := Text.LetterCase.exists_of_mem_lowerFrom hx hmem
  have hletter : c.toLower = 'r' ∨ c.toLower = 's' →
      c.toNat < 127 ∧ isAsciiBlank c = false ∧ isNumeral c = false := Text.of_codes hcode (by decide +kernel)
  obtain ⟨hcode, hblank, hnumeral⟩ := hletter (by rwa [hlower])
  have hkept := mem_normalize_of_ascii hc hcode
  have hreadable : isAsciiBlank c = true ∨ isNumeral c = true := by
    rcases h with h | h
    · obtain ⟨i, hi⟩ := Option.isSome_iff_exists.mp h
      exact (isIntegral_of_readInt? hi hkept).imp_right isNumeral_of_isIntegral
    · obtain ⟨d, hd⟩ := Option.isSome_iff_exists.mp h
      exact isNumeral_of_readDouble? hd hkept
  rw [hblank, hnumeral] at hreadable
  exact hreadable.elim Bool.false_ne_true Bool.false_ne_true

theorem notMem_dot_of_readInt? {i : Int} (h : readInt? s = some i) : '.' ∉ s.toList := by
  intro hmem
  exact absurd (isIntegral_of_readInt? h (mem_normalize_of_ascii hmem (by decide))) (by decide)

/-- The digits that are no decimal digits lie outside ASCII and are no blanks. -/
theorem not_readable_of_odd (hc : c ∈ s.toList) (hdigit : isDigit c = true) (hodd : decimalValue? c = none) :
    readInt? s = none ∧ readDouble? s = none := by
  have hcode : 128 ≤ c.toNat := by
    by_contra hlow
    have hascii : isDigit c = true → decimalValue? c ≠ none := Text.of_codes (Nat.lt_of_not_le hlow) (by decide +kernel)
    exact hascii hdigit hodd
  have hblank := Text.LetterCase.isBlank_of_isDigit hdigit
  have hmark : '?' ∈ normalize s := by
    unfold normalize
    dsimp only
    rw [if_neg]
    · exact List.mem_map.mpr ⟨c, hc, by rw [if_neg (by omega), hblank, if_neg Bool.false_ne_true, hodd]⟩
    · intro hall
      have := of_decide_eq_true (List.all_eq_true.mp hall c hc)
      omega
  constructor
  · cases hread : readInt? s with
    | none => rfl
    | some i => exact absurd (isIntegral_of_readInt? hread hmark) (by decide)
  · cases hread : readDouble? s with
    | none => rfl
    | some d => exact absurd (isNumeral_of_readDouble? hread hmark) (by decide)

/-! ### Decimal digits are read -/

theorem trimBlanks_of_no_blank {blank : Char → Bool} (h : ∀ c ∈ cs, blank c = false) : trimBlanks blank cs = cs := by
  have hkept {cs : List Char} (h : ∀ c ∈ cs, blank c = false) : cs.dropWhile blank = cs := by
    cases cs with
    | nil => rfl
    | cons c cs => exact List.dropWhile_cons_of_neg (by rw [h c List.mem_cons_self]; exact Bool.false_ne_true)
  rw [trimBlanks, hkept h, hkept fun c hc => h c (List.mem_reverse.mp hc), List.reverse_reverse]

theorem dropUnderscores?_of_notMem (h : '_' ∉ cs) : dropUnderscores? cs = some cs := by
  fun_induction dropUnderscores? cs with
  | case1 => rfl
  | case2 rest => exact absurd List.mem_cons_self h
  | case3 c => rfl
  | case4 c d rest _ _ _ => exact absurd (List.mem_cons_of_mem _ List.mem_cons_self) h
  | case5 c d rest _ _ => exact absurd (List.mem_cons_of_mem _ List.mem_cons_self) h
  | case6 c d rest _ _ ih => rw [ih (fun hmem => h (List.mem_cons_of_mem _ hmem))]; rfl

/-- ASCII digits, with a point among them or not, are read as a double. -/
theorem readUnsigned?_of_digits {whole places : List Char} (rest : List Char)
    (hdigits : ∀ c ∈ whole ++ places, c.isDigit = true) (hne : whole ++ places ≠ [])
    (hrest : rest = '.' :: places ∨ rest = [] ∧ places = []) : readUnsigned? false (whole ++ rest) =
      some (ofScientific false (ofDigits (whole ++ places)) (0 - places.length)) := by
  obtain ⟨hwhole, hplaces⟩ := List.forall_mem_append.mp hdigits
  have hchars : ∀ c ∈ whole ++ rest, c.isDigit = true ∨ c = '.' := by
    intro c hc
    rcases List.mem_append.mp hc with hc | hc
    · exact .inl (hwhole c hc)
    · rcases hrest with rfl | ⟨rfl, -⟩
      · exact (List.mem_cons.mp hc).elim .inr fun hc => .inl (hplaces c hc)
      · cases hc
  have hname (word : String) (hword : 'n' ∈ word.toList) :
      (String.ofList ((whole ++ rest).map Char.toLower) == word) = false := by
    rw [beq_eq_false_iff_ne]
    rintro rfl
    rw [String.toList_ofList] at hword
    obtain ⟨c, hc, hlower⟩ := List.mem_map.mp hword
    rcases hchars c hc with hdigit | rfl
    · rw [toLower_digit hdigit] at hlower
      rw [hlower] at hdigit
      exact absurd hdigit (by decide)
    · exact absurd hlower (by decide)
  have hhead : ∀ c ∈ rest.head?, c.isDigit = false := by
    rcases hrest with rfl | ⟨rfl, -⟩
    · rintro c ⟨⟩
      rfl
    · rintro c ⟨⟩
  obtain ⟨htake, hdrop⟩ := takeWhile_digits hwhole hhead
  have hend : ∀ c ∈ ([] : List Char).head?, c.isDigit = false := by rintro c ⟨⟩
  obtain ⟨htake', hdrop'⟩ := takeWhile_digits hplaces hend
  have hsome : (whole.isEmpty && places.isEmpty) = false := by
    rw [Bool.and_eq_false_iff, List.isEmpty_eq_false_iff, List.isEmpty_eq_false_iff, ← not_and_or]
    rintro ⟨rfl, rfl⟩
    exact hne rfl
  unfold readUnsigned?
  dsimp only
  rw [hname "inf" (by decide), hname "infinity" (by decide), hname "nan" (by decide),
    Bool.or_self, if_neg Bool.false_ne_true, if_neg Bool.false_ne_true, htake, hdrop]
  rw [List.append_nil] at htake' hdrop'
  rcases hrest with rfl | ⟨rfl, rfl⟩
  · simp only [htake', hdrop', hsome, Bool.false_eq_true, if_false]
    rfl
  · simp only [hsome, Bool.false_eq_true, if_false]
    rfl

/-- Decimal digits are seen as those of ASCII. -/
theorem exists_normalize (s : String) :
    ∃ f : Char → Char, normalize s = s.toList.map f ∧ f '.' = '.' ∧
      ∀ c ∈ s.toList, (decimalValue? c).isSome = true → (f c).isDigit = true := by
  have hascii {c : Char} (hcode : c.toNat < 128) : (decimalValue? c).isSome = true → c.isDigit = true :=
    Text.of_codes hcode (by decide +kernel)
  unfold normalize
  dsimp only
  split
  next hall =>
    refine ⟨id, (List.map_id _).symm, rfl, fun c hc hvalue => ?_⟩
    exact hascii (of_decide_eq_true (List.all_eq_true.mp hall c hc)) hvalue
  next =>
    refine ⟨_, rfl, rfl, fun c hc hvalue => ?_⟩
    split
    next hcode => exact hascii (by omega) hvalue
    next =>
      obtain ⟨v, hv⟩ := Option.isSome_iff_exists.mp hvalue
      obtain ⟨start, hstart, hv'⟩ := Option.map_eq_some_iff.mp hv
      have hin := List.find?_some hstart
      simp only [Bool.and_eq_true, decide_eq_true_eq] at hin
      have hblank := Text.LetterCase.isBlank_of_isDigit (c := c) (by rw [isDigit, hvalue, Bool.true_or])
      have hdigits : ∀ v < 10, (Char.ofNat (0x30 + v)).isDigit = true := by decide
      rw [hblank, if_neg Bool.false_ne_true, hv]
      exact hdigits v (by omega)

/-- A text that is seen as digits of ASCII and points has nothing to be dropped. -/
theorem readDouble?_of_plain (h : ∀ c ∈ normalize s, c.isDigit = true ∨ c = '.') :
    readDouble? s = readUnsigned? false (normalize s) := by
  have hnot {x : Char} (hx : x.isDigit = false ∧ x ≠ '.') : x ∉ normalize s := by
    intro hmem
    rcases h x hmem with hdigit | hdot
    · rw [hx.1] at hdigit
      cases hdigit
    · exact hx.2 hdot
  have htrim : trimBlanks isAsciiBlank (normalize s) = normalize s := by
    refine trimBlanks_of_no_blank fun c hc => Bool.eq_false_iff.mpr fun hblank => ?_
    have hcode : c.toNat < 0x21 := by
      rw [isAsciiBlank, Bool.or_eq_true, beq_iff_eq, Bool.and_eq_true, decide_eq_true_eq, decide_eq_true_eq] at hblank
      rcases hblank with rfl | hblank
      · decide
      · omega
    have hlow : c.isDigit = false ∧ c ≠ '.' := Text.of_codes hcode (by decide)
    exact hnot hlow hc
  have hsign : splitSign (normalize s) = (false, normalize s) := by
    unfold splitSign
    split
    next rest heq => exact absurd (heq ▸ List.mem_cons_self) (hnot (x := '-') (by decide))
    next rest heq => exact absurd (heq ▸ List.mem_cons_self) (hnot (x := '+') (by decide))
    next => rfl
  unfold readDouble?
  rw [htrim, dropUnderscores?_of_notMem (hnot (by decide))]
  dsimp only
  rw [hsign]

/-- Decimal digits of any script, with a point among them or not, are read as a double. -/
theorem exists_readDouble? {whole rest : List Char} (places : List Char) (hs : s.toList = whole ++ rest)
    (hrest : rest = '.' :: places ∨ rest = [] ∧ places = []) (hne : whole ++ places ≠ [])
    (hdigits : ∀ c ∈ whole ++ places, (decimalValue? c).isSome = true) :
    ∃ d, readDouble? s = some d ∧ d.isNaN = false := by
  have hchars : ∀ c ∈ s.toList, c = '.' ∨ (decimalValue? c).isSome = true := by
    intro c hc
    rw [hs, List.mem_append] at hc
    rcases hc with hc | hc
    · exact .inr (hdigits c (List.mem_append_left _ hc))
    · rcases hrest with rfl | ⟨rfl, -⟩
      · exact (List.mem_cons.mp hc).imp_right fun hc => hdigits c (List.mem_append_right _ hc)
      · cases hc
  obtain ⟨f, hnormal, hdot, hf⟩ := exists_normalize s
  have hmem {c : Char} (hc : c ∈ whole ++ places) : c ∈ s.toList := by
    rw [hs]
    rcases hrest with rfl | ⟨rfl, rfl⟩
    · rcases List.mem_append.mp hc with hc | hc
      · exact List.mem_append_left _ hc
      · exact List.mem_append_right _ (List.mem_cons_of_mem _ hc)
    · exact hc
  have hseen : ∀ c ∈ whole.map f ++ places.map f, c.isDigit = true := by
    rw [← List.map_append, List.forall_mem_map]
    exact fun c hc => hf c (hmem hc) (hdigits c hc)
  have hplain : ∀ c ∈ normalize s, c.isDigit = true ∨ c = '.' := by
    intro c hc
    rw [hnormal] at hc
    obtain ⟨d, hd, rfl⟩ := List.mem_map.mp hc
    rcases hchars d hd with rfl | hvalue
    · exact .inr hdot
    · exact .inl (hf d hd hvalue)
  have hform : normalize s = whole.map f ++ rest.map f := by rw [hnormal, hs, List.map_append]
  have hread := readUnsigned?_of_digits (rest.map f) hseen (by simpa using hne)
    (by
      rcases hrest with rfl | ⟨rfl, rfl⟩
      · exact .inl (by rw [List.map_cons, hdot])
      · exact .inr ⟨rfl, rfl⟩)
  exact ⟨_, (readDouble?_of_plain hplain).trans (hform ▸ hread), Double.isNaN_ofScientific _ _ _⟩

end Number

end Handset
