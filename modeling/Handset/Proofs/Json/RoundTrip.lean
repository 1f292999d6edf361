import Handset.Json.Printing
import Handset.Json.Reading
import Handset.Proofs.Number.ShortestText

/-!
# Values and their JSON text

Reading gives back what was written, for every value that a document can hold: integers of at most 4300 digits,
doubles with one number that is none, texts of any characters, and lists and objects that are not nested too
deeply. The fields of an object come back in their order.
-/
namespace Handset.Json

/-! ### Texts -/

theorem hexValue?_digitChar {n : Nat} (h : n < 16) : hexValue? (Nat.digitChar n) = some n := by
  have hall : ∀ n : Fin 16, hexValue? (Nat.digitChar n) = some n.val := by decide
  exact hall ⟨n, h⟩

theorem unit?_digits {unit : Nat} (h : unit < 0x10000) :
    unit? (Nat.digitChar (unit / 4096 % 16)) (Nat.digitChar (unit / 256 % 16)) (Nat.digitChar (unit / 16 % 16))
      (Nat.digitChar (unit % 16)) = some unit := by
  unfold unit?
  rw [hexValue?_digitChar (by omega), hexValue?_digitChar (by omega), hexValue?_digitChar (by omega),
    hexValue?_digitChar (by omega)]
  change some _ = _
  congr 1
  omega

/-- A unit that is no first half of a pair is read on its own, whatever follows. -/
theorem textChars_unit {a b c d : Char} {unit : Nat} (h : unit? a b c d = some unit) (hhigh : isHigh unit = false)
    (cs : List Char) :
    textChars ('\\' :: 'u' :: a :: b :: c :: d :: cs) = (textChars cs).map fun r => (ofUnit unit :: r.1, r.2) := by
  rw [textChars.eq_def]
  split
  next heq => cases heq
  next heq => cases heq
  next heq =>
    cases heq
    simp only [h, hhigh, Bool.false_eq_true, if_false]
  next heq =>
    cases heq
    simp only [h]
  next hshort heq =>
    cases heq
    exact absurd rfl (hshort a b c d cs rfl)
  next hplain heq =>
    cases heq
    exact absurd rfl (hplain _ _ rfl)

theorem textChars_pair {a b c d e f g i : Char} {high low : Nat} (h : unit? a b c d = some high)
    (hhigh : isHigh high = true) (h' : unit? e f g i = some low) (hlow : isLow low = true) (cs : List Char) :
    textChars ('\\' :: 'u' :: a :: b :: c :: d :: '\\' :: 'u' :: e :: f :: g :: i :: cs) =
      (textChars cs).map fun r => (ofPair high low :: r.1, r.2) := by
  rw [textChars]
  simp only [h, h', hhigh, if_true, Option.filter_some_pos, hlow]

theorem textChars_escape (c : Char) (cs : List Char) :
    textChars (escape c ++ cs) = (textChars cs).map fun r => (c :: r.1, r.2) := by
  have hvalid : c.toNat < 0xD800 ∨ 0xDFFF < c.toNat ∧ c.toNat < 0x110000 := c.valid
  unfold escape
  split
  next h =>
    subst h
    rfl
  split
  next h =>
    subst h
    rfl
  split
  next h =>
    subst h
    rfl
  split
  next h =>
    subst h
    rfl
  split
  next h =>
    subst h
    rfl
  split
  next h =>
    have hc : c = Char.ofNat 0x08 := by rw [← h, Char.ofNat_toNat]
    subst hc
    rfl
  split
  next h =>
    have hc : c = Char.ofNat 0x0C := by rw [← h, Char.ofNat_toNat]
    subst hc
    rfl
  split
  next hquote hslash _ _ _ _ _ hplain =>
    rw [List.singleton_append, textChars]
    · rw [if_neg (by omega)]
    · exact hquote
    all_goals
      intros
      exact absurd ‹c = '\\'› hslash
  split
  next hunit =>
    have hplain : isHigh c.toNat = false ∧ isLow c.toNat = false := by
      unfold isHigh isLow
      rw [Bool.and_eq_false_iff, Bool.and_eq_false_iff, decide_eq_false_iff_not, decide_eq_false_iff_not,
        decide_eq_false_iff_not, decide_eq_false_iff_not]
      omega
    refine (textChars_unit (unit?_digits hunit) hplain.1 cs).trans ?_
    rw [ofUnit, hplain.1, hplain.2, Bool.or_self, if_neg Bool.false_ne_true, Char.ofNat_toNat]
  next hunit =>
    refine (textChars_pair (unit?_digits (by omega)) ?_ (unit?_digits (by omega)) ?_ cs).trans ?_
    · rw [isHigh, Bool.and_eq_true, decide_eq_true_iff, decide_eq_true_iff]
      omega
    · rw [isLow, Bool.and_eq_true, decide_eq_true_iff, decide_eq_true_iff]
      omega
    · have hpair : 0x10000 + (0xD800 + (c.toNat - 0x10000) / 1024 - 0xD800) * 1024 +
          (0xDC00 + (c.toNat - 0x10000) % 1024 - 0xDC00) = c.toNat := by omega
      rw [ofPair, hpair, Char.ofNat_toNat]

theorem textChars_flatMap (cs rest : List Char) :
    textChars (cs.flatMap escape ++ '"' :: rest) = some (cs, rest) := by
  induction cs with
  | nil => rfl
  | cons c cs ih =>
    rw [List.flatMap_cons, List.append_assoc, textChars_escape, ih]
    rfl

theorem textOf?_quoted (s : String) (rest : List Char) :
    ∃ cs, quoted s ++ rest = '"' :: cs ∧ textOf? cs = some (s, rest) := by
  refine ⟨s.toList.flatMap escape ++ '"' :: rest, ?_, ?_⟩
  · simp [quoted]
  · rw [textOf?, textChars_flatMap, Option.map_some, String.ofList_toList]

/-! ### Numbers -/

open Number (Numeral)

/-- What may stand after a value: nothing, a comma or a closing bracket. -/
def Ended (rest : List Char) : Prop :=
  ∀ c ∈ rest.head?, c = ',' ∨ c = ']' ∨ c = '\x7d'

theorem Ended.not_isDigit {rest : List Char} (h : Ended rest) : ∀ c ∈ rest.head?, c.isDigit = false := by
  intro c hc
  rcases h c hc with rfl | rfl | rfl <;> rfl

theorem isDigit_head {ds : List Char} (hne : ds ≠ []) (hds : ∀ c ∈ ds, c.isDigit = true) (tail : List Char) :
    ∀ c ∈ (ds ++ tail).head?, c.isDigit = true := by
  obtain ⟨d, ds, rfl⟩ := List.exists_cons_of_ne_nil hne
  intro c hc
  cases hc
  exact hds _ List.mem_cons_self

theorem splitMinus_append (minus : Bool) {body : List Char} (hbody : ∀ c ∈ body.head?, c.isDigit = true) :
    splitMinus ((if minus then ['-'] else []) ++ body) = (minus, body) := by
  cases minus with
  | true => rfl
  | false =>
    change splitMinus body = _
    unfold splitMinus
    split
    next => exact absurd (hbody '-' rfl) (by decide)
    next => rfl

theorem wholeDigits_append {ds rest : List Char} (hne : ds ≠ []) (hds : ∀ c ∈ ds, c.isDigit = true)
    (hleading : ds = ['0'] ∨ ds.head? ≠ some '0') (hrest : ∀ c ∈ rest.head?, c.isDigit = false) :
    wholeDigits (ds ++ rest) = some (ds, rest) := by
  obtain ⟨htake, hdrop⟩ := Number.takeWhile_digits hds hrest
  rcases hleading with rfl | hleading
  · rfl
  · obtain ⟨c, cs, rfl⟩ := List.exists_cons_of_ne_nil hne
    unfold wholeDigits
    split
    next heq =>
      cases heq
      exact absurd rfl hleading
    next =>
      dsimp only
      rw [htake, hdrop]
      rfl

theorem fraction_append {places tail : List Char} (hplaces : ∀ c ∈ places, c.isDigit = true)
    (htail : ∀ c ∈ tail.head?, c.isDigit = false ∧ c ≠ '.') :
    fraction (Numeral.placesChars places ++ tail) = (Numeral.placesChars places, tail) := by
  cases places with
  | nil =>
    change fraction tail = ([], tail)
    unfold fraction
    split
    next => exact absurd rfl (htail '.' rfl).2
    next => rfl
  | cons p ps =>
    obtain ⟨htake, hdrop⟩ := Number.takeWhile_digits hplaces fun c hc => (htail c hc).1
    change (if (((p :: ps) ++ tail).takeWhile Char.isDigit).isEmpty then ([], '.' :: ((p :: ps) ++ tail))
      else ('.' :: ((p :: ps) ++ tail).takeWhile Char.isDigit, ((p :: ps) ++ tail).dropWhile Char.isDigit)) = _
    rw [htake, hdrop]
    rfl

theorem exponent_append (power : Option Int) {rest : List Char}
    (hrest : ∀ c ∈ rest.head?, c.isDigit = false ∧ c ≠ 'e' ∧ c ≠ 'E') :
    exponent (Numeral.powerChars power ++ rest) = (Numeral.powerChars power, rest) := by
  cases power with
  | none =>
    change exponent rest = ([], rest)
    cases rest with
    | nil => rfl
    | cons c cs =>
      obtain ⟨-, hsmall, hlarge⟩ := hrest c rfl
      exact if_neg (not_or.mpr ⟨hsmall, hlarge⟩)
  | some e =>
    obtain ⟨hne, hdigits, -⟩ := Number.exponentText_spec e.natAbs
    obtain ⟨htake, hdrop⟩ := Number.takeWhile_digits hdigits fun c hc => (hrest c hc).1
    rw [Numeral.powerChars]
    generalize (Double.exponentText e.natAbs).toList = ds at *
    split
    all_goals
      change (if ((ds ++ rest).takeWhile Char.isDigit).isEmpty then ([], _)
        else ('e' :: [_] ++ (ds ++ rest).takeWhile Char.isDigit, (ds ++ rest).dropWhile Char.isDigit)) = _
      rw [htake, hdrop, List.isEmpty_eq_false_iff.mpr hne]
      rfl

theorem number?_numeral (n : Numeral) (minus : Bool) {rest : List Char} (hrest : Ended rest) :
    number? ((if minus then ['-'] else []) ++ (n.chars ++ rest)) =
      some (.double (Number.ofScientific minus n.digits n.exponent), rest) := by
  have hpower : ∀ c ∈ rest.head?, c.isDigit = false ∧ c ≠ 'e' ∧ c ≠ 'E' := by
    intro c hc
    rcases hrest c hc with rfl | rfl | rfl <;> decide
  have hplaces : ∀ c ∈ (Numeral.powerChars n.power ++ rest).head?, c.isDigit = false ∧ c ≠ '.' := by
    intro c hc
    rcases hp : n.power with _ | e
    · rw [hp] at hc
      rcases hrest c hc with rfl | rfl | rfl <;> decide
    · rw [hp] at hc
      cases hc
      decide
  have hwhole : ∀ c ∈ (Numeral.placesChars n.places ++ (Numeral.powerChars n.power ++ rest)).head?,
      c.isDigit = false := by
    intro c hc
    rcases hp : n.places with _ | ⟨p, ps⟩
    · rw [hp] at hc
      exact (hplaces c hc).1
    · rw [hp] at hc
      cases hc
      rfl
  have hmarked : ((Numeral.placesChars n.places).isEmpty && (Numeral.powerChars n.power).isEmpty) = false := by
    rw [Bool.and_eq_false_iff]
    rcases n.marked with h | h
    · left
      obtain ⟨p, ps, hp⟩ := List.exists_cons_of_ne_nil h
      rw [hp]
      rfl
    · right
      obtain ⟨e, he⟩ := Option.ne_none_iff_exists'.mp h
      rw [he]
      rfl
  have hread := Number.readUnsigned?_chars n minus
  rw [Numeral.chars, ← List.append_assoc] at hread
  rw [Numeral.chars, List.append_assoc, List.append_assoc]
  unfold number?
  rw [splitMinus_append minus (isDigit_head n.whole_ne_nil n.isDigit_whole _)]
  dsimp only
  rw [wholeDigits_append n.whole_ne_nil n.isDigit_whole n.leading hwhole]
  dsimp only
  rw [fraction_append n.isDigit_places hplaces]
  dsimp only
  rw [exponent_append n.power hpower]
  dsimp only
  rw [hmarked, if_neg Bool.false_ne_true, hread]
  rfl

theorem toString_int (i : Int) :
    (toString i).toList = (if decide (i < 0) then ['-'] else []) ++ Nat.toDigits 10 i.natAbs := by
  simp only [decide_eq_true_iff]
  rw [Int.toString_eq_repr, Int.repr_eq_if]
  split
  next h =>
    rw [if_neg (by omega), show i.toNat = i.natAbs by omega]
    simp
  next h =>
    rw [if_pos (by omega), show (-i).toNat = i.natAbs by omega]
    simp

theorem number?_int {i : Int} (hi : i.natAbs < 10 ^ 4300) {rest : List Char} (hrest : Ended rest) :
    number? ((toString i).toList ++ rest) = some (.int i, rest) := by
  have hne : Nat.toDigits 10 i.natAbs ≠ [] := Nat.toDigits_ne_nil
  have hdigits : ∀ c ∈ Nat.toDigits 10 i.natAbs, c.isDigit = true :=
    fun c hc => Nat.isDigit_of_mem_toDigits (by decide) (by decide) hc
  have hleading : Nat.toDigits 10 i.natAbs = ['0'] ∨ (Nat.toDigits 10 i.natAbs).head? ≠ some '0' := by
    rcases Nat.eq_zero_or_pos i.natAbs with h | h
    · rw [h]
      exact .inl rfl
    · exact .inr (Number.head?_toDigits h)
  have hlength := (Nat.length_toDigits_le_iff (by decide) (by decide)).mpr hi
  have hshort : ¬ Number.maxDigits < (Nat.toDigits 10 i.natAbs).length := Nat.not_lt.mpr hlength
  have hfraction : fraction rest = ([], rest) :=
    @fraction_append [] rest nofun fun c hc => by
      rcases hrest c hc with rfl | rfl | rfl <;> decide
  have hexponent : exponent rest = ([], rest) :=
    exponent_append none fun c hc => by
      rcases hrest c hc with rfl | rfl | rfl <;> decide
  rw [toString_int, List.append_assoc]
  unfold number?
  rw [splitMinus_append _ (isDigit_head hne hdigits rest)]
  dsimp only
  rw [wholeDigits_append hne hdigits hleading hrest.not_isDigit]
  dsimp only
  rw [hfraction]
  dsimp only
  rw [hexponent]
  dsimp only
  rw [List.isEmpty_nil, Bool.and_self, if_pos rfl, if_neg hshort, Number.ofDigits_toDigits]
  simp only [decide_eq_true_iff]
  congr 3
  split <;> omega

/-! ### Values that a document holds -/

/-- A value as documents hold them, with lists and objects at most `depth` deep inside each other. -/
inductive Readable : Nat → Value → Prop
  | none {depth : Nat} : Readable depth .none
  | bool {depth : Nat} (b : Bool) : Readable depth (.bool b)
  | int {depth : Nat} {i : Int} (h : i.natAbs < 10 ^ 4300) : Readable depth (.int i)
  | double {depth : Nat} {d : Double} (h : d.Plain) : Readable depth (.double d)
  | text {depth : Nat} (s : String) : Readable depth (.text s)
  | list {depth : Nat} {items : List Value} (h : ∀ v ∈ items, Readable depth v) : Readable (depth + 1) (.list items)
  | object {depth : Nat} {fields : List (String × Value)} (hkeys : (Table.keys fields).Nodup)
    (h : ∀ field ∈ fields, Readable depth field.2) : Readable (depth + 1) (.object fields)

/-- The characters start like a number: with a digit, or with a minus and a digit. -/
def Numeric (cs : List Char) : Prop :=
  ∃ c rest, c.isDigit = true ∧ (cs = c :: rest ∨ cs = '-' :: c :: rest)

theorem numeric_append (minus : Bool) {ds : List Char} (hne : ds ≠ []) (hds : ∀ c ∈ ds, c.isDigit = true)
    (rest : List Char) : Numeric ((if minus then ['-'] else []) ++ (ds ++ rest)) := by
  obtain ⟨c, cs, rfl⟩ := List.exists_cons_of_ne_nil hne
  refine ⟨c, cs ++ rest, hds c List.mem_cons_self, ?_⟩
  cases minus with
  | true => exact .inr rfl
  | false => exact .inl rfl

theorem Numeric.named?_eq {cs : List Char} (h : Numeric cs) : named? cs = none := by
  obtain ⟨c, rest, hc, hcs⟩ := h
  have hne : c ≠ 'n' ∧ c ≠ 't' ∧ c ≠ 'f' ∧ c ≠ 'N' ∧ c ≠ 'I' ∧ c ≠ '-' := by
    refine ⟨?_, ?_, ?_, ?_, ?_, ?_⟩ <;> rintro rfl <;> cases hc
  rcases hcs with rfl | rfl <;> simp [named?, after?, hne, Ne.symm]

theorem value_number {cs rest : List Char} {v : Value} (hcs : Numeric cs) (h : number? cs = some (v, rest))
    (left depth : Nat) : value (left + 1) depth cs = .ok (v, rest) := by
  have hneed : need (named? cs <|> number? cs) = .ok (v, rest) := by
    rw [hcs.named?_eq, h]
    rfl
  have hne (c : Char) (tail : List Char) (hc : c = '"' ∨ c = '[' ∨ c = '\x7b') : cs ≠ c :: tail := by
    obtain ⟨c', tail', hdigit, rfl | rfl⟩ := hcs
    · rintro ⟨⟩
      rcases hc with rfl | rfl | rfl <;> cases hdigit
    · rintro ⟨⟩
      rcases hc with hc | hc | hc <;> exact absurd hc (by decide)
  rw [value]
  · exact hneed
  · exact fun tail => hne '"' tail (.inl rfl)
  · exact fun tail => hne '[' tail (.inr (.inl rfl))
  · exact fun tail => hne '\x7b' tail (.inr (.inr rfl))

theorem isFinite_of_not {d : Double} (hnan : ¬ d.isNaN = true) (hinfinite : ¬ d.isInfinite = true) :
    d.isFinite = true := by
  rw [Double.isNaN, Bool.and_eq_true, beq_iff_eq, bne_iff_ne] at hnan
  rw [Double.isInfinite, Bool.and_eq_true, beq_iff_eq, beq_iff_eq] at hinfinite
  rw [Double.isFinite_iff]
  tauto

theorem numeric_double {d : Double} (hnan : ¬ d.isNaN = true) (hinfinite : ¬ d.isInfinite = true)
    (rest : List Char) : Numeric (d.text.toList ++ rest) := by
  obtain ⟨n, htext, -⟩ := Double.exists_numeral_text (isFinite_of_not hnan hinfinite)
  rw [htext, Numeral.chars, List.append_assoc, List.append_assoc]
  exact numeric_append d.negative n.whole_ne_nil n.isDigit_whole _

theorem numeric_int (i : Int) (rest : List Char) : Numeric ((toString i).toList ++ rest) := by
  rw [toString_int, List.append_assoc]
  exact numeric_append _ Nat.toDigits_ne_nil
    (fun c hc => Nat.isDigit_of_mem_toDigits (by decide) (by decide) hc) rest

theorem value_double {d : Double} (hd : d.Plain) {rest : List Char} (hrest : Ended rest)
    (left depth : Nat) : value (left + 1) depth (chars (.double d) ++ rest) = .ok (.double d, rest) := by
  rw [chars, doubleText]
  split
  next hnan =>
    rw [hd hnan]
    rfl
  next hnan =>
    split
    next hinfinite =>
      rw [← Double.eq_infinity_of_isInfinite hinfinite]
      generalize d.negative = negative
      cases negative <;> rfl
    next hinfinite =>
      apply value_number (numeric_double hnan hinfinite rest)
      obtain ⟨n, htext, hread⟩ := Double.exists_numeral_text (isFinite_of_not hnan hinfinite)
      rw [htext, List.append_assoc, number?_numeral n d.negative hrest, hread]

theorem Numeric.head {cs : List Char} (h : Numeric cs) :
    ∃ c tail, cs = c :: tail ∧ isBlank c = false ∧ c ≠ ']' := by
  obtain ⟨c, tail, hdigit, rfl | rfl⟩ := h
  · have hblank : isBlank c = false := by
      rw [← Bool.not_eq_true, isBlank]
      simp only [Bool.or_eq_true, beq_iff_eq]
      rintro (((rfl | rfl) | rfl) | rfl) <;> cases hdigit
    exact ⟨c, tail, rfl, hblank, by rintro rfl; cases hdigit⟩
  · exact ⟨'-', c :: tail, rfl, rfl, by decide⟩

theorem Readable.head {v : Value} {depth : Nat} (h : Readable depth v) :
    ∃ c cs, chars v = c :: cs ∧ isBlank c = false ∧ c ≠ ']' := by
  cases h with
  | none => exact ⟨_, _, rfl, rfl, by decide⟩
  | bool b => cases b <;> exact ⟨_, _, rfl, rfl, by decide⟩
  | int => simpa only [chars, List.append_nil] using (numeric_int _ []).head
  | @double _ d =>
    rw [chars, doubleText]
    split
    next => exact ⟨_, _, rfl, rfl, by decide⟩
    next hnan =>
      split
      next => split <;> exact ⟨_, _, rfl, rfl, by decide⟩
      next hinfinite => simpa only [List.append_nil] using (numeric_double hnan hinfinite []).head
  | text s => exact ⟨_, _, rfl, rfl, by decide⟩
  | @list _ items => cases items <;> exact ⟨_, _, rfl, rfl, by decide⟩
  | @object _ fields => cases fields <;> exact ⟨_, _, rfl, rfl, by decide⟩

theorem Readable.skip_chars {v : Value} {depth : Nat} (h : Readable depth v) (rest : List Char) :
    skip (chars v ++ rest) = chars v ++ rest := by
  obtain ⟨c, cs, hchars, hblank, -⟩ := h.head
  rw [hchars, List.cons_append, skip, List.dropWhile_cons_of_neg (by rw [hblank]; decide)]

/-! ### Reading back -/

/-- The value reads back at a depth, from enough parts and whatever follows it. -/
def ReadsBack (depth : Nat) (v : Value) : Prop :=
  ∀ left rest, (chars v).length ≤ left → Ended rest → value left depth (chars v ++ rest) = .ok (v, rest)

theorem ended_itemChars (vs : List Value) (rest : List Char) : Ended (itemChars vs ++ rest) := by
  intro c hc
  cases vs <;> cases hc
  · exact .inr (.inl rfl)
  · exact .inl rfl

theorem ended_fieldChars (fs : List (String × Value)) (rest : List Char) : Ended (fieldChars fs ++ rest) := by
  intro c hc
  cases fs <;> cases hc
  · exact .inr (.inr rfl)
  · exact .inl rfl

theorem items_last {left depth : Nat} {cs rest : List Char} {v : Value}
    (hvalue : value left depth cs = .ok (v, ']' :: rest)) : items (left + 1) depth cs = .ok ([v], rest) := by
  rw [items, hvalue]
  rfl

theorem items_more {left depth : Nat} {cs more rest : List Char} {v : Value} {vs : List Value}
    (hvalue : value left depth cs = .ok (v, ',' :: ' ' :: more)) (hskip : skip more = more)
    (hitems : items left depth more = .ok (vs, rest)) : items (left + 1) depth cs = .ok (v :: vs, rest) := by
  rw [items, hvalue]
  change (items left depth (skip more) >>= fun read => pure (v :: read.1, read.2)) = _
  rw [hskip, hitems]
  rfl

theorem items_chars {depth : Nat} (v : Value) (vs : List Value) (h : ∀ w ∈ v :: vs, Readable depth w)
    (hback : ∀ w ∈ v :: vs, ReadsBack depth w) (left : Nat) (rest : List Char)
    (hleft : (chars v).length + (itemChars vs).length ≤ left) :
    items left depth (chars v ++ (itemChars vs ++ rest)) = .ok (v :: vs, rest) := by
  have hpos : 0 < (itemChars vs).length := by cases vs <;> exact Nat.succ_pos _
  obtain ⟨left, rfl⟩ : ∃ n, left = n + 1 := ⟨left - 1, by omega⟩
  have hvalue := hback v List.mem_cons_self left (itemChars vs ++ rest) (by omega) (ended_itemChars vs rest)
  induction vs generalizing v left with
  | nil => exact items_last hvalue
  | cons w ws ih =>
    have hlength : (itemChars (w :: ws)).length = (chars w).length + (itemChars ws).length + 2 := by
      simp [itemChars]
    have hpos : 0 < (itemChars ws).length := by cases ws <;> exact Nat.succ_pos _
    obtain ⟨left, rfl⟩ : ∃ n, left = n + 1 := ⟨left - 1, by omega⟩
    have hw : ∀ u ∈ w :: ws, ReadsBack depth u := fun u hu => hback u (List.mem_cons_of_mem _ hu)
    have hwritten : itemChars (w :: ws) ++ rest = ',' :: ' ' :: (chars w ++ (itemChars ws ++ rest)) := by
      simp [itemChars]
    rw [hwritten] at hvalue ⊢
    refine items_more hvalue ((h w (List.mem_cons_of_mem _ List.mem_cons_self)).skip_chars _) ?_
    exact ih w (fun u hu => h u (List.mem_cons_of_mem _ hu)) hw hpos left (by omega)
      (hw w List.mem_cons_self left _ (by omega) (ended_itemChars ws rest))

theorem fields_quoted {left depth : Nat} (before : Table String Value) (key : String) {cs tail : List Char}
    {v : Value} (hskip : skip cs = cs) (hvalue : value left depth cs = .ok (v, tail)) :
    (∀ rest, tail = '\x7d' :: rest →
      fields (left + 1) depth before (quoted key ++ (':' :: ' ' :: cs)) = .ok (before.put key v, rest)) ∧
    (∀ more, tail = ',' :: ' ' :: '"' :: more →
      fields (left + 1) depth before (quoted key ++ (':' :: ' ' :: cs)) =
        fields left depth (before.put key v) ('"' :: more)) := by
  obtain ⟨text, hquoted, htext⟩ := textOf?_quoted key (':' :: ' ' :: cs)
  have hcolon : skip (':' :: ' ' :: cs) = ':' :: ' ' :: cs := rfl
  have hblank : skip (' ' :: cs) = cs := hskip
  rw [hquoted, fields, htext]
  dsimp only [need]
  simp only [bind, Except.bind, hcolon, hblank, hvalue]
  constructor
  · rintro rest rfl
    rfl
  · rintro more rfl
    rfl

theorem notMem_keys_of_nodup {before fs : Table String Value} {key : String} {v : Value}
    (h : (Table.keys (before ++ (key, v) :: fs)).Nodup) : key ∉ before.keys := by
  rw [Table.keys, List.map_append] at h
  exact fun hmem => (List.nodup_append.mp h).2.2 key hmem key List.mem_cons_self rfl

theorem fields_chars {depth : Nat} (before : Table String Value) (key : String) (v : Value)
    (fs : List (String × Value)) (hkeys : (Table.keys (before ++ (key, v) :: fs)).Nodup)
    (h : ∀ field ∈ (key, v) :: fs, Readable depth field.2) (hback : ∀ field ∈ (key, v) :: fs, ReadsBack depth field.2)
    (left : Nat) (rest : List Char) (hleft : (chars v).length + (fieldChars fs).length ≤ left) :
    fields left depth before (quoted key ++ (':' :: ' ' :: (chars v ++ (fieldChars fs ++ rest)))) =
      .ok (before ++ (key, v) :: fs, rest) := by
  induction fs generalizing before key v left with
  | nil =>
    have hlength : (fieldChars []).length = 1 := rfl
    obtain ⟨left, rfl⟩ : ∃ n, left = n + 1 := ⟨left - 1, by omega⟩
    have hskip := (h (key, v) List.mem_cons_self).skip_chars (fieldChars [] ++ rest)
    have hvalue := hback (key, v) List.mem_cons_self left (fieldChars [] ++ rest) (by dsimp only; omega)
      (ended_fieldChars [] rest)
    rw [(fields_quoted before key hskip hvalue).1 rest rfl, Table.put_eq_append v (notMem_keys_of_nodup hkeys)]
  | cons f fs ih =>
    obtain ⟨k, w⟩ := f
    have hlength : (fieldChars ((k, w) :: fs)).length =
        (quoted k).length + (chars w).length + (fieldChars fs).length + 4 := by
      simp only [fieldChars, List.length_cons, List.length_append, List.length_nil]
      omega
    obtain ⟨left, rfl⟩ : ∃ n, left = n + 1 := ⟨left - 1, by omega⟩
    have hskip := (h (key, v) List.mem_cons_self).skip_chars (fieldChars ((k, w) :: fs) ++ rest)
    have hvalue := hback (key, v) List.mem_cons_self left (fieldChars ((k, w) :: fs) ++ rest) (by dsimp only; omega)
      (ended_fieldChars _ rest)
    obtain ⟨text, hquoted, -⟩ := textOf?_quoted k (':' :: ' ' :: (chars w ++ (fieldChars fs ++ rest)))
    have hwritten : fieldChars ((k, w) :: fs) ++ rest =
        ',' :: ' ' :: (quoted k ++ (':' :: ' ' :: (chars w ++ (fieldChars fs ++ rest)))) := by
      simp [fieldChars]
    have hmore := (fields_quoted before key hskip hvalue).2 text (by rw [hwritten, hquoted])
    have hassoc : before ++ [(key, v)] ++ (k, w) :: fs = before ++ (key, v) :: (k, w) :: fs := by simp
    have htail := ih (before ++ [(key, v)]) k w (by rw [hassoc]; exact hkeys)
      (fun f hf => h f (List.mem_cons_of_mem _ hf)) (fun f hf => hback f (List.mem_cons_of_mem _ hf)) left (by omega)
    rw [hmore, ← hquoted, Table.put_eq_append v (notMem_keys_of_nodup hkeys), htail, hassoc]

theorem value_list {left depth : Nat} {cs rest : List Char} {vs : List Value} (hskip : skip cs = cs)
    (hne : ∀ tail, cs ≠ ']' :: tail) (hitems : items left depth cs = .ok (vs, rest)) :
    value (left + 1) (depth + 1) ('[' :: cs) = .ok (.list vs, rest) := by
  rw [value.eq_5, hskip, hitems]
  · rfl
  · rw [hskip]
    exact hne

theorem value_object {left depth : Nat} {cs rest : List Char} {fs : List (String × Value)}
    (hfields : fields left depth [] ('"' :: cs) = .ok (fs, rest)) :
    value (left + 1) (depth + 1) ('\x7b' :: '"' :: cs) = .ok (.object fs, rest) := by
  have hskip : skip ('"' :: cs) = '"' :: cs := rfl
  rw [value.eq_8, hskip, hfields]
  · rfl
  · rw [hskip]
    nofun

theorem readsBack_of_succ {depth : Nat} {v : Value} (h : Readable depth v)
    (hsucc : ∀ left rest, (chars v).length ≤ left + 1 → Ended rest →
      value (left + 1) depth (chars v ++ rest) = .ok (v, rest)) : ReadsBack depth v := by
  intro left rest hleft hrest
  obtain ⟨c, cs, hchars, -⟩ := h.head
  have hlength : (chars v).length = cs.length + 1 := by rw [hchars, List.length_cons]
  obtain ⟨left, rfl⟩ : ∃ n, left = n + 1 := ⟨left - 1, by omega⟩
  exact hsucc left rest hleft hrest

theorem Readable.readsBack {depth : Nat} {v : Value} (h : Readable depth v) : ReadsBack depth v := by
  induction h with
  | none => exact readsBack_of_succ .none fun left rest hleft hrest => rfl
  | bool b => exact readsBack_of_succ (.bool b) fun left rest hleft hrest => by cases b <;> rfl
  | int hi =>
    refine readsBack_of_succ (.int hi) fun left rest hleft hrest => ?_
    rw [chars]
    exact value_number (numeric_int _ rest) (number?_int hi hrest) left _
  | double hd => exact readsBack_of_succ (.double hd) fun left rest hleft hrest => value_double hd hrest left _
  | text s =>
    refine readsBack_of_succ (.text s) fun left rest hleft hrest => ?_
    obtain ⟨cs, hquoted, htext⟩ := textOf?_quoted s rest
    rw [chars, hquoted, value, htext]
    rfl
  | @list depth items h ih =>
    refine readsBack_of_succ (.list h) fun left rest hleft hrest => ?_
    cases items with
    | nil => rfl
    | cons v vs =>
      have hwritten : chars (.list (v :: vs)) ++ rest = '[' :: (chars v ++ (itemChars vs ++ rest)) := by
        simp [chars]
      have hlength : (chars (.list (v :: vs))).length = (chars v).length + (itemChars vs).length + 1 := by
        simp [chars]
      have hv := h v List.mem_cons_self
      obtain ⟨c, cs, hchars, -, hbracket⟩ := hv.head
      rw [hwritten]
      refine value_list (hv.skip_chars _) (fun tail heq => ?_) (items_chars v vs h ih left rest (by omega))
      rw [hchars] at heq
      cases heq
      exact hbracket rfl
  | @object depth fields hkeys h ih =>
    refine readsBack_of_succ (.object hkeys h) fun left rest hleft hrest => ?_
    cases fields with
    | nil => rfl
    | cons f fs =>
      obtain ⟨k, v⟩ := f
      obtain ⟨text, hquoted, -⟩ := textOf?_quoted k (':' :: ' ' :: (chars v ++ (fieldChars fs ++ rest)))
      have hwritten : chars (.object ((k, v) :: fs)) ++ rest =
          '\x7b' :: (quoted k ++ (':' :: ' ' :: (chars v ++ (fieldChars fs ++ rest)))) := by
        simp [chars]
      have hlength : (chars (.object ((k, v) :: fs))).length =
          (quoted k).length + (chars v).length + (fieldChars fs).length + 3 := by
        simp only [chars, List.length_cons, List.length_append, List.length_nil]
        omega
      have hfields := fields_chars [] k v fs hkeys h ih left rest (by omega)
      rw [hquoted] at hfields
      rw [hwritten, hquoted]
      exact value_object hfields

theorem parse_print {v : Value} (h : Readable deepest v) : parse (print v) = .ok v := by
  have hread := h.readsBack ((chars v).length + 1) [] (by omega) nofun
  have hskip := h.skip_chars []
  rw [List.append_nil] at hread hskip
  rw [parse, print, String.toList_ofList, hskip, hread]
  rfl

end Handset.Json
