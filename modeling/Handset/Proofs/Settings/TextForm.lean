import Handset.Proofs.Steps
import Handset.Proofs.Text.LowerCase
import Handset.Settings.Document

/-!
# What a settings text can say

The documents that can be read from a text. A line has no blanks at its ends, a further line of a value is no comment,
and a key is in lower case, holds no delimiter and does not make a header of its line. Reading keeps this line by line,
and every document that it gives is of this form.
-/
namespace Handset

namespace Settings

open Text.Character (isBlank trimBlanks)
open Text.LetterCase Reader

variable {c : Char} {cs left right l first blanks : List Char} {more : List (List Char)}

/-! ### Lines -/

/-- No line ends among these characters. -/
def OneLine (cs : List Char) : Prop :=
  ∀ c ∈ cs, c ≠ '\n' ∧ c ≠ '\r'

instance (cs : List Char) : Decidable (OneLine cs) :=
  inferInstanceAs (Decidable (∀ c ∈ cs, c ≠ '\n' ∧ c ≠ '\r'))

theorem OneLine.append (h : OneLine left) (h' : OneLine right) : OneLine (left ++ right) :=
  fun c hc => (List.mem_append.mp hc).elim (h c) (h' c)

theorem lines_cons {line : List Char} (hfeed : c ≠ '\n') (hreturn : c ≠ '\r') (h : lines cs = line :: more) :
    lines (c :: cs) = (c :: line) :: more := by
  rw [lines, h]
  · exact hfeed
  · exact fun _ hc _ => hreturn hc
  · exact hreturn

theorem lines_append (h : OneLine cs) (rest : List Char) : lines (cs ++ '\n' :: rest) = cs :: lines rest := by
  induction cs with
  | nil => rw [List.nil_append, lines]
  | cons c cs ih =>
    obtain ⟨⟨hfeed, hreturn⟩, hcs⟩ := List.forall_mem_cons.mp h
    exact lines_cons hfeed hreturn (ih hcs)

theorem oneLine_of_mem_lines (h : l ∈ lines cs) : OneLine l := by
  fun_induction lines cs generalizing l with
  | case1 => cases h
  | case2 rest ih | case3 rest ih | case4 rest _ ih =>
    rcases List.mem_cons.mp h with rfl | h
    · exact List.forall_mem_nil _
    · exact ih h
  | case5 c rest hfeed _ hreturn hlines ih =>
    rw [List.mem_singleton.mp h]
    exact List.forall_mem_singleton.mpr ⟨hfeed, hreturn⟩
  | case6 c rest hfeed _ hreturn line more hlines ih =>
    rw [hlines] at ih
    rcases List.mem_cons.mp h with rfl | h
    · exact List.forall_mem_cons.mpr ⟨⟨hfeed, hreturn⟩, ih List.mem_cons_self⟩
    · exact ih (List.mem_cons_of_mem _ h)

/-! ### Blanks at the ends -/

def trimEnd (cs : List Char) : List Char :=
  (cs.reverse.dropWhile isBlank).reverse

theorem dropWhile_isBlank (h : ∀ c ∈ cs.head?, isBlank c = false) : cs.dropWhile isBlank = cs := by
  cases cs with
  | nil => rfl
  | cons c cs => exact List.dropWhile_cons_of_neg (by rw [h c rfl]; decide)

theorem trimEnd_append (h : ∀ c ∈ cs.getLast?, isBlank c = false) (hblanks : ∀ c ∈ blanks, isBlank c = true) :
    trimEnd (cs ++ blanks) = cs := by
  rw [trimEnd, List.reverse_append, List.dropWhile_append_of_pos (by simpa using hblanks),
    dropWhile_isBlank (by simpa using h), List.reverse_reverse]

theorem exists_trimEnd (cs : List Char) : ∃ blanks, cs = trimEnd cs ++ blanks ∧ ∀ c ∈ blanks, isBlank c = true := by
  refine ⟨(cs.reverse.takeWhile isBlank).reverse, ?_, ?_⟩
  · rw [trimEnd, ← List.reverse_append, List.takeWhile_append_dropWhile, List.reverse_reverse]
  · simpa using List.all_eq_true.mp (List.all_takeWhile (l := cs.reverse) (p := isBlank))

theorem getLast?_trimEnd (cs : List Char) : ∀ c ∈ (trimEnd cs).getLast?, isBlank c = false := by
  intro c hc
  rw [trimEnd, List.getLast?_reverse] at hc
  have hhead := List.head?_dropWhile_not isBlank cs.reverse
  rw [Option.mem_def.mp hc] at hhead
  simpa using hhead

/-- A line without blanks at its ends. -/
structure Neat (l : List Char) : Prop where
  front : ∀ c ∈ l.head?, isBlank c = false
  back : ∀ c ∈ l.getLast?, isBlank c = false
  oneLine : OneLine l

instance (l : List Char) : Decidable (Neat l) :=
  decidable_of_iff ((∀ c ∈ l.head?, isBlank c = false) ∧ (∀ c ∈ l.getLast?, isBlank c = false) ∧ OneLine l)
    ⟨fun h => ⟨h.1, h.2.1, h.2.2⟩, fun h => ⟨h.front, h.back, h.oneLine⟩⟩

/-- A line that is no comment. -/
structure Remark (l : List Char) : Prop extends Neat l where
  not_comment : ∀ c ∈ l.head?, c ≠ '#' ∧ c ≠ ';'

theorem exists_trimBlanks (cs : List Char) :
    ∃ before after, cs = before ++ (trimBlanks isBlank cs ++ after) := by
  obtain ⟨after, hafter, -⟩ := exists_trimEnd (cs.dropWhile isBlank)
  exact ⟨cs.takeWhile isBlank, after, by
    rw [show trimBlanks isBlank cs = trimEnd (cs.dropWhile isBlank) from rfl, ← hafter,
      List.takeWhile_append_dropWhile]⟩

theorem mem_of_mem_trimBlanks (h : c ∈ trimBlanks isBlank cs) : c ∈ cs := by
  obtain ⟨before, after, heq⟩ := exists_trimBlanks cs
  rw [heq]
  exact List.mem_append_right _ (List.mem_append_left _ h)

theorem neat_trimBlanks (h : OneLine cs) : Neat (trimBlanks isBlank cs) := by
  refine ⟨fun c hc => ?_, getLast?_trimEnd _, fun c hc => h c (mem_of_mem_trimBlanks hc)⟩
  obtain ⟨after, hafter, -⟩ := exists_trimEnd (cs.dropWhile isBlank)
  have hhead := List.head?_dropWhile_not isBlank cs
  have hfront : (cs.dropWhile isBlank).head? = some c := by
    rw [hafter, List.head?_append, show (trimEnd (cs.dropWhile isBlank)).head? = some c from hc, Option.some_or]
  rw [hfront] at hhead
  simpa using hhead

theorem trimBlanks_append (before after : List Char) (hbefore : ∀ c ∈ before, isBlank c = true) (h : Neat cs)
    (hafter : ∀ c ∈ after, isBlank c = true) : trimBlanks isBlank (before ++ (cs ++ after)) = cs := by
  change trimEnd ((before ++ (cs ++ after)).dropWhile isBlank) = cs
  rw [List.dropWhile_append_of_pos hbefore]
  cases cs with
  | nil =>
    rw [List.nil_append, ← List.append_nil after, List.dropWhile_append_of_pos hafter]
    rfl
  | cons c cs =>
    rw [dropWhile_isBlank (by simpa using h.front)]
    exact trimEnd_append h.back hafter

/-! ### Headers and entries -/

theorem exists_of_header? {name : String} (h : Reader.header? l = some name) :
    name.toList ≠ [] ∧ ∃ after, l = '[' :: (name.toList ++ ']' :: after) := by
  unfold Reader.header? at h
  split at h
  next rest =>
    split at h
    next front hfront =>
      have hrest : rest.reverse = rest.reverse.takeWhile (· != ']') ++ ']' :: front := by
        rw [← hfront, List.takeWhile_append_dropWhile]
      split at h
      · cases h
      next hne =>
        obtain rfl := Option.some.inj h
        refine ⟨by simpa using hne, (rest.reverse.takeWhile (· != ']')).reverse, congrArg ('[' :: ·) ?_⟩
        rw [List.reverse_eq_iff] at hrest
        rw [String.toList_ofList]
        simpa using hrest
    next => cases h
  next => cases h

theorem header?_bracket {name after : List Char} (hname : name ≠ []) (hafter : ']' ∉ after) :
    Reader.header? ('[' :: (name ++ ']' :: after)) = some (String.ofList name) := by
  have hdrop : (name ++ ']' :: after).reverse.dropWhile (· != ']') = ']' :: name.reverse := by
    rw [List.reverse_append, List.reverse_cons, List.append_assoc, List.dropWhile_append_of_pos]
    · rfl
    · intro c hc
      rw [bne_iff_ne]
      rintro rfl
      exact hafter (List.mem_reverse.mp hc)
  simp only [Reader.header?, hdrop]
  simp [hname]

/-- A line is a header if it has an opening bracket in front and a closing one behind its second character. -/
theorem header?_eq_none_iff : Reader.header? l = none ↔ (l.head? = some '[' → ']' ∉ l.drop 2) := by
  constructor
  · intro h hfront hmem
    obtain ⟨rest, rfl⟩ := List.head?_eq_some_iff.mp hfront
    cases rest with
    | nil => cases hmem
    | cons x rest =>
      obtain ⟨after, front, hrest, hafter⟩ := List.eq_append_cons_of_mem (List.mem_reverse.mpr hmem)
      rw [List.reverse_eq_iff, List.reverse_append, List.reverse_cons, List.append_assoc] at hrest
      have hheader := header?_bracket (List.cons_ne_nil x front.reverse)
        (mt List.mem_reverse.mp hafter)
      rw [show rest = front.reverse ++ ']' :: after.reverse from hrest] at h
      exact absurd (h.symm.trans hheader) (by simp)
  · intro h
    cases hheader : Reader.header? l with
    | none => rfl
    | some name =>
      obtain ⟨hne, after, rfl⟩ := exists_of_header? hheader
      obtain ⟨x, rest, hname⟩ := List.exists_cons_of_ne_nil hne
      exact absurd (h rfl) (by simp [hname])

theorem entry?_append (h : ∀ c ∈ left, c ≠ '=' ∧ c ≠ ':') (right : List Char) :
    entry? (left ++ '=' :: right) = some (left, right) := by
  have hleft : ∀ c ∈ left, (!(c == '=' || c == ':')) = true := by simpa using h
  unfold entry?
  dsimp only
  rw [List.dropWhile_append_of_pos hleft, List.takeWhile_append_of_pos hleft]
  simp

theorem exists_of_entry (h : entry? l = some (left, right)) :
    ∃ c, l = left ++ c :: right ∧ ∀ c ∈ left, c ≠ '=' ∧ c ≠ ':' := by
  unfold entry? at h
  dsimp only at h
  split at h
  next c value hvalue =>
    obtain ⟨rfl, rfl⟩ := Prod.mk.inj (Option.some.inj h)
    refine ⟨c, by rw [← hvalue, List.takeWhile_append_dropWhile], ?_⟩
    simpa using List.all_eq_true.mp (List.all_takeWhile (l := l) (p := fun c => !(c == '=' || c == ':')))
  next => cases h

/-! ### Keys and values -/

/-- The key can stand on a line with the first line of its value, and is read as it is. -/
structure KeyLine (key : String) (first : List Char) : Prop extends Remark key.toList where
  ne_nil : key.toList ≠ []
  no_delimiter : ∀ c ∈ key.toList, c ≠ '=' ∧ c ≠ ':'
  lower_eq : lower key = key
  no_header : key.toList.head? = some '[' → ']' ∉ key.toList.drop 2 ∧ ']' ∉ first

/-- A key with the first line of its value and the further ones. -/
structure EntryLines (key : String) (first : List Char) (more : List (List Char)) : Prop where
  key : KeyLine key first
  first : Neat first
  more : ∀ l ∈ more, Remark l

def glued (first : List Char) (more : List (List Char)) : List Char :=
  first ++ more.flatMap ('\n' :: ·)

/-- An entry that is written as lines which are read as they are; there is no blank line at the end of the value. -/
def Storable (e : String × String) : Prop :=
  ∃ first more, e.2.toList = glued first more ∧ EntryLines e.1 first more ∧ more.getLast? ≠ some []

/-- A name that can stand in a header. -/
structure Heading (name : String) : Prop where
  ne_default : name ≠ defaultName
  ne_nil : name.toList ≠ []
  oneLine : OneLine name.toList

/-- A bracket in front of the key is in front of the line, which then has no closing one behind its second
character. -/
theorem no_header_lowerFrom {key : List Char} (hheader : Reader.header? (key ++ blanks ++ c :: right) = none)
    (hbracket : (lowerFrom [] key).head? = some '[') : ']' ∉ (lowerFrom [] key).drop 2 ∧ ']' ∉ right := by
  have hfront : key.head? = some '[' := by
    refine head?_lowerFrom (P := fun x => x = '[' → key.head? = some '[') ?_ ?_ '[' hbracket rfl
    · rintro x hx rfl
      exact absurd hx.letter (by decide)
    · rintro x hx rfl
      exact hx
  obtain ⟨rest, rfl⟩ := List.head?_eq_some_iff.mp hfront
  have hnone := header?_eq_none_iff.mp hheader rfl
  have hlower : lowerFrom [] ('[' :: rest) = '[' :: lowerFrom ['['] rest := rfl
  rw [hlower]
  refine ⟨fun hclosing => hnone ?_, fun hclosing => hnone ?_⟩
  · cases rest with
    | nil => cases hclosing
    | cons c rest =>
      have := mem_of_mem_drop_lowerFrom (by decide) hclosing
      simp [this]
  · cases hcs : rest ++ blanks with
    | nil => simpa [hcs] using hclosing
    | cons c cs => simp [hcs, hclosing]

theorem keyLine_of_entry (hl : Remark l) (hheader : Reader.header? l = none)
    (hentry : entry? l = some (left, right)) (hkey : trimEnd left ≠ []) :
    KeyLine (lower (String.ofList (trimEnd left))) (trimBlanks isBlank right) := by
  have hletter {x : Char} (hx : x.toNat < 0x61) : ¬ Settled x := fun h => absurd h.letter (by omega)
  obtain ⟨d, rfl, hdelimiter⟩ := exists_of_entry hentry
  obtain ⟨blanks, hleft, -⟩ := exists_trimEnd left
  have hback := getLast?_trimEnd left
  revert hkey hleft hback
  generalize trimEnd left = key
  rintro hkey rfl hback
  have hhead : (key ++ blanks ++ d :: right).head? = key.head? := by
    cases key with
    | nil => exact absurd rfl hkey
    | cons c key => rfl
  have hchars : (lower (String.ofList key)).toList = lowerFrom [] key := by
    rw [lower, String.toList_ofList, String.toList_ofList]
  have hmem {c : Char} (hc : c ∈ lowerFrom [] key) (hsign : c.toNat < 0x61) : c ∈ key :=
    (mem_lowerFrom hc).2.resolve_right (hletter hsign)
  -- lowering brings in letters only
  have hkept {x y : Char} (hx : x.toNat < 0x61) (hy : y.toNat < 0x61) (h : ∀ c ∈ key, c ≠ x ∧ c ≠ y) :
      ∀ c ∈ lowerFrom [] key, c ≠ x ∧ c ≠ y := fun c hc =>
    ⟨fun heq => (h c (hmem hc (heq ▸ hx))).1 heq, fun heq => (h c (hmem hc (heq ▸ hy))).2 heq⟩
  refine ⟨⟨⟨?_, ?_, ?_⟩, ?_⟩, ?_, ?_, lower_lower _, ?_⟩
  all_goals rw [hchars]
  · exact head?_lowerFrom (fun x hx => hx.not_blank) (hhead ▸ hl.front)
  · exact getLast?_lowerFrom (fun x hx => hx.not_blank) hback
  · exact hkept (by decide) (by decide) fun c hc => hl.oneLine c (by simp [hc])
  · refine head?_lowerFrom (fun x hx => ⟨?_, ?_⟩) (hhead ▸ hl.not_comment)
    · rintro rfl
      exact hletter (by decide) hx
    · rintro rfl
      exact hletter (by decide) hx
  · exact lowerFrom_ne_nil hkey
  · exact hkept (by decide) (by decide) fun c hc => hdelimiter c (List.mem_append_left _ hc)
  · exact fun hbracket => (no_header_lowerFrom hheader hbracket).imp_right (mt mem_of_mem_trimBlanks)

theorem flatten_intersperse (first : List Char) (more : List (List Char)) :
    ((first :: more).intersperse ['\n']).flatten = glued first more := by
  induction more generalizing first with
  | nil => simp [glued]
  | cons l more ih =>
    rw [List.intersperse_cons_cons, List.flatten_cons, List.flatten_cons, ih]
    simp [glued]

theorem joined_append (rest : List (List Char)) (first : List Char) :
    Reader.joined (rest ++ [first]) = String.ofList (trimEnd (glued first rest.reverse)) := by
  rw [Reader.joined, List.reverse_append, List.reverse_singleton, List.singleton_append, flatten_intersperse]
  rfl

theorem joined_cons_nil (value : List (List Char)) : Reader.joined ([] :: value) = Reader.joined value := by
  rcases List.eq_nil_or_concat value with rfl | ⟨rest, first, rfl⟩
  · rfl
  · rw [List.concat_eq_append, ← List.cons_append, joined_append, joined_append]
    have hglued : glued first ([] :: rest).reverse = glued first rest.reverse ++ ['\n'] := by
      simp [glued, List.flatMap_append]
    rw [hglued, trimEnd, List.reverse_append]
    rfl

theorem EntryLines.trimEnd_glued {key : String} (h : EntryLines key first more) (hlast : more.getLast? ≠ some []) :
    trimEnd (glued first more) = glued first more := by
  have hback : ∀ c ∈ (glued first more).getLast?, isBlank c = false := by
    rcases List.eq_nil_or_concat more with rfl | ⟨front, l, rfl⟩
    · simpa [glued] using h.first.back
    · rw [List.concat_eq_append] at hlast h ⊢
      have hl : l ≠ [] := by simpa using hlast
      have hend := (h.more l (by simp)).back
      cases hlast : l.getLast? with
      | none => exact absurd (List.getLast?_eq_none_iff.mp hlast) hl
      | some c =>
        rw [hlast] at hend
        simpa [glued, List.flatMap_append, List.getLast?_append, List.getLast?_cons, hlast] using hend
  have := trimEnd_append hback (List.forall_mem_nil _)
  rwa [List.append_nil] at this

/-- What is read as a value can be stored. -/
theorem storable_joined {key : String} {rest : List (List Char)} (h : EntryLines key first rest) :
    Storable (key, Reader.joined (rest ++ [first])) := by
  induction rest with
  | nil =>
    refine ⟨first, [], ?_, h, by simp⟩
    rw [joined_append, List.reverse_nil, h.trimEnd_glued (by simp), String.toList_ofList]
  | cons l rest ih =>
    have hrest : EntryLines key first rest := ⟨h.key, h.first, fun l hl => h.more l (List.mem_cons_of_mem _ hl)⟩
    by_cases hl : l = []
    · rw [hl, List.cons_append, joined_cons_nil]
      exact ih hrest
    · have hreverse : EntryLines key first (l :: rest).reverse :=
        ⟨h.key, h.first, fun l hl => h.more l (List.mem_reverse.mp hl)⟩
      have hlast : (l :: rest).reverse.getLast? ≠ some [] := by simpa using hl
      refine ⟨first, (l :: rest).reverse, ?_, hreverse, hlast⟩
      rw [joined_append, hreverse.trimEnd_glued hlast, String.toList_ofList]

/-! ### Reading line by line -/

/-- A document with distinct names and keys, whose sections and entries have the properties. -/
structure Document.Every (N : String → Prop) (E : String × String → Prop) (d : Document) : Prop where
  defaults : Table.Every E d.defaults
  sections : Table.Every (fun part => N part.1 ∧ Table.Every E part.2) d.sections

namespace Reader

variable {r r' : Reader} {name : String} {keys : Table String (List (List Char))}

def Row (e : String × List (List Char)) : Prop :=
  ∃ first rest, e.2 = rest ++ [first] ∧ EntryLines e.1 first rest

/-- All that has been read can be stored. -/
structure Sound (r : Reader) : Prop where
  defaults : Table.Every Row r.defaults
  sections : Table.Every (fun part => Heading part.1 ∧ Table.Every Row part.2) r.sections
  current : ∀ name ∈ r.current, name ≠ defaultName → Heading name

theorem Sound.keysOf (h : r.Sound) (name : String) : Table.Every Row (r.keysOf name) := by
  unfold Reader.keysOf
  split
  · exact h.defaults
  · cases hfound : Table.find? r.sections name with
    | none => exact .nil
    | some keys => exact (h.sections.of_find? hfound).2

theorem Sound.setKeys (h : r.Sound) (hname : r.current = some name) (hkeys : Table.Every Row keys) :
    (r.setKeys name keys).Sound := by
  unfold Reader.setKeys
  split
  · exact ⟨hkeys, h.sections, h.current⟩
  next hne => exact ⟨h.defaults, h.sections.put ⟨h.current name hname hne, hkeys⟩, h.current⟩

theorem Sound.continueValue (h : r.Sound) {l : List Char} (hl : Remark l) : (r.continueValue l).Sound := by
  unfold Reader.continueValue
  split
  next name key hname hkey =>
    dsimp only
    split
    next value hvalue =>
      obtain ⟨first, rest, rfl, hlines⟩ := (h.keysOf name).of_find? hvalue
      exact h.setKeys hname ((h.keysOf name).put
        ⟨first, l :: rest, rfl, hlines.key, hlines.first, List.forall_mem_cons.mpr ⟨hl, hlines.more⟩⟩)
    next => exact h
  next => exact h

@[simp] theorem faulty_setKeys (r : Reader) (name : String) (keys : Table String (List (List Char))) :
    (r.setKeys name keys).faulty = r.faulty := by
  unfold Reader.setKeys
  split <;> rfl

@[simp] theorem faulty_continueValue (r : Reader) (l : List Char) : (r.continueValue l).faulty = r.faulty := by
  unfold Reader.continueValue
  split
  · dsimp only
    split
    · exact faulty_setKeys _ _ _
    · rfl
  · rfl

theorem sound_openSection (h : r.openSection name = .ok r') (hne : name.toList ≠ []) (hname : OneLine name.toList) :
    r'.faulty = r.faulty ∧ (r.Sound → r'.Sound) := by
  unfold openSection at h
  split at h
  next hdefault =>
    obtain rfl := Except.ok.inj h
    refine ⟨rfl, fun hr => ⟨hr.defaults, hr.sections, ?_⟩⟩
    rintro other ⟨⟩ hother
    exact absurd hdefault hother
  next hdefault =>
    split at h
    · cases h
    · obtain rfl := Except.ok.inj h
      have hheading : Heading name := ⟨hdefault, hne, hname⟩
      refine ⟨rfl, fun hr => ⟨hr.defaults, hr.sections.put ⟨hheading, .nil⟩, ?_⟩⟩
      rintro other ⟨⟩ -
      exact hheading

theorem sound_readEntry {l : List Char} (h : r.readEntry name l = .ok r') (hname : r.current = some name)
    (hl : Remark l) (hheader : header? l = none) (hfaulty : r'.faulty = false) :
    r.faulty = false ∧ (r.Sound → r'.Sound) := by
  unfold readEntry at h
  split at h
  next =>
    obtain rfl := Except.ok.inj h
    cases hfaulty
  next left right hentry =>
    dsimp only at h
    split at h
    · cases h
    · obtain rfl := Except.ok.inj h
      dsimp only at hfaulty ⊢
      rw [faulty_setKeys, Bool.or_eq_false_iff] at hfaulty
      obtain ⟨d, hline, -⟩ := exists_of_entry hentry
      have hright : OneLine right := fun c hc => hl.oneLine c (by rw [hline]; simp [hc])
      have hkey : trimEnd left ≠ [] := by simpa [trimEnd] using hfaulty.2
      have hlines : EntryLines _ _ [] :=
        ⟨keyLine_of_entry hl hheader hentry hkey, neat_trimBlanks hright, List.forall_mem_nil _⟩
      refine ⟨hfaulty.1, fun hr => ?_⟩
      have hset := hr.setKeys hname ((hr.keysOf name).put ⟨_, [], rfl, hlines⟩)
      exact ⟨hset.defaults, hset.sections, hset.current⟩

/-- A line leaves a fault, or it leaves sound what has been read. -/
theorem sound_readLine {l : List Char} (hl : OneLine l) (h : r.readLine l = .ok r') (hfaulty : r'.faulty = false) :
    r.faulty = false ∧ (r.Sound → r'.Sound) := by
  have hneat := neat_trimBlanks hl
  unfold readLine at h
  revert h hneat
  generalize trimBlanks isBlank l = value
  intro h hneat
  cases value with
  | nil =>
    obtain rfl := Except.ok.inj h
    split at hfaulty
    next hon =>
      rw [if_pos hon]
      rw [faulty_continueValue] at hfaulty
      exact ⟨hfaulty, fun hr => hr.continueValue ⟨hneat, by simp⟩⟩
    next hon =>
      rw [if_neg hon]
      exact ⟨hfaulty, id⟩
  | cons first rest =>
    dsimp only at h
    split at h
    · obtain rfl := Except.ok.inj h
      exact ⟨hfaulty, id⟩
    next hcomment =>
      have hremark : Remark (first :: rest) := ⟨hneat, by
        rintro c ⟨⟩
        exact not_or.mp hcomment⟩
      split at h
      · obtain rfl := Except.ok.inj h
        rw [faulty_continueValue] at hfaulty
        exact ⟨hfaulty, fun hr => hr.continueValue hremark⟩
      · -- what follows looks at the reader with the indent of this line, which is as sound
        have hindent {n : Nat} (hr : r.Sound) : { r with indent := n }.Sound := ⟨hr.defaults, hr.sections, hr.current⟩
        split at h
        next name hheader =>
          obtain ⟨hne, after, hline⟩ := exists_of_header? hheader
          have honeLine : OneLine name.toList := fun c hc => hneat.oneLine c (by rw [hline]; simp [hc])
          obtain ⟨hkept, hsound⟩ := sound_openSection h hne honeLine
          exact ⟨hkept.symm.trans hfaulty, fun hr => hsound (hindent hr)⟩
        next hheader =>
          split at h
          · cases h
          next name hcurrent =>
            obtain ⟨hkept, hsound⟩ := sound_readEntry h hcurrent hremark hheader hfaulty
            exact ⟨hkept, fun hr => hsound (hindent hr)⟩

theorem sound_foldlM {ls : List (List Char)} (hls : ∀ l ∈ ls, OneLine l) (h : ls.foldlM readLine r = .ok r')
    (hfaulty : r'.faulty = false) : r.faulty = false ∧ (r.Sound → r'.Sound) := by
  induction ls generalizing r with
  | nil =>
    obtain rfl := Except.ok.inj h
    exact ⟨hfaulty, id⟩
  | cons l ls ih =>
    obtain ⟨hl, hls⟩ := List.forall_mem_cons.mp hls
    rw [List.foldlM_cons] at h
    obtain ⟨next, hnext, hrest⟩ := Step.exists_of_bind_eq_ok h
    obtain ⟨hkept, hsound⟩ := ih hls hrest
    obtain ⟨hkept', hsound'⟩ := sound_readLine hl hnext hkept
    exact ⟨hkept', fun hr => hsound (hsound' hr)⟩

def closed (keys : Table String (List (List Char))) : Entries :=
  keys.map fun e => (e.1, joined e.2)

def view (r : Reader) : Document where
  defaults := closed r.defaults
  sections := r.sections.map fun part => (part.1, closed part.2)

theorem finish_eq (r : Reader) : r.finish = if r.faulty then .error .unreadableLine else .ok r.view := rfl

theorem Sound.view (h : r.Sound) : r.view.Every Heading Storable := by
  have hrows (rows : Table String (List (List Char))) (hrows : Table.Every Row rows) :
      Table.Every Storable (closed rows) := by
    refine hrows.map ?_
    rintro ⟨key, value⟩ ⟨first, rest, rfl, hlines⟩
    exact storable_joined hlines
  exact ⟨hrows _ h.defaults, h.sections.map fun part hpart => ⟨hpart.1, hrows _ hpart.2⟩⟩

end Reader

/-- Every document that is read from a text has distinct section names and distinct keys, and all of it can be
stored. -/
theorem Document.every_of_parse {text : String} {d : Document} (h : Document.parse text = .ok d) :
    d.Every Heading Storable := by
  obtain ⟨r, hr, hfinish⟩ := Step.exists_of_bind_eq_ok h
  rw [Reader.finish_eq] at hfinish
  split at hfinish
  · cases hfinish
  next hfaulty =>
    obtain rfl := Except.ok.inj hfinish
    have hstart : Reader.Sound {} := ⟨.nil, .nil, by rintro _ ⟨⟩⟩
    exact ((Reader.sound_foldlM (fun l hl => oneLine_of_mem_lines hl) hr (Bool.not_eq_true _ ▸ hfaulty)).2 hstart).view

end Settings

end Handset
