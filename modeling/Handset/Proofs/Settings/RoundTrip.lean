import Handset.Proofs.Settings.Completion
import Handset.Proofs.Settings.TextForm

/-!
# Saving and loading again

A document that was read from a text is written as a text that is read as the same document. The reader is followed
through the written text entry by entry and section by section. With the defaults filled in nothing changes: they are
stored like all else, and when the text is loaded again there are no gaps left.
-/
namespace Handset

namespace Settings

open Text.Character (isBlank trimBlanks)
open Text.LetterCase (lower)

variable {first l : List Char} {more : List (List Char)} {d : Document}

/-! ### What is written -/

def indented (cs : List Char) : List Char :=
  cs.flatMap fun c => if c = '\n' then ['\n', '\t'] else [c]

theorem indented_append (cs ds : List Char) : indented (cs ++ ds) = indented cs ++ indented ds :=
  List.flatMap_append

theorem indented_of_oneLine (h : OneLine l) : indented l = l := by
  induction l with
  | nil => rfl
  | cons c l ih =>
    obtain ⟨⟨hfeed, -⟩, hl⟩ := List.forall_mem_cons.mp h
    rw [indented, List.flatMap_cons, if_neg hfeed]
    exact congrArg (c :: ·) (ih hl)

/-- A value is written as its first line and the further ones behind a tab. -/
theorem indented_glued (hfirst : OneLine first) (hmore : ∀ l ∈ more, OneLine l) :
    indented (glued first more) ++ ['\n'] = (first ++ ['\n']) ++ more.flatMap fun l => '\t' :: (l ++ ['\n']) := by
  induction more generalizing first with
  | nil => simp [glued, indented_of_oneLine hfirst]
  | cons l more ih =>
    obtain ⟨hl, hmore⟩ := List.forall_mem_cons.mp hmore
    have hglued : glued first (l :: more) = first ++ '\n' :: glued l more := rfl
    have hcons : indented ('\n' :: glued l more) = '\n' :: '\t' :: indented (glued l more) := rfl
    rw [hglued, indented_append, indented_of_oneLine hfirst, hcons, List.flatMap_cons, List.append_assoc,
      List.append_assoc, List.cons_append, List.cons_append, ih hl hmore]
    simp

theorem toList_entryText (e : String × String) :
    (Document.entryText e).toList = e.1.toList ++ ' ' :: '=' :: ' ' :: (indented e.2.toList ++ ['\n']) := by
  have hvalue : (String.join (e.2.toList.map fun c => if c == '\n' then "\n\t" else String.ofList [c])).toList =
      indented e.2.toList := by
    rw [String.toList_join, List.flatMap_map, indented]
    congr 1
    funext c
    by_cases h : c = '\n' <;> simp [h]
  unfold Document.entryText
  rw [String.toList_append, String.toList_append, String.toList_append, hvalue]
  simp

theorem toList_sectionText (name : String) (entries : Entries) :
    (Document.sectionText name entries).toList =
      ('[' :: (name.toList ++ [']'])) ++ ['\n'] ++ (entries.flatMap fun e => (Document.entryText e).toList) ++
        ['\n'] := by
  simp [Document.sectionText, String.toList_join, List.flatMap_map]

theorem KeyLine.head?_append {key : String} (h : KeyLine key first) (rest : List Char) :
    (key.toList ++ rest).head? = key.toList.head? := by
  obtain ⟨c, cs, hchars⟩ := List.exists_cons_of_ne_nil h.ne_nil
  rw [hchars]
  rfl

namespace Reader

variable {r r' : Reader} {name k : String} {keys : Table String (List (List Char))} {key : Option String}
  {cs cs' : List Char}

/-! ### Reading part of a text -/

/-- Reading these characters, which are whole lines, leads from one reader to another. -/
def Reads (r : Reader) (cs : List Char) (r' : Reader) : Prop :=
  ∀ rest, (lines (cs ++ rest)).foldlM readLine r = (lines rest).foldlM readLine r'

theorem Reads.nil (r : Reader) : Reads r [] r :=
  fun _ => rfl

theorem Reads.append {r'' : Reader} (h : Reads r cs r') (h' : Reads r' cs' r'') : Reads r (cs ++ cs') r'' := by
  intro rest
  rw [List.append_assoc, h, h']

theorem reads_line (hl : OneLine l) (h : r.readLine l = .ok r') : Reads r (l ++ ['\n']) r' := by
  intro rest
  rw [List.append_assoc, List.singleton_append, lines_append hl, List.foldlM_cons, h]
  rfl

/-- The reader in a section whose keys have been read so far, at the start of a line. -/
def standing (r : Reader) (name : String) (keys : Table String (List (List Char))) (key : Option String) : Reader :=
  { r.setKeys name keys with current := some name, key, indent := 0 }

theorem keysOf_standing : (standing r name keys key).keysOf name = keys := by
  unfold standing setKeys keysOf
  split <;> simp [Table.find?_put]

theorem setKeys_standing (keys' : Table String (List (List Char))) :
    (standing r name keys key).setKeys name keys' = standing r name keys' key := by
  unfold standing setKeys
  split <;> simp [Table.put_put]

theorem readLine_tab (r : Reader) (name : String) (hl : Remark l) (hk : k ≠ "") {value : List (List Char)}
    (hfound : keys.find? k = some value) :
    (standing r name keys (some k)).readLine ('\t' :: l) =
      .ok (standing r name (keys.put k (l :: value)) (some k)) := by
  have hon : (standing r name keys (some k)).goesOn = true := by simpa [standing, goesOn] using hk
  have htrim : trimBlanks isBlank ('\t' :: l) = l := by
    simpa using trimBlanks_append ['\t'] [] (by decide) hl.toNeat (List.forall_mem_nil _)
  have hindent : (standing r name keys (some k)).indent < (('\t' :: l).takeWhile isBlank).length := by
    rw [List.takeWhile_cons_of_pos (by decide)]
    exact Nat.succ_pos _
  have hcontinue : (standing r name keys (some k)).continueValue l =
      standing r name (keys.put k (l :: value)) (some k) := by
    simp only [continueValue, show (standing r name keys (some k)).current = some name from rfl,
      show (standing r name keys (some k)).key = some k from rfl, keysOf_standing, hfound, setKeys_standing]
  unfold readLine
  rw [htrim]
  cases l with
  | nil => simp only [hon, if_true, hcontinue]
  | cons c l =>
    have hcomment : ¬ (c = '#' ∨ c = ';') := not_or.mpr (hl.not_comment c rfl)
    simp only [if_neg hcomment, hon, decide_eq_true hindent, Bool.and_self, if_true, hcontinue]

/-- A blank line changes no value. -/
theorem readLine_nil (r : Reader) (name : String) (keys : Table String (List (List Char))) (key : Option String) :
    ∃ keys', closed keys' = closed keys ∧ (standing r name keys key).readLine [] = .ok (standing r name keys' key) := by
  have hline : (standing r name keys key).readLine [] = .ok (if (standing r name keys key).goesOn
      then (standing r name keys key).continueValue [] else standing r name keys key) := rfl
  rw [hline]
  split
  next hon =>
    unfold continueValue
    split
    next current k hcurrent hkey =>
      obtain rfl : name = current := Option.some.inj hcurrent
      rw [keysOf_standing]
      dsimp only
      split
      next value hvalue =>
        refine ⟨keys.put k ([] :: value), ?_, congrArg Except.ok (setKeys_standing _)⟩
        rw [closed, Table.map_put, joined_cons_nil]
        exact Table.put_of_find? (by rw [Table.find?_map, hvalue]; rfl)
      next => exact ⟨keys, rfl, rfl⟩
    next => exact ⟨keys, rfl, rfl⟩
  next => exact ⟨keys, rfl, rfl⟩

/-! ### Entries -/

/-- A blank behind the delimiter is at the end of the line if the first line of the value is empty. -/
theorem trimBlanks_entryLine (hkey : KeyLine k first) (hfirst : Neat first) :
    ∃ tail, trimBlanks isBlank (k.toList ++ ' ' :: '=' :: ' ' :: first) = k.toList ++ ' ' :: '=' :: tail ∧
      trimBlanks isBlank tail = first ∧ ∀ c ∈ tail, c = ' ' ∨ c ∈ first := by
  obtain ⟨tail, after, hline, hafter, htail, hback, hmem⟩ : ∃ tail after, ' ' :: first = tail ++ after ∧
      (∀ c ∈ after, isBlank c = true) ∧ trimBlanks isBlank tail = first ∧
      (∀ c ∈ ('=' :: tail).getLast?, isBlank c = false) ∧ ∀ c ∈ tail, c = ' ' ∨ c ∈ first := by
    cases first with
    | nil => exact ⟨[], [' '], rfl, by decide, rfl, by decide, List.forall_mem_nil _⟩
    | cons c first =>
      refine ⟨' ' :: c :: first, [], by simp, List.forall_mem_nil _, ?_, ?_, by simp⟩
      · simpa using trimBlanks_append [' '] [] (by decide) hfirst (List.forall_mem_nil _)
      · simpa [List.getLast?_cons_cons] using hfirst.back
  have hneat : Neat (k.toList ++ ' ' :: '=' :: tail) := by
    refine ⟨?_, ?_, ?_⟩
    · rw [hkey.head?_append]
      exact hkey.front
    · rw [List.getLast?_append, List.getLast?_cons_cons, List.getLast?_cons, Option.some_or, ← List.getLast?_cons]
      exact hback
    · refine hkey.oneLine.append (.append (by decide : OneLine [' ', '=']) fun c hc => ?_)
      rcases hmem c hc with rfl | hc
      · decide
      · exact hfirst.oneLine c hc
  refine ⟨tail, ?_, htail, hmem⟩
  rw [hline]
  simpa using trimBlanks_append [] after (List.forall_mem_nil _) hneat hafter

theorem header?_entryLine (hkey : KeyLine k first) {tail : List Char} (hmem : ∀ c ∈ tail, c = ' ' ∨ c ∈ first) :
    header? (k.toList ++ ' ' :: '=' :: tail) = none := by
  rw [header?_eq_none_iff, hkey.head?_append]
  intro hbracket hclosing
  obtain ⟨hkeyfree, hfirstfree⟩ := hkey.no_header hbracket
  rw [List.drop_append] at hclosing
  rcases List.mem_append.mp hclosing with hclosing | hclosing
  · exact hkeyfree hclosing
  · have hclosing := List.mem_of_mem_drop hclosing
    simp only [List.mem_cons] at hclosing
    rcases hclosing with hclosing | hclosing | hclosing
    · exact absurd hclosing (by decide)
    · exact absurd hclosing (by decide)
    · rcases hmem _ hclosing with hclosing | hclosing
      · exact absurd hclosing (by decide)
      · exact hfirstfree hclosing

theorem readEntry_entryLine (hkey : KeyLine k first) {tail : List Char} (htail : trimBlanks isBlank tail = first)
    (hnew : k ∉ keys.keys) : (standing r name keys key).readEntry name (k.toList ++ ' ' :: '=' :: tail) =
      .ok (standing r name (keys.put k [first]) (some k)) := by
  have hleft : ∀ c ∈ k.toList ++ [' '], c ≠ '=' ∧ c ≠ ':' := by
    intro c hc
    rcases List.mem_append.mp hc with hc | hc
    · exact hkey.no_delimiter c hc
    · rw [List.mem_singleton.mp hc]
      decide
  have hentry : entry? (k.toList ++ ' ' :: '=' :: tail) = some (k.toList ++ [' '], tail) := by
    simpa using entry?_append hleft tail
  have hspelling : String.ofList ((k.toList ++ [' ']).reverse.dropWhile isBlank).reverse = k := by
    have htrim : trimEnd (k.toList ++ [' ']) = k.toList := trimEnd_append hkey.back (by decide)
    rw [trimEnd] at htrim
    rw [htrim, String.ofList_toList]
  have hhas : keys.has k = false := by
    rw [Table.has, Table.find?_eq_none_of_notMem_keys hnew]
    rfl
  have hname : k.isEmpty = false := by
    have := hkey.ne_nil
    simpa using this
  unfold readEntry
  simp only [hentry, hspelling, hkey.lower_eq, keysOf_standing, hhas, htail, setKeys_standing, hname, Bool.or_false]
  rfl

/-- The line of a key with the first line of its value is read as it is. -/
theorem readLine_entry (hkey : KeyLine k first) (hfirst : Neat first) (hnew : k ∉ keys.keys) :
    (standing r name keys key).readLine (k.toList ++ ' ' :: '=' :: ' ' :: first) =
      .ok (standing r name (keys.put k [first]) (some k)) := by
  obtain ⟨tail, htrim, htail, hmem⟩ := trimBlanks_entryLine hkey hfirst
  obtain ⟨c, rest, hchars⟩ := List.exists_cons_of_ne_nil hkey.ne_nil
  have hcomment : ¬ (c = '#' ∨ c = ';') := not_or.mpr (hkey.not_comment c (by rw [hchars]; rfl))
  have hindent : ((k.toList ++ ' ' :: '=' :: ' ' :: first).takeWhile isBlank).length = 0 := by
    rw [hchars, List.cons_append, List.takeWhile_cons_of_neg, List.length_nil]
    rw [hkey.front c (by rw [hchars]; rfl)]
    decide
  have hheader := header?_entryLine hkey hmem
  have hentry : (standing r name keys key).readEntry name _ = _ := readEntry_entryLine hkey htail hnew
  unfold readLine
  rw [htrim, hindent]
  rw [hchars, List.cons_append] at hheader hentry ⊢
  simp only [if_neg hcomment, Nat.not_lt_zero, decide_false, Bool.and_false, Bool.false_eq_true, if_false, hheader]
  exact hentry

theorem reads_more (hmore : ∀ l ∈ more, Remark l) (hk : k ≠ "") (value : List (List Char)) :
    Reads (standing r name (keys.put k value) (some k)) (more.flatMap fun l => '\t' :: (l ++ ['\n']))
      (standing r name (keys.put k (more.reverse ++ value)) (some k)) := by
  induction more generalizing value with
  | nil => exact .nil _
  | cons l more ih =>
    obtain ⟨hl, hmore⟩ := List.forall_mem_cons.mp hmore
    have honeLine : OneLine ('\t' :: l) := List.forall_mem_cons.mpr ⟨by decide, hl.oneLine⟩
    have hfound : (keys.put k value).find? k = some value := by rw [Table.find?_put, beq_self_eq_true, if_pos rfl]
    have hline := reads_line honeLine (readLine_tab r name hl hk hfound)
    rw [Table.put_put] at hline
    rw [List.reverse_cons, List.append_assoc]
    exact hline.append (ih hmore (l :: value))

theorem reads_entry (r : Reader) (name : String) (key : Option String) {e : String × String} (he : Storable e)
    (hnew : e.1 ∉ keys.keys) : ∃ value, joined value = e.2 ∧ Reads (standing r name keys key)
      (Document.entryText e).toList (standing r name (keys.put e.1 value) (some e.1)) := by
  obtain ⟨first, more, hvalue, hlines, hlast⟩ := he
  have hk : e.1 ≠ "" := by
    intro hempty
    exact hlines.key.ne_nil (by rw [hempty]; rfl)
  refine ⟨more.reverse ++ [first], ?_, ?_⟩
  · rw [joined_append, List.reverse_reverse, hlines.trimEnd_glued hlast, ← hvalue, String.ofList_toList]
  · have honeLine : OneLine (e.1.toList ++ ' ' :: '=' :: ' ' :: first) :=
      hlines.key.oneLine.append (.append (by decide : OneLine [' ', '=', ' ']) hlines.first.oneLine)
    have hline : Reads (standing r name keys key) _ _ :=
      reads_line honeLine (readLine_entry hlines.key hlines.first hnew)
    rw [toList_entryText, hvalue, indented_glued hlines.first.oneLine fun l hl => (hlines.more l hl).oneLine]
    simpa using hline.append (reads_more hlines.more hk [first])

theorem reads_entries (r : Reader) (name : String) (keys : Table String (List (List Char))) {entries : Entries}
    (hentries : ∀ e ∈ entries, Storable e) (hnodup : (keys.keys ++ entries.keys).Nodup) (key : Option String) :
    ∃ keys' key', closed keys' = closed keys ++ entries ∧ Reads (standing r name keys key)
      (entries.flatMap fun e => (Document.entryText e).toList) (standing r name keys' key') := by
  induction entries generalizing keys key with
  | nil => exact ⟨keys, key, (List.append_nil _).symm, .nil _⟩
  | cons e entries ih =>
    obtain ⟨he, hentries⟩ := List.forall_mem_cons.mp hentries
    have hnew : e.1 ∉ keys.keys := fun hmem =>
      (List.nodup_append.mp hnodup).2.2 _ hmem _ List.mem_cons_self rfl
    obtain ⟨value, hjoined, hfirst⟩ := reads_entry r name key he hnew
    rw [Table.put_eq_append value hnew] at hfirst
    have hkeys : Table.keys (keys ++ [(e.1, value)]) = keys.keys ++ [e.1] := List.map_append
    have hrest : (Table.keys (keys ++ [(e.1, value)]) ++ Table.keys entries).Nodup := by
      rw [hkeys, List.append_assoc]
      exact hnodup
    obtain ⟨keys', key', hclosed, hreads⟩ := ih _ hentries hrest (some e.1)
    refine ⟨keys', key', ?_, hfirst.append hreads⟩
    rw [hclosed, closed, List.map_append, List.append_assoc, List.map_singleton, hjoined]
    rfl

/-! ### Sections -/

theorem oneLine_header (hname : OneLine name.toList) : OneLine ('[' :: (name.toList ++ [']'])) :=
  .append (by decide : OneLine ['[']) (hname.append (by decide))

theorem readLine_header (hne : name.toList ≠ []) (hname : OneLine name.toList) (r : Reader) :
    r.readLine ('[' :: (name.toList ++ [']'])) = { r with indent := 0 }.openSection name := by
  have hneat : Neat ('[' :: (name.toList ++ [']'])) := by
    refine ⟨?_, ?_, oneLine_header hname⟩
    · rintro c ⟨⟩
      decide
    · rw [← List.cons_append, List.getLast?_append]
      rintro c ⟨⟩
      decide
  have htrim : trimBlanks isBlank ('[' :: (name.toList ++ [']'])) = '[' :: (name.toList ++ [']']) := by
    simpa using trimBlanks_append [] [] (List.forall_mem_nil _) hneat (List.forall_mem_nil _)
  have hindent : (('[' :: (name.toList ++ [']'])).takeWhile isBlank).length = 0 := by
    rw [List.takeWhile_cons_of_neg (by decide), List.length_nil]
  have hheader : header? ('[' :: (name.toList ++ [']'])) = some name := by
    rw [header?_bracket hne (List.not_mem_nil), String.ofList_toList]
  unfold readLine
  rw [htrim, hindent]
  simp only [if_neg (show ¬ ('[' = '#' ∨ '[' = ';') by decide), Nat.not_lt_zero, decide_false, Bool.and_false,
    Bool.false_eq_true, if_false, hheader]

theorem reads_section (r : Reader) (name : String) {entries : Entries} (hne : name.toList ≠ [])
    (hname : OneLine name.toList) (hopen : { r with indent := 0 }.openSection name = .ok (standing r name [] none))
    (hentries : Table.Every Storable entries) :
    ∃ keys key, closed keys = entries ∧
      Reads r (Document.sectionText name entries).toList (standing r name keys key) := by
  obtain ⟨keys, key, hclosed, hreads⟩ :=
    reads_entries r name [] hentries.all hentries.nodup none
  obtain ⟨keys', hclosed', hblank⟩ := readLine_nil r name keys key
  refine ⟨keys', key, hclosed'.trans hclosed, ?_⟩
  rw [toList_sectionText]
  exact ((reads_line (oneLine_header hname) ((readLine_header hne hname r).trans hopen)).append hreads).append
    (reads_line (List.forall_mem_nil _) hblank)

theorem reads_sections {sections : Table String Entries}
    (hsections : ∀ part ∈ sections, Heading part.1 ∧ Table.Every Storable part.2)
    (hnodup : (r.sections.keys ++ sections.keys).Nodup) :
    ∃ r', r'.faulty = r.faulty ∧ r'.view = { r.view with sections := r.view.sections ++ sections } ∧
      Reads r (sections.flatMap fun part => (Document.sectionText part.1 part.2).toList) r' := by
  induction sections generalizing r with
  | nil => exact ⟨r, rfl, by rw [List.append_nil], .nil _⟩
  | cons part sections ih =>
    obtain ⟨⟨hheading, hentries⟩, hsections⟩ := List.forall_mem_cons.mp hsections
    have hnew : part.1 ∉ r.sections.keys := fun hmem =>
      (List.nodup_append.mp hnodup).2.2 _ hmem _ List.mem_cons_self rfl
    have hhas : Table.has r.sections part.1 = false := by
      rw [Table.has, Table.find?_eq_none_of_notMem_keys hnew]
      rfl
    have hopen : { r with indent := 0 }.openSection part.1 = .ok (standing r part.1 [] none) := by
      simp only [openSection, hheading.ne_default, if_false, hhas, Bool.false_eq_true, standing, setKeys]
    obtain ⟨keys, key, hclosed, hfirst⟩ := reads_section r _ hheading.ne_nil hheading.oneLine hopen hentries
    have hput : (standing r part.1 keys key).sections = r.sections ++ [(part.1, keys)] := by
      rw [← Table.put_eq_append keys hnew]
      simp only [standing, setKeys, hheading.ne_default, if_false]
    have hkeys : (standing r part.1 keys key).sections.keys = r.sections.keys ++ [part.1] := by
      rw [hput]
      exact List.map_append
    obtain ⟨r', hfaulty, hview, hrest⟩ := ih (r := standing r part.1 keys key) hsections
      (by rw [hkeys, List.append_assoc]; exact hnodup)
    refine ⟨r', ?_, ?_, hfirst.append hrest⟩
    · rw [hfaulty]
      exact faulty_setKeys _ _ _
    · rw [hview]
      simp only [view, hput, List.map_append, List.map_singleton, hclosed, List.append_assoc]
      simp [standing, setKeys, hheading.ne_default]

end Reader

/-- A document with distinct names and keys that can be stored is read as it was written. -/
theorem Document.parse_render (h : d.Every Heading Storable) : Document.parse d.render = .ok d := by
  have hrender : d.render.toList = (if d.defaults.isEmpty then [] else (sectionText defaultName d.defaults).toList) ++
      d.sections.flatMap fun part => (sectionText part.1 part.2).toList := by
    unfold Document.render
    rw [String.toList_append, String.toList_join, List.flatMap_map]
    congr 1
    split <;> rfl
  obtain ⟨r, hfaulty, hsections, hdefaults, hreads⟩ : ∃ r : Reader, r.faulty = false ∧ r.sections = [] ∧
      Reader.closed r.defaults = d.defaults ∧ Reader.Reads {}
        (if d.defaults.isEmpty then [] else (sectionText defaultName d.defaults).toList) r := by
    split
    next hempty => exact ⟨{}, rfl, rfl, (List.isEmpty_iff.mp hempty).symm, .nil _⟩
    next =>
      obtain ⟨keys, key, hclosed, hreads⟩ := Reader.reads_section {} defaultName (by decide)
        (by decide) rfl h.defaults
      exact ⟨_, rfl, rfl, hclosed, hreads⟩
  obtain ⟨r', hfaulty', hview, hreads'⟩ := Reader.reads_sections (r := r) h.sections.all
    (by rw [hsections]; exact h.sections.nodup)
  have hrun : (lines d.render.toList).foldlM Reader.readLine {} = .ok r' := by
    have hall := (hreads.append hreads') []
    rwa [List.append_nil, ← hrender] at hall
  have hdocument : r'.view = d := by
    rw [hview, Reader.view, hsections, hdefaults]
    rfl
  unfold Document.parse
  rw [hrun]
  change r'.finish = .ok d
  rw [Reader.finish_eq, hfaulty', hfaulty, if_neg (by decide), hdocument]

/-! ### Completing a document that can be stored -/

namespace Document

variable {e : Document} {N : String → Prop} {E : String × String → Prop}

theorem Every.addSection (h : d.Every N E) {name : String} (hname : N name) : (d.addSection name).Every N E := by
  unfold Document.addSection
  split
  · exact h
  · exact ⟨h.defaults, h.sections.put ⟨hname, .nil⟩⟩

theorem Every.set (h : d.Every N E) (name : String) {entry : String × String} (hentry : E entry) :
    (d.set name entry.1 entry.2).Every N E := by
  unfold Document.set
  split
  · exact h
  next entries hfound =>
    obtain ⟨hname, hentries⟩ := h.sections.of_find? hfound
    exact ⟨h.defaults, h.sections.put ⟨hname, hentries.put hentry⟩⟩

theorem Every.supply (h : d.Every N E) {name : String} {entry : String × String} (hentry : E entry)
    (hsupply : supply name d entry = .ok e) : e.Every N E := by
  unfold Document.supply at hsupply
  split at hsupply
  · exact Except.ok.inj hsupply ▸ h
  · split at hsupply
    · exact Except.ok.inj hsupply ▸ h.set name hentry
    · cases hsupply

theorem Every.complete (h : d.Every N E) {sections : Table String Entries}
    (hsections : ∀ part ∈ sections, N part.1 ∧ ∀ entry ∈ part.2, E entry) (hcomplete : d.complete sections = .ok e) :
    e.Every N E := by
  have hentries (name : String) (entries : Entries) (hentries : ∀ entry ∈ entries, E entry) {d e : Document}
      (h : d.Every N E) (hsupply : entries.foldlM (Document.supply name) d = .ok e) : e.Every N E := by
    induction entries generalizing d with
    | nil => exact Except.ok.inj hsupply ▸ h
    | cons entry entries ih =>
      obtain ⟨hentry, hentries⟩ := List.forall_mem_cons.mp hentries
      rw [List.foldlM_cons] at hsupply
      obtain ⟨next, hnext, hrest⟩ := Step.exists_of_bind_eq_ok hsupply
      exact ih hentries (h.supply hentry hnext) hrest
  unfold Document.complete at hcomplete
  induction sections generalizing d with
  | nil => exact Except.ok.inj hcomplete ▸ h
  | cons part sections ih =>
    obtain ⟨⟨hname, hpart⟩, hsections⟩ := List.forall_mem_cons.mp hsections
    rw [List.foldlM_cons] at hcomplete
    obtain ⟨next, hnext, hrest⟩ := Step.exists_of_bind_eq_ok hcomplete
    exact ih (hentries part.1 part.2 hpart (h.addSection hname) hnext) hsections hrest

theorem Every.own? (h : d.Every N E) {name key value : String} (hown : d.own? name key = some value) :
    E (key, value) := by
  obtain ⟨entries, hentries, hvalue⟩ := Option.bind_eq_some_iff.mp hown
  exact (h.sections.of_find? hentries).2.of_find? hvalue

theorem Every.of_own? {E' : String × String → Prop} (h : d.Every N E) (hdefaults : Table.Every E' d.defaults)
    (hown : ∀ name key value, d.own? name key = some value → E' (key, value)) : d.Every N E' := by
  refine ⟨hdefaults, h.sections.nodup, fun part hpart => ?_⟩
  obtain ⟨hname, hentries⟩ := h.sections.all part hpart
  refine ⟨hname, hentries.nodup, fun entry hentry => hown part.1 _ _ ?_⟩
  rw [Document.own?, Table.find?_of_mem h.sections.nodup hpart]
  exact Table.find?_of_mem hentries.nodup hentry

theorem Every.imp {E' : String × String → Prop} (h : d.Every N E) (himp : ∀ entry, E entry → E' entry) :
    d.Every N E' :=
  h.of_own? (h.defaults.imp himp) fun _ _ _ hown => himp _ (h.own? hown)

/-- A document without gaps stays as it is. -/
theorem complete_of_stated {sections : Table String Entries} (h : ∀ part ∈ sections, d.hasSection part.1 = true ∧
    ∀ entry ∈ part.2, (d.raw? part.1 entry.1).isSome = true) : d.complete sections = .ok d := by
  have hentries (name : String) (entries : Entries) (h : ∀ entry ∈ entries, (d.raw? name entry.1).isSome = true) :
      entries.foldlM (supply name) d = .ok d := by
    induction entries with
    | nil => rfl
    | cons entry entries ih =>
      obtain ⟨hentry, hentries⟩ := List.forall_mem_cons.mp h
      rw [List.foldlM_cons, supply, if_pos hentry]
      exact ih hentries
  unfold complete
  induction sections with
  | nil => rfl
  | cons part sections ih =>
    obtain ⟨⟨hsection, hpart⟩, hsections⟩ := List.forall_mem_cons.mp h
    rw [List.foldlM_cons, completeSection, addSection, if_pos hsection, hentries part.1 part.2 hpart]
    exact ih hsections

/-- After completing there are no gaps left. -/
theorem stated_of_complete {s : Surroundings} (h : d.complete (defaultSections .full s) = .ok e) :
    ∀ part ∈ defaultSections .full s, e.hasSection part.1 = true ∧
      ∀ entry ∈ part.2, (e.raw? part.1 entry.1).isSome = true := by
  obtain ⟨hnames, hkeys⟩ := nodup_defaultSections s
  obtain ⟨hfilled, hsections⟩ := filled_complete h
  intro part hpart
  have hsection : e.hasSection part.1 = true := (hsections _).mpr (.inr (List.mem_map_of_mem hpart))
  refine ⟨hsection, fun entry hentry => ?_⟩
  rw [raw?_eq, if_pos hsection, stated?, hfilled.own, hfilled.extended.defaults,
    offered?_of_mem hnames hpart (hkeys part hpart) hentry]
  cases d.own? part.1 entry.1 <;> cases Table.find? d.defaults entry.1 <;> rfl

end Document

/-! ### The defaults can be stored -/

theorem keyLine_of_plain {key : String} (hne : key.toList ≠ []) (h : ∀ c ∈ key.toList, '_' ≤ c ∧ c ≤ 'z')
    (hlower : lower key = key) (first : List Char) : KeyLine key first := by
  have hplain {c : Char} (hc : c ∈ key.toList) : isBlank c = false ∧ 0x5F ≤ c.toNat := by
    obtain ⟨hlow, hhigh⟩ := h c hc
    have hlow : 0x5F ≤ c.toNat := hlow
    have hhigh : c.toNat ≤ 0x7A := hhigh
    have hblank : 0x5F ≤ c.toNat → isBlank c = false := Text.of_codes (Nat.lt_succ_of_le hhigh) (by decide +kernel)
    exact ⟨hblank hlow, hlow⟩
  have hother {c d : Char} (hc : c ∈ key.toList) (hd : d.toNat < 0x5F) : c ≠ d := by
    rintro rfl
    exact absurd (hplain hc).2 (by omega)
  refine ⟨⟨⟨?_, ?_, ?_⟩, ?_⟩, hne, ?_, hlower, ?_⟩
  · exact fun c hc => (hplain (List.mem_of_mem_head? hc)).1
  · exact fun c hc => (hplain (List.mem_of_mem_getLast? hc)).1
  · exact fun c hc => ⟨hother hc (by decide), hother hc (by decide)⟩
  · exact fun c hc => ⟨hother (List.mem_of_mem_head? hc) (by decide), hother (List.mem_of_mem_head? hc) (by decide)⟩
  · exact fun c hc => ⟨hother hc (by decide), hother hc (by decide)⟩
  · exact fun hbracket => absurd rfl (hother (List.mem_of_mem_head? hbracket) (by decide))

/-- The value is read from the text of an entry as it was written. -/
def Restored (value : String) : Prop :=
  (Document.parse (Document.sectionText "s" [("k", value)])).toOption = some { sections := [("s", [("k", value)])] }

instance (value : String) : Decidable (Restored value) := inferInstanceAs (Decidable (_ = _))

/-- A value that is restored for one key is restored for every plain one. -/
theorem Restored.storable {key value : String} (h : Restored value)
    (hkey : ∀ first : List Char, KeyLine key first) : Storable (key, value) := by
  have hevery := Document.every_of_parse (Step.eq_ok_of_toOption h)
  obtain ⟨-, hentries⟩ := hevery.sections.all _ List.mem_cons_self
  obtain ⟨first, more, hvalue, hlines, hlast⟩ := hentries.all _ List.mem_cons_self
  exact ⟨first, more, hvalue, ⟨hkey first, hlines.first, hlines.more⟩, hlast⟩

theorem heading_default {s : Surroundings} {part : String × Entries} (hpart : part ∈ defaultSections .full s) :
    Heading part.1 := by
  have hname : part.1 ∈ ["storage", "logging", "hardware", "ui"] := List.mem_map_of_mem (f := Prod.fst) hpart
  have hnames : ∀ name ∈ ["storage", "logging", "hardware", "ui"],
      name ≠ defaultName ∧ name.toList ≠ [] ∧ OneLine name.toList := by decide
  obtain ⟨hdefault, hne, honeLine⟩ := hnames _ hname
  exact ⟨hdefault, hne, honeLine⟩

theorem keyLine_default {s : Surroundings} {part : String × Entries} (hpart : part ∈ defaultSections .full s)
    {entry : String × String} (hentry : entry ∈ part.2) (first : List Char) : KeyLine entry.1 first := by
  have hkeys : ∀ keys ∈ (defaultSections .full s).map (·.2.keys), ∀ key ∈ keys,
      key.toList ≠ [] ∧ (∀ c ∈ key.toList, '_' ≤ c ∧ c ≤ 'z') ∧ lower key = key := by
    rw [defaultKeys_eq]
    decide +kernel
  obtain ⟨hne, hplain, hlower⟩ := hkeys _ (List.mem_map_of_mem hpart) _ (List.mem_map_of_mem hentry)
  exact keyLine_of_plain hne hplain hlower first

namespace Preferences

/-- Whatever the full edition loads is a document from a text, or an empty one, with the defaults filled in. -/
theorem exists_of_load {s : Surroundings} {text : Option String} {p : Preferences} (h : load .full s text = .ok p) :
    ∃ d e : Document, d.Every Heading Storable ∧ d.complete (defaultSections .full s) = .ok e ∧ p = ⟨.full, s, e⟩ := by
  cases text with
  | none =>
    obtain ⟨e, he, hp⟩ := Step.exists_of_bind_eq_ok h
    exact ⟨{}, e, ⟨.nil, .nil⟩, he, (Except.ok.inj hp).symm⟩
  | some text =>
    obtain ⟨d, e, hparse, he, hp⟩ := load_full_eq_ok_iff.mp h
    exact ⟨d, e, Document.every_of_parse hparse, he, hp⟩

/-- Saving and loading again changes nothing. Whatever the full edition has loaded, from a text or from nothing, it
saves as a text from which it loads the same preferences: the same sections in the same order, each with the same keys
in the same order and the same raw values, and the same values for all sections. It is only for the defaults among
the values that it has to be asked that they are restored, since some of them are paths of the surroundings; what
was read from a text always is. -/
theorem load_save {s : Surroundings} {text : Option String} {p : Preferences} (h : load .full s text = .ok p)
    (hdefaults : ∀ part ∈ defaultSections .full s, ∀ entry ∈ part.2,
      p.document.own? part.1 entry.1 = some entry.2 → Restored entry.2) :
    load .full s (some p.save) = .ok p := by
  obtain ⟨d, e, hd, hcomplete, rfl⟩ := exists_of_load h
  have hfilled := (Document.filled_complete hcomplete).1
  have hnames : e.Every Heading fun _ => True :=
    (hd.imp fun _ _ => trivial).complete (fun _ hpart => ⟨heading_default hpart, fun _ _ => trivial⟩) hcomplete
  have hstorable : e.Every Heading Storable := by
    refine hnames.of_own? (hfilled.extended.defaults ▸ hd.defaults) fun name key value hvalue => ?_
    have hown := (hfilled.own name key).symm.trans hvalue
    rcases Option.or_eq_some_iff.mp hown with hread | ⟨-, hmerged⟩
    · exact hd.own? hread
    · obtain ⟨-, hoffered⟩ := Option.ite_none_left_eq_some.mp hmerged
      obtain ⟨part, hpart, rfl, hentry⟩ := Document.exists_of_offered? hoffered
      exact (hdefaults part hpart _ hentry hvalue).storable (keyLine_default hpart hentry)
  exact load_full_eq_ok_iff.mpr ⟨e, e, Document.parse_render hstorable,
    Document.complete_of_stated (Document.stated_of_complete hcomplete), rfl⟩

/-- A text with a value of several lines, one of them blank, with an empty value, with a value that begins with a
delimiter, and with a value for all sections. -/
def ramblingText : String :=
  "[DEFAULT]\nlevel = DEBUG\n[notes]\nLong: one\n\n  two\nempty =\n[ui]\ntheme = : dark\n"

theorem ramblingText_restored :
    ∃ p, load .full usualSurroundings (some ramblingText) = .ok p ∧
      p.document.own? "notes" "long" = some "one\n\ntwo" ∧ load .full usualSurroundings (some p.save) = .ok p := by
  have hparse : (Document.parse ramblingText).toOption = some
      { defaults := [("level", "DEBUG")]
        sections := [("notes", [("long", "one\n\ntwo"), ("empty", "")]), ("ui", [("theme", ": dark")])] } := by
    decide +kernel
  have hparse := Step.eq_ok_of_toOption hparse
  obtain ⟨e, he⟩ := Document.exists_complete _ (isWellFormed_default (s := usualSurroundings) (by decide) (by decide))
  have hload := load_full_eq_ok_iff.mpr ⟨_, e, hparse, he, rfl⟩
  have hdefaults : ∀ part ∈ defaultSections .full usualSurroundings, ∀ entry ∈ part.2, Restored entry.2 := by
    decide +kernel
  refine ⟨_, hload, ?_, load_save hload fun part hpart entry hentry _ => hdefaults part hpart entry hentry⟩
  rw [(Document.filled_complete he).1.own]
  rfl

/-- A home whose name begins with a blank. -/
def spacedSurroundings : Surroundings where
  home := " x"
  program := "/program"

/-- The blank in front of a default path is lost when it is read. -/
theorem spaced_path_lost :
    ((load .full spacedSurroundings (some "")).bind fun p =>
      (load .full spacedSurroundings (some p.save)).map fun p' =>
        (p.document.own? "storage" "linux_mount_point", p'.document.own? "storage" "linux_mount_point")).toOption =
      some (some " x/virtual_phone_drive", some "x/virtual_phone_drive") := by
  decide +kernel

end Preferences

end Settings

end Handset
