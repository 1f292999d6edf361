import Handset.Proofs.Number.Positions
import Handset.Proofs.Number.ReadableTexts
import Handset.Proofs.Settings.RoundTrip
import Handset.Value.Order

/-!
# Settings as values

The table of all settings and the questions for single ones read the same texts, by different rules. The table reads
the words for true and false, and digits with at most one dot; all else stays a text. So it fails only on digits that
are no decimal digits, and it agrees with the answer to a question exactly where the text of the setting has the form
that the table reads.
-/
namespace Handset

namespace Settings

open Text.Character (isDigit decimalValue?)
open Text.LetterCase (lower)
open Number (readInt? readDouble?)

theorem expand_of_notMem (lookup : String → Option String) (levels : Nat) {cs : List Char} (h : '%' ∉ cs) :
    expand lookup (levels + 1) cs = .ok cs := by
  induction cs with
  | nil => rw [expand]
  | cons c cs ih =>
    rw [List.mem_cons, not_or] at h
    have hc : c ≠ '%' := Ne.symm h.1
    rw [expand, ih h.2]
    · exact fun rest hc' => absurd hc' hc
    · exact fun rest hc' => absurd hc' hc
    · exact hc

namespace Document

variable {d : Document} {N : String → Prop} {E : String × String → Prop} {name : String}

/-- Listing a section finds the values that asking for its keys one by one finds. -/
theorem entriesOf_spec (h : d.Every N E) (hname : name ∈ Table.keys d.sections) :
    (d.entriesOf name).keys.Nodup ∧ Table.find? (d.entriesOf name) = d.raw? name := by
  obtain ⟨part, hpart, rfl⟩ := List.mem_map.mp hname
  obtain ⟨entries, hentries⟩ := Option.isSome_iff_exists.mp (Table.has_of_mem hpart)
  have heq : d.entriesOf part.1 = Table.putAll Prod.fst Prod.snd d.defaults entries := by
    rw [entriesOf, hentries]
    rfl
  rw [heq]
  refine ⟨Table.nodup_keys_putAll h.defaults.nodup entries, funext fun key => ?_⟩
  rw [Table.find?_putAll_entries _ (h.sections.of_find? hentries).2.nodup, raw?, hentries]

theorem items_spec {entries : Entries} (h : d.Every N E) (hname : name ∈ Table.keys d.sections)
    (hitems : d.items name = .ok entries) : entries.keys.Nodup ∧
      ∀ key, (d.raw? name key).isSome = true → ∃ s, d.get? name key = .ok (some s) ∧ (key, s) ∈ entries := by
  obtain ⟨hnodup, hfind⟩ := entriesOf_spec h hname
  have hlist : (d.entriesOf name).mapM (fun e => expand (d.raw? name) maxDepth e.2.toList >>= fun cs =>
      .ok (e.1, String.ofList cs)) = .ok entries := by
    rw [← hfind]
    exact hitems
  have hkey (e e' : String × String) (he : (expand (d.raw? name) maxDepth e.2.toList >>= fun cs =>
      .ok (e.1, String.ofList cs)) = Except.ok (ε := Fault) e') : e'.1 = e.1 := by
    obtain ⟨cs, -, he⟩ := Step.exists_of_bind_eq_ok he
    rw [← Except.ok.inj he]
  obtain ⟨hkeys, hentry⟩ := Table.of_mapM hlist hkey
  refine ⟨hkeys ▸ hnodup, fun key hsome => ?_⟩
  obtain ⟨value, hvalue⟩ := Option.isSome_iff_exists.mp hsome
  obtain ⟨s, hs, hfound⟩ := hentry hnodup _ (Table.mem_of_find? ((congrFun hfind key).trans hvalue))
  refine ⟨s, ?_, Table.mem_of_find? hfound⟩
  obtain ⟨cs, hcs, hs⟩ := Step.exists_of_bind_eq_ok hs
  obtain ⟨-, rfl⟩ := Prod.mk.inj (Except.ok.inj hs)
  unfold get?
  rw [hvalue]
  dsimp only at hcs ⊢
  rw [hcs]
  rfl

theorem get?_of_notMem {key value : String} (h : d.raw? name key = some value) (hplain : '%' ∉ value.toList) :
    d.get? name key = .ok (some value) := by
  unfold get?
  rw [h]
  dsimp only
  rw [maxDepth, expand_of_notMem _ _ hplain]
  exact congrArg (fun s => Except.ok (some s)) String.ofList_toList

end Document

namespace Preferences

variable {s : String} {v : Value}

/-! ### How a text is read -/

/-- The text is made of digits, of which there is at least one, and of at most one dot. -/
def Digital (s : String) : Prop :=
  withoutDot s.toList ≠ [] ∧ ∀ c ∈ withoutDot s.toList, isDigit c = true

/-- The text looks like a number, but has a digit that is no decimal digit. -/
def Unreadable (s : String) : Prop :=
  Digital s ∧ ∃ c ∈ s.toList, isDigit c = true ∧ decimalValue? c = none

theorem digital_iff :
    (!(withoutDot s.toList).isEmpty && (withoutDot s.toList).all isDigit) = true ↔ Digital s := by
  simp [Digital]

instance : DecidablePred Digital := fun _ =>
  decidable_of_iff _ digital_iff

instance : DecidablePred Unreadable := fun s =>
  decidable_of_iff (Digital s ∧ (s.toList.any fun c => isDigit c && decimalValue? c == none) = true)
    (by simp [Unreadable])

/-- The value as which the table shows a text. -/
inductive Shown (s : String) : Value → Prop
  | truth (b : Bool) (h : lower s = if b then "true" else "false") : Shown s (.bool b)
  | integer {i : Int} (hs : Digital s) (h : readInt? s = some i) : Shown s (.int i)
  | double {x : Double} (hs : Digital s) (hinteger : readInt? s = none) (h : readDouble? s = some x) :
      Shown s (.double x)
  | text (htrue : lower s ≠ "true") (hfalse : lower s ≠ "false") (hs : ¬ Digital s) : Shown s (.text s)

theorem withoutDot_cases (cs : List Char) :
    (∃ whole places, cs = whole ++ '.' :: places ∧ withoutDot cs = whole ++ places) ∨
      '.' ∉ cs ∧ withoutDot cs = cs := by
  fun_induction withoutDot cs with
  | case1 => exact .inr ⟨List.not_mem_nil, rfl⟩
  | case2 rest => exact .inl ⟨[], rest, rfl, rfl⟩
  | case3 c rest hc ih =>
    rcases ih with ⟨whole, places, hrest, heq⟩ | ⟨hrest, heq⟩
    · exact .inl ⟨c :: whole, places, by rw [hrest]; rfl, by rw [heq]; rfl⟩
    · refine .inr ⟨?_, by rw [heq]⟩
      rw [List.mem_cons, not_or]
      exact ⟨fun h => hc h.symm, hrest⟩

theorem isDigit_of_digital (h : Digital s) {c : Char} (hc : c ∈ s.toList) : c = '.' ∨ isDigit c = true := by
  rcases withoutDot_cases s.toList with ⟨whole, places, hs, heq⟩ | ⟨-, heq⟩
  · rw [hs, List.mem_append, List.mem_cons, or_left_comm] at hc
    rw [Digital, heq] at h
    exact hc.imp_right fun hc => h.2 c (List.mem_append.mpr hc)
  · exact .inr (h.2 c (heq.symm ▸ hc))

theorem lower_of_digital (h : Digital s) : lower s = s := by
  apply Text.LetterCase.lower_of_unmoved
  intro c hc
  rcases isDigit_of_digital h hc with rfl | hdigit
  · exact ⟨by decide, by decide⟩
  · exact Text.LetterCase.unmoved_of_isDigit hdigit

theorem exists_double_of_digital (h : Digital s) (hread : ¬ Unreadable s) :
    ∃ x, readDouble? s = some x ∧ x.isNaN = false := by
  have hdecimal {c : Char} (hc : c ∈ s.toList) (hdigit : isDigit c = true) : (decimalValue? c).isSome = true := by
    rw [Option.isSome_iff_ne_none]
    exact fun hnone => hread ⟨h, c, hc, hdigit, hnone⟩
  rcases withoutDot_cases s.toList with ⟨whole, places, hs, heq⟩ | ⟨-, heq⟩
  · rw [Digital, heq] at h
    refine Number.exists_readDouble? places hs (.inl rfl) h.1 fun c hc => hdecimal ?_ (h.2 c hc)
    rw [hs, List.mem_append, List.mem_cons]
    exact (List.mem_append.mp hc).imp_right .inr
  · rw [Digital, heq] at h
    refine Number.exists_readDouble? [] (List.append_nil _).symm (.inr ⟨rfl, rfl⟩) ?_ ?_
    · rw [List.append_nil]
      exact h.1
    · rw [List.append_nil]
      exact fun c hc => hdecimal hc (h.2 c hc)

/-- Reading a text fails only on digits that are no decimal digits. -/
theorem interpret_cases (s : String) :
    (∃ v, interpret s = .ok v ∧ Shown s v ∧ ¬ Unreadable s) ∨ interpret s = .error .badValue ∧ Unreadable s := by
  have hword {word : String} (hlower : lower s = word) (hplain : ¬ Digital word) : ¬ Unreadable s := by
    rintro ⟨hs, -⟩
    rw [lower_of_digital hs] at hlower
    exact hplain (hlower ▸ hs)
  unfold interpret
  dsimp only
  split
  next htrue =>
    exact .inl ⟨_, rfl, .truth true htrue, hword htrue fun h => absurd (h.2 't' (by decide)) (by decide)⟩
  next htrue =>
    split
    next hfalse =>
      exact .inl ⟨_, rfl, .truth false hfalse, hword hfalse fun h => absurd (h.2 'f' (by decide)) (by decide)⟩
    next hfalse =>
      split
      next hs =>
        have hs := digital_iff.mp hs
        by_cases hread : Unreadable s
        · obtain ⟨c, hc, hdigit, hodd⟩ := hread.2
          obtain ⟨hinteger, hdouble⟩ := Number.not_readable_of_odd hc hdigit hodd
          rw [hinteger, readDouble, hdouble]
          exact .inr ⟨rfl, hread⟩
        · split
          next i hi => exact .inl ⟨_, rfl, .integer hs hi, hread⟩
          next hinteger =>
            obtain ⟨x, hx, -⟩ := exists_double_of_digital hs hread
            rw [readDouble, hx]
            exact .inl ⟨_, rfl, .double hs hinteger hx, hread⟩
      next hs =>
        have hs := mt digital_iff.mpr hs
        exact .inl ⟨_, rfl, .text htrue hfalse hs, fun hread => hs hread.1⟩

/-! ### The table -/

variable {p : Preferences} {t : Table String (Table String Value)} {surroundings : Surroundings} {text : Option String}

/-- What a table has for a key of a section. -/
def field? (t : Table String (Table String Value)) (name key : String) : Option Value :=
  (Table.find? t name).bind (Table.find? · key)

def shown (e : String × String) : Except Fault (String × Value) :=
  interpret e.2 >>= fun v => .ok (e.1, v)

theorem toTable_eq (h : p.edition = .full) :
    p.toTable = (Table.keys p.document.sections).mapM fun name => p.document.items name >>= fun entries =>
      entries.mapM shown >>= fun values => .ok (name, values) := by
  obtain ⟨edition, surroundings, document⟩ := p
  subst h
  rfl

theorem mapM_shown {entries : Entries} {values : Table String Value} (h : entries.mapM shown = .ok values)
    (hnodup : entries.keys.Nodup) {e : String × String} (he : e ∈ entries) :
    ∃ v, values.find? e.1 = some v ∧ Shown e.2 v ∧ ¬ Unreadable e.2 := by
  have hkey (e : String × String) (field : String × Value) (hfield : shown e = .ok field) : field.1 = e.1 := by
    obtain ⟨v, -, hfield⟩ := Step.exists_of_bind_eq_ok hfield
    rw [← Except.ok.inj hfield]
  obtain ⟨v, hv, hentry⟩ := (Table.of_mapM h hkey).2 hnodup e he
  obtain ⟨w, hw, hv⟩ := Step.exists_of_bind_eq_ok hv
  obtain ⟨-, rfl⟩ := Prod.mk.inj (Except.ok.inj hv)
  rcases interpret_cases e.2 with ⟨w', hw', hshown⟩ | ⟨hbad, -⟩
  · obtain rfl := Except.ok.inj (hw.symm.trans hw')
    exact ⟨w, hentry, hshown⟩
  · cases hw.symm.trans hbad

theorem field?_of_toTable {N : String → Prop} {E : String × String → Prop} (hfull : p.edition = .full)
    (hdocument : p.document.Every N E) (ht : p.toTable = .ok t) {name : String}
    (hname : name ∈ Table.keys p.document.sections) : ∃ entries, p.document.items name = .ok entries ∧
      ∀ e ∈ entries, ∃ v, field? t name e.1 = some v ∧ Shown e.2 v ∧ ¬ Unreadable e.2 := by
  rw [toTable_eq hfull] at ht
  have hall := Table.of_mapM ht fun name part hpart => show part.1 = id name by
    obtain ⟨entries, -, hpart⟩ := Step.exists_of_bind_eq_ok hpart
    obtain ⟨values, -, hpart⟩ := Step.exists_of_bind_eq_ok hpart
    rw [← Except.ok.inj hpart]
    rfl
  obtain ⟨values, hsection, hfound⟩ := hall.2 (by rw [List.map_id]; exact hdocument.sections.nodup) name hname
  obtain ⟨entries, hentries, hsection⟩ := Step.exists_of_bind_eq_ok hsection
  obtain ⟨values', hvalues, hsection⟩ := Step.exists_of_bind_eq_ok hsection
  obtain ⟨-, rfl⟩ := Prod.mk.inj (Except.ok.inj hsection)
  refine ⟨entries, hentries, fun e he => ?_⟩
  rw [field?, show Table.find? t name = some values' from hfound, Option.bind_some]
  exact mapM_shown hvalues (Document.items_spec hdocument hname hentries).1 he

theorem shown_cases (e : String × String) :
    (∃ field, shown e = .ok field) ∨ shown e = .error .badValue ∧ Unreadable e.2 := by
  unfold shown
  rcases interpret_cases e.2 with ⟨v, hv, -⟩ | ⟨hv, hread⟩
  · exact .inl ⟨_, by rw [hv]; rfl⟩
  · exact .inr ⟨by rw [hv]; rfl, hread⟩

/-- All sections can be listed: no reference in them fails. -/
def Listable (p : Preferences) : Prop :=
  ∀ name ∈ Table.keys p.document.sections, ∃ entries, p.document.items name = .ok entries

/-- The section has this item, which is a key with its text once references have been replaced. -/
def HasItem (p : Preferences) (name : String) (e : String × String) : Prop :=
  name ∈ Table.keys p.document.sections ∧ ∃ entries, p.document.items name = .ok entries ∧ e ∈ entries

theorem toTable_cases (hfull : p.edition = .full) (hitems : p.Listable) : (∃ t, p.toTable = .ok t) ∨
    p.toTable = .error .badValue ∧ ∃ name e, p.HasItem name e ∧ Unreadable e.2 := by
  rw [toTable_eq hfull]
  rcases Step.mapM_cases _ (Table.keys p.document.sections) with ⟨t, ht⟩ | ⟨name, hname, fault, hfault, hlist⟩
  · exact .inl ⟨t, ht⟩
  · obtain ⟨entries, hentries⟩ := hitems name hname
    have hsection : (p.document.items name >>= fun entries => entries.mapM shown >>= fun values =>
        Except.ok (name, values)) = entries.mapM shown >>= fun values => Except.ok (name, values) := by
      rw [hentries]
      rfl
    have hfault := hsection.symm.trans hfault
    rcases Step.mapM_cases shown entries with ⟨values, hvalues⟩ | ⟨e, he, fault', hfault', hvalues⟩
    · rw [hvalues] at hfault
      cases hfault
    · rw [hvalues] at hfault
      obtain rfl : fault' = fault := Except.error.inj hfault
      rcases shown_cases e with ⟨field, hfield⟩ | ⟨hbad, hread⟩
      · cases hfield.symm.trans hfault'
      · obtain rfl := Except.error.inj (hbad.symm.trans hfault')
        exact .inr ⟨hlist, name, e, ⟨hname, entries, hentries, he⟩, hread⟩

theorem document_of_load (h : load .full surroundings text = .ok p) :
    p.edition = .full ∧ p.document.Every (fun _ => True) (fun _ => True) ∧
      ∀ part ∈ defaultSections .full surroundings, p.document.hasSection part.1 = true ∧
        ∀ entry ∈ part.2, (p.document.raw? part.1 entry.1).isSome = true := by
  obtain ⟨d, e, hd, hcomplete, rfl⟩ := exists_of_load h
  have hd : d.Every (fun _ => True) (fun _ => True) :=
    ⟨hd.defaults.imp fun _ _ => trivial, hd.sections.imp fun _ hpart => ⟨trivial, hpart.2.imp fun _ _ => trivial⟩⟩
  exact ⟨rfl, hd.complete (fun _ _ => ⟨trivial, fun _ _ => trivial⟩) hcomplete, Document.stated_of_complete hcomplete⟩

/-- The table of preferences whose sections can be listed is made unless a text looks like a number and is none: it
has only digits and at most one dot, but one of its digits, such as a raised one, is no decimal digit. That is the only
way to fail. The table shows every item, as the words for true and false, as the number that its digits stand for, or
as the text that it is. -/
theorem toTable_succeeds_iff (h : load .full surroundings text = .ok p) (hitems : p.Listable) :
    ((∃ t, p.toTable = .ok t) ↔ ∀ name e, p.HasItem name e → ¬ Unreadable e.2) ∧
    (∀ fault, p.toTable = .error fault → fault = .badValue) ∧
    ∀ t, p.toTable = .ok t → ∀ name e, p.HasItem name e → ∃ v, field? t name e.1 = some v ∧ Shown e.2 v := by
  obtain ⟨hfull, hdocument, -⟩ := document_of_load h
  have hshown {t : Table String (Table String Value)} (ht : p.toTable = .ok t) {name : String} {e : String × String}
      (hitem : p.HasItem name e) : ∃ v, field? t name e.1 = some v ∧ Shown e.2 v ∧ ¬ Unreadable e.2 := by
    obtain ⟨hname, entries, hentries, he⟩ := hitem
    obtain ⟨entries', hentries', hall⟩ := field?_of_toTable hfull hdocument ht hname
    obtain rfl := Except.ok.inj (hentries.symm.trans hentries')
    exact hall e he
  refine ⟨⟨?_, fun hread => ?_⟩, fun fault hfault => ?_, fun t ht name e hitem => ?_⟩
  · rintro ⟨t, ht⟩ name e hitem
    obtain ⟨v, -, -, hread⟩ := hshown ht hitem
    exact hread
  · rcases toTable_cases hfull hitems with ht | ⟨-, name, e, hitem, hbad⟩
    · exact ht
    · exact absurd hbad (hread name e hitem)
  · rcases toTable_cases hfull hitems with ⟨t, ht⟩ | ⟨hbad, -⟩
    · cases ht.symm.trans hfault
    · exact Except.error.inj (hfault.symm.trans hbad)
  · obtain ⟨v, hentry, hv, -⟩ := hshown ht hitem
    exact ⟨v, hentry, hv⟩

/-- All raw values are of this form. -/
def Throughout (form : String → Prop) (p : Preferences) : Prop :=
  ∀ name ∈ Table.keys p.document.sections, ∀ e ∈ p.document.entriesOf name, form e.2

instance (form : String → Prop) [DecidablePred form] : DecidablePred (Throughout form) := fun p =>
  inferInstanceAs (Decidable (∀ name ∈ Table.keys p.document.sections, ∀ e ∈ p.document.entriesOf name, form e.2))

theorem items_of_plain (h : p.Throughout ('%' ∉ ·.toList)) {name : String}
    (hname : name ∈ Table.keys p.document.sections) : p.document.items name = .ok (p.document.entriesOf name) := by
  have hall : (p.document.entriesOf name).mapM (fun e => expand (Table.find? (p.document.entriesOf name)) maxDepth
      e.2.toList >>= fun cs => .ok (e.1, String.ofList cs)) = .ok ((p.document.entriesOf name).map id) := by
    refine Step.mapM_eq_ok fun e he => ?_
    rw [maxDepth, expand_of_notMem _ _ (h name hname e he)]
    exact congrArg (fun s => Except.ok (e.1, s)) String.ofList_toList
  rwa [List.map_id] at hall

theorem listable_of_plain (h : p.Throughout ('%' ∉ ·.toList)) : p.Listable :=
  fun _ hname => ⟨_, items_of_plain h hname⟩

theorem not_unreadable_of_plain (h : p.Throughout ('%' ∉ ·.toList)) (hread : p.Throughout (¬ Unreadable ·))
    {name : String} {e : String × String} (hitem : p.HasItem name e) : ¬ Unreadable e.2 := by
  obtain ⟨hname, entries, hentries, he⟩ := hitem
  obtain rfl := Except.ok.inj ((items_of_plain h hname).symm.trans hentries)
  exact hread name hname e he

theorem exists_toTable_of_plain (hfull : p.edition = .full) (h : p.Throughout ('%' ∉ ·.toList))
    (hread : p.Throughout (¬ Unreadable ·)) : ∃ t, p.toTable = .ok t := by
  rcases toTable_cases hfull (listable_of_plain h) with ht | ⟨-, name, e, hitem, hbad⟩
  · exact ht
  · exact absurd hbad (not_unreadable_of_plain h hread hitem)

theorem exists_of_any_load (text : String) (check : Preferences → Bool)
    (h : (load .full usualSurroundings (some text)).toOption.any check = true) :
    ∃ p, load .full usualSurroundings (some text) = .ok p ∧ check p = true := by
  obtain ⟨p, hp, hcheck⟩ := (Option.any_eq_true _ _).mp h
  exact ⟨p, Step.eq_ok_of_toOption hp, hcheck⟩

theorem digits_of_other_scripts_shown :
    ∃ p, load .full usualSurroundings (some "[a]\nk = ٣.٥\nm = 1.2.3\n") = .ok p ∧ p.Listable ∧
      p.HasItem "a" ("k", "٣.٥") ∧ ∃ t, p.toTable = .ok t := by
  obtain ⟨p, hp, hcheck⟩ := exists_of_any_load "[a]\nk = ٣.٥\nm = 1.2.3\n"
    (fun p => decide (p.Throughout ('%' ∉ ·.toList) ∧ p.Throughout (¬ Unreadable ·) ∧
      "a" ∈ Table.keys p.document.sections ∧ ("k", "٣.٥") ∈ p.document.entriesOf "a")) (by decide +kernel)
  obtain ⟨hplain, hread, hname, hmem⟩ := of_decide_eq_true hcheck
  refine ⟨p, hp, listable_of_plain hplain, ⟨hname, _, items_of_plain hplain hname, hmem⟩, ?_⟩
  exact (toTable_succeeds_iff hp (listable_of_plain hplain)).1.mpr
    fun name e hitem => not_unreadable_of_plain hplain hread hitem

theorem raised_digit_fails :
    ∃ p, load .full usualSurroundings (some "[a]\nk = ²\n") = .ok p ∧ p.Listable ∧
      p.toTable = .error .badValue := by
  obtain ⟨p, hp, hcheck⟩ := exists_of_any_load "[a]\nk = ²\n"
    (fun p => decide (p.Throughout ('%' ∉ ·.toList) ∧ "a" ∈ Table.keys p.document.sections ∧
      ("k", "²") ∈ p.document.entriesOf "a")) (by decide +kernel)
  obtain ⟨hplain, hname, hmem⟩ := of_decide_eq_true hcheck
  have hitems := listable_of_plain hplain
  obtain ⟨hfull, hdocument, -⟩ := document_of_load hp
  refine ⟨p, hp, hitems, ?_⟩
  rcases toTable_cases hfull hitems with ⟨t, ht⟩ | ⟨hbad, -⟩
  · obtain ⟨entries, hentries, hall⟩ := field?_of_toTable hfull hdocument ht hname
    obtain rfl := Except.ok.inj ((items_of_plain hplain hname).symm.trans hentries)
    obtain ⟨v, -, -, hread⟩ := hall _ hmem
    exact absurd (by decide : Unreadable "²") hread
  · exact hbad

/-! ### Questions for single settings -/

theorem typed_of_get? {α : Type} {name key : String} (h : p.document.get? name key = .ok (some s))
    (read : String → Except Fault α) (fallback : α) : p.typed name key read fallback = read s := by
  unfold typed
  rw [h]
  rfl

theorem field?_of_typed {α : Type} {read : String → Except Fault α} {fallback a : α} {name key : String}
    (h : load .full surroundings text = .ok p) (ht : p.toTable = .ok t) (ha : p.typed name key read fallback = .ok a)
    (hkey : ∃ value, ∃ part ∈ defaultSections .full surroundings, part.1 = name ∧ (key, value) ∈ part.2) :
    ∃ s v, p.document.get? name key = .ok (some s) ∧ read s = .ok a ∧ field? t name key = some v ∧ Shown s v := by
  obtain ⟨value, part, hpart, rfl, hmem⟩ := hkey
  obtain ⟨hfull, hdocument, hstated⟩ := document_of_load h
  obtain ⟨hsection, hstated⟩ := hstated part hpart
  obtain ⟨found, hfound⟩ := Option.isSome_iff_exists.mp hsection
  have hname := List.mem_map_of_mem (f := Prod.fst) (Table.mem_of_find? hfound)
  obtain ⟨entries, hentries, hall⟩ := field?_of_toTable hfull hdocument ht hname
  obtain ⟨s, hs, hitem⟩ := (Document.items_spec hdocument hname hentries).2 key (hstated _ hmem)
  obtain ⟨v, hentry, hv, -⟩ := hall _ hitem
  exact ⟨s, v, hs, (typed_of_get? hs read fallback).symm.trans ha, hentry, hv⟩

theorem not_truth_of_readable (h : (readInt? s).isSome = true ∨ (readDouble? s).isSome = true) (b : Bool) :
    lower s ≠ if b then "true" else "false" := by
  intro hlower
  cases b with
  | true => exact Number.notMem_lower_of_readable h (.inl rfl) (hlower ▸ by decide)
  | false => exact Number.notMem_lower_of_readable h (.inr rfl) (hlower ▸ by decide)

theorem same_integer_iff (hv : Shown s v) {i : Int} (hi : readInt? s = some i) :
    v.same (.int i) = true ↔ ∀ c ∈ s.toList, isDigit c = true := by
  have hdot : withoutDot s.toList = s.toList := by
    rcases withoutDot_cases s.toList with ⟨whole, places, hs, -⟩ | ⟨-, heq⟩
    · exact absurd (hs ▸ List.mem_append_right _ List.mem_cons_self) (Number.notMem_dot_of_readInt? hi)
    · exact heq
  cases hv with
  | truth b hlower => exact absurd hlower (not_truth_of_readable (.inl (hi ▸ rfl)) b)
  | integer hs hj =>
    obtain rfl := Option.some.inj (hj.symm.trans hi)
    rw [Digital, hdot] at hs
    exact iff_of_true (by simp [Value.same, Value.num?, Num.eq]) hs.2
  | double _ hinteger _ => cases hinteger.symm.trans hi
  | text _ _ hs =>
    refine iff_of_false (by simp [Value.same]) fun hdigits => hs ?_
    rw [Digital, hdot]
    refine ⟨fun hempty => ?_, hdigits⟩
    have hnone : readInt? "" = none := by decide
    rw [String.toList_eq_nil_iff.mp hempty, hnone] at hi
    cases hi

theorem same_double_iff (hv : Shown s v) {x : Double} (hx : readDouble? s = some x) :
    v.same (.double x) = true ↔ Digital s ∧ ∀ i, readInt? s = some i → Num.eq (.int i) (.double x) = true := by
  cases hv with
  | truth b hlower => exact absurd hlower (not_truth_of_readable (.inr (hx ▸ rfl)) b)
  | @integer i hs hi =>
    have hsame : (Value.int i).same (.double x) = Num.eq (.int i) (.double x) := by simp [Value.same, Value.num?]
    rw [hsame]
    refine ⟨fun heq => ⟨hs, fun j hj => ?_⟩, fun h => h.2 i hi⟩
    obtain rfl := Option.some.inj (hi.symm.trans hj)
    exact heq
  | double hs hinteger hy =>
    obtain rfl := Option.some.inj (hy.symm.trans hx)
    have hread : ¬ Unreadable s := by
      rintro ⟨-, c, hc, hdigit, hodd⟩
      cases hx.symm.trans (Number.not_readable_of_odd hc hdigit hodd).2
    obtain ⟨y, hy, hnan⟩ := exists_double_of_digital hs hread
    obtain rfl := Option.some.inj (hx.symm.trans hy)
    refine iff_of_true ?_ ⟨hs, fun i hi => by cases hinteger.symm.trans hi⟩
    simpa [Value.same, Value.num?, Num.eq] using Double.beq_self hnan
  | text _ _ hs => exact iff_of_false (by simp [Value.same]) fun h => hs h.1

theorem same_truth_iff (hv : Shown s v) {b : Bool} (hb : readTruth s = .ok b) :
    v.same (.bool b) = true ↔ lower s = "true" ∨ lower s = "false" ∨ s = "1" ∨ s = "0" := by
  have hword : (lower s, b) ∈ truthWords := by
    unfold readTruth at hb
    split at hb
    next b' hb' =>
      obtain rfl := Except.ok.inj hb
      obtain ⟨word, hword, rfl⟩ := Option.map_eq_some_iff.mp hb'
      have hlower := List.find?_some hword
      rw [beq_iff_eq] at hlower
      exact hlower ▸ List.mem_of_find?_eq_some hword
    next => cases hb
  have hdigits (hs : Digital s) :
      ∃ i, readInt? s = some i ∧ (Value.int i).same (.bool b) = true ∧ (s = "1" ∨ s = "0") := by
    have hwords : ∀ word ∈ truthWords, Digital word.1 → word = ("1", true) ∨ word = ("0", false) := by decide
    rw [lower_of_digital hs] at hword
    rcases hwords _ hword hs with hpair | hpair
    · obtain ⟨rfl, rfl⟩ := Prod.mk.inj hpair
      exact ⟨1, by decide, by decide, .inl rfl⟩
    · obtain ⟨rfl, rfl⟩ := Prod.mk.inj hpair
      exact ⟨0, by decide, by decide, .inr rfl⟩
  cases hv with
  | truth b' hlower =>
    have hb' : b' = b := by
      have hwords : ∀ word ∈ truthWords, ∀ b : Bool, word.1 = (if b then "true" else "false") → b = word.2 := by decide
      exact hwords _ hword b' hlower
    subst hb'
    refine iff_of_true (by simp [Value.same, Value.num?, Num.eq]) ?_
    cases b' with
    | true => exact .inl hlower
    | false => exact .inr (.inl hlower)
  | integer hs hi =>
    obtain ⟨j, hj, hsame, hs⟩ := hdigits hs
    obtain rfl := Option.some.inj (hi.symm.trans hj)
    exact iff_of_true hsame (.inr (.inr hs))
  | double hs hinteger _ =>
    obtain ⟨j, hj, -⟩ := hdigits hs
    cases hinteger.symm.trans hj
  | text htrue hfalse hs =>
    refine iff_of_false (by simp [Value.same]) ?_
    rintro (h | h | rfl | rfl)
    · exact htrue h
    · exact hfalse h
    · exact hs (by decide)
    · exact hs (by decide)

/-- The table has an entry for the key, which is equal to the answer exactly if the text of the setting is of this
form. -/
def Agrees (p : Preferences) (t : Table String (Table String Value)) (name key : String) (answer : Value)
    (form : String → Prop) : Prop :=
  ∃ s v, p.document.get? name key = .ok (some s) ∧ field? t name key = some v ∧ (v.same answer = true ↔ form s)

theorem agrees_of_readInteger {name key : String} {fallback i : Int} (h : load .full surroundings text = .ok p)
    (ht : p.toTable = .ok t) (hi : p.typed name key readInteger fallback = .ok i)
    (hkey : ∃ value, ∃ part ∈ defaultSections .full surroundings, part.1 = name ∧ (key, value) ∈ part.2) :
    Agrees p t name key (.int i) fun s => ∀ c ∈ s.toList, isDigit c = true := by
  obtain ⟨s, v, hs, hread, hentry, hv⟩ := field?_of_typed h ht hi hkey
  refine ⟨s, v, hs, hentry, same_integer_iff hv ?_⟩
  unfold readInteger at hread
  split at hread
  next hj => rw [hj, Except.ok.inj hread]
  next => cases hread

/-- The table against the answers to single questions. Each of the typed settings has an entry in the table. Where the
question is answered, the entry is equal to the answer exactly in these cases: a number of milliseconds or pixels is
written in digits only, without a sign, a blank or an underscore; a rate in digits with at most one dot, and if it is
integral, the double is the integer exactly; a truth value as one of the words true and false, in any case, or as 1
or 0. -/
theorem table_agrees_iff (h : load .full surroundings text = .ok p) (ht : p.toTable = .ok t) :
    (∀ b, p.networkEmulation = .ok b → Agrees p t "hardware" "enable_network_emulation" (.bool b) fun s =>
      lower s = "true" ∨ lower s = "false" ∨ s = "1" ∨ s = "0") ∧
    (∀ x, p.packetLossRate = .ok x → Agrees p t "hardware" "packet_loss_rate" (.double x) fun s =>
      Digital s ∧ ∀ i, readInt? s = some i → Num.eq (.int i) (.double x) = true) ∧
    (∀ i, p.latency = .ok i → Agrees p t "hardware" "latency_ms" (.int i) fun s =>
      ∀ c ∈ s.toList, isDigit c = true) ∧
    ∀ width height, p.windowSize = .ok (width, height) →
      (Agrees p t "ui" "window_width" (.int width) fun s => ∀ c ∈ s.toList, isDigit c = true) ∧
      Agrees p t "ui" "window_height" (.int height) fun s => ∀ c ∈ s.toList, isDigit c = true := by
  refine ⟨fun b hb => ?_, fun x hx => ?_, fun i hi => ?_, fun width height hsize => ?_⟩
  · obtain ⟨s, v, hs, hread, hentry, hv⟩ := field?_of_typed h ht hb (by simp [defaultSections])
    exact ⟨s, v, hs, hentry, same_truth_iff hv hread⟩
  · obtain ⟨s, v, hs, hread, hentry, hv⟩ := field?_of_typed h ht hx (by simp [defaultSections])
    refine ⟨s, v, hs, hentry, same_double_iff hv ?_⟩
    unfold readDouble at hread
    split at hread
    next hy => rw [hy, Except.ok.inj hread]
    next => cases hread
  · exact agrees_of_readInteger h ht hi (by simp [defaultSections])
  · obtain ⟨w, hw, hsize⟩ := Step.exists_of_bind_eq_ok hsize
    obtain ⟨k, hk, hsize⟩ := Step.exists_of_bind_eq_ok hsize
    obtain ⟨rfl, rfl⟩ := Prod.mk.inj (Except.ok.inj hsize)
    exact ⟨agrees_of_readInteger h ht hw (by simp [defaultSections]),
      agrees_of_readInteger h ht hk (by simp [defaultSections])⟩

theorem width_in_other_digits :
    ∃ p t, load .full usualSurroundings (some "[hardware]\nlatency_ms = +7\n[ui]\nwindow_width = ٣٢٠\n") = .ok p ∧
      p.toTable = .ok t ∧ p.windowSize = .ok (320, 600) ∧
      Agrees p t "ui" "window_width" (.int 320) fun s => ∀ c ∈ s.toList, isDigit c = true := by
  obtain ⟨p, hp, hcheck⟩ := exists_of_any_load
    "[hardware]\nlatency_ms = +7\n[ui]\nwindow_width = ٣٢٠\n"
    (fun p => decide (p.Throughout ('%' ∉ ·.toList) ∧ p.Throughout (¬ Unreadable ·) ∧
      p.document.raw? "ui" "window_width" = some "٣٢٠" ∧ p.document.raw? "ui" "window_height" = some "600"))
    (by decide +kernel)
  obtain ⟨hplain, hread, hwidth, hheight⟩ := of_decide_eq_true hcheck
  obtain ⟨t, ht⟩ := exists_toTable_of_plain (document_of_load hp).1 hplain hread
  have hsize : p.windowSize = .ok (320, 600) := by
    rw [windowSize, typed_of_get? (Document.get?_of_notMem hwidth (by decide)),
      typed_of_get? (Document.get?_of_notMem hheight (by decide))]
    rfl
  exact ⟨p, t, hp, ht, hsize, ((table_agrees_iff hp ht).2.2.2 320 600 hsize).1⟩

theorem negative_latency_left_as_text :
    ∃ p t, load .full usualSurroundings (some "[hardware]\nlatency_ms = -7\n") = .ok p ∧ p.toTable = .ok t ∧
      p.latency = .ok (-7) ∧ ∃ v, field? t "hardware" "latency_ms" = some v ∧ v.same (.int (-7)) = false := by
  obtain ⟨p, hp, hcheck⟩ := exists_of_any_load "[hardware]\nlatency_ms = -7\n"
    (fun p => decide (p.Throughout ('%' ∉ ·.toList) ∧ p.Throughout (¬ Unreadable ·) ∧
      p.document.raw? "hardware" "latency_ms" = some "-7")) (by decide +kernel)
  obtain ⟨hplain, hread, hlatency⟩ := of_decide_eq_true hcheck
  obtain ⟨t, ht⟩ := exists_toTable_of_plain (document_of_load hp).1 hplain hread
  have hget := Document.get?_of_notMem hlatency (by decide)
  have hanswer : p.latency = .ok (-7) := typed_of_get? hget _ _
  obtain ⟨s, v, hs, hentry, hsame⟩ := agrees_of_readInteger hp ht hanswer (by simp [defaultSections])
  obtain rfl := Option.some.inj (Except.ok.inj (hget.symm.trans hs))
  refine ⟨p, t, hp, ht, hanswer, v, hentry, ?_⟩
  rw [Bool.eq_false_iff, Ne, hsame]
  exact fun hdigits => absurd (hdigits '-' (by decide)) (by decide)

end Preferences

end Settings

end Handset
