import Handset.Proofs.Steps
import Handset.Settings.Preferences

/-!
# Defaults fill gaps

The full edition completes the document that it reads: it adds the default sections and keys that the document leaves
out. Each step looks at the document that the steps before it have left, and a key counts as there if the section
inherits it.
-/
namespace Handset

namespace Settings

/-! ### Values without a percent sign -/

theorem mem_of_mem_withoutPairs {c : Char} {cs : List Char} (h : c ∈ withoutPairs cs) : c ∈ cs := by
  fun_induction withoutPairs cs with
  | case1 => exact h
  | case2 rest ih => exact List.mem_cons_of_mem _ (List.mem_cons_of_mem _ (ih h))
  | case3 first rest _ ih =>
    rcases List.mem_cons.mp h with rfl | h
    · exact List.mem_cons_self
    · exact List.mem_cons_of_mem _ (ih h)

theorem mem_of_splitReference? {c : Char} {cs key rest : List Char} (h : splitReference? cs = some (key, rest))
    (hc : c ∈ rest) : c ∈ cs := by
  unfold splitReference? at h
  split at h
  next after hdropped =>
    split at h
    · cases h
    · obtain ⟨-, rfl⟩ := Prod.mk.inj (Option.some.inj h)
      refine (List.dropWhile_sublist (· != ')')).subset ?_
      rw [hdropped]
      exact List.mem_cons_of_mem _ (List.mem_cons_of_mem _ hc)
  next => cases h

theorem mem_of_mem_withoutReferences {c : Char} {cs : List Char} (h : c ∈ withoutReferences cs) : c ∈ cs := by
  fun_induction withoutReferences cs with
  | case1 => exact h
  | case2 rest _ ih =>
    rcases List.mem_cons.mp h with rfl | h
    · exact List.mem_cons_self
    · rcases List.mem_cons.mp h with rfl | h
      · exact List.mem_cons_of_mem _ List.mem_cons_self
      · exact List.mem_cons_of_mem _ (List.mem_cons_of_mem _ (ih h))
  | case3 rest _ after hsplit ih =>
    exact List.mem_cons_of_mem _ (List.mem_cons_of_mem _ (mem_of_splitReference? hsplit (ih h)))
  | case4 first rest _ ih =>
    rcases List.mem_cons.mp h with rfl | h
    · exact List.mem_cons_self
    · exact List.mem_cons_of_mem _ (ih h)

theorem isWellFormed_of_notMem {value : String} (h : '%' ∉ value.toList) : isWellFormed value = true := by
  have hdropped : '%' ∉ withoutReferences (withoutPairs value.toList) := fun hmem =>
    h (mem_of_mem_withoutPairs (mem_of_mem_withoutReferences hmem))
  simpa [isWellFormed] using hdropped

namespace Document

variable {d e f : Document}

/-! ### What a document states -/

def own? (d : Document) (name key : String) : Option String :=
  (Table.find? d.sections name).bind (Table.find? · key)

/-- The value that a document gives to a key of a section: in the section, or for all sections. The section need not
be there. -/
def stated? (d : Document) (name key : String) : Option String :=
  (d.own? name key).or (Table.find? d.defaults key)

theorem raw?_eq (d : Document) (name key : String) :
    d.raw? name key = if d.hasSection name then d.stated? name key else none := by
  unfold raw? hasSection stated? own? Table.has
  cases Table.find? d.sections name <;> rfl

/-! ### Documents that have more -/

/-- The second document has all that the first one has, in the same order, and what it has beyond that stands behind
it. -/
structure Extends (d e : Document) : Prop where
  defaults : e.defaults = d.defaults
  names : Table.keys d.sections <+: Table.keys e.sections
  entries : ∀ name entries, Table.find? d.sections name = some entries →
    ∃ more, Table.find? e.sections name = some (entries ++ more)

theorem Extends.refl (d : Document) : d.Extends d :=
  ⟨rfl, List.prefix_refl _, fun _ entries h => ⟨[], by rw [List.append_nil, h]⟩⟩

theorem Extends.trans (h : d.Extends e) (h' : e.Extends f) : d.Extends f := by
  refine ⟨h'.defaults.trans h.defaults, h.names.trans h'.names, fun name entries hd => ?_⟩
  obtain ⟨more, he⟩ := h.entries name entries hd
  obtain ⟨more', hf⟩ := h'.entries name _ he
  exact ⟨more ++ more', by rw [hf, List.append_assoc]⟩

/-- The document has become another one by filling gaps: a key has its value, or else that of the table if it is not
inherited. -/
structure Filled (value? : String → String → Option String) (d e : Document) : Prop where
  extended : d.Extends e
  own : ∀ name key, e.own? name key =
    (d.own? name key).or (if (Table.find? d.defaults key).isSome then none else value? name key)

theorem Filled.refl (d : Document) : Filled (fun _ _ => none) d d :=
  ⟨.refl d, fun _ _ => by simp⟩

/-- The gaps that are left are filled from the next table. -/
theorem Filled.trans {value? value'? : String → String → Option String} (h : Filled value? d e)
    (h' : Filled value'? e f) : Filled (fun name key => (value? name key).or (value'? name key)) d f := by
  refine ⟨h.extended.trans h'.extended, fun name key => ?_⟩
  rw [h'.own, h.own, h.extended.defaults, Option.or_assoc]
  split <;> rfl

theorem Filled.congr {value? value'? : String → String → Option String} (h : Filled value? d e)
    (hvalue : ∀ name key, value? name key = value'? name key) : Filled value'? d e :=
  ⟨h.extended, fun name key => by rw [h.own, hvalue]⟩

/-! ### Completing step by step -/

theorem hasSection_addSection (d : Document) (n name : String) :
    (d.addSection n).hasSection name = (n == name || d.hasSection name) := by
  unfold addSection
  split
  next h =>
    by_cases hn : n = name
    · rw [← hn, h, Bool.or_true]
    · rw [beq_eq_false_iff_ne.mpr hn, Bool.false_or]
  next => exact Table.has_put _ _ _ _

theorem filled_addSection (d : Document) (n : String) : Filled (fun _ _ => none) d (d.addSection n) := by
  unfold addSection
  split
  next => exact .refl d
  next h =>
    have hnone : Table.find? d.sections n = none := by
      rwa [hasSection, Table.has, Bool.not_eq_true, Option.isSome_eq_false_iff, Option.isNone_iff_eq_none] at h
    have hkeys := Table.put_eq_append ([] : Entries) (Table.notMem_keys_of_find?_eq_none hnone)
    have hfind (name : String) : Table.find? (Table.put d.sections n []) name =
        if n == name then some [] else Table.find? d.sections name := Table.find?_put _ _ _ _
    refine ⟨⟨rfl, ?_, fun name entries hentries => ⟨[], ?_⟩⟩, fun name key => ?_⟩
    · dsimp only
      rw [hkeys]
      exact ⟨[n], by simp [Table.keys]⟩
    · have hne : n ≠ name := by
        rintro rfl
        rw [hnone] at hentries
        cases hentries
      rw [List.append_nil, ← hentries]
      exact (hfind name).trans (if_neg (by rwa [beq_iff_eq]))
    · unfold own?
      dsimp only
      rw [hfind]
      by_cases hn : n = name
      · subst hn
        simp [hnone, Table.find?]
      · simp [hn]

theorem filled_set {n k : String} (v : String) (hsection : d.hasSection n = true) (hkey : d.stated? n k = none) :
    Filled (fun name key => if name = n ∧ key = k then some v else none) d (d.set n k v) := by
  obtain ⟨entries, hentries⟩ := Option.isSome_iff_exists.mp hsection
  obtain ⟨hown, hinherited⟩ := Option.or_eq_none_iff.mp hkey
  have hnone : Table.find? entries k = none := by rwa [own?, hentries] at hown
  have hset : d.set n k v = { d with sections := Table.put d.sections n (Table.put entries k v) } := by
    rw [set, hentries]
  have hfind (name : String) : Table.find? (Table.put d.sections n (Table.put entries k v)) name =
      if n == name then some (Table.put entries k v) else Table.find? d.sections name := Table.find?_put _ _ _ _
  rw [hset]
  refine ⟨⟨rfl, ?_, fun name entries' hentries' => ?_⟩, fun name key => ?_⟩
  · exact ⟨[], by rw [List.append_nil, Table.keys_put_of_has _ hsection]⟩
  · dsimp only
    by_cases hn : n = name
    · subst hn
      obtain rfl := Option.some.inj (hentries.symm.trans hentries')
      rw [hfind, if_pos (beq_self_eq_true n), Table.put_eq_append v (Table.notMem_keys_of_find?_eq_none hnone)]
      exact ⟨_, rfl⟩
    · exact ⟨[], by rw [hfind, if_neg (by rwa [beq_iff_eq]), hentries', List.append_nil]⟩
  · unfold own?
    dsimp only
    rw [hfind]
    by_cases hn : n = name
    · subst hn
      rw [if_pos (beq_self_eq_true n), Option.bind_some, hentries, Option.bind_some, Table.find?_put]
      by_cases hk : k = key
      · subst hk
        simp [hnone, hinherited]
      · simp [hk, Ne.symm hk]
    · simp [hn, Ne.symm hn]

theorem hasSection_set (d : Document) (n k v name : String) :
    (d.set n k v).hasSection name = d.hasSection name := by
  unfold set
  split
  next => rfl
  next entries hentries =>
    refine (Table.has_put d.sections n name _).trans ?_
    by_cases hn : n = name
    · rw [← hn, beq_self_eq_true, Bool.true_or, hasSection, Table.has, hentries, Option.isSome_some]
    · rw [beq_eq_false_iff_ne.mpr hn, Bool.false_or, hasSection]

theorem filled_of_stated {n k : String} (v : String) (hkey : (d.stated? n k).isSome = true) :
    Filled (fun name key => if name = n ∧ key = k then some v else none) d d := by
  refine ⟨.refl d, fun name key => ?_⟩
  by_cases hpair : name = n ∧ key = k
  · obtain ⟨rfl, rfl⟩ := hpair
    unfold stated? at hkey
    cases hown : d.own? name key with
    | some value => rfl
    | none =>
      rw [hown, Option.none_or] at hkey
      simp [hkey]
  · simp [hpair]

theorem filled_supply {n : String} {entry : String × String} (hsection : d.hasSection n = true)
    (h : supply n d entry = .ok e) :
    Filled (fun name key => if name = n ∧ key = entry.1 then some entry.2 else none) d e ∧
      ∀ name, e.hasSection name = d.hasSection name := by
  unfold supply at h
  rw [raw?_eq, if_pos hsection] at h
  split at h
  next hstated =>
    obtain rfl := Except.ok.inj h
    exact ⟨filled_of_stated _ hstated, fun _ => rfl⟩
  next hstated =>
    split at h
    next =>
      obtain rfl := Except.ok.inj h
      rw [Bool.not_eq_true, Option.isSome_eq_false_iff, Option.isNone_iff_eq_none] at hstated
      exact ⟨filled_set _ hsection hstated, hasSection_set d _ _ _⟩
    next => cases h

/-- What supplying the keys of a section one after the other comes to. -/
theorem filled_entries {n : String} {entries : Entries} (hsection : d.hasSection n = true)
    (h : entries.foldlM (supply n) d = .ok e) :
    Filled (fun name key => if name = n then Table.find? entries key else none) d e ∧
      ∀ name, e.hasSection name = d.hasSection name := by
  induction entries generalizing d with
  | nil =>
    obtain rfl := Except.ok.inj h
    exact ⟨(Filled.refl d).congr fun name key => by simp [Table.find?], fun _ => rfl⟩
  | cons entry rest ih =>
    rw [List.foldlM_cons] at h
    obtain ⟨next, hnext, hrest⟩ := Step.exists_of_bind_eq_ok h
    obtain ⟨hfilled, hnames⟩ := filled_supply hsection hnext
    obtain ⟨hfilled', hnames'⟩ := ih ((hnames n).trans hsection) hrest
    refine ⟨(hfilled.trans hfilled').congr fun name key => ?_, fun name => (hnames' name).trans (hnames name)⟩
    by_cases hn : name = n
    · by_cases hk : entry.1 = key
      · simp [hn, hk, Table.find?]
      · simp [hn, hk, Ne.symm hk, Table.find?]
    · simp [hn]

/-- The default for a key of a section: that of the first section of this name that has one. -/
def offered? : Table String Entries → String → String → Option String
  | [], _, _ => none
  | (n, entries) :: rest, name, key =>
    (if name = n then Table.find? entries key else none).or (offered? rest name key)

theorem filled_complete {sections : Table String Entries} (h : d.complete sections = .ok e) :
    Filled (offered? sections) d e ∧
      ∀ name, e.hasSection name = true ↔ d.hasSection name = true ∨ name ∈ sections.keys := by
  unfold complete at h
  induction sections generalizing d with
  | nil =>
    obtain rfl := Except.ok.inj h
    exact ⟨.refl d, fun _ => by simp [Table.keys]⟩
  | cons part rest ih =>
    obtain ⟨n, entries⟩ := part
    rw [List.foldlM_cons] at h
    obtain ⟨next, hnext, hrest⟩ := Step.exists_of_bind_eq_ok h
    have hsection : (d.addSection n).hasSection n = true := by
      rw [hasSection_addSection, beq_self_eq_true, Bool.true_or]
    obtain ⟨hfilled, hnames⟩ := filled_entries hsection hnext
    obtain ⟨hfilled', hnames'⟩ := ih hrest
    refine ⟨(((filled_addSection d n).trans hfilled).trans hfilled').congr fun name key => ?_, fun name => ?_⟩
    · rw [Option.none_or]
      rfl
    · rw [hnames', hnames, hasSection_addSection, Bool.or_eq_true, beq_iff_eq]
      simp only [Table.keys, List.map_cons, List.mem_cons]
      rw [or_assoc, or_left_comm, @eq_comm _ n]

/-- Completing fails only where a default is not well formed. -/
theorem exists_complete (d : Document) {sections : Table String Entries}
    (h : ∀ part ∈ sections, ∀ entry ∈ part.2, isWellFormed entry.2 = true) : ∃ e, d.complete sections = .ok e := by
  have hentries (n : String) (entries : Entries) (hentries : ∀ entry ∈ entries, isWellFormed entry.2 = true)
      (d : Document) : ∃ e, entries.foldlM (supply n) d = .ok e := by
    induction entries generalizing d with
    | nil => exact ⟨d, rfl⟩
    | cons entry rest ih =>
      have hfirst : ∃ e, supply n d entry = .ok e := by
        unfold supply
        rw [hentries entry List.mem_cons_self, if_pos rfl]
        split
        · exact ⟨_, rfl⟩
        · exact ⟨_, rfl⟩
      obtain ⟨next, hnext⟩ := hfirst
      rw [List.foldlM_cons, hnext]
      exact ih (fun entry' hentry' => hentries entry' (List.mem_cons_of_mem _ hentry')) next
  unfold complete
  induction sections generalizing d with
  | nil => exact ⟨d, rfl⟩
  | cons part rest ih =>
    obtain ⟨next, hnext⟩ := hentries part.1 part.2 (h part List.mem_cons_self) (d.addSection part.1)
    rw [List.foldlM_cons, completeSection, hnext]
    exact ih next fun part' hpart' => h part' (List.mem_cons_of_mem _ hpart')

/-! ### The defaults -/

theorem offered?_of_mem {sections : Table String Entries} (hnames : sections.keys.Nodup) {part : String × Entries}
    (hpart : part ∈ sections) (hkeys : part.2.keys.Nodup) {entry : String × String} (hentry : entry ∈ part.2) :
    offered? sections part.1 entry.1 = some entry.2 := by
  induction sections with
  | nil => cases hpart
  | cons first rest ih =>
    obtain ⟨hfirst, hrest⟩ := List.nodup_cons.mp hnames
    unfold offered?
    rcases List.mem_cons.mp hpart with rfl | hpart
    · rw [if_pos rfl, Table.find?_of_mem hkeys hentry, Option.some_or]
    · have hne : part.1 ≠ first.1 := fun heq => hfirst (heq ▸ List.mem_map_of_mem hpart)
      rw [if_neg hne, Option.none_or]
      exact ih hrest hpart

theorem exists_of_offered? {sections : Table String Entries} {name key value : String}
    (h : offered? sections name key = some value) : ∃ part ∈ sections, part.1 = name ∧ (key, value) ∈ part.2 := by
  induction sections with
  | nil => cases h
  | cons first rest ih =>
    unfold offered? at h
    rcases Option.or_eq_some_iff.mp h with hfirst | ⟨-, hrest⟩
    · obtain ⟨hname, hfound⟩ := Option.ite_none_right_eq_some.mp hfirst
      exact ⟨first, List.mem_cons_self, hname.symm, Table.mem_of_find? hfound⟩
    · obtain ⟨part, hpart, hentry⟩ := ih hrest
      exact ⟨part, List.mem_cons_of_mem _ hpart, hentry⟩

theorem offered?_eq_none {sections : Table String Entries} {name key : String}
    (h : ∀ part ∈ sections, ∀ entry ∈ part.2, ¬ (part.1 = name ∧ entry.1 = key)) :
    offered? sections name key = none := by
  refine Option.eq_none_iff_forall_ne_some.mpr fun value hvalue => ?_
  obtain ⟨part, hpart, hname, hentry⟩ := exists_of_offered? hvalue
  exact h part hpart _ hentry ⟨hname, rfl⟩

end Document

theorem defaultKeys_eq (s : Surroundings) : (defaultSections .full s).map (·.2.keys) =
    [["root_path", "windows_drive_letter", "linux_mount_point", "macos_mount_point"], ["level", "log_file"],
      ["enable_network_emulation", "packet_loss_rate", "latency_ms"], ["theme", "window_width", "window_height"]] := rfl

theorem nodup_defaultSections (s : Surroundings) :
    (defaultSections .full s).keys.Nodup ∧ ∀ part ∈ defaultSections .full s, part.2.keys.Nodup := by
  have hnames : (defaultSections .full s).keys = ["storage", "logging", "hardware", "ui"] := rfl
  have hkeys : ∀ keys ∈ (defaultSections .full s).map (·.2.keys), keys.Nodup := by
    rw [defaultKeys_eq]
    decide
  exact ⟨by rw [hnames]; decide, List.forall_mem_map.mp hkeys⟩

theorem notMem_join {c : Char} {a b : String} (ha : c ∉ a.toList) (hb : c ∉ b.toList) (hc : c ≠ '/') :
    c ∉ (Path.join a b).toList := by
  unfold Path.join
  split
  · exact hb
  · split
    · simp [ha, hb]
    · simp [ha, hb, hc]

theorem mem_defaultValues {s : Surroundings} {part : String × Entries} (hpart : part ∈ defaultSections .full s)
    {entry : String × String} (hentry : entry ∈ part.2) :
    entry.2 ∈ ["", "G", Path.join s.home "virtual_phone_drive", Path.join s.home "virtual_phone_drive", "INFO",
      Path.join (Path.join s.program "..") "virtual_phone.log", "True", "0.1", "50", "light", "800", "600"] := by
  have hvalue : entry.2 ∈ (defaultSections .full s).flatMap (·.2.values) :=
    List.mem_flatMap.mpr ⟨part, hpart, List.mem_map_of_mem hentry⟩
  exact hvalue

/-- All defaults can be set if the paths that they are made of have no percent sign. -/
theorem isWellFormed_default {s : Surroundings} (hhome : '%' ∉ s.home.toList) (hprogram : '%' ∉ s.program.toList) :
    ∀ part ∈ defaultSections .full s, ∀ entry ∈ part.2, isWellFormed entry.2 = true := by
  have hdrive : '%' ∉ (Path.join s.home "virtual_phone_drive").toList :=
    notMem_join hhome (by decide) (by decide)
  have hlog : '%' ∉ (Path.join (Path.join s.program "..") "virtual_phone.log").toList :=
    notMem_join (notMem_join hprogram (by decide) (by decide)) (by decide) (by decide)
  intro part hpart entry hentry
  apply isWellFormed_of_notMem
  have hvalue := mem_defaultValues hpart hentry
  revert hvalue
  generalize entry.2 = value
  revert value
  simp only [List.forall_mem_cons]
  exact ⟨by decide, by decide, hdrive, hdrive, by decide, hlog, by decide, by decide, by decide, by decide, by decide,
    by decide, List.forall_mem_nil _⟩

namespace Preferences

variable {s : Surroundings} {text : String} {p : Preferences}

theorem load_full_eq_ok_iff : load .full s (some text) = .ok p ↔
    ∃ d e, Document.parse text = .ok d ∧ d.complete (defaultSections .full s) = .ok e ∧ p = ⟨.full, s, e⟩ := by
  have hload : load .full s (some text) = Document.parse text >>= fun d =>
      d.complete (defaultSections .full s) >>= fun e => .ok ⟨.full, s, e⟩ := rfl
  rw [hload]
  constructor
  · intro h
    obtain ⟨d, hd, hp⟩ := Step.exists_of_bind_eq_ok h
    obtain ⟨e, he, hp⟩ := Step.exists_of_bind_eq_ok hp
    exact ⟨d, e, hd, he, (Except.ok.inj hp).symm⟩
  · rintro ⟨d, e, hd, he, rfl⟩
    rw [hd]
    exact congrArg (fun x : Except Fault Document => x >>= fun e => Except.ok (⟨.full, s, e⟩ : Preferences)) he

/-- Whatever can be read is loaded, if the paths of the surroundings have no percent sign. -/
theorem exists_load {d : Document} (hd : Document.parse text = .ok d) (hhome : '%' ∉ s.home.toList)
    (hprogram : '%' ∉ s.program.toList) : ∃ p, load .full s (some text) = .ok p := by
  obtain ⟨e, he⟩ := d.exists_complete (isWellFormed_default hhome hprogram)
  exact ⟨_, load_full_eq_ok_iff.mpr ⟨d, e, hd, he, rfl⟩⟩

/-- Defaults fill gaps and never override. Of a text that the full edition loads, every default key of every default
section is there afterwards. Its raw value is what the text states for it, in the section or for all sections, and
the default if the text states nothing. All that the text states stays as it is and where it is: the values for all
sections, the sections in their order, and the keys of each section in their order, with what is new behind them. A
key is new only if it is a default for which the text states nothing, and a section only if it is a default one. -/
theorem defaults_fill_gaps (h : load .full s (some text) = .ok p) :
    ∃ d, Document.parse text = .ok d ∧
      (∀ part ∈ defaultSections .full s, ∀ entry ∈ part.2,
        p.document.raw? part.1 entry.1 = some ((d.stated? part.1 entry.1).getD entry.2)) ∧
      d.Extends p.document ∧
      (∀ name key, ((d.stated? name key).isSome = true ∨ ∀ part ∈ defaultSections .full s, ∀ entry ∈ part.2,
          ¬ (part.1 = name ∧ entry.1 = key)) → p.document.own? name key = d.own? name key) ∧
      ∀ name, p.document.hasSection name = true ↔
        d.hasSection name = true ∨ name ∈ (defaultSections .full s).keys := by
  obtain ⟨d, e, hd, hcomplete, rfl⟩ := load_full_eq_ok_iff.mp h
  obtain ⟨hnames, hkeys⟩ := nodup_defaultSections s
  obtain ⟨hfilled, hsections⟩ := Document.filled_complete hcomplete
  refine ⟨d, hd, fun part hpart entry hentry => ?_, hfilled.extended, fun name key hkey => ?_, hsections⟩
  · have hsection : e.hasSection part.1 = true := (hsections _).mpr (.inr (List.mem_map_of_mem hpart))
    rw [Document.raw?_eq, if_pos hsection, Document.stated?, hfilled.own, hfilled.extended.defaults,
      Document.offered?_of_mem hnames hpart (hkeys part hpart) hentry, Document.stated?]
    cases d.own? part.1 entry.1 with
    | some value => rfl
    | none => cases Table.find? d.defaults entry.1 <;> rfl
  · rw [hfilled.own]
    rcases hkey with hstated | hother
    · unfold Document.stated? at hstated
      cases hown : d.own? name key with
      | some value => rfl
      | none =>
        rw [hown, Option.none_or] at hstated
        rw [if_pos hstated, Option.none_or]
    · rw [Document.offered?_eq_none hother, ite_self, Option.or_none]

/-- A text that sets a default key in capitals, another one for all sections, and a section of its own. -/
def sketchyText : String :=
  "[DEFAULT]\nlevel = DEBUG\n[storage]\nROOT_PATH = /data\nextra: 1\n[notes]\nk = %%\n"

/-- The handset's usual surroundings. -/
def usualSurroundings : Surroundings where
  home := "/home/phone"
  program := "/program"

theorem sketchyText_completed :
    ∃ p, load .full usualSurroundings (some sketchyText) = .ok p ∧
      p.document.raw? "storage" "root_path" = some "/data" ∧ p.document.raw? "logging" "level" = some "DEBUG" ∧
      p.document.raw? "ui" "theme" = some "light" ∧ p.document.own? "notes" "k" = some "%%" := by
  have hparse : (Document.parse sketchyText).toOption = some
      { defaults := [("level", "DEBUG")]
        sections := [("storage", [("root_path", "/data"), ("extra", "1")]), ("notes", [("k", "%%")])] } := by
    decide +kernel
  have hparse := Step.eq_ok_of_toOption hparse
  obtain ⟨p, hp⟩ := exists_load (s := usualSurroundings) hparse (by decide) (by decide)
  obtain ⟨d, hd, hdefaults, -, hothers, -⟩ := defaults_fill_gaps hp
  obtain rfl := Except.ok.inj (hparse.symm.trans hd)
  refine ⟨p, hp, ?_, ?_, ?_, ?_⟩
  · exact hdefaults _ List.mem_cons_self _ List.mem_cons_self
  · exact hdefaults _ (List.mem_cons_of_mem _ List.mem_cons_self) _ List.mem_cons_self
  · exact hdefaults _ (List.mem_cons_of_mem _ (List.mem_cons_of_mem _ (List.mem_cons_of_mem _ List.mem_cons_self))) _
      List.mem_cons_self
  · exact (hothers "notes" "k" (.inl rfl)).trans rfl

end Preferences

end Settings

end Handset
