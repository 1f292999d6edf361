import Handset.Proofs.Files.Ancestors

/-!
# Canonical paths

An absolute path in normal form is a row of names with a slash before each, and the root is a single slash. The
names can be read off it again, its directory part is the row without the last name, and the way from one such
path to another climbs from what they have in common. A path that starts with two slashes is no such row.
-/
namespace Handset.Path

open FileTree

/-- An absolute path in normal form, with one slash before it. -/
structure Canonical (s : String) : Prop where
  absolute : s.startsWith "/" = true
  single : s.startsWith "//" = false
  normal : normalize s = s

instance (s : String) : Decidable (Canonical s) :=
  decidable_of_iff (s.startsWith "/" = true ∧ s.startsWith "//" = false ∧ normalize s = s)
    ⟨fun ⟨h, h', h''⟩ => ⟨h, h', h''⟩, fun ⟨h, h', h''⟩ => ⟨h, h', h''⟩⟩

/-- A text that can stand between two slashes of a path in normal form. -/
structure Proper (name : String) : Prop where
  ne_empty : name ≠ ""
  ne_dot : name ≠ "."
  ne_up : name ≠ ".."
  slashless : '/' ∉ name.toList

/-- The absolute path of these names. -/
def rooted (names : List String) : String :=
  "/" ++ String.intercalate "/" names

variable {s name : String} {ns ms : List String}

/-! ### Rows of names -/

theorem pieces_intercalate {css : List (List Char)} (hne : css ≠ []) (h : ∀ cs ∈ css, '/' ∉ cs) :
    pieces (['/'].intercalate css) = css := by
  induction css with
  | nil => exact absurd rfl hne
  | cons cs rest ih =>
    have hcs : pieces cs = [cs] := pieces_of_notMem (h cs List.mem_cons_self)
    cases rest with
    | nil => rw [List.intercalate_singleton, hcs]
    | cons next more =>
      have hrest := ih (List.cons_ne_nil _ _) fun cs hmem => h cs (List.mem_cons_of_mem _ hmem)
      rw [List.intercalate_cons_of_ne_nil (List.cons_ne_nil _ _)]
      rw [List.append_assoc, List.singleton_append, pieces_append_slash, hcs, hrest, List.singleton_append]

theorem split_intercalate (hne : ns ≠ []) (h : ∀ name ∈ ns, '/' ∉ name.toList) :
    split (String.intercalate "/" ns) = ns := by
  have hpieces : pieces (String.intercalate "/" ns).toList = ns.map String.toList := by
    rw [String.toList_intercalate]
    exact pieces_intercalate (by simpa using hne) (by simpa using h)
  rw [split, hpieces, List.map_map]
  exact (List.map_congr_left fun name _ => String.ofList_toList).trans (List.map_id _)

theorem split_slash_append (s : String) : split ("/" ++ s) = "" :: split s := by
  rw [split, String.toList_append]
  exact congrArg (List.map String.ofList) (if_pos rfl)

theorem split_rooted (hne : ns ≠ []) (h : ∀ name ∈ ns, Proper name) : split (rooted ns) = "" :: ns := by
  rw [rooted, split_slash_append, split_intercalate hne fun name hname => (h name hname).slashless]

theorem names_rooted (h : ∀ name ∈ ns, Proper name) : names (rooted ns) = ns := by
  by_cases hne : ns = []
  · rw [hne]
    rfl
  · rw [names, split_rooted hne h, List.filter_cons_of_neg (by decide)]
    exact List.filter_eq_self.mpr fun name hname => by simpa using (h name hname).ne_empty

theorem proper_concat (h : ∀ name ∈ ns, Proper name) (hname : Proper name) :
    ∀ other ∈ ns ++ [name], Proper other := by
  intro other hother
  rcases List.mem_append.mp hother with hother | hother
  · exact h other hother
  · rwa [List.mem_singleton.mp hother]

theorem baseName_rooted (h : ∀ name ∈ ns, Proper name) (hname : Proper name) :
    baseName (rooted (ns ++ [name])) = name := by
  rw [baseName, split_rooted (by simp) (proper_concat h hname), ← List.cons_append, List.getLastD_concat]

theorem toList_rooted (hne : ns ≠ []) : (rooted ns).toList = ns.flatMap fun name => '/' :: name.toList := by
  induction ns with
  | nil => exact absurd rfl hne
  | cons name rest ih =>
    cases rest with
    | nil => simp [rooted]
    | cons next more =>
      have hrest := ih (List.cons_ne_nil _ _)
      rw [List.flatMap_cons, ← hrest]
      simp [rooted]

theorem exists_toList_rooted_concat (ns : List String) (hname : Proper name) :
    ∃ more, more ≠ [] ∧ (rooted (ns ++ [name])).toList = (rooted ns).toList ++ more := by
  rw [toList_rooted (by simp), List.flatMap_append]
  by_cases hne : ns = []
  · refine ⟨name.toList, by simpa using hname.ne_empty, ?_⟩
    rw [hne]
    simp [rooted]
  · exact ⟨'/' :: name.toList, List.cons_ne_nil _ _, by rw [toList_rooted hne]; simp⟩

theorem startsWith_rooted_concat (ns : List String) (hname : Proper name) :
    (rooted (ns ++ [name])).startsWith (rooted ns) = true ∧
      (rooted ns).startsWith (rooted (ns ++ [name])) = false := by
  obtain ⟨more, hmore, hlonger⟩ := exists_toList_rooted_concat ns hname
  constructor
  · rw [String.startsWith_string_iff, hlonger]
    exact List.prefix_append _ _
  · rw [Bool.eq_false_iff, ne_eq, String.startsWith_string_iff, hlonger]
    intro hprefix
    have hlength := hprefix.length_le
    rw [List.length_append] at hlength
    have hpos := List.length_pos_iff.mpr hmore
    omega

/-- There is no slash at the end of a row of names. -/
theorem dropWhile_reverse_rooted (hne : ns ≠ []) (h : ∀ name ∈ ns, Proper name) :
    (rooted ns).toList.reverse.dropWhile (· == '/') = (rooted ns).toList.reverse := by
  obtain ⟨front, last, rfl⟩ := (List.eq_nil_or_concat ns).resolve_left hne
  rw [List.concat_eq_append] at h ⊢
  have hlast : Proper last := h last (by simp)
  obtain ⟨chars, c, hchars⟩ := (List.eq_nil_or_concat last.toList).resolve_left (by simpa using hlast.ne_empty)
  have hc : c ≠ '/' := by
    rintro rfl
    exact hlast.slashless (by simp [hchars])
  rw [toList_rooted (by simp), List.flatMap_append, List.flatMap_singleton, hchars]
  simp [hc]

theorem dirName_rooted (h : ∀ name ∈ ns, Proper name) (hname : Proper name) :
    dirName (rooted (ns ++ [name])) = rooted ns := by
  have hslash : (rooted (ns ++ [name])).toList.contains '/' = true := by simp [rooted]
  have hfront : (split (rooted (ns ++ [name]))).dropLast = "" :: ns := by
    rw [split_rooted (by simp) (proper_concat h hname), ← List.cons_append, List.dropLast_concat]
  unfold dirName
  rw [hslash, hfront, if_pos rfl]
  by_cases hne : ns = []
  · rw [hne]
    decide
  · have hrow : String.intercalate "/" ("" :: ns) = rooted ns := by
      rw [String.intercalate_cons_of_ne_nil hne, rooted, String.empty_append]
    have htrimmed : ((rooted ns ++ "/").toList.reverse.dropWhile (· == '/')).reverse = (rooted ns).toList := by
      have hlast : (rooted ns ++ "/").toList.reverse = '/' :: (rooted ns).toList.reverse := by simp
      rw [hlast, List.dropWhile_cons_of_pos rfl, dropWhile_reverse_rooted hne h, List.reverse_reverse]
    have hfull : (rooted ns).isEmpty = false := by simp [rooted]
    dsimp only
    rw [hrow, htrimmed, String.ofList_toList, hfull, if_neg Bool.false_ne_true]

/-! ### Canonical paths as rows of names -/

theorem mem_descend {base pieces : List String} (h : name ∈ descend base pieces) :
    name ∈ base ∨ name ∈ pieces ∧ name ≠ "." ∧ name ≠ ".." := by
  induction pieces generalizing base with
  | nil => exact .inl h
  | cons piece rest ih =>
    by_cases hdot : piece = "."
    · rw [hdot, descend_dot] at h
      exact (ih h).imp_right fun ⟨hmem, hname⟩ => ⟨List.mem_cons_of_mem _ hmem, hname⟩
    by_cases hup : piece = ".."
    · rw [hup, descend_up] at h
      exact (ih h).imp List.mem_of_mem_tail fun ⟨hmem, hname⟩ => ⟨List.mem_cons_of_mem _ hmem, hname⟩
    · rw [descend_name hdot hup] at h
      rcases ih h with hmem | ⟨hmem, hname⟩
      · rcases List.mem_cons.mp hmem with rfl | hmem
        · exact .inr ⟨List.mem_cons_self, hdot, hup⟩
        · exact .inl hmem
      · exact .inr ⟨List.mem_cons_of_mem _ hmem, hname⟩

theorem proper_of_mem_normalPieces (hs : s.startsWith "/" = true) (h : name ∈ normalPieces s) : Proper name := by
  rw [normalPieces_absolute hs, List.mem_reverse, placeOf] at h
  obtain ⟨hmem, hdot, hup⟩ := (mem_descend h).resolve_left List.not_mem_nil
  exact ⟨ne_empty_of_mem_names hmem, hdot, hup, notMem_of_mem_split (List.mem_filter.mp hmem).1⟩

theorem Canonical.eq_rooted_normalPieces (h : Canonical s) : s = rooted (normalPieces s) := by
  have hne : s.isEmpty = false := by
    rw [Bool.eq_false_iff, ne_eq, String.isEmpty_iff]
    rintro rfl
    exact absurd h.absolute (by decide)
  have hleading : leading s = "/" := by rw [leading, h.absolute, h.single]; rfl
  have hnormal := h.normal
  rw [normalize, hne, if_neg Bool.false_ne_true, hleading] at hnormal
  have hfull : (rooted (normalPieces s)).isEmpty = false := by simp [rooted]
  exact (hnormal.symm.trans (if_neg (Bool.eq_false_iff.mp hfull)))

theorem Canonical.proper (h : Canonical s) : ∀ name ∈ names s, Proper name := by
  have hproper : ∀ name ∈ normalPieces s, Proper name := fun name => proper_of_mem_normalPieces h.absolute
  rw [h.eq_rooted_normalPieces, names_rooted hproper]
  exact hproper

theorem Canonical.eq_rooted (h : Canonical s) : s = rooted (names s) := by
  have hproper : ∀ name ∈ normalPieces s, Proper name := fun name => proper_of_mem_normalPieces h.absolute
  have hs := h.eq_rooted_normalPieces
  conv => rhs; rw [hs, names_rooted hproper]
  exact hs

theorem Canonical.baseName_eq (h : Canonical s) (hnames : names s = ns ++ [name]) : baseName s = name := by
  have hproper := h.proper
  rw [hnames] at hproper
  rw [h.eq_rooted, hnames]
  exact baseName_rooted (fun other hother => hproper other (List.mem_append_left _ hother))
    (hproper name (by simp))

theorem Canonical.dirName_eq_iff {d : String} (h : Canonical s) (hd : Canonical d) :
    dirName s = d ∧ s ≠ d ↔ ∃ name, names s = names d ++ [name] := by
  have hproper := h.proper
  constructor
  · rintro ⟨hdir, hne⟩
    rcases List.eq_nil_or_concat (names s) with hroot | ⟨front, name, hnames⟩
    · -- the root is its own directory part
      rw [h.eq_rooted, hroot] at hdir hne
      exact absurd hdir hne
    · rw [List.concat_eq_append] at hnames
      rw [hnames] at hproper
      have hfront : ∀ other ∈ front, Proper other := fun other hother =>
        hproper other (List.mem_append_left _ hother)
      rw [h.eq_rooted, hnames, dirName_rooted hfront (hproper name (by simp))] at hdir
      exact ⟨name, by rw [← hdir, names_rooted hfront, hnames]⟩
  · rintro ⟨name, hnames⟩
    have hname : Proper name := hproper name (by rw [hnames]; simp)
    refine ⟨?_, ?_⟩
    · rw [h.eq_rooted, hnames, dirName_rooted hd.proper hname, ← hd.eq_rooted]
    · rintro rfl
      simp at hnames

/-! ### The way from one path to another -/

theorem take_commonLength (as bs : List String) :
    as.take (commonLength as bs) = bs.take (commonLength as bs) := by
  induction as generalizing bs with
  | nil => simp [commonLength]
  | cons a as ih =>
    cases bs with
    | nil => rfl
    | cons b bs =>
      rw [commonLength]
      split
      next heq => rw [heq, List.take_succ_cons, List.take_succ_cons, ih]
      next => rfl

theorem commonLength_append (as bs : List String) : commonLength as (as ++ bs) = as.length := by
  induction as with
  | nil => cases bs <;> rfl
  | cons a as ih => rw [List.cons_append, commonLength, if_pos rfl, ih, List.length_cons]

/-- The way between two canonical paths, up from the one to what they have in common and down to the other. -/
theorem relative_of_canonical {p d : String} (hp : Canonical p) (hd : Canonical d) (workingDir : String) :
    relative workingDir p d =
      let common := commonLength (names d) (names p)
      let way := List.replicate ((names d).length - common) ".." ++ (names p).drop common
      if way.isEmpty then "." else String.intercalate "/" way := by
  have habsolute {s : String} (hs : Canonical s) : absolute workingDir s = s := by
    rw [absolute, if_pos hs.absolute, hs.normal]
  rw [relative, habsolute hp, habsolute hd]
  rfl

/-- A way of one piece leads down to an entry of the directory, or up to the directory above. -/
theorem split_relative_eq_singleton {p d : String} (hp : Canonical p) (hd : Canonical d) (hne : p ≠ d)
    {workingDir : String} (h : split (relative workingDir p d) = [name]) :
    names p = names d ++ [name] ∨ ∃ last, names d = names p ++ [last] := by
  have htake := take_commonLength (names d) (names p)
  rw [relative_of_canonical hp hd] at h
  generalize commonLength (names d) (names p) = common at h htake
  have hdown : ∀ piece ∈ (names p).drop common, '/' ∉ piece.toList :=
    fun piece hpiece => (hp.proper piece (List.mem_of_mem_drop hpiece)).slashless
  have hnamesp := List.take_append_drop common (names p)
  have hnamesd := List.take_append_drop common (names d)
  rw [htake] at hnamesd
  dsimp only at h
  rw [← List.length_drop] at h
  -- both paths have the same start, then the one goes on with `up` and the other with `down`
  generalize (names d).drop common = up at h hnamesd
  generalize (names p).drop common = down at h hnamesp hdown
  generalize (names p).take common = start at hnamesd hnamesp
  have hway : up = [] ∧ down = [] ∨ List.replicate up.length ".." ++ down = [name] := by
    split at h
    next hempty =>
      rw [List.isEmpty_iff, List.append_eq_nil_iff, List.replicate_eq_nil_iff, List.length_eq_zero_iff] at hempty
      exact .inl hempty
    next hfull =>
      rw [split_intercalate (by simpa using hfull)] at h
      · exact .inr h
      · intro piece hpiece
        rcases List.mem_append.mp hpiece with hup | hpiece
        · rw [List.eq_of_mem_replicate hup]
          decide
        · exact hdown piece hpiece
  rw [← hnamesp, ← hnamesd]
  rcases hway with ⟨rfl, rfl⟩ | hway
  · refine absurd ?_ hne
    rw [hp.eq_rooted, hd.eq_rooted, ← hnamesp, ← hnamesd]
  · cases up with
    | nil => exact .inl (by rw [← hway]; simp)
    | cons last more =>
      rw [List.length_cons, List.replicate_succ, List.cons_append, List.cons.injEq, List.append_eq_nil_iff,
        List.replicate_eq_nil_iff, List.length_eq_zero_iff] at hway
      obtain ⟨-, rfl, rfl⟩ := hway
      exact .inr ⟨last, by rw [List.append_nil]⟩

theorem split_relative_concat {p d : String} (hp : Canonical p) (hd : Canonical d)
    (h : names p = names d ++ [name]) (workingDir : String) : split (relative workingDir p d) = [name] := by
  have hname : Proper name := hp.proper name (by rw [h]; simp)
  rw [relative_of_canonical hp hd, h, commonLength_append]
  simp only [Nat.sub_self, List.replicate_zero, List.nil_append, List.drop_left]
  rw [if_neg (by simp), split_intercalate (by simp)]
  rintro _ hmem
  rw [List.mem_singleton.mp hmem]
  exact hname.slashless

end Handset.Path
