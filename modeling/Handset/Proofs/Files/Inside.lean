import Handset.Proofs.Files.Places

/-!
# Paths inside a directory

Whether a path that is joined to a directory stays inside it can be read off its text. An absolute path
stands for itself. Any other one has a normal form that climbs some levels and goes down by names from
there: it stays inside if it climbs nowhere, and otherwise only if it comes back by the very names of the
levels that it has left.
-/
namespace Handset.Path

open FileTree (names descend descend_dot descend_up descend_name descend_append placeOf)

/-- The pieces of a path in normal form, made absolute from a working directory. -/
def absolutePieces (workingDir s : String) : List String :=
  normalPieces (if s.startsWith "/" then s else join workingDir s)

/-- In normal form the path is the directory or lies in it. -/
def Inside (workingDir root path : String) : Prop :=
  absolutePieces workingDir root <+: absolutePieces workingDir path

/-- A text leads from a directory of these pieces to somewhere inside it: it is absolute and names such a
place, or it comes back by the names of as many levels as it climbs. -/
def Stays (root : List String) (s : String) : Prop :=
  if s.startsWith "/" then root <+: normalPieces s
  else root.drop (root.length - (normalPieces s).count "..") <+: (normalPieces s).filter (· ≠ "..")

instance (workingDir root path : String) : Decidable (Inside workingDir root path) :=
  inferInstanceAs (Decidable (_ <+: _))

instance (root : List String) (s : String) : Decidable (Stays root s) :=
  inferInstanceAs (Decidable (if s.startsWith "/" then root <+: normalPieces s
    else root.drop (root.length - (normalPieces s).count "..") <+: (normalPieces s).filter (· ≠ "..")))

variable {a b s workingDir root : String} {base : List String}

/-! ### The names of a joined path -/

theorem pieces_ne_nil (cs : List Char) : pieces cs ≠ [] := by
  induction cs with
  | nil => nofun
  | cons c rest ih =>
    rw [pieces]
    split
    · nofun
    · split <;> nofun

theorem pieces_append_slash (cs ds : List Char) : pieces (cs ++ '/' :: ds) = pieces cs ++ pieces ds := by
  induction cs with
  | nil => rfl
  | cons c rest ih =>
    rw [List.cons_append, pieces, pieces, ih]
    split
    · rfl
    · cases hrest : pieces rest with
      | nil => exact absurd hrest (pieces_ne_nil rest)
      | cons p more => rfl

theorem notMem_of_mem_pieces {cs piece : List Char} (h : piece ∈ pieces cs) : '/' ∉ piece := by
  induction cs generalizing piece with
  | nil =>
    rw [List.mem_singleton.mp h]
    exact List.not_mem_nil
  | cons c rest ih =>
    rw [pieces] at h
    split at h
    · rcases List.mem_cons.mp h with rfl | h
      · exact List.not_mem_nil
      · exact ih h
    next hc =>
      cases hpieces : pieces rest with
      | nil => exact absurd hpieces (pieces_ne_nil rest)
      | cons first more =>
        rw [hpieces] at h ih
        rcases List.mem_cons.mp h with rfl | h
        · exact List.not_mem_cons_of_ne_of_not_mem (Ne.symm hc) (ih List.mem_cons_self)
        · exact ih (List.mem_cons_of_mem _ h)

theorem notMem_of_mem_split {s piece : String} (h : piece ∈ split s) : '/' ∉ piece.toList := by
  obtain ⟨cs, hcs, rfl⟩ := List.mem_map.mp h
  rw [String.toList_ofList]
  exact notMem_of_mem_pieces hcs

theorem names_append_slash (a b : String) : names (a ++ "/" ++ b) = names a ++ names b := by
  have hsplit : split (a ++ "/" ++ b) = split a ++ split b := by
    rw [split, split, split, ← List.map_append, ← pieces_append_slash]
    simp
  rw [names, hsplit, List.filter_append, names, names]

theorem startsWith_slash_iff : s.startsWith "/" = true ↔ ∃ rest, s.toList = '/' :: rest := by
  rw [String.startsWith_string_iff]
  exact ⟨fun ⟨rest, h⟩ => ⟨rest, h.symm⟩, fun ⟨rest, h⟩ => ⟨rest, h.symm⟩⟩

theorem names_empty : names "" = [] := rfl

theorem names_join (h : s.startsWith "/" = false) (a : String) : names (join a s) = names a ++ names s := by
  unfold join
  rw [if_neg (Bool.eq_false_iff.mp h)]
  split
  next hclosed =>
    rcases Bool.or_eq_true_iff.mp hclosed with hempty | hslash
    · rw [String.isEmpty_iff.mp hempty, names_empty, String.empty_append, List.nil_append]
    · -- the directory's closing slash serves
      obtain ⟨front, hfront⟩ := String.Slice.endsWith_string_iff.mp hslash
      rw [String.copy_toSlice] at hfront
      obtain rfl : a = String.ofList front ++ "/" := by
        rw [← String.toList_inj, String.toList_append, String.toList_ofList, hfront]
      have hclosed := names_append_slash (String.ofList front) ""
      rw [String.append_empty, names_empty, List.append_nil] at hclosed
      rw [names_append_slash, hclosed]
  next => exact names_append_slash a s

theorem startsWith_append (h : a ≠ "") (b : String) : (a ++ b).startsWith "/" = a.startsWith "/" := by
  rw [Bool.eq_iff_iff, startsWith_slash_iff, startsWith_slash_iff, String.toList_append]
  cases hchars : a.toList with
  | nil => exact absurd (String.toList_eq_nil_iff.mp hchars) h
  | cons c cs => simp

theorem startsWith_join (h : s.startsWith "/" = false) (a : String) :
    (join a s).startsWith "/" = a.startsWith "/" := by
  unfold join
  rw [if_neg (Bool.eq_false_iff.mp h)]
  by_cases hempty : a = ""
  · rw [hempty, if_pos (by decide), String.empty_append, h]
    decide
  · split
    · exact startsWith_append hempty s
    · rw [String.append_assoc]
      exact startsWith_append hempty _

/-! ### Normal forms -/

theorem foldl_normalStep_split (absolute : Bool) (done : List String) (s : String) :
    (split s).foldl (normalStep absolute) done = (names s).foldl (normalStep absolute) done := by
  rw [names, List.foldl_filter]
  congr 1
  funext done piece
  by_cases hpiece : piece = ""
  · simp [normalStep, hpiece]
  · simp [hpiece]

theorem ne_empty_of_mem_names {piece : String} (h : piece ∈ names s) : piece ≠ "" := by
  simpa using (List.mem_filter.mp h).2

theorem normalStep_dot (absolute : Bool) (done : List String) : normalStep absolute done "." = done :=
  if_pos (.inr rfl)

theorem normalStep_name {piece : String} (hempty : piece ≠ "") (hdot : piece ≠ ".") (hup : piece ≠ "..")
    (absolute : Bool) (done : List String) : normalStep absolute done piece = piece :: done := by
  unfold normalStep
  rw [if_neg (not_or.mpr ⟨hempty, hdot⟩), if_pos hup]

theorem normalStep_up {last : String} (h : last ≠ "..") (absolute : Bool) (done : List String) :
    normalStep absolute (last :: done) ".." = done := by
  unfold normalStep
  rw [if_neg (by decide), if_neg (by decide)]
  exact if_neg h

theorem normalStep_climb (k : Nat) :
    normalStep false (List.replicate k "..") ".." = List.replicate (k + 1) ".." := by
  cases k <;> rfl

/-- An absolute path in normal form only goes down, since climbing from the root leads nowhere. -/
theorem foldl_normalStep_absolute {pieces : List String} (h : ∀ piece ∈ pieces, piece ≠ "")
    (hbase : ".." ∉ base) : pieces.foldl (normalStep true) base = descend base pieces := by
  induction pieces generalizing base with
  | nil => rfl
  | cons piece rest ih =>
    have hrest : ∀ piece ∈ rest, piece ≠ "" := fun p hp => h p (List.mem_cons_of_mem _ hp)
    rw [List.foldl_cons]
    by_cases hdot : piece = "."
    · rw [hdot, normalStep_dot, descend_dot, ih hrest hbase]
    by_cases hup : piece = ".."
    · rw [hup, descend_up]
      cases base with
      | nil => exact ih hrest hbase
      | cons last above =>
        obtain ⟨hlast, habove⟩ := List.ne_and_not_mem_of_not_mem_cons hbase
        rw [normalStep_up hlast.symm, List.tail_cons, ih hrest habove]
    · rw [normalStep_name (h piece List.mem_cons_self) hdot hup, descend_name hdot hup]
      exact ih hrest (List.not_mem_cons_of_ne_of_not_mem (Ne.symm hup) hbase)

/-- A relative path in normal form climbs first and goes down by names from there. -/
theorem foldl_normalStep_relative {pieces : List String} (h : ∀ piece ∈ pieces, piece ≠ "") (k : Nat)
    (down : List String) (hdown : ".." ∉ down) :
    ∃ k' down', pieces.foldl (normalStep false) (down ++ List.replicate k "..") =
        down' ++ List.replicate k' ".." ∧ ".." ∉ down' ∧
      ∀ base : List String, descend (down ++ base.drop k) pieces = down' ++ base.drop k' := by
  induction pieces generalizing k down with
  | nil => exact ⟨k, down, rfl, hdown, fun _ => rfl⟩
  | cons piece rest ih =>
    have hrest : ∀ piece ∈ rest, piece ≠ "" := fun p hp => h p (List.mem_cons_of_mem _ hp)
    simp only [List.foldl_cons]
    by_cases hdot : piece = "."
    · simp only [hdot, normalStep_dot, descend_dot]
      exact ih hrest k down hdown
    by_cases hup : piece = ".."
    · simp only [hup, descend_up]
      cases down with
      | nil =>
        simp only [List.nil_append, normalStep_climb, List.tail_drop]
        exact ih hrest (k + 1) [] List.not_mem_nil
      | cons last above =>
        obtain ⟨hlast, habove⟩ := List.ne_and_not_mem_of_not_mem_cons hdown
        simp only [List.cons_append, normalStep_up hlast.symm, List.tail_cons]
        exact ih hrest k above habove
    · simp only [normalStep_name (h piece List.mem_cons_self) hdot hup, descend_name hdot hup]
      exact ih hrest _ _ (List.not_mem_cons_of_ne_of_not_mem (Ne.symm hup) hdown)

theorem normalPieces_absolute (h : s.startsWith "/" = true) : normalPieces s = (placeOf s).reverse := by
  rw [normalPieces, h, foldl_normalStep_split,
    foldl_normalStep_absolute (fun _ => ne_empty_of_mem_names) List.not_mem_nil, placeOf]

theorem normalPieces_relative (h : s.startsWith "/" = false) :
    ∃ k down, normalPieces s = List.replicate k ".." ++ down ∧ ".." ∉ down ∧
      ∀ base : List String, (descend base (names s)).reverse = (base.drop k).reverse ++ down := by
  have hnames : ∀ piece ∈ names s, piece ≠ "" := fun _ => ne_empty_of_mem_names
  obtain ⟨k, down, hfold, hdown, hdescend⟩ := foldl_normalStep_relative hnames 0 [] List.not_mem_nil
  refine ⟨k, down.reverse, ?_, by rwa [List.mem_reverse], fun base => ?_⟩
  · rw [normalPieces, h, foldl_normalStep_split]
    exact (congrArg List.reverse hfold).trans (by rw [List.reverse_append, List.reverse_replicate])
  · rw [← List.reverse_append, ← hdescend base]
    rfl

/-! ### Staying inside -/

theorem absolutePieces_eq (hdir : workingDir.startsWith "/" = true) (s : String) :
    absolutePieces workingDir s =
      (if s.startsWith "/" then placeOf s else descend (placeOf workingDir) (names s)).reverse := by
  unfold absolutePieces
  cases hs : s.startsWith "/" with
  | true => exact normalPieces_absolute hs
  | false =>
    rw [if_neg Bool.false_ne_true, if_neg Bool.false_ne_true,
      normalPieces_absolute (by rw [startsWith_join hs, hdir]), placeOf, names_join hs, descend_append, placeOf]

theorem absolutePieces_join (hdir : workingDir.startsWith "/" = true) (hs : s.startsWith "/" = false)
    (root : String) :
    absolutePieces workingDir (join root s) =
      (descend (absolutePieces workingDir root).reverse (names s)).reverse := by
  rw [absolutePieces_eq hdir, absolutePieces_eq hdir, startsWith_join hs, List.reverse_reverse]
  split
  · rw [placeOf, names_join hs, descend_append, placeOf]
  · rw [names_join hs, descend_append]

/-- A path that is joined to a directory lies inside it exactly if its text stays there. -/
theorem inside_join_iff (hdir : workingDir.startsWith "/" = true) (root s : String) :
    Inside workingDir root (join root s) ↔ Stays (absolutePieces workingDir root) s := by
  unfold Inside Stays
  cases hs : s.startsWith "/" with
  | true =>
    have hjoin : join root s = s := if_pos hs
    rw [if_pos rfl, hjoin, absolutePieces.eq_def workingDir s, if_pos hs]
  | false =>
    obtain ⟨k, down, hform, hdown, hdescend⟩ := normalPieces_relative hs
    have hcount : (normalPieces s).count ".." = k := by
      rw [hform, List.count_append, List.count_replicate_self, List.count_eq_zero.mpr hdown, Nat.add_zero]
    have hfilter : (normalPieces s).filter (· ≠ "..") = down := by
      have hkept : down.filter (· ≠ "..") = down :=
        List.filter_eq_self.mpr fun piece hpiece => decide_eq_true fun hup => hdown (hup ▸ hpiece)
      rw [hform, List.filter_append, hkept]
      simp
    rw [if_neg Bool.false_ne_true, hcount, hfilter, absolutePieces_join hdir hs, hdescend]
    generalize absolutePieces workingDir root = pieces
    rw [List.drop_reverse, List.reverse_reverse]
    -- the levels that are not left cancel on both sides
    conv => lhs; arg 1; rw [← List.take_append_drop (pieces.length - k) pieces]
    exact List.prefix_append_right_inj _

/-- A relative path that does not climb stays in every directory. -/
theorem stays_of_notMem (hs : s.startsWith "/" = false) (h : ".." ∉ normalPieces s) (root : List String) :
    Stays root s := by
  rw [Stays, if_neg (Bool.eq_false_iff.mp hs), List.count_eq_zero.mpr h, Nat.sub_zero, List.drop_length]
  exact List.nil_prefix

theorem inside_iff_suffix (root path : String) : Inside "/" root path ↔ placeOf root <:+ placeOf path := by
  have hpieces (s : String) : absolutePieces "/" s = (placeOf s).reverse := by
    rw [absolutePieces_eq (startsWith_slash_iff.mpr ⟨[], rfl⟩)]
    split <;> rfl
  rw [Inside, hpieces, hpieces, List.reverse_prefix]

end Handset.Path
