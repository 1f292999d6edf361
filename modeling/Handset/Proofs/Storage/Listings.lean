import Handset.Proofs.Files.CanonicalPaths
import Handset.Storage.Volume

/-!
# Listing a directory

The files of a directory are found among the recorded paths by their text: a path has to start with the text of
the directory, and the way to it from there has to be a single piece. For canonical paths these are exactly the
paths that lie directly in the directory.
-/
namespace Handset.Volume

open Handset.Path FileTree

variable {v : Volume} {p d : String} {fields : List (String × Value)}

/-- A canonical path is listed in the directory that is its directory part, by its last name. -/
theorem listedName?_of_canonical (v : Volume) (hp : Canonical p) (hd : Canonical d) :
    v.listedName? d p = if dirName p = d ∧ p ≠ d then some (baseName p) else none := by
  by_cases hbelow : ∃ name, names p = names d ++ [name]
  · obtain ⟨name, hnames⟩ := hbelow
    have hdir := (hp.dirName_eq_iff hd).mpr ⟨name, hnames⟩
    have hname : Proper name := hp.proper name (by rw [hnames]; simp)
    have hstarts := (startsWith_rooted_concat (names d) hname).1
    rw [← hnames, ← hd.eq_rooted, ← hp.eq_rooted] at hstarts
    have hne : (p != d) = true := bne_iff_ne.mpr hdir.2
    rw [listedName?, hstarts, hne, Bool.true_and, if_pos rfl, split_relative_concat hp hd hnames, if_pos hdir,
      hp.baseName_eq hnames]
  · rw [if_neg fun hdir => hbelow ((hp.dirName_eq_iff hd).mp hdir)]
    cases hlisted : v.listedName? d p with
    | none => rfl
    | some name =>
      unfold listedName? at hlisted
      split at hlisted
      next hcond =>
        obtain ⟨hstarts, hne⟩ := Bool.and_eq_true_iff.mp hcond
        split at hlisted
        next only hsplit =>
          rcases split_relative_eq_singleton hp hd (bne_iff_ne.mp hne) hsplit with hnames | ⟨last, hnames⟩
          · exact absurd ⟨only, hnames⟩ hbelow
          · -- the directory above has a shorter text
            have hlast : Proper last := hd.proper last (by rw [hnames]; simp)
            have hshort := (startsWith_rooted_concat (names p) hlast).2
            rw [← hnames, ← hd.eq_rooted, ← hp.eq_rooted, hstarts] at hshort
            cases hshort
        next => cases hlisted
      next => cases hlisted

/-- What a directory holds of some recorded paths, by name. -/
def childrenOf (d : String) (fields : List (String × Value)) : Table String Value :=
  (fields.filter fun entry => dirName entry.1 = d ∧ entry.1 ≠ d).map fun entry => (baseName entry.1, entry.2)

theorem childrenOf_cons_of_pos {entry : Value} (h : dirName p = d ∧ p ≠ d) :
    childrenOf d ((p, entry) :: fields) = (baseName p, entry) :: childrenOf d fields := by
  rw [childrenOf, List.filter_cons_of_pos (by simpa using h), List.map_cons, childrenOf]

theorem childrenOf_cons_of_neg {entry : Value} (h : ¬(dirName p = d ∧ p ≠ d)) :
    childrenOf d ((p, entry) :: fields) = childrenOf d fields := by
  rw [childrenOf, List.filter_cons_of_neg (by simpa using h), childrenOf]

/-- Two paths of one directory have different names. -/
theorem nodup_keys_childrenOf (hkeys : (Table.keys fields).Nodup)
    (hpaths : ∀ path ∈ Table.keys fields, Canonical path) (hd : Canonical d) :
    (childrenOf d fields).keys.Nodup := by
  unfold childrenOf Table.keys
  rw [List.map_map, List.Nodup, List.pairwise_map]
  have hdistinct := (List.pairwise_map.mp hkeys).sublist
    (List.filter_sublist (p := fun entry : String × Value => dirName entry.1 = d ∧ entry.1 ≠ d))
  refine hdistinct.imp_of_mem fun {first second} hfirst hsecond hne heq => hne ?_
  obtain ⟨hfirst, hin⟩ := List.mem_filter.mp hfirst
  obtain ⟨hsecond, hin'⟩ := List.mem_filter.mp hsecond
  have hp : Canonical first.1 := hpaths _ (List.mem_map_of_mem hfirst)
  have hq : Canonical second.1 := hpaths _ (List.mem_map_of_mem hsecond)
  obtain ⟨name, hnames⟩ := (hp.dirName_eq_iff hd).mp (of_decide_eq_true hin)
  obtain ⟨other, hothers⟩ := (hq.dirName_eq_iff hd).mp (of_decide_eq_true hin')
  have hsame : name = other := by rw [← hp.baseName_eq hnames, ← hq.baseName_eq hothers]; exact heq
  rw [hp.eq_rooted, hq.eq_rooted, hnames, hothers, hsame]

/-- The listing goes through the recorded paths, and puts each child behind those that it has found. -/
theorem foldl_listedName? (v : Volume) (found : Table String Value)
    (hpaths : ∀ path ∈ Table.keys fields, Canonical path) (hd : Canonical d)
    (hnew : (Table.keys (found ++ childrenOf d fields)).Nodup) :
    (fields.foldl (fun found (path, entry) =>
      match v.listedName? d path with
      | some name => Table.put found name entry
      | none => found) found) = found ++ childrenOf d fields := by
  induction fields generalizing found with
  | nil => exact (List.append_nil found).symm
  | cons first rest ih =>
    obtain ⟨path, entry⟩ := first
    have hpath : Canonical path := hpaths path List.mem_cons_self
    have hrest : ∀ path ∈ Table.keys rest, Canonical path := fun path hmem =>
      hpaths path (List.mem_cons_of_mem _ hmem)
    rw [List.foldl_cons]
    simp only [listedName?_of_canonical v hpath hd]
    by_cases hin : dirName path = d ∧ path ≠ d
    · have hassoc : found ++ childrenOf d ((path, entry) :: rest) =
          found ++ [(baseName path, entry)] ++ childrenOf d rest := by
        rw [childrenOf_cons_of_pos hin, List.append_assoc, List.singleton_append]
      rw [hassoc] at hnew ⊢
      have hlast : Table.put found (baseName path) entry = found ++ [(baseName path, entry)] := by
        apply Table.put_eq_append
        rw [Table.keys, List.map_append, List.map_append] at hnew
        have hfound := (List.nodup_append.mp hnew).1
        exact fun hmem => (List.nodup_append.mp hfound).2.2 _ hmem _ List.mem_cons_self rfl
      rw [if_pos hin, ← hlast]
      rw [← hlast] at hnew
      exact ih _ hrest hnew
    · rw [childrenOf_cons_of_neg hin] at hnew ⊢
      rw [if_neg hin]
      exact ih _ hrest hnew

/-- If all recorded paths are canonical, the listing of a canonical directory has exactly one entry for each recorded
path whose directory part it is: the last name of the path, with what is recorded of the path, in the order in
which the paths were recorded. No two entries have the same name. The root, which is its own directory part, is
not listed in itself. -/
theorem list_eq_childrenOf (hfiles : v.files = .object fields) (hkeys : (Table.keys fields).Nodup)
    (hpaths : ∀ path ∈ Table.keys fields, Canonical path) (hd : Canonical d) :
    v.list (.text d) = .ok (childrenOf d fields) ∧ (childrenOf d fields).keys.Nodup := by
  have hnames := nodup_keys_childrenOf hkeys hpaths hd
  refine ⟨?_, hnames⟩
  have hlisted := foldl_listedName? v [] hpaths hd hnames
  rw [List.nil_append] at hlisted
  unfold Volume.list
  rw [hfiles]
  cases fields with
  | nil => rfl
  | cons first rest => exact congrArg Except.ok hlisted

/-- Files of the root, of a directory, of a directory below it and of one whose name starts alike. -/
def nestedVolume : Volume :=
  { root := "/v"
    workingDir := "relative/to"
    files := .object [("/app1/b", .int 1), ("/app10/a", .int 2), ("/app1/a", .int 3), ("/a", .int 4),
      ("/app1/a/b", .int 5)] }

theorem list_nestedVolume :
    nestedVolume.list (.text "/app1") = .ok [("b", .int 1), ("a", .int 3)] ∧
      nestedVolume.list (.text "/") = .ok [("a", .int 4)] := by
  have hkeys : (Table.keys [("/app1/b", Value.int 1), ("/app10/a", .int 2), ("/app1/a", .int 3), ("/a", .int 4),
      ("/app1/a/b", .int 5)]).Nodup := by
    decide
  have hpaths : ∀ path ∈ Table.keys [("/app1/b", Value.int 1), ("/app10/a", .int 2), ("/app1/a", .int 3),
      ("/a", .int 4), ("/app1/a/b", .int 5)], Canonical path := by
    decide +kernel
  exact ⟨(list_eq_childrenOf (by rfl) hkeys hpaths (by decide +kernel)).1,
    (list_eq_childrenOf (by rfl) hkeys hpaths (by decide +kernel)).1⟩

/-- A path in normal form may also start with two slashes. It is listed by the same name as the path with one slash,
whose entry is then lost. -/
theorem list_merges_double_slash :
    (∀ path ∈ ["/a", "//a"], path.startsWith "/" = true ∧ normalize path = path) ∧
    (Volume.list { root := "/v", files := .object [("/a", .int 1), ("//a", .int 2)] }
      (.text "/")).toOption.map (List.map fun entry => (entry.1, entry.2.int?)) = some [("a", some 2)] := by
  decide +kernel

end Handset.Volume
