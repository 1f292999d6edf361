import Handset.Proofs.Files.Inside
import Handset.Text.Character

/-!
# The directories above a path

The directories on the way to a path are named by the initial parts of the path. Only these are made where they
are missing, and where a path leads to a place they are all there.
-/
namespace Handset.FileTree

open Handset.Path

variable {t t' : FileTree} {kept place : Place} {path : String}

/-! ### The directory part of a path -/

theorem intercalate_pieces (cs : List Char) : ['/'].intercalate (pieces cs) = cs := by
  induction cs with
  | nil => rfl
  | cons c rest ih =>
    obtain ⟨p, more, hpieces⟩ := List.exists_cons_of_ne_nil (pieces_ne_nil rest)
    rw [pieces]
    split
    next hslash =>
      subst hslash
      rw [List.intercalate_cons_of_ne_nil (pieces_ne_nil rest), ih]
      rfl
    next =>
      rw [hpieces] at ih ⊢
      rw [List.intercalate_cons_cons_left, ih]

theorem intercalate_split (s : String) : String.intercalate "/" (split s) = s := by
  apply String.toList_inj.mp
  have hpieces : (split s).map String.toList = pieces s.toList := by
    rw [split, List.map_map]
    exact (List.map_congr_left fun p _ => String.toList_ofList).trans (List.map_id _)
  rw [String.toList_intercalate, hpieces]
  exact intercalate_pieces s.toList

theorem pieces_of_notMem {cs : List Char} (h : '/' ∉ cs) : pieces cs = [cs] := by
  induction cs with
  | nil => rfl
  | cons c rest ih =>
    rw [List.mem_cons, not_or] at h
    rw [pieces, if_neg (Ne.symm h.1), ih h.2]

theorem names_append_slashes (s : String) (k : Nat) : names (s ++ String.ofList (List.replicate k '/')) = names s := by
  induction k with
  | zero => rw [List.replicate_zero, String.ofList_nil, String.append_empty]
  | succ k ih =>
    have hlast : s ++ String.ofList (List.replicate (k + 1) '/') =
        s ++ String.ofList (List.replicate k '/') ++ "/" ++ "" := by
      rw [List.replicate_succ', String.ofList_append, String.append_empty, String.append_assoc]
    rw [hlast, names_append_slash, ih, names_empty, List.append_nil]

theorem names_dirName_of_slash (a b : String) (h : '/' ∉ b.toList) : names (dirName (a ++ "/" ++ b)) = names a := by
  have hchars : (a ++ "/" ++ b).toList = a.toList ++ '/' :: b.toList := by
    rw [String.toList_append, String.toList_append, List.append_assoc]
    rfl
  have hsplit : (split (a ++ "/" ++ b)).dropLast = split a := by
    rw [split, hchars, pieces_append_slash, pieces_of_notMem h, List.map_append, List.map_singleton,
      List.dropLast_concat, split]
  have hslash : (a ++ "/" ++ b).toList.contains '/' = true := by
    rw [hchars]
    simp
  have hhead : names (a ++ "/") = names a := by
    have := names_append_slash a ""
    rwa [String.append_empty, names_empty, List.append_nil] at this
  unfold dirName
  rw [hsplit, hslash, if_pos rfl, intercalate_split]
  dsimp only
  split
  next => exact hhead
  next =>
    obtain ⟨k, htrimmed⟩ := Text.Character.exists_eq_trimmed_append '/' (a ++ "/").toList
    rw [← names_append_slashes _ k, ← String.ofList_append, ← htrimmed, String.ofList_toList, hhead]

theorem names_dirName_initial (s : String) : names (dirName s) <+: names s := by
  by_cases hslash : '/' ∈ s.toList
  · -- the last slash divides the path
    obtain ⟨back, front, hreverse, hnot⟩ := List.eq_append_cons_of_mem (List.mem_reverse.mpr hslash)
    have hs : s = String.ofList front.reverse ++ "/" ++ String.ofList back.reverse := by
      apply String.toList_inj.mp
      rw [← List.reverse_reverse s.toList, hreverse]
      simp
    have hback : '/' ∉ (String.ofList back.reverse).toList := by
      rw [String.toList_ofList, List.mem_reverse]
      exact hnot
    rw [hs, names_dirName_of_slash _ _ hback, names_append_slash]
    exact List.prefix_append _ _
  · have hpieces : split s = [s] := by
      rw [split, pieces_of_notMem hslash, List.map_singleton, String.ofList_toList]
    have hdir : dirName s = "" := by
      have hnone : s.toList.contains '/' = false := by
        rw [List.contains_eq_mem]
        exact decide_eq_false hslash
      unfold dirName
      rw [hpieces, hnone]
      rfl
    rw [hdir]
    exact List.nil_prefix

theorem names_headAndLast_initial (path : String) : names (headAndLast path).1 <+: names path := by
  unfold headAndLast
  dsimp only
  split
  · exact (names_dirName_initial _).trans (names_dirName_initial path)
  · exact names_dirName_initial path

/-! ### Making directories -/

/-- No initial part of the path names the place. -/
def Away (kept : Place) (path : String) : Prop :=
  ∀ n ≤ (names path).length, descend [] ((names path).take n) ≠ kept

instance (kept : Place) (path : String) : Decidable (Away kept path) :=
  inferInstanceAs (Decidable (∀ n ≤ (names path).length, descend [] ((names path).take n) ≠ kept))

theorem Away.placeOf_ne (h : Away kept path) : placeOf path ≠ kept := by
  have hall := h _ (Nat.le_refl _)
  rwa [List.take_length] at hall

theorem Away.of_initial {other : String} (h : Away kept path) (hnames : names other <+: names path) :
    Away kept other := by
  intro n hn
  rw [List.prefix_iff_eq_take.mp hnames, List.take_take, Nat.min_eq_left hn]
  exact h n (Nat.le_trans hn hnames.length_le)

theorem Avoids.of_initial {other : String} (h : t.Avoids path) (hnames : names other <+: names path) :
    t.Avoids other := by
  intro n hn
  rw [List.prefix_iff_eq_take.mp hnames, List.take_take, Nat.min_eq_left hn]
  exact h n (Nat.le_trans hn hnames.length_le)

theorem node?_makeLast (existing : Bool) (h : t.Avoids path) (haway : Away kept path) (missing : Bool) :
    (makeLast existing t path missing).1.node? kept = t.node? kept := by
  unfold makeLast
  split
  next => rfl
  next =>
    split
    next hmake =>
      obtain ⟨place, hlocate, hmake⟩ := Step.exists_of_bind_eq_ok hmake
      obtain rfl := eq_placeOf_of_locate h hlocate
      split at hmake
      next => cases hmake
      next hnode =>
        cases hmake
        rw [node?_put (ne_nil_of_node? (by rw [hnode]; nofun)), if_neg haway.placeOf_ne]
    next => split <;> rfl

theorem node?_makeLevels (existing : Bool) (depth : Nat) (h : t.Avoids path) (haway : Away kept path) :
    (makeLevels existing depth t path).1.node? kept = t.node? kept := by
  induction depth generalizing path with
  | zero => rfl
  | succ depth ih =>
    rw [makeLevels]
    have habove :
        AddsDirectories t (if t.lacksHead path then makeLevels existing depth t (headAndLast path).1 else (t, none)).1 ∧
        (if t.lacksHead path then makeLevels existing depth t (headAndLast path).1 else (t, none)).1.node? kept =
          t.node? kept := by
      have hhead := names_headAndLast_initial path
      split
      · exact ⟨addsDirectories_makeLevels t existing depth _, ih (h.of_initial hhead) (haway.of_initial hhead)⟩
      · exact ⟨.refl t, rfl⟩
    generalize (if t.lacksHead path then makeLevels existing depth t (headAndLast path).1 else (t, none)) =
      above at habove
    have hlast (missing : Bool) := node?_makeLast existing (habove.1.keepsWays.avoids h) haway missing
    unfold makeBelow
    split
    · exact (hlast _).trans habove.2
    · exact (hlast _).trans habove.2
    · exact habove.2

/-- Directories are made at no place but those that lie on the way. -/
theorem node?_makeDirectories (existing : Bool) (h : t.Avoids path) (haway : Away kept path) :
    (t.makeDirectories existing path).1.node? kept = t.node? kept :=
  node?_makeLevels existing levelLimit h haway

/-! ### Following the way -/

theorem walkWith_dot {follow : Bool} {jump : Place → List String → Except Fault Place} {base : Place}
    {rest : List String} (t : FileTree) :
    t.walkWith follow jump base ("." :: rest) = t.walkWith follow jump base rest := by
  rw [walkWith, if_pos rfl]

/-- Before the last piece of a path that can be followed there is a directory, if those above the start are. -/
theorem walkWith_above {follow : Bool} {jump : Place → List String → Except Fault Place} {base : Place}
    {pieces : List String} {last : String} (h : t.Unlinked base (pieces ++ [last]))
    (hbase : ∀ above, above <:+ base → t.node? above = some .directory)
    (hwalk : t.walkWith follow jump base (pieces ++ [last]) = .ok place) :
    t.walkWith follow jump base pieces = .ok (descend base pieces) ∧
      t.node? (descend base pieces) = some .directory := by
  induction pieces generalizing base with
  | nil => exact ⟨rfl, hbase base List.suffix_rfl⟩
  | cons piece rest ih =>
    rw [List.cons_append] at h hwalk
    have hnext := h.next
    rcases walkWith_cons_eq_ok h hwalk with ⟨rfl, hrest⟩ | ⟨rfl, hrest⟩ | ⟨hpiece, hnode, hrest⟩ | ⟨-, hnil, -⟩
    · rw [walkWith_dot, descend_dot]
      exact ih hnext hbase hrest
    · rw [walkWith_up, descend_up]
      exact ih hnext (fun above habove => hbase above (habove.trans (List.tail_suffix base))) hrest
    · rw [descend_single hpiece] at hnext
      rw [walkWith_into hpiece hnode, descend_name hpiece.1 hpiece.2.1]
      refine ih hnext (fun above habove => ?_) hrest
      rcases List.suffix_cons_iff.mp habove with rfl | habove
      · exact hnode
      · exact hbase above habove
    · exact absurd hnil (List.append_ne_nil_of_right_ne_nil _ (List.cons_ne_nil _ _))

/-- A directory in which a path leads to its place is there. -/
theorem pathExists_of_reaches {root name : String} (h : t.Avoids (join root name)) (hroot : root ≠ "")
    (hname : names name = [name]) (hslash : name.startsWith "/" = false) (hreaches : t.Reaches (join root name)) :
    t.pathExists root = true := by
  obtain ⟨hlocate, -⟩ := hreaches
  obtain ⟨hlegible, hwalk⟩ := locate_eq_ok_iff.mp hlocate
  rw [Avoids, names_join hslash, hname] at h
  rw [names_join hslash, hname] at hwalk
  have hstart : ∀ above : Place, above <:+ [] → t.node? above = some .directory := by
    intro above habove
    rw [List.suffix_nil.mp habove]
    rfl
  obtain ⟨hfollow, hnode⟩ := walkWith_above h hstart hwalk
  have hroot : Legible root := by
    obtain ⟨tail, htail⟩ : ∃ tail, join root name = root ++ tail := by
      unfold join
      rw [hslash, if_neg Bool.false_ne_true]
      split
      · exact ⟨name, rfl⟩
      · exact ⟨"/" ++ name, String.append_assoc⟩
    rw [htail] at hlegible
    obtain ⟨hzero, -, hshort⟩ := hlegible
    rw [String.toList_append, List.contains_eq_mem, decide_eq_true_iff, List.mem_append, not_or] at hzero
    rw [String.utf8ByteSize_append] at hshort
    refine ⟨?_, ?_, by omega⟩
    · rw [List.contains_eq_mem, decide_eq_true_iff]
      exact hzero.1
    · rw [String.isEmpty_iff]
      exact hroot
  have hfound : t.locate true root = .ok (placeOf root) := locate_eq_ok_iff.mpr ⟨hroot, hfollow⟩
  have hlook : t.look true root = .ok (placeOf root, .directory) := by
    unfold look
    rw [Bool.true_or, hfound]
    dsimp only [bind, Except.bind]
    rw [placeOf, hnode]
    rfl
  rw [pathExists, hlook]
  rfl

/-- The empty path is no directory's and cannot be made one. -/
theorem makeDirectories_empty (t : FileTree) : t.makeDirectories false "" = (t, some .fileNotFound) := by
  have hhead : t.lacksHead "" = false := by
    have hempty : (headAndLast "").1.isEmpty = true := by decide +kernel
    rw [lacksHead, hempty]
    rfl
  have hmake : t.makeDirectory "" = .error .fileNotFound := rfl
  rw [FileTree.makeDirectories, levelLimit, makeLevels, hhead, if_neg Bool.false_ne_true, makeBelow]
  dsimp only
  rw [makeLast, hmake]
  rfl

end Handset.FileTree
