import Handset.Proofs.Storage.StoredLengths

/-!
# Requests that fail

A request may fail at many points: the path is not recorded, or leads through a file or to a directory, the bytes
in use would pass the capacity, the file of a recorded path is gone. Nearly all of them come before the request
has changed anything but directories that were missing, and behind them nothing can fail. There are two exceptions.
A creation empties its file before it finds out that no content has the size asked for, and a write that would
take its file past the largest size fills the file up to that size before it is refused.
-/
namespace Handset

open Step FileTree

/-- Directories have been added, and then the file that the path leads to has been emptied. -/
def FileTree.Empties (path : String) (t t' : FileTree) : Prop :=
  ∃ between place, AddsDirectories t between ∧ between.Opens path place ∧ t' = between.put place (.file {})

/-- The bytes reach past the largest size of a file, and those that fit have been written over the file that the
path leads to. -/
inductive FileTree.Fills (path : String) (bytes : Bytes) (offset : Value) (t : FileTree) : FileTree → Prop
  | intro {place : Place} {content : Content} {position : Nat} (hfile : t.fileAt path = .ok (place, content))
      (hposition : Volume.position offset = .ok position) (hstart : position < Volume.contentLimit)
      (hend : Volume.contentLimit < position + bytes.size) :
      Fills path bytes offset t (t.put place (.file (content.splice position (Volume.fitting position bytes))))

theorem FileTree.addsDirectories_put_self {t : FileTree} {path : String} {place : Place} {content : Content}
    (h : t.fileAt path = .ok (place, content)) : AddsDirectories t (t.put place (.file content)) := by
  obtain ⟨hopens, hcontent⟩ := fileAt_eq_ok_iff.mp h
  intro other
  rw [hopens.node?_put]
  split
  next hsame =>
    subst hsame
    exact .inl (contentAt_eq_some_iff.mp hcontent).symm
  next => exact .inl rfl

theorem Volume.Audited.exists_object {v : Volume} {surplus : Int} {name : String} (h : v.Audited surplus)
    (hname : v.recorded (.text name) = .ok true) :
    ∃ fields entry, v.files = .object fields ∧ Table.find? fields name = some (.object entry) := by
  obtain ⟨entry, size, -, hentry, hsize, -⟩ := h.exists_sub hname
  obtain ⟨fields, hfiles, hfound⟩ := entry_eq_ok hentry
  cases entry with
  | object parts => exact ⟨fields, parts, hfiles, hfound⟩
  | _ => cases hsize

namespace Request

open Volume

variable {v₀ v u w : Volume} {answer : Except Fault Bool}

/-- The request is a creation that has emptied its file, since there is no content of the size asked for, or a write
that has filled its file, since not all of its bytes fit. -/
def HasHarmed (u : Volume) (tree : FileTree) : Request → Prop
  | create (.text name) size =>
    (∀ content, blank size ≠ .ok content) ∧ Empties (u.physicalPath name) u.tree tree
  | write (.text name) (.bytes bytes) offset => Fills (u.physicalPath name) bytes offset u.tree tree
  | _ => False

/-- A write that is refused for its last bytes has filled its file, unless it starts where no byte fits. -/
theorem hasHarmed_of_past {name : String} {bytes : Bytes} {offset : Value} {place : Place} {content : Content}
    {position : Nat} (hfile : u.tree.fileAt (u.physicalPath name) = .ok (place, content))
    (hposition : Volume.position offset = .ok position) (hpast : (fitting position bytes).size < bytes.size) :
    AddsDirectories u.tree (u.tree.put place (.file (content.splice position (fitting position bytes)))) ∨
      (write (.text name) (.bytes bytes) offset).HasHarmed u
        (u.tree.put place (.file (content.splice position (fitting position bytes)))) := by
  by_cases hstart : position < contentLimit
  · rw [fitting, Array.size_extract] at hpast
    exact .inr ⟨hfile, hposition, hstart, by omega⟩
  · have hnothing : fitting position bytes = #[] := Array.eq_empty_of_size_eq_zero (by simp [fitting]; omega)
    rw [hnothing]
    exact .inl (addsDirectories_put_self hfile)

theorem Outcome.harms {r : Request} {surplus : Int} (h : r.Outcome u answer w) (hu : u.Audited surplus)
    (hfailed : answer ≠ .ok true) : AddsDirectories u.tree w.tree ∨ r.HasHarmed u w.tree := by
  cases h with
  | looked _ | refused _ _ => exact .inl (.refl u.tree)
  | prepared _ => exact .inl (u.addsDirectories_preparedTree _)
  | emptied hopens hblank => exact .inr ⟨hblank, _, _, u.addsDirectories_preparedTree _, hopens, rfl⟩
  | unrecorded _ hfiles =>
    obtain ⟨fields, hobject, -⟩ := hu
    exact absurd hobject (hfiles fields)
  | spliced hrecorded hfile hposition hcause =>
    rcases hcause with hpast | hentry
    · exact hasHarmed_of_past hfile hposition hpast
    · obtain ⟨fields, entry, hfiles, hfound⟩ := hu.exists_object hrecorded
      exact absurd hfound (hentry fields entry hfiles)
  | unlinked hrecorded _ hcause =>
    obtain ⟨entry, size, used, hentry, hsize, hused⟩ := hu.exists_sub hrecorded
    exact absurd hused (hcause entry size used hentry hsize)
  | created _ _ _ _ _ _ | written _ _ _ _ _ | deleted _ _ _ _ _ => exact absurd rfl hfailed

/-- After any requests to a new volume, one that is refused or fails leaves the books as they are, and every file,
the state file among them: there may be new directories, and nothing else. The exceptions are a creation whose size
no content has, being too large or no whole number, which leaves its file empty, whatever the file held, and a
write across the largest size of a file, which leaves its file with the bytes that fit. -/
theorem failed_request_changes_nothing {root : String} {gigabytes : Value}
    (hopen : (Storing.openAt root gigabytes).on v₀ = (.ok (), v))
    (hnew : v.tree.pathExists v.stateFile = false) (requests : List Request)
    (hu : afterAll requests v = u) (r : Request) (hw : r.perform.on u = (answer, w))
    (hfailed : answer ≠ .ok true) :
    u.SameBooks w ∧ (AddsDirectories u.tree w.tree ∨ r.HasHarmed u w.tree) := by
  obtain ⟨hused, hfiles⟩ := Storing.openAt_new hopen hnew
  have hstart : v.Audited 0 := ⟨[], hfiles, nofun, hused⟩
  have haudited := audited_afterAll hstart requests
  rw [hu] at haudited
  have houtcome := r.perform_outcome u
  unfold Ends at houtcome
  rw [hw] at houtcome
  exact ⟨houtcome.effect.sameBooks hfailed, houtcome.harms haudited hfailed⟩

/-- A file of five bytes in a directory of its own, two of which have been written. -/
def writtenFile : List Request :=
  [.create (.text "/d/a") (.int 5), .write (.text "/d/a") (.bytes #[7, 7]) (.int 0)]

theorem creation_below_file_changes_nothing :
    ((create (.text "/d/a/b") (.int 1)).perform.on (afterAll writtenFile newVolume)).1 = .ok false ∧
    (afterAll writtenFile newVolume).SameBooks
      ((create (.text "/d/a/b") (.int 1)).perform.on (afterAll writtenFile newVolume)).2 ∧
    AddsDirectories (afterAll writtenFile newVolume).tree
      ((create (.text "/d/a/b") (.int 1)).perform.on (afterAll writtenFile newVolume)).2.tree := by
  have hopen : (Storing.openAt "/v" (.int 1)).on { root := "" } = (.ok (), newVolume) :=
    Prod.ext (eq_ok_of_toOption (by decide +kernel)) rfl
  have hnew : newVolume.tree.pathExists newVolume.stateFile = false := by decide +kernel
  have hrefused : ((create (.text "/d/a/b") (.int 1)).perform.on (afterAll writtenFile newVolume)).1 = .ok false :=
    eq_ok_of_toOption (by decide +kernel)
  obtain ⟨hbooks, htree⟩ := failed_request_changes_nothing hopen hnew writtenFile rfl
    (create (.text "/d/a/b") (.int 1)) (Prod.ext hrefused rfl) nofun
  exact ⟨hrefused, hbooks, htree.resolve_right fun hharmed => hharmed.1 (.blank 1) rfl⟩

/-- A volume of so many gigabytes that no whole word is past its capacity. -/
def hugeVolume : Volume :=
  ((Storing.openAt "/v" (.int 0x10000000000)).on { root := "" }).2

/-- A creation of a recorded path fails if the memory cannot hold the content, or the size is no word, and
leaves the file without the bytes it had. A write fails if its second byte is past the largest size of a file, and
leaves the file that long. -/
theorem failed_creation_empties_file :
    (afterAll writtenFile hugeVolume).tree.contentAt ["a", "d", "v"] = some ((Content.blank 5).splice 0 #[7, 7]) ∧
    (∀ size ∈ [0x800000000, 0x8000000000000000],
      ((create (.text "/d/a") (.int size)).perform.on (afterAll writtenFile hugeVolume)).1 = .ok false ∧
      ((create (.text "/d/a") (.int size)).perform.on
        (afterAll writtenFile hugeVolume)).2.tree.contentAt ["a", "d", "v"] = some {}) ∧
    ((write (.text "/d/a") (.bytes #[7, 7]) (.int 0xFFFFFFFEFFF)).perform.on
      (afterAll writtenFile hugeVolume)).1 = .ok false ∧
    ((write (.text "/d/a") (.bytes #[7, 7]) (.int 0xFFFFFFFEFFF)).perform.on
      (afterAll writtenFile hugeVolume)).2.lengthAt ["a", "d", "v"] = some contentLimit := by
  obtain ⟨hbefore, hafter, hrefused, hfilled⟩ :
      (afterAll writtenFile hugeVolume).tree.contentAt ["a", "d", "v"] =
        some ((Content.blank 5).splice 0 #[7, 7]) ∧
      (∀ size ∈ [0x800000000, 0x8000000000000000],
        ((create (.text "/d/a") (.int size)).perform.on (afterAll writtenFile hugeVolume)).1.toOption =
          some false ∧
        ((create (.text "/d/a") (.int size)).perform.on
          (afterAll writtenFile hugeVolume)).2.tree.contentAt ["a", "d", "v"] = some {}) ∧
      ((write (.text "/d/a") (.bytes #[7, 7]) (.int 0xFFFFFFFEFFF)).perform.on
        (afterAll writtenFile hugeVolume)).1.toOption = some false ∧
      ((write (.text "/d/a") (.bytes #[7, 7]) (.int 0xFFFFFFFEFFF)).perform.on
        (afterAll writtenFile hugeVolume)).2.lengthAt ["a", "d", "v"] = some contentLimit := by
    decide +kernel
  exact ⟨hbefore, fun size hsize => (hafter size hsize).imp_left eq_ok_of_toOption, eq_ok_of_toOption hrefused,
    hfilled⟩

end Request

end Handset
