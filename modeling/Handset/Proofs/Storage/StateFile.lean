import Handset.Proofs.Files.Ancestors
import Handset.Proofs.Json.Documents
import Handset.Proofs.Storage.Isolation
import Handset.Proofs.Text.Transcoding

/-!
# The state file of a volume

A volume saves its books as a document in its state file, and takes them from there when it is opened. What was
saved is loaded again, provided that the number of bytes in use could be written. If it could not, the file breaks
off and nothing is loaded from it.
-/
namespace Handset

open Step FileTree

namespace Volume

variable {v w : Volume}

/-! ### What the state file holds -/

def savedContent (v : Volume) : Option Content :=
  v.tree.contentAt (placeOf v.stateFile)

def savedValue (v : Volume) : Option Value :=
  v.savedContent.bind fun content =>
    (Text.Utf8.decode? content.toBytes).bind fun text => (Json.parse text).toOption

/-- The bytes in use and the catalogue that a volume takes from a saved value. -/
def booksOf : Option Value → Value × Value
  | some (.object fields) =>
    ((Table.find? fields "used_size").getD (.int 0), (Table.find? fields "files").getD (.object []))
  | _ => (.int 0, .object [])

theorem toOption_savedState (h : v.tree.Reaches v.stateFile) : v.savedState.toOption = v.savedValue := by
  have hfile := h.fileAt
  unfold savedState savedValue savedContent FileTree.read
  cases hfound : v.tree.fileAt v.stateFile with
  | error e =>
    rw [hfound] at hfile
    rw [Option.map_eq_none_iff.mp hfile.symm]
    rfl
  | ok found =>
    rw [hfound] at hfile
    obtain ⟨content, hcontent, rfl⟩ := Option.map_eq_some_iff.mp hfile.symm
    rw [hcontent]
    dsimp only [Except.map, bind, Except.bind, Option.bind]
    cases Text.Utf8.decode? content.toBytes with
    | none => rfl
    | some text => rfl

theorem savedState_eq_error_of_not (h : ¬v.tree.pathExists v.stateFile = true) : v.savedState.toOption = none := by
  have hlook : ∃ e, v.tree.look true v.stateFile = .error e := by
    unfold pathExists at h
    cases hlook : v.tree.look true v.stateFile with
    | error e => exact ⟨e, rfl⟩
    | ok found =>
      rw [hlook] at h
      exact absurd rfl h
  obtain ⟨e, hlook⟩ := hlook
  unfold savedState FileTree.read FileTree.fileAt
  rw [hlook]
  rfl

end Volume

namespace Storing

open Volume

variable {v w : Volume}

/-- Loading never fails, and takes the books from the state file. -/
theorem on_load (h : v.tree.Reaches v.stateFile) (hused : v.used = .int 0) (hfiles : v.files = .object []) :
    ∃ log, load.on v = (.ok (), { v with
      used := (booksOf v.savedValue).1, files := (booksOf v.savedValue).2, log }) := by
  have hloaded : Ends v load fun r w => r = .ok () ∧ ∃ log, w = { v with
      used := (booksOf v.savedValue).1, files := (booksOf v.savedValue).2, log } := by
    rw [← toOption_savedState h]
    have hsame : ∃ log, v = { v with used := .int 0, files := .object [], log } := by
      refine ⟨v.log, ?_⟩
      rw [← hused, ← hfiles]
    unfold load
    refine ends_get_bind ?_
    split
    next =>
      refine ends_attempt (Q := fun _ w => ∃ log, w = { v with
        used := (booksOf v.savedState.toOption).1, files := (booksOf v.savedState.toOption).2, log }) ?_
        (fun _ _ h => ⟨rfl, h⟩) fun _ _ log h => ?_
      · cases hsaved : v.savedState with
        | error e => exact hsame
        | ok saved =>
          cases saved with
          | object fields =>
            refine ends_lift_bind_of_ok rfl (ends_modify_bind (ends_lift_bind (fun _ _ => ?_) fun _ => ?_))
            · exact ⟨_, rfl⟩
            · exact ⟨v.log, rfl⟩
          | _ => exact hsame
      · obtain ⟨_, rfl⟩ := h
        exact ⟨rfl, log, rfl⟩
    next hthere =>
      rw [savedState_eq_error_of_not hthere]
      exact ⟨rfl, hsame⟩
  obtain ⟨hanswer, log, hstate⟩ := hloaded
  exact ⟨log, Prod.ext hanswer hstate⟩

end Storing

namespace Volume

variable {v w : Volume}

/-! ### Saving -/

/-- The state file lies where a file can be written, and no link stands on its way. -/
structure Ready (v : Volume) : Prop where
  avoids : v.tree.Avoids v.stateFile
  opens : v.tree.Opens v.stateFile (placeOf v.stateFile)

theorem ready_of_write {tree : FileTree} (hlinks : v.tree.Avoids v.stateFile)
    (hwrite : v.tree.write v.stateFile #[] = .ok tree) : v.Ready := by
  obtain ⟨spot, hopens, -⟩ := setContent_eq_ok_iff.mp hwrite
  exact ⟨hlinks, hopens.eq_placeOf hlinks ▸ hopens⟩

theorem Ready.reaches (h : v.Ready) : v.tree.Reaches v.stateFile :=
  h.opens.reaches h.avoids

theorem Ready.setLog (h : v.Ready) (log : Log) : ({ v with log } : Volume).Ready :=
  ⟨h.avoids, h.opens⟩

/-- The state file holds the text of the books. -/
def Saved (v : Volume) : Prop :=
  v.savedContent = some (.ofBytes (Text.Utf8.encode v.stateText))

/-- How deep lists and objects may lie in the books, which an object of the state file holds. -/
abbrev bookDepth : Nat := 984

/-- Books that can be written are saved so that they can be loaded. -/
theorem Saved.booksOf_eq (h : v.Saved) (hwritable : v.used.isWritable = true) (hused : Json.Readable bookDepth v.used)
    (hfiles : Json.Readable bookDepth v.files) : booksOf v.savedValue = (v.used, v.files) := by
  have hstate : Json.Readable Json.deepest (.object [("used_size", v.used), ("files", v.files)]) := by
    refine .object (by simp [Table.keys]) fun field hfield => ?_
    rcases List.mem_cons.mp hfield with rfl | hfield
    · exact hused
    · rw [List.mem_singleton.mp hfield]
      exact hfiles
  have hvalue : v.savedValue = some (.object [("used_size", v.used), ("files", v.files)]) := by
    rw [savedValue, h, Option.bind_some, Content.toBytes_ofBytes, Text.Utf8.decode?_encode, Option.bind_some, stateText,
      if_pos hwritable, Json.parse_print hstate]
    rfl
  rw [hvalue]
  rfl

/-- A document that breaks off before the number of bytes in use is not loaded. -/
theorem Saved.booksOf_of_not_writable (h : v.Saved) (hused : v.used.isWritable = false) :
    booksOf v.savedValue = (.int 0, .object []) := by
  have hbroken : (Json.parse "\x7b\"used_size\": ").toOption.isNone = true := by decide +kernel
  have hvalue : v.savedValue = none := by
    rw [savedValue, h, Option.bind_some, Content.toBytes_ofBytes, Text.Utf8.decode?_encode, Option.bind_some, stateText,
      hused]
    exact Option.isNone_iff_eq_none.mp hbroken
  rw [hvalue]
  rfl

theorem Ready.resaved (h : v.Ready) (log : Log) : (v.resaved log).Ready ∧ (v.resaved log).Saved := by
  have hput : v.savedTree = v.tree.put (placeOf v.stateFile) (.file (.ofBytes (Text.Utf8.encode v.stateText))) := by
    rw [savedTree, FileTree.write, setContent_eq_ok_iff.mpr ⟨_, h.opens, rfl⟩]
    rfl
  have hsaved : v.savedTree.Opens v.stateFile (placeOf v.stateFile) := by
    rw [hput]
    exact h.opens.put h.opens _
  refine ⟨⟨v.keepsWays_savedTree.avoids h.avoids, hsaved⟩, ?_⟩
  rw [Saved, savedContent, Volume.resaved]
  exact hput ▸ h.opens.contentAt_put _

end Volume

namespace Storing

open Volume

variable {v₀ v w : Volume} {root : String} {gigabytes : Value}

/-! ### Opening -/

/-- A volume that has been opened has the books of its state file. -/
theorem openAt_loads (hopen : (openAt root gigabytes).on v₀ = (.ok (), v)) :
    v.root = root ∧ (v.tree.Reaches v.stateFile → booksOf v.savedValue = (v.used, v.files)) := by
  obtain ⟨u, hroot, hused, hfiles, hload⟩ := openAt_eq_ok hopen
  obtain ⟨htree, hsame, -⟩ := load_spec u
  rw [hload] at htree hsame
  refine ⟨hsame.trans hroot, fun hreaches => ?_⟩
  rw [stateFile, htree, hsame] at hreaches
  obtain ⟨log, hbooks⟩ := on_load hreaches hused hfiles
  obtain rfl := (Prod.ext_iff.mp (hload.symm.trans hbooks)).2
  rfl

theorem root_ne_empty_of_openAt (hopen : (openAt root gigabytes).on v₀ = (.ok (), v)) : root ≠ "" := by
  rintro rfl
  have hspec : Ends v₀ (openAt "" gigabytes) fun r _ => r ≠ .ok () := by
    unfold openAt
    refine ends_lift_bind (fun _ _ => ?_) nofun
    refine ends_lift_bind (fun _ _ => ?_) nofun
    refine ends_lift_bind (fun capacity _ => ends_get_bind ?_) nofun
    have habsent : v₀.tree.pathExists "" = false := rfl
    rw [habsent]
    refine ends_bind (Q := fun r _ => r = .error .fileNotFound) ?_ (fun _ _ h => nomatch h) fun _ _ _ => nofun
    refine ends_get_bind ?_
    rw [habsent, makeDirectories_empty]
    rfl
  unfold Ends at hspec
  rw [hopen] at hspec
  exact hspec rfl

def capacityOf (gigabytes : Value) : Except Fault Value := do
  let mega ← gigabytes.mul (.int 1024)
  let giga ← mega.mul (.int 1024)
  giga.mul (.int 1024)

/-- Opening the directory of a volume whose state file is ready gives a volume with the saved books. -/
theorem on_openAt_of_ready {capacity : Value} (hv : v.Ready) (hroot : v.root ≠ "") (htree : w.tree = v.tree)
    (hcapacity : capacityOf gigabytes = .ok capacity) :
    ∃ log, (openAt v.root gigabytes).on w = (.ok (), { w with
      root := v.root, capacity, used := (booksOf v.savedValue).1, files := (booksOf v.savedValue).2, log }) := by
  have hthere : w.tree.pathExists v.root = true := by
    rw [htree]
    exact pathExists_of_reaches hv.avoids hroot (by decide +kernel) (by decide +kernel) hv.reaches
  obtain ⟨mega, hmega, hcapacity⟩ := exists_of_bind_eq_ok hcapacity
  obtain ⟨giga, hgiga, hcapacity⟩ := exists_of_bind_eq_ok hcapacity
  generalize hempty : ({ w with root := v.root, capacity, used := .int 0, files := .object [] } : Volume) = u
  have hstate : u.stateFile = v.stateFile := by rw [← hempty, stateFile, stateFile]
  have hsame : u.tree = v.tree := by rw [← hempty, htree]
  have hsaved : u.savedValue = v.savedValue := by
    rw [savedValue, savedContent, hsame, hstate, savedValue, savedContent]
  have hreaches : u.tree.Reaches u.stateFile := by
    rw [hsame, hstate]
    exact hv.reaches
  obtain ⟨log, hload⟩ := on_load hreaches (by rw [← hempty]) (by rw [← hempty])
  rw [hsaved] at hload
  refine ⟨log, ?_⟩
  have hopened : Ends w (openAt v.root gigabytes) fun r t => (r, t) = (.ok (), { w with
      root := v.root, capacity, used := (booksOf v.savedValue).1, files := (booksOf v.savedValue).2, log }) := by
    unfold openAt
    refine ends_lift_bind_of_ok hmega (ends_lift_bind_of_ok hgiga (ends_lift_bind_of_ok hcapacity (ends_get_bind ?_)))
    rw [hthere]
    refine ends_modify_bind ?_
    subst hempty
    exact hload
  exact hopened

/-- Opening a volume whose books have been saved changes the log only. -/
theorem on_openAt_resaved (hv : v.Ready) (hroot : v.root ≠ "") (hcapacity : capacityOf gigabytes = .ok v.capacity)
    (hwritable : v.used.isWritable = true) (hused : Json.Readable bookDepth v.used)
    (hfiles : Json.Readable bookDepth v.files) (log : Log) :
    (openAt v.root gigabytes).on (v.resaved log) =
      (.ok (), { v.resaved log with log := ((openAt v.root gigabytes).on (v.resaved log)).2.log }) := by
  obtain ⟨hready, hsaved⟩ := hv.resaved log
  obtain ⟨log', hopen⟩ := on_openAt_of_ready hready hroot rfl hcapacity
  rw [hsaved.booksOf_eq hwritable hused hfiles] at hopen
  have hopen : (openAt v.root gigabytes).on (v.resaved log) = (.ok (), { v.resaved log with log := log' }) := hopen
  rw [hopen]

end Storing

end Handset
