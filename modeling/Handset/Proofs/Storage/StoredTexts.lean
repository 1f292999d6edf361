import Handset.Hardware.Equipment
import Handset.Proofs.Storage.Containment
import Handset.Proofs.Text.Transcoding

/-!
# Texts on a drive

A text that was stored on a drive is read back as long as its file is left alone, except that every carriage
return, alone or before a line feed, has become a line feed: a drive writes the characters of a text as they are,
and reads lines. What else is asked of the drive in between does not matter, even if there are links in the tree,
unless it creates or deletes the very file, or deletes a link.
-/
namespace Handset

open Step

namespace Text

theorem notMem_unifyEnds (cs : List Char) : '\r' ∉ unifyEnds cs := by
  fun_induction unifyEnds cs with
  | case1 => exact List.not_mem_nil
  | case2 rest ih => simpa using ih
  | case3 rest _ ih => simpa using ih
  | case4 c rest _ hc ih =>
    rw [List.mem_cons, not_or]
    exact ⟨fun h => hc h.symm, ih⟩

theorem unifyEnds_eq_self {cs : List Char} (h : '\r' ∉ cs) : unifyEnds cs = cs := by
  fun_induction unifyEnds cs with
  | case1 => rfl
  | case2 rest ih => simp at h
  | case3 rest _ ih => simp at h
  | case4 c rest _ hc ih =>
    rw [List.mem_cons, not_or] at h
    rw [ih h.2]

/-- Unifying the line ends leaves exactly the texts without a carriage return. -/
theorem unifyLines_eq_self_iff {s : String} : unifyLines s = s ↔ '\r' ∉ s.toList := by
  rw [unifyLines, ← String.toList_inj, String.toList_ofList]
  constructor
  · intro h
    rw [← h]
    exact notMem_unifyEnds s.toList
  · exact unifyEnds_eq_self

end Text

namespace FileTree

variable {t t' : FileTree} {place other : Place} {path : String}

/-- The ways through the tree are kept, and so is the content at a place. -/
structure Bypasses (place : Place) (t t' : FileTree) : Prop where
  ways : KeepsWays t t'
  contentAt_eq : t'.contentAt place = t.contentAt place

theorem Bypasses.trans {t'' : FileTree} (h : Bypasses place t t') (h' : Bypasses place t' t'') :
    Bypasses place t t'' :=
  ⟨h.ways.trans h'.ways, h'.contentAt_eq.trans h.contentAt_eq⟩

theorem AddsDirectories.bypasses (h : AddsDirectories t t') (place : Place) : Bypasses place t t' :=
  ⟨h.keepsWays, h.contentAt_eq place⟩

theorem Opens.bypasses_put (h : t.Opens path other) (hne : other ≠ place) (content : Content) :
    Bypasses place t (t.put other (.file content)) :=
  ⟨h.keepsWays_put content, h.contentAt_put_of_ne content hne⟩

theorem bypasses_without {content : Content} (hnode : t.node? other = some (.file content)) (hne : other ≠ place) :
    Bypasses place t (t.without other) := by
  refine ⟨keepsWays_without hnode, ?_⟩
  rw [contentAt, node?_without (ne_nil_of_node? (t := t) (by simp [hnode])), if_neg hne, contentAt]

end FileTree

namespace Driving

open FileTree

variable {d e : Drive} {place : Place} {path text : String}

/-- The path leads to a file that holds the text. -/
structure Stored (path text : String) (place : Place) (d : Drive) : Prop where
  opens : d.tree.Opens (d.fullPath path) place
  contentAt_eq : d.tree.contentAt place = some (.ofBytes (Text.Utf8.encode text))

theorem Stored.of_bypasses (h : Stored path text place d) (hroot : e.root = d.root)
    (he : Bypasses place d.tree e.tree) : Stored path text place e := by
  have hcontent := he.contentAt_eq
  rw [h.contentAt_eq] at hcontent
  refine ⟨?_, hcontent⟩
  rw [Drive.fullPath, hroot]
  refine h.opens.persists he.ways ?_
  rw [contentAt_eq_some_iff.mp hcontent]
  nofun

theorem Stored.on_read (h : Stored path text place d) :
    (read (.text path)).on d = (.ok (some (Text.unifyLines text)), d) := by
  have hread : Ends d (read (.text path)) fun r e => r = .ok (some (Text.unifyLines text)) ∧ e = d := by
    refine ends_attemptAt (Q := fun r e => r = .ok (some (Text.unifyLines text)) ∧ e = d) ?_ (fun _ _ h => h)
      (fun _ _ _ h => by cases h.1) fun _ _ _ h => by cases h.1
    have hbytes : d.tree.read (d.fullPath path) = .ok (Text.Utf8.encode text) := by
      rw [FileTree.read, fileAt_eq_ok_iff.mpr ⟨h.opens, h.contentAt_eq⟩]
      exact congrArg Except.ok (Content.toBytes_ofBytes _)
    refine ends_get_bind (ends_lift_bind_of_ok rfl (ends_lift_bind_of_ok hbytes ?_))
    rw [Text.Utf8.decode?_encode]
    exact ⟨rfl, rfl⟩
  exact Prod.ext hread.1 hread.2

end Driving

namespace Errand

open FileTree

variable {d e : Drive} {place : Place} {path text : String}

/-- The place of what an errand creates or deletes, if its path leads there. -/
def changes? (d : Drive) : Errand → Option Place
  | create path _ => do
    let full ← (d.locate path).toOption
    ((d.tree.makeDirectories true (Path.dirName full)).1.locate true full).toOption
  | delete path => do
    let full ← (d.locate path).toOption
    if d.tree.isFile full then (d.tree.look false full).toOption.map (·.1) else none
  | read _ | list _ => none

/-- The errand neither creates nor deletes the file at the place, and deletes no link. -/
def LeavesAlone (place : Place) (d : Drive) (errand : Errand) : Prop :=
  ∀ spot ∈ errand.changes? d, spot ≠ place ∧ (d.tree.node? spot).any Node.isLink = false

/-- Each errand leaves the file alone, in the drive that those before it have left. -/
def AllLeaveAlone (place : Place) : List Errand → Drive → Prop
  | [], _ => True
  | errand :: rest, d => errand.LeavesAlone place d ∧ AllLeaveAlone place rest (errand.perform.on d).2

instance (place : Place) (d : Drive) (errand : Errand) : Decidable (errand.LeavesAlone place d) :=
  inferInstanceAs (Decidable (∀ spot ∈ errand.changes? d, _ ∧ _))

instance decidableAllLeaveAlone (place : Place) :
    (errands : List Errand) → (d : Drive) → Decidable (AllLeaveAlone place errands d)
  | [], _ => isTrue trivial
  | errand :: rest, d =>
    have := decidableAllLeaveAlone place rest (errand.perform.on d).2
    inferInstanceAs (Decidable (errand.LeavesAlone place d ∧ AllLeaveAlone place rest (errand.perform.on d).2))

/-- The drive after a sequence of errands, which goes on after failures. -/
def afterAll (errands : List Errand) (d : Drive) : Drive :=
  errands.foldl (fun d errand => (errand.perform.on d).2) d

theorem Outcome.root_eq {errand : Errand} {answer : Except Fault Bool} (h : errand.Outcome d answer e) :
    e.root = d.root := by
  cases h <;> rfl

theorem Outcome.bypasses {errand : Errand} {answer : Except Fault Bool} (h : errand.Outcome d answer e)
    (halone : errand.LeavesAlone place d) : Bypasses place d.tree e.tree := by
  have hput {path : String} {content : Value} {spot : Place}
      (halone : (create (.text path) content).LeavesAlone place d)
      (hopens : (d.preparedTree path).Opens (d.fullPath path) spot) (new : Content) :
      Bypasses place d.tree ((d.preparedTree path).put spot (.file new)) := by
    have hlocate := hopens.located
    unfold Drive.preparedTree at hlocate
    have hspot : spot ∈ (create (.text path) content).changes? d := by
      simp [changes?, Drive.locate, hlocate, Except.toOption]
    exact ((d.addsDirectories_preparedTree path).bypasses place).trans (hopens.bypasses_put (halone spot hspot).1 new)
  cases h with
  | kept _ => exact ⟨.refl d.tree, rfl⟩
  | prepared _ => exact (d.addsDirectories_preparedTree _).bypasses place
  | emptied _ hopens | created hopens => exact hput halone hopens _
  | removed hfile hremove =>
    obtain ⟨spot, node, hnode, hlook, rfl⟩ := remove_eq_ok_iff.mp hremove
    obtain ⟨hne, hlink⟩ := halone spot (by simp [changes?, Drive.locate, hfile, hlook, Except.toOption])
    have hfound := ((look_eq_ok_iff hnode).mp hlook).2.2
    rw [hfound] at hlink
    cases node with
    | directory => exact absurd rfl hnode
    | link target => cases hlink
    | file content => exact bypasses_without hfound hne

theorem Outcome.stored (h : (create (.text path) (.text text)).Outcome d (.ok true) e) :
    ∃ place, Driving.Stored path text place e := by
  cases h with
  | kept hanswer => exact absurd rfl (hanswer rfl _ _)
  | prepared hanswer | emptied hanswer _ => exact absurd rfl hanswer
  | created hopens => exact ⟨_, hopens.put hopens _, hopens.contentAt_put _⟩

/-- A text stays stored as long as its file is left alone. -/
theorem stored_afterAll {errands : List Errand} (hd : Driving.Stored path text place d)
    (h : AllLeaveAlone place errands d) : Driving.Stored path text place (afterAll errands d) := by
  induction errands generalizing d with
  | nil => exact hd
  | cons errand rest ih =>
    have houtcome : errand.Outcome d _ (errand.perform.on d).2 := errand.perform_outcome d
    exact ih (hd.of_bypasses houtcome.root_eq (houtcome.bypasses h.1)) h.2

end Errand

namespace Hardware.Equipping

variable {q : Equipment}

/-- A step on the drive changes nothing but the drive. -/
theorem on_onDrive {α : Type} (step : Driving α) (q : Equipment) :
    (onDrive step).on q = ((step.on q.drive).1, { q with drive := (step.on q.drive).2 }) := by
  rw [onDrive, on_within]
  rfl

/-- The equipment after a sequence of errands to its drive. -/
def afterAll (errands : List Errand) (q : Equipment) : Equipment :=
  errands.foldl (fun q errand => ((onDrive errand.perform).on q).2) q

theorem drive_afterAll (errands : List Errand) (q : Equipment) :
    (afterAll errands q).drive = Errand.afterAll errands q.drive := by
  induction errands generalizing q with
  | nil => rfl
  | cons errand rest ih =>
    have hdrive : ((onDrive errand.perform).on q).2.drive = (errand.perform.on q.drive).2 := by rw [on_onDrive]
    have hrest := ih ((onDrive errand.perform).on q).2
    rw [hdrive] at hrest
    exact hrest

end Hardware.Equipping

open Hardware

/-- A text that was stored on a drive is read back with its line ends unified, whatever is asked of the drive
before, as long as no errand creates or deletes the file, or deletes a link. This is the text itself exactly if it
has no carriage return. It is the same through the equipment of a handset. -/
theorem stored_text_read_back {path text : String} :
    (∀ d e : Drive, (Driving.create (.text path) (.text text)).on d = (.ok true, e) →
      ∃ place, e.tree.locate true (e.fullPath path) = .ok place ∧
        ∀ errands, Errand.AllLeaveAlone place errands e →
          (Driving.read (.text path)).on (Errand.afterAll errands e) =
            (.ok (some (Text.unifyLines text)), Errand.afterAll errands e)) ∧
    (∀ q r : Equipment, (Equipping.onDrive (Driving.create (.text path) (.text text))).on q = (.ok true, r) →
      ∃ place, r.drive.tree.locate true (r.drive.fullPath path) = .ok place ∧
        ∀ errands, Errand.AllLeaveAlone place errands r.drive →
          (Equipping.onDrive (Driving.read (.text path))).on (Equipping.afterAll errands r) =
            (.ok (some (Text.unifyLines text)), Equipping.afterAll errands r)) ∧
    (Text.unifyLines text = text ↔ '\r' ∉ text.toList) := by
  have hstores (d e : Drive) (hcreate : (Driving.create (.text path) (.text text)).on d = (.ok true, e)) :
      ∃ place, Driving.Stored path text place e := by
    have houtcome := Errand.perform_outcome (.create (.text path) (.text text)) d
    unfold Ends Errand.perform at houtcome
    rw [hcreate] at houtcome
    exact houtcome.stored
  refine ⟨fun d e hcreate => ?_, fun q r hcreate => ?_, Text.unifyLines_eq_self_iff⟩
  · obtain ⟨place, hstored⟩ := hstores d e hcreate
    exact ⟨place, hstored.opens.located, fun errands h => (Errand.stored_afterAll hstored h).on_read⟩
  · rw [Equipping.on_onDrive] at hcreate
    obtain ⟨hanswer, hequipment⟩ := Prod.mk.inj hcreate
    obtain ⟨place, hstored⟩ := hstores q.drive r.drive (Prod.ext hanswer (by rw [← hequipment]))
    refine ⟨place, hstored.opens.located, fun errands h => ?_⟩
    have hread := (Errand.stored_afterAll hstored h).on_read
    rw [← Equipping.drive_afterAll] at hread
    rw [Equipping.on_onDrive, hread]

/-- A drive after a text of two lines has been stored on it. -/
def storedDrive : Drive :=
  ((Driving.create (.text "d/n.txt") (.text "a\nb")).on sampleDrive).2

/-- Errands to another file, with failures. -/
def otherErrands : List Errand :=
  [.create (.text "d/m.txt") (.text "c"), .create (.text "d/n.txt/m") (.text "c"), .create (.text "d") (.text "c"),
    .list (.text "d"), .read (.text "d/n.txt"), .delete (.text "d/m.txt"), .delete (.text "d/m.txt")]

theorem storedDrive_text_read_back :
    (Driving.create (.text "d/n.txt") (.text "a\nb")).on sampleDrive = (.ok true, storedDrive) ∧
    Errand.AllLeaveAlone ["n.txt", "d", "h", "g"] otherErrands storedDrive ∧
    (Driving.read (.text "d/n.txt")).on (Errand.afterAll otherErrands storedDrive) =
      (.ok (some "a\nb"), Errand.afterAll otherErrands storedDrive) := by
  have hcreate : (Driving.create (.text "d/n.txt") (.text "a\nb")).on sampleDrive = (.ok true, storedDrive) :=
    Prod.ext (eq_ok_of_toOption (by decide +kernel)) rfl
  obtain ⟨hplace, halone⟩ :
      (storedDrive.tree.locate true (storedDrive.fullPath "d/n.txt")).toOption = some ["n.txt", "d", "h", "g"] ∧
      Errand.AllLeaveAlone ["n.txt", "d", "h", "g"] otherErrands storedDrive := by
    decide +kernel
  obtain ⟨hread, -, hsame⟩ := @stored_text_read_back "d/n.txt" "a\nb"
  obtain ⟨place, hlocate, hread⟩ := hread sampleDrive storedDrive hcreate
  obtain rfl := Except.ok.inj ((eq_ok_of_toOption hplace).symm.trans hlocate)
  refine ⟨hcreate, halone, ?_⟩
  rw [hread otherErrands halone, hsame.mpr (by decide)]

/-- A carriage return is stored, but read as a line feed, and vanishes before one. -/
theorem carriage_return_not_read_back :
    (((Driving.create (.text "n.txt") (.text "a\rb")).on sampleDrive).1 = .ok true ∧
      ((Driving.read (.text "n.txt")).on
        ((Driving.create (.text "n.txt") (.text "a\rb")).on sampleDrive).2).1 = .ok (some "a\nb")) ∧
    ((Driving.create (.text "n.txt") (.text "a\r\nb")).on sampleDrive).1 = .ok true ∧
      ((Driving.read (.text "n.txt")).on
        ((Driving.create (.text "n.txt") (.text "a\r\nb")).on sampleDrive).2).1 = .ok (some "a\nb") := by
  refine ⟨⟨eq_ok_of_toOption ?_, eq_ok_of_toOption ?_⟩, eq_ok_of_toOption ?_, eq_ok_of_toOption ?_⟩
  all_goals decide +kernel

end Handset
