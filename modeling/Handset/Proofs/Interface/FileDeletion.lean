import Handset.Interface.Desktop
import Handset.Proofs.Files.Inside
import Handset.Proofs.Storage.Isolation

/-!
# Deleting a file from the list

The desktop lists the files of the volume by their names in the root directory, each with its size behind it,
and deletes what an item says before the size. A listed path starts with a slash and the name of the item has
none, so the path that is deleted is never the one that was listed.
-/
namespace Handset

open Step

/-! ### Names and items -/

namespace Text

theorem exists_cutAt? (separator cs rest : List Char) (hseparator : separator ≠ []) :
    ∃ head tail, cutAt? separator (cs ++ separator ++ rest) = some (head, tail) ∧ head <+: cs := by
  induction cs with
  | nil =>
    cases separator with
    | nil => exact absurd rfl hseparator
    | cons c more =>
      refine ⟨[], rest, ?_, List.nil_prefix⟩
      simp [cutAt?]
  | cons c cs ih =>
    obtain ⟨head, tail, hcut, hhead⟩ := ih
    rw [List.cons_append, List.cons_append, cutAt?]
    split
    · exact ⟨[], _, rfl, List.nil_prefix⟩
    · rw [hcut]
      exact ⟨c :: head, tail, rfl, List.cons_prefix_cons.mpr ⟨rfl, hhead⟩⟩

theorem before_prefix {separator : String} (hseparator : separator ≠ "") (name rest : String) :
    (before separator (name ++ separator ++ rest)).toList <+: name.toList := by
  have hchars : separator.toList ≠ [] := fun h => hseparator (String.toList_eq_nil_iff.mp h)
  obtain ⟨head, tail, hcut, hhead⟩ := exists_cutAt? separator.toList name.toList rest.toList hchars
  rw [before, String.toList_append, String.toList_append, hcut, String.toList_ofList]
  exact hhead

end Text

namespace Volume

variable {v w : Volume} {path name : String}

theorem listedName?_eq_some {directory : String} (h : v.listedName? directory path = some name) :
    path.startsWith directory = true ∧ '/' ∉ name.toList := by
  unfold listedName? at h
  split at h
  next hbelow =>
    refine ⟨(Bool.and_eq_true_iff.mp hbelow).1, ?_⟩
    split at h
    next only hsplit =>
      obtain rfl := Option.some.inj h
      apply Path.notMem_of_mem_split (s := Path.relative v.workingDir path directory)
      rw [hsplit]
      exact List.mem_singleton_self _
    next => cases h
  next => cases h

end Volume

namespace Interface

theorem fileLine_eq_ok {name item : String} {entry : Value} (h : fileLine name entry = .ok item) :
    ∃ rest, item = name ++ " (" ++ rest := by
  unfold fileLine at h
  split at h
  next noted =>
    split at h
    next size hsize =>
      obtain ⟨amount, -, hitem⟩ := exists_of_bind_eq_ok h
      refine ⟨amount ++ " KB)", ?_⟩
      rw [← Except.ok.inj hitem, ← String.append_assoc]
      rfl
    next => cases h
  next => cases h

end Interface

namespace Volume

open Interface

variable {v w : Volume} {path item : String}

/-- The recorded path is what the item of the root directory stands for. -/
def Shows (v : Volume) (path item : String) : Prop :=
  ∃ fields name entry, v.files = .object fields ∧ (path, entry) ∈ fields ∧
    v.listedName? "/" path = some name ∧ fileLine name entry = .ok item

/-- Each name that a listing collects comes with what is recorded of a path of this name. -/
theorem mem_foldl_listedName? {directory name : String} {entry : Value} {fields found : Table String Value}
    (h : (name, entry) ∈ fields.foldl (fun found (path, entry) =>
      match v.listedName? directory path with
      | some name => Table.put found name entry
      | none => found) found) :
    (name, entry) ∈ found ∨ ∃ path, (path, entry) ∈ fields ∧ v.listedName? directory path = some name := by
  induction fields generalizing found with
  | nil => exact .inl h
  | cons first rest ih =>
    obtain ⟨path, noted⟩ := first
    rcases ih h with hfound | ⟨other, hother, hlisted⟩
    · dsimp only at hfound
      split at hfound
      next listed hlisted =>
        rcases Table.eq_or_mem_of_mem_put hfound with heq | hfound
        · obtain ⟨rfl, rfl⟩ := Prod.mk.inj heq
          exact .inr ⟨path, List.mem_cons_self, hlisted⟩
        · exact .inl hfound
      next => exact .inl hfound
    · exact .inr ⟨other, List.mem_cons_of_mem _ hother, hlisted⟩

theorem exists_of_mem_list {found : Table String Value} {directory name : String} {entry : Value}
    (h : v.list (.text directory) = .ok found) (hmem : (name, entry) ∈ found) :
    ∃ fields path, v.files = .object fields ∧ (path, entry) ∈ fields ∧
      v.listedName? directory path = some name := by
  unfold Volume.list at h
  split at h
  next =>
    rw [← Except.ok.inj h] at hmem
    cases hmem
  next fields _ _ hfiles hdirectory =>
    obtain rfl := Value.text.inj hdirectory
    rw [← Except.ok.inj h] at hmem
    rcases mem_foldl_listedName? hmem with hnone | ⟨path, hpath, hlisted⟩
    · cases hnone
    · exact ⟨fields, path, hfiles, hpath, hlisted⟩
  next => cases h
  next => cases h

theorem Shows.startsWith (h : v.Shows path item) : path.startsWith "/" = true := by
  obtain ⟨fields, name, entry, -, -, hname, -⟩ := h
  exact (listedName?_eq_some hname).1

theorem Shows.notMem_before (h : v.Shows path item) : '/' ∉ (Text.before " (" item).toList := by
  obtain ⟨fields, name, entry, -, -, hname, hitem⟩ := h
  obtain ⟨rest, rfl⟩ := fileLine_eq_ok hitem
  have hhead := @Text.before_prefix " (" (by decide) name rest
  exact fun hslash => (listedName?_eq_some hname).2 (hhead.subset hslash)

/-- What one item says before its size is not the path of any item. -/
theorem Shows.before_ne {other shown : String} (h : v.Shows path item) (hother : v.Shows other shown) :
    Text.before " (" item ≠ other := by
  obtain ⟨below, hbelow⟩ := Path.startsWith_slash_iff.mp hother.startsWith
  rintro rfl
  apply h.notMem_before
  rw [hbelow]
  exact List.mem_cons_self

end Volume

namespace Volume

variable {v w u : Volume} {path : Value}

theorem SameBooks.listedName?_eq (h : v.SameBooks w) (directory name : String) :
    w.listedName? directory name = v.listedName? directory name := by
  obtain ⟨tree, log, rfl⟩ := h
  simp only [listedName?]

theorem SameBooks.shows {name item : String} (h : v.SameBooks w) (hshows : w.Shows name item) :
    v.Shows name item := by
  obtain ⟨fields, listed, entry, hfiles, hmem, hlisted, hitem⟩ := hshows
  rw [h.listedName?_eq] at hlisted
  obtain ⟨tree, log, rfl⟩ := h
  exact ⟨fields, listed, entry, hfiles, hmem, hlisted, hitem⟩

theorem SameBooks.deleted (h : v.SameBooks w) (hdeleted : w.Deleted path u) : v.Deleted path u := by
  obtain ⟨tree, log, rfl⟩ := h
  obtain ⟨tree', log', hfiles, hpath, hentry, hsize, hused⟩ := hdeleted
  exact .intro tree' log' hfiles hpath hentry hsize hused

theorem Deleted.sameBooks (h : v.Deleted path w) (hsame : w.SameBooks u) : v.Deleted path u := by
  obtain ⟨tree, log, rfl⟩ := hsame
  obtain ⟨-, -, hfiles, hpath, hentry, hsize, hused⟩ := h
  exact .intro tree log hfiles hpath hentry hsize hused

theorem Deleted.entry_of_ne {name : String} (h : v.Deleted path w) (hne : path ≠ .text name) :
    w.entry name = v.entry name := by
  obtain ⟨tree, log, hfiles, rfl, -, -, -⟩ := h
  unfold Volume.entry
  rw [hfiles]
  dsimp only
  rw [Table.find?_remove_of_ne _ fun heq => hne (congrArg _ heq)]

theorem SameBooks.entry_eq (h : v.SameBooks w) (name : String) : w.entry name = v.entry name := by
  obtain ⟨tree, log, rfl⟩ := h
  rfl

end Volume

namespace Interface

open Serving

variable {α : Type} {v : Volume} {d : Desktop} {item : String}

/-! ### Volumes of a desktop -/

/-- The desktop has a volume with this property. -/
def Desktop.Has (Q : Volume → Prop) (d : Desktop) : Prop :=
  ∃ w, d.phone.volume = some w ∧ Q w

theorem on_onVolume (h : d.phone.volume = some v) (operation : String) (step : Storing α) :
    (onVolume operation step).on d = ((step.on (Journal.setLog v d.phone.log)).1,
      { d with phone := { d.phone with
          volume := some (step.on (Journal.setLog v d.phone.log)).2
          log := (step.on (Journal.setLog v d.phone.log)).2.log } }) := by
  have hphone : (Phoning.onVolume operation step).on d.phone =
      (within (fun _ => v) (fun p w => { p with volume := some w }) step : Phoning α).on d.phone := by
    unfold Phoning.onVolume
    rw [on_bind_ok (on_get d.phone), h]
  unfold onVolume onPhone
  rw [on_within]
  have hlog : Journal.setLog d.phone (Journal.log d) = d.phone := rfl
  rw [hlog, hphone, on_within]
  rfl

/-- The property looks at no more of a volume than its records. -/
def OfBooks (Q : Volume → Prop) : Prop :=
  ∀ w u, Q w → w.SameBooks u → Q u

theorem ofBooks_unlessDeleted (v : Volume) (path : Value) :
    OfBooks fun w => v.SameBooks w ∨ v.Deleted path w := by
  rintro w u (hsame | hdeleted) hu
  · exact .inl (hsame.trans hu)
  · exact .inr (hdeleted.sameBooks hu)

section Kept

variable {Q : Volume → Prop}

theorem keeps_announce (level : Level) (text : String) : Keeps (Desktop.Has Q) (announce level text) := by
  rintro d ⟨w, hw, hbooks⟩
  exact ⟨w, hw, hbooks⟩

variable (hQ : OfBooks Q)
include hQ

theorem keeps_onVolume {operation : String} {step : Storing α} (hstep : Quiet step) :
    Keeps (Desktop.Has Q) (onVolume operation step) := by
  rintro d ⟨w, hw, hbooks⟩
  rw [on_onVolume hw, hstep]
  exact ⟨_, rfl, hQ _ _ hbooks ((Volume.SameBooks.refl w).setLog _)⟩

theorem keeps_refreshFiles : Keeps (Desktop.Has Q) refreshFiles := by
  refine keeps_bind (keeps_modify fun d h => h) fun _ => ?_
  refine keeps_bind (keeps_onVolume hQ (quiet_bind quiet_get fun _ => quiet_lift _)) fun files => ?_
  refine keeps_forM fun file _ => ?_
  exact keeps_bind (quiet_lift _).keeps fun _ => keeps_modify fun d h => h

theorem keeps_showStorage : Keeps (Desktop.Has Q) showStorage := by
  refine keeps_bind (keeps_refreshFiles hQ) fun _ => ?_
  refine keeps_bind (keeps_onVolume hQ (quiet_bind quiet_get fun _ => quiet_lift _)) fun info => ?_
  exact keeps_bind (quiet_lift _).keeps fun lines => keeps_modify fun d h => h

end Kept

/-! ### The list and the deletion -/

/-- The desktop still has the records of the volume, and each of its items stands for a recorded path. -/
def Listing (v : Volume) (d : Desktop) : Prop :=
  d.Has v.SameBooks ∧ ∀ item ∈ d.fileItems, ∃ path, v.Shows path item

theorem keeps_listing_append {files : Table String Value}
    (h : ∀ name entry, (name, entry) ∈ files → ∀ item, fileLine name entry = .ok item → ∃ path, v.Shows path item) :
    Keeps (Listing v) (files.forM fun (name, entry) => do
      let item ← lift (fileLine name entry)
      modify fun d => { d with fileItems := d.fileItems ++ [item] }) := by
  refine keeps_forM fun (name, entry) hmem => ?_
  refine keeps_bind_of_yields (quiet_lift _).keeps (yields_lift (h name entry hmem)) fun item hshows => ?_
  refine keeps_modify fun d hd => ⟨hd.1, fun other hother => ?_⟩
  rcases List.mem_append.mp hother with hold | hnew
  · exact hd.2 other hold
  · rw [List.mem_singleton.mp hnew]
    exact hshows

theorem refreshFiles_listing (h : d.Has v.SameBooks) : Listing v (refreshFiles.on d).2 := by
  unfold refreshFiles
  rw [on_bind_ok (on_modify _ d)]
  obtain ⟨w, hw, hsame⟩ := h
  rw [on_bind, on_onVolume (d := { d with fileItems := [] }) hw, on_bind_ok (on_get _), on_lift]
  have hstart : Listing v { d with
      fileItems := []
      phone := { d.phone with volume := some (Journal.setLog w d.phone.log), log := d.phone.log } } :=
    ⟨⟨_, rfl, hsame.setLog _⟩, nofun⟩
  cases hlist : (Journal.setLog w d.phone.log).list (.text "/") with
  | error e => exact hstart
  | ok files =>
    refine keeps_listing_append (fun name entry hmem item hitem => ?_) _ hstart
    obtain ⟨fields, path, hfiles, hpath, hlisted⟩ := Volume.exists_of_mem_list hlist hmem
    exact ⟨path, (hsame.setLog _).shows ⟨fields, name, entry, hfiles, hpath, hlisted, hitem⟩⟩

/-- The desktop after an item was selected and the question about its deletion answered. -/
def Desktop.afterDeletion (d : Desktop) (item : String) (answer : Value) : Desktop :=
  (deleteFile.on { d with selection := some item, answers := answer :: d.answers }).2

theorem onVolume_delete_has (h : d.Has v.SameBooks) (path : Value) :
    ((onVolume "delete_file" (Storing.delete path)).on d).2.Has fun w =>
      v.SameBooks w ∨ v.Deleted path w := by
  obtain ⟨w, hw, hsame⟩ := h
  rw [on_onVolume hw]
  refine ⟨_, rfl, ?_⟩
  have heffect : (Request.delete path).Effect (Journal.setLog w d.phone.log)
      ((Storing.delete path).on (Journal.setLog w d.phone.log)).1
      ((Storing.delete path).on (Journal.setLog w d.phone.log)).2 := Request.perform_effect _ _
  generalize (Storing.delete path).on (Journal.setLog w d.phone.log) = out at heffect ⊢
  obtain ⟨answer, u⟩ := out
  cases heffect with
  | same _ hkept => exact .inl ((hsame.setLog _).trans hkept)
  | deleted hdeleted => exact .inr ((hsame.setLog _).deleted hdeleted)

theorem afterDeletion_has (h : d.Has v.SameBooks) (hitem : item ∈ d.fileItems) {answer : Value}
    (hyes : answer.truthy = true) :
    (d.afterDeletion item answer).Has fun w =>
      v.SameBooks w ∨ v.Deleted (.text (Text.before " (" item)) w := by
  have hselected : Desktop.selected? { d with selection := some item, answers := answer :: d.answers } =
      some item := by
    simp [Desktop.selected?, hitem]
  have hask : ∀ texts, (ask texts).on { d with selection := some item, answers := answer :: d.answers } =
      (.ok answer, { d with selection := some item, asked := d.asked.push texts }) := fun _ => rfl
  unfold Desktop.afterDeletion deleteFile
  rw [on_bind_ok (on_get _), hselected]
  dsimp only
  rw [on_bind_ok (hask _), if_pos hyes]
  refine holds_bind (P := Desktop.Has _)
    (onVolume_delete_has (d := { d with selection := some item, asked := _ }) h _) fun deleted => ?_
  have hbooks := ofBooks_unlessDeleted v (.text (Text.before " (" item))
  cases deleted with
  | true => exact keeps_bind (keeps_announce _ _) fun _ => keeps_showStorage hbooks
  | false => exact keeps_announce _ _

/-- Confirming the deletion of a listed item removes no path that is listed, neither the one that the item
stands for nor any other: the volume keeps all its records, or loses those of the path without a slash that
the item says before its size. -/
theorem deletion_spares_listed_paths (hv : d.phone.volume = some v)
    (hitem : item ∈ (refreshFiles.on d).2.fileItems) {answer : Value} (hyes : answer.truthy = true) :
    ∃ w, ((refreshFiles.on d).2.afterDeletion item answer).phone.volume = some w ∧
      (v.SameBooks w ∨ v.Deleted (.text (Text.before " (" item)) w) ∧
      (∃ path, v.Shows path item) ∧
      ∀ path shown, v.Shows path shown →
        Text.before " (" item ≠ path ∧ w.entry path = v.entry path := by
  obtain ⟨hbooks, hshown⟩ := refreshFiles_listing ⟨v, hv, .refl v⟩
  obtain ⟨listed, hlisted⟩ := hshown item hitem
  obtain ⟨w, hw, hrecords⟩ := afterDeletion_has hbooks hitem hyes
  refine ⟨w, hw, hrecords, ⟨listed, hlisted⟩, fun path shown hpath => ?_⟩
  have hne := hlisted.before_ne hpath
  refine ⟨hne, ?_⟩
  rcases hrecords with hsame | hdeleted
  · exact hsame.entry_eq path
  · exact hdeleted.entry_of_ne fun heq => hne (Value.text.inj heq)

/-- A desktop on a volume that has recorded the name of a file with a slash before it and without. -/
def aliasedDesktop : Desktop :=
  { phone := { volume := some Request.aliasedVolume } }

theorem aliasedDesktop_spares_listed_path :
    aliasedDesktop.phone.volume = some Request.aliasedVolume ∧
    "a (0.00 KB)" ∈ (refreshFiles.on aliasedDesktop).2.fileItems ∧ (Value.bool true).truthy = true ∧
    ∃ w, ((refreshFiles.on aliasedDesktop).2.afterDeletion "a (0.00 KB)" (.bool true)).phone.volume = some w ∧
      (Request.aliasedVolume.SameBooks w ∨ Request.aliasedVolume.Deleted (.text "a") w) ∧
      ∀ path shown, Request.aliasedVolume.Shows path shown →
        "a" ≠ path ∧ w.entry path = Request.aliasedVolume.entry path := by
  have hitem : "a (0.00 KB)" ∈ (refreshFiles.on aliasedDesktop).2.fileItems := by decide +kernel
  have hname : Text.before " (" "a (0.00 KB)" = "a" := by decide +kernel
  have hyes : (Value.bool true).truthy = true := rfl
  obtain ⟨w, hw, hrecords, -, hspared⟩ := deletion_spares_listed_paths (v := Request.aliasedVolume) rfl hitem hyes
  rw [hname] at hrecords
  simp only [hname] at hspared
  exact ⟨rfl, hitem, rfl, w, hw, hrecords, hspared⟩

/-- The path that is listed stays, and a path that is not listed goes. -/
theorem deletion_misses_listed_path :
    "a (0.00 KB)" ∈ (refreshFiles.on aliasedDesktop).2.fileItems ∧
    Request.aliasedVolume.listedName? "/" "/a" = some "a" ∧
    Request.aliasedVolume.listedName? "/" "a" = none ∧
    ((refreshFiles.on aliasedDesktop).2.afterDeletion "a (0.00 KB)" (.bool true)).phone.volume.map (fun w =>
      (w.recorded (.text "/a")).toOption) = some (some true) ∧
    ((refreshFiles.on aliasedDesktop).2.afterDeletion "a (0.00 KB)" (.bool true)).phone.volume.map (fun w =>
      (w.recorded (.text "a")).toOption) = some (some false) := by
  decide +kernel

end Interface

end Handset
