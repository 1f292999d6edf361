import Handset.Proofs.Storage.Capacity
import Handset.Proofs.Storage.Isolation

/-!
# How long the stored files are

The capacity of a volume bounds the sizes that its files are created with. A file is as long as it was
created, and longer by what writes have added behind its end since: no write is refused for want of room,
and none is noted in the size or in the bytes in use.
-/
namespace Handset

open Step FileTree

namespace Content

@[simp] theorem size_blank (count : Nat) : (blank count).size = count := by
  rw [← length_toList, toList_blank, List.length_replicate]

theorem size_splice (c : Content) (position : Nat) (data : Bytes) :
    (c.splice position data).size =
      c.size + if data.isEmpty then 0 else position + data.size - c.size := by
  cases hdata : data.isEmpty with
  | true => rw [splice, if_pos hdata, if_pos rfl, Nat.add_zero]
  | false =>
    rw [← length_toList, toList_splice c position data hdata, if_neg Bool.false_ne_true]
    simp only [List.length_append, List.length_take, List.length_replicate, List.length_drop, length_toList,
      Array.length_toList]
    omega

end Content

namespace Volume

/-- The place of the file that is recorded under a path. -/
def place (v : Volume) (name : String) : Place :=
  placeOf (v.physicalPath name)

def lengthAt (v : Volume) (place : Place) : Option Nat :=
  (v.tree.contentAt place).map Content.size

def recordedSize (v : Volume) (name : String) : Option Int :=
  match v.files with
  | .object fields => (Table.find? fields name).bind notedSize?
  | _ => none

variable {v w : Volume} {path size : Value} {p : String}

theorem recordedSize_of_files {fields : List (String × Value)} (h : v.files = .object fields)
    (name : String) : v.recordedSize name = (Table.find? fields name).bind notedSize? := by
  rw [recordedSize, h]

/-! ### What becomes of a recorded size -/

theorem SameBooks.recordedSize_eq (hw : v.SameBooks w) (p : String) :
    w.recordedSize p = v.recordedSize p := by
  obtain ⟨tree, log, rfl⟩ := hw
  rfl

theorem Created.recordedSize_self (hw : v.Created (.text p) size w) : w.recordedSize p = size.int? := by
  obtain ⟨tree, log, hfiles, hpath, -, -, -⟩ := hw
  rw [recordedSize_of_files rfl, Value.text.inj hpath, Table.find?_put, if_pos (beq_self_eq_true _)]
  rfl

theorem Created.recordedSize_of_ne (hw : v.Created path size w) (hne : path ≠ .text p) :
    w.recordedSize p = v.recordedSize p := by
  obtain ⟨tree, log, hfiles, rfl, -, -, -⟩ := hw
  rw [recordedSize_of_files rfl, recordedSize_of_files hfiles, Table.find?_put, if_neg]
  exact fun hname => hne (congrArg Value.text (beq_iff_eq.mp hname))

theorem Touched.recordedSize_eq (hw : v.Touched path w) (p : String) :
    w.recordedSize p = v.recordedSize p := by
  obtain ⟨tree, log, hfiles, rfl, hentry⟩ := hw
  rw [recordedSize_of_files rfl, recordedSize_of_files hfiles, Table.find?_put]
  split
  next hname =>
    rw [← beq_iff_eq.mp hname, hentry]
    exact notedSize?_put_modified _ _
  next => rfl

theorem Deleted.recordedSize_self (hw : v.Deleted (.text p) w)
    (hpaths : ∀ fields, v.files = .object fields → (Table.keys fields).Nodup) :
    w.recordedSize p = none := by
  obtain ⟨tree, log, hfiles, hpath, -, -, -⟩ := hw
  rw [recordedSize_of_files rfl, Value.text.inj hpath, Table.find?_remove_self (hpaths _ hfiles)]
  rfl

theorem Deleted.recordedSize_of_ne (hw : v.Deleted path w) (hne : path ≠ .text p) :
    w.recordedSize p = v.recordedSize p := by
  obtain ⟨tree, log, hfiles, rfl, -, -, -⟩ := hw
  rw [recordedSize_of_files rfl, recordedSize_of_files hfiles, Table.find?_remove_of_ne]
  exact fun hname => hne (congrArg Value.text hname)

/-! ### Recorded paths stay distinct -/

section Distinct

variable (hpaths : ∀ fields, v.files = .object fields → (Table.keys fields).Nodup)
include hpaths

theorem SameBooks.nodup_paths (hw : v.SameBooks w) :
    ∀ fields, w.files = .object fields → (Table.keys fields).Nodup := by
  obtain ⟨tree, log, rfl⟩ := hw
  exact hpaths

theorem Created.nodup_paths (hw : v.Created path size w) :
    ∀ fields, w.files = .object fields → (Table.keys fields).Nodup := by
  obtain ⟨tree, log, hfiles, -, -, -, -⟩ := hw
  rintro _ ⟨⟩
  exact Table.nodup_keys_put (hpaths _ hfiles) _ _

theorem Touched.nodup_paths (hw : v.Touched path w) :
    ∀ fields, w.files = .object fields → (Table.keys fields).Nodup := by
  obtain ⟨tree, log, hfiles, -, -⟩ := hw
  rintro _ ⟨⟩
  exact Table.nodup_keys_put (hpaths _ hfiles) _ _

theorem Deleted.nodup_paths (hw : v.Deleted path w) :
    ∀ fields, w.files = .object fields → (Table.keys fields).Nodup := by
  obtain ⟨tree, log, hfiles, -, -, -, -⟩ := hw
  rintro _ ⟨⟩
  exact Table.nodup_keys_remove (hpaths _ hfiles) _

end Distinct

/-- The books are in order, and no path is recorded twice. -/
structure Orderly (total : Value) (c : Num) (v : Volume) : Prop where
  solvent : v.Solvent total c
  paths : ∀ fields, v.files = .object fields → (Table.keys fields).Nodup

/-- A recorded file can be deleted, since the size to be subtracted is noted. -/
theorem Audited.exists_sub {surplus : Int} {name : String} (h : v.Audited surplus)
    (hname : v.recorded (.text name) = .ok true) :
    ∃ entry size used, v.entry name = .ok entry ∧ entry.part "size" = .ok size ∧ v.used.sub size = .ok used := by
  obtain ⟨fields, hfiles, hsized, hused⟩ := h
  obtain ⟨entry, hfound⟩ := Option.isSome_iff_exists.mp ((recorded_iff hfiles).mp hname)
  obtain ⟨n, hn⟩ := hsized.find? hfound
  obtain ⟨size, hpart, hint⟩ := Option.bind_eq_some_iff.mp hn
  refine ⟨entry, size, _, ?_, eq_ok_of_toOption hpart, by rw [hused, Value.sub_of_int? hint]⟩
  rw [Volume.entry, hfiles]
  simp only [hfound]

end Volume

namespace Request

open Volume

variable {v w : Volume} {total : Value} {c : Num} {r : Request} {answer : Except Fault Bool} {place : Place}

/-- Only the request's own path can get another size. -/
theorem Effect.recordedSize_of_ne {p : String} (h : r.Effect v answer w) (hne : r.target ≠ .text p) :
    w.recordedSize p = v.recordedSize p := by
  cases h with
  | same _ hsame => exact hsame.recordedSize_eq p
  | created hdone => exact hdone.recordedSize_of_ne hne
  | touched hdone => exact hdone.recordedSize_eq p
  | deleted hdone => exact hdone.recordedSize_of_ne hne

theorem Effect.recordedSize_created {name : String} {size : Value}
    (h : (create (.text name) size).Effect v (.ok true) w) : w.recordedSize name = size.int? := by
  cases h with
  | same hanswer _ => cases hanswer rfl
  | created hdone => exact hdone.recordedSize_self

theorem Effect.recordedSize_written {path data offset : Value} (h : (write path data offset).Effect v answer w)
    (p : String) : w.recordedSize p = v.recordedSize p := by
  cases h with
  | same _ hsame => exact hsame.recordedSize_eq p
  | touched hdone => exact hdone.recordedSize_eq p

theorem Effect.recordedSize_deleted {name : String} (h : (delete (.text name)).Effect v (.ok true) w)
    (hpaths : ∀ fields, v.files = .object fields → (Table.keys fields).Nodup) : w.recordedSize name = none := by
  cases h with
  | same hanswer _ => cases hanswer rfl
  | deleted hdone => exact hdone.recordedSize_self hpaths

theorem Effect.nodup_paths (h : r.Effect v answer w)
    (hpaths : ∀ fields, v.files = .object fields → (Table.keys fields).Nodup) :
    ∀ fields, w.files = .object fields → (Table.keys fields).Nodup := by
  cases h with
  | same _ hsame => exact hsame.nodup_paths hpaths
  | created hdone => exact hdone.nodup_paths hpaths
  | touched hdone => exact hdone.nodup_paths hpaths
  | deleted hdone => exact hdone.nodup_paths hpaths

theorem orderly_perform (h : v.Orderly total c) (hc : c.isFinite = true) (hr : r.AsksNoNegativeSize) :
    (r.perform.on v).2.Orderly total c :=
  ⟨solvent_perform h.solvent hc hr, (r.perform_effect v).nodup_paths h.paths⟩

/-! ### What becomes of a length -/

/-- The place of the file that a request is for. -/
def place? (v : Volume) (r : Request) : Option Place :=
  match r.target with
  | .text name => some (v.place name)
  | _ => none

theorem place?_eq_some (h : r.place? v = some place) :
    ∃ name, r.target = .text name ∧ v.place name = place := by
  unfold place? at h
  split at h
  next name htarget => exact ⟨name, htarget, Option.some.inj h⟩
  next => cases h

def met (v : Volume) (r : Request) : Bool :=
  (r.perform.on v).1.toOption == some true

theorem met_iff : r.met v = true ↔ (r.perform.on v).1 = .ok true := by
  unfold met
  rw [beq_iff_eq]
  exact ⟨eq_ok_of_toOption, fun h => by rw [h]; rfl⟩

/-- How far a write goes past the end of a file: as far as its bytes fit, also if it is refused for the others. -/
def growth (v : Volume) (length : Nat) (r : Request) : Nat :=
  (r.stores? v).elim 0 fun (position, bytes) => if bytes.isEmpty then 0 else position + bytes.size - length

/-- There is a content of the size that a creation asks for. -/
def Storable : Request → Prop
  | create _ size => ∃ content, blank size = .ok content
  | _ => True

/-- What becomes of the length of the file that a request is for, if the request is met or not. -/
def Resizes (v : Volume) (old new : Option Nat) : Request → Bool → Prop
  | create _ size, true => ∃ n, size.int? = some n ∧ new = some n.toNat
  | create path size, false => new = old ∨ new = some 0 ∧ ¬(create path size).Storable
  | write path data offset, _ => new = old.map fun n => n + (write path data offset).growth v n
  | delete _, true => new = none
  | _, _ => new = old

theorem lengthAt_resaved {tree : FileTree} (hv : tree.Avoids v.stateFile) (hne : placeOf v.stateFile ≠ place)
    (used files : Value) (log : Log) :
    (resaved { v with tree, used, files } log).lengthAt place =
      ({ v with tree, used, files } : Volume).lengthAt place :=
  congrArg (Option.map Content.size) (contentAt_resaved hv hne used files log)

theorem lengthAt_put {path : String} {tree : FileTree} (hopens : tree.Opens path place) (ht : tree.Avoids path)
    (content : Content) (h : w.tree = tree.put place (.file content)) :
    w.lengthAt (placeOf path) = some content.size := by
  rw [lengthAt, h, hopens.contentAt_placeOf_put ht, Option.map_some]

theorem lengthAt_of_fileAt {path : String} {content : Content} (hfile : v.tree.fileAt path = .ok (place, content))
    (hv : v.tree.Avoids path) : v.lengthAt (placeOf path) = some content.size := by
  obtain ⟨hopens, hcontent⟩ := fileAt_eq_ok_iff.mp hfile
  rw [← hopens.eq_placeOf hv, lengthAt, hcontent, Option.map_some]

/-- What a write stores makes its file longer by the growth. -/
theorem lengthAt_splice {name : String} {bytes : Bytes} {offset : Value} {content : Content} {position : Nat}
    (hrecorded : v.recorded (.text name) = .ok true) (hfile : v.tree.fileAt (v.physicalPath name) = .ok (place, content))
    (hposition : Volume.position offset = .ok position) (hv : v.tree.Avoids (v.physicalPath name))
    (h : w.tree = v.tree.put place (.file (content.splice position (fitting position bytes)))) :
    w.lengthAt (v.place name) = (v.lengthAt (v.place name)).map fun n =>
      n + (write (.text name) (.bytes bytes) offset).growth v n := by
  have hnew : w.lengthAt (v.place name) = some (content.splice position (fitting position bytes)).size :=
    lengthAt_put (fileAt_eq_ok_iff.mp hfile).1 hv _ h
  have hold : v.lengthAt (v.place name) = some content.size := lengthAt_of_fileAt hfile hv
  rw [hnew, hold, Content.size_splice, Option.map_some, growth, stores?_eq_some hrecorded hfile hposition,
    Option.elim_some]

theorem Outcome.resizes {surplus : Int} {name : String} (h : r.Outcome v answer w) (hv : v.Audited surplus)
    (hlinks : v.AvoidsLinks r.target) (htarget : r.target = .text name) (hstate : placeOf v.stateFile ≠ v.place name) :
    r.Resizes v (v.lengthAt (v.place name)) (w.lengthAt (v.place name)) (answer.toOption == some true) := by
  have hunmet (hanswer : answer ≠ .ok true) : (answer.toOption == some true) = false := by
    rw [beq_eq_false_iff_ne]
    exact mt eq_ok_of_toOption hanswer
  cases h with
  | looked hr => cases hr.symm.trans htarget
  | refused hanswer hstores =>
    rw [hunmet hanswer]
    cases r with
    | create path size => exact .inl rfl
    | write path data offset =>
      have hgrowth (n : Nat) : n + (write path data offset).growth v n = n := by
        rw [growth, hstores, Option.elim_none, Nat.add_zero]
      simp only [Resizes, hgrowth, Option.map_id']
      rfl
    | delete path | read path size offset | list directory => rfl
  | prepared hanswer =>
    cases htarget
    rw [hunmet hanswer]
    exact .inl (congrArg (Option.map Content.size) ((v.addsDirectories_preparedTree name).contentAt_eq _))
  | emptied hopens hblank =>
    cases htarget
    have hprepared := (v.addsDirectories_preparedTree name).keepsWays.avoids hlinks.2
    exact .inr ⟨lengthAt_put hopens hprepared {} rfl, not_exists.mpr hblank⟩
  | unrecorded hopens hfiles =>
    obtain ⟨fields, hobject, -⟩ := hv
    exact absurd hobject (hfiles fields)
  | created hopens hsize _ _ _ _ =>
    cases htarget
    have hprepared := (v.addsDirectories_preparedTree name).keepsWays
    refine ⟨_, (word_eq_ok hsize).1, ?_⟩
    refine (lengthAt_resaved ((hprepared.trans (hopens.keepsWays_put _)).avoids hlinks.1) hstate _ _ _).trans ?_
    exact (lengthAt_put hopens (hprepared.avoids hlinks.2) _ rfl).trans (congrArg some (Content.size_blank _))
  | spliced hrecorded hfile hposition _ =>
    cases htarget
    exact lengthAt_splice hrecorded hfile hposition hlinks.2 rfl
  | written hrecorded hfile hposition _ _ =>
    cases htarget
    have hopens := (fileAt_eq_ok_iff.mp hfile).1
    refine (lengthAt_resaved ((hopens.keepsWays_put _).avoids hlinks.1) hstate _ _ _).trans ?_
    exact lengthAt_splice hrecorded hfile hposition hlinks.2 rfl
  | unlinked hrecorded _ hcause =>
    obtain ⟨entry, size, used, hentry, hsize, hused⟩ := hv.exists_sub hrecorded
    exact absurd hused (hcause entry size used hentry hsize)
  | deleted hremove _ _ _ _ =>
    cases htarget
    obtain ⟨hremoved, hgone⟩ := reworked_remove hlinks.2 hremove (List.mem_singleton_self _)
    refine (lengthAt_resaved (hremoved.ways.avoids hlinks.1) hstate _ _ _).trans ?_
    exact congrArg (Option.map Content.size) hgone

theorem lengthAt_perform (h : v.Orderly total c) (hlinks : v.AvoidsLinks r.target) (hr : r.place? v = some place)
    (hstate : placeOf v.stateFile ≠ place) :
    r.Resizes v (v.lengthAt place) ((r.perform.on v).2.lengthAt place) (r.met v) := by
  obtain ⟨surplus, -, haudited⟩ := h.solvent.audited
  obtain ⟨name, htarget, rfl⟩ := place?_eq_some hr
  exact (r.perform_outcome v).resizes haudited hlinks htarget hstate

theorem lengthAt_perform_of_ne (hlinks : v.AvoidsLinks r.target) (hr : r.place? v ≠ some place)
    (hstate : placeOf v.stateFile ≠ place) :
    (r.perform.on v).2.lengthAt place = v.lengthAt place := by
  have helsewhere : place ∉ v.placesOf r.target := by
    unfold place? at hr
    unfold placesOf
    split
    next name htarget =>
      rw [htarget] at hr
      rw [List.mem_cons, List.mem_singleton]
      rintro (hplace | hplace)
      · exact hr (congrArg some hplace.symm)
      · exact hstate hplace.symm
    next => exact List.not_mem_nil
  rw [lengthAt, (reworked_perform hlinks).contents place helsewhere, lengthAt]

/-- A request that is not met changes no recorded size. -/
theorem recordedSize_perform_of_unmet (h : r.met v = false) (p : String) :
    (r.perform.on v).2.recordedSize p = v.recordedSize p :=
  ((r.perform_effect v).sameBooks (mt met_iff.mpr (Bool.eq_false_iff.mp h))).recordedSize_eq p

theorem recordedSize_create {name : String} {size : Value} (h : (create (.text name) size).met v = true) :
    ((create (.text name) size).perform.on v).2.recordedSize name = size.int? :=
  Effect.recordedSize_created (met_iff.mp h ▸ perform_effect _ v)

theorem recordedSize_delete {name : String}
    (hpaths : ∀ fields, v.files = .object fields → (Table.keys fields).Nodup)
    (h : (delete (.text name)).met v = true) :
    ((delete (.text name)).perform.on v).2.recordedSize name = none :=
  Effect.recordedSize_deleted (met_iff.mp h ▸ perform_effect _ v) hpaths

/-! ### Files that grow -/

/-- What writes have added behind the end of the file at a place since it was created, after one more
request. -/
def grownBy (v : Volume) (place : Place) (r : Request) (sofar : Nat) : Nat :=
  if r.place? v = some place then
    match r with
    | write _ _ _ => sofar + r.growth v ((v.lengthAt place).getD 0)
    | _ => if r.met v then 0 else sofar
  else sofar

/-- What writes have added behind the end of the file at a place since it was created, after a sequence of
requests. -/
def grown (place : Place) : List Request → Volume → Nat → Nat
  | [], _, sofar => sofar
  | r :: rest, v, sofar => grown place rest (r.perform.on v).2 (r.grownBy v place sofar)

theorem grownBy_of_ne (h : r.place? v ≠ some place) (sofar : Nat) : r.grownBy v place sofar = sofar :=
  if_neg h

theorem grownBy_create {path size : Value} (hplace : (create path size).place? v = some place) (sofar : Nat) :
    (create path size).grownBy v place sofar = if (create path size).met v then 0 else sofar :=
  if_pos hplace

theorem grownBy_delete {path : Value} (hplace : (delete path).place? v = some place) (sofar : Nat) :
    (delete path).grownBy v place sofar = if (delete path).met v then 0 else sofar :=
  if_pos hplace

theorem grownBy_write {path data offset : Value} {n : Nat}
    (hplace : (write path data offset).place? v = some place) (hlength : v.lengthAt place = some n)
    (sofar : Nat) :
    (write path data offset).grownBy v place sofar = sofar + (write path data offset).growth v n := by
  rw [grownBy, if_pos hplace, hlength, Option.getD_some]

end Request

namespace Volume

variable {v : Volume} {total : Value} {c : Num}

/-- The file at a place is no longer than it is recorded to be under some path of the place, but for what
was added. -/
def Covered (v : Volume) (place : Place) (extra : Nat) : Prop :=
  ∀ n, v.lengthAt place = some n → ∀ q, v.place q = place → (v.recordedSize q).isSome →
    ∃ p size, v.place p = place ∧ v.recordedSize p = some size ∧ (n : Int) ≤ size + extra

/-- The file of a path is as long as it is recorded to be, and longer by what was added. -/
def Measured (v : Volume) (q : String) (extra : Nat) : Prop :=
  ∀ size, v.recordedSize q = some size → v.lengthAt (v.place q) = some (size.toNat + extra)

theorem Solvent.recordedSize_nonneg (h : v.Solvent total c) {q : String} {size : Int}
    (hsize : v.recordedSize q = some size) : 0 ≤ size := by
  obtain ⟨surplus, -, fields, hfiles, -, -⟩ := h.audited
  rw [recordedSize_of_files hfiles] at hsize
  obtain ⟨entry, hentry, hnoted⟩ := Option.bind_eq_some_iff.mp hsize
  exact (h.notNegative fields hfiles).find? hentry size hnoted

end Volume

namespace Request

open Volume

variable {v : Volume} {total : Value} {c : Num} {r : Request} {place : Place} {extra : Nat}

theorem place_perform (r : Request) (v : Volume) (name : String) :
    (r.perform.on v).2.place name = v.place name := by
  rw [Volume.place, physicalPath_perform, Volume.place]

theorem place?_perform (r r' : Request) (v : Volume) : r'.place? (r.perform.on v).2 = r'.place? v := by
  unfold place?
  split
  next name _ => rw [place_perform]
  next => rfl

theorem target_ne_of_place? {q : String} (h : r.place? v ≠ some (v.place q)) : r.target ≠ .text q := by
  rintro htarget
  rw [place?, htarget] at h
  exact h rfl

/-- A path that covered the file of a place before a request still does if it keeps its size. -/
theorem exists_covering {q : String} {old n : Nat} (hcovered : v.Covered place extra)
    (hold : v.lengthAt place = some old) (hq : v.place q = place)
    (hrecorded : ((r.perform.on v).2.recordedSize q).isSome)
    (hsizes : ∀ p, v.place p = place → (r.perform.on v).2.recordedSize p = v.recordedSize p)
    (hgrown : n + extra ≤ old + r.grownBy v place extra) :
    ∃ p size, (r.perform.on v).2.place p = place ∧ (r.perform.on v).2.recordedSize p = some size ∧
      (n : Int) ≤ size + (r.grownBy v place extra : Nat) := by
  rw [hsizes q hq] at hrecorded
  obtain ⟨p, size, hp, hsize, hle⟩ := hcovered old hold q hq hrecorded
  exact ⟨p, size, (place_perform r v p).trans hp, (hsizes p hp).trans hsize, by omega⟩

theorem covered_perform (h : v.Orderly total c) (hr : r.AsksNoNegativeSize) (hlinks : v.AvoidsLinks r.target)
    (hstate : placeOf v.stateFile ≠ place) (hcovered : v.Covered place extra) :
    (r.perform.on v).2.Covered place (r.grownBy v place extra) := by
  intro n hn q hq hrecorded
  rw [place_perform] at hq
  by_cases hplace : r.place? v = some place
  · have hresized := lengthAt_perform h hlinks hplace hstate
    obtain ⟨name, htarget, hname⟩ := place?_eq_some hplace
    cases r with
    | create path size =>
      obtain rfl : path = .text name := htarget
      cases hmet : (create (.text name) size).met v with
      | false =>
        have hsizes := recordedSize_perform_of_unmet hmet
        rw [hmet] at hresized
        rcases hresized with hsame | ⟨hempty, -⟩
        · refine exists_covering hcovered (hsame ▸ hn) hq hrecorded (fun p _ => hsizes p) ?_
          rw [grownBy_create hplace, hmet, if_neg nofun]
        · obtain rfl : n = 0 := Option.some.inj (hn.symm.trans hempty)
          obtain ⟨size, hsize⟩ := Option.isSome_iff_exists.mp hrecorded
          have hnonneg := h.solvent.recordedSize_nonneg ((hsizes q).symm.trans hsize)
          exact ⟨q, size, (place_perform _ v q).trans hq, hsize, by omega⟩
      | true =>
        rw [hmet] at hresized
        obtain ⟨m, hint, hnew⟩ := hresized
        obtain rfl : n = m.toNat := Option.some.inj (hn.symm.trans hnew)
        have hnonneg : 0 ≤ m := hr m hint
        exact ⟨name, m, (place_perform _ v name).trans hname,
          (recordedSize_create hmet).trans hint, by omega⟩
    | write path data offset =>
      obtain ⟨m, hold, rfl⟩ := Option.map_eq_some_iff.mp (hresized.symm.trans hn)
      refine exists_covering hcovered hold hq hrecorded (fun p _ => (perform_effect _ v).recordedSize_written p) ?_
      rw [grownBy_write hplace hold]
      omega
    | delete path =>
      cases hmet : (delete path).met v with
      | false =>
        rw [hmet] at hresized
        refine exists_covering hcovered (hresized ▸ hn) hq hrecorded
          (fun p _ => recordedSize_perform_of_unmet hmet p) ?_
        rw [grownBy_delete hplace, hmet, if_neg nofun]
      | true =>
        rw [hmet] at hresized
        cases hn.symm.trans hresized
    | read path size offset => cases htarget
    | list directory => cases htarget
  · rw [lengthAt_perform_of_ne hlinks hplace hstate] at hn
    refine exists_covering hcovered hn hq hrecorded (fun p hp => ?_) (by rw [grownBy_of_ne hplace])
    exact (r.perform_effect v).recordedSize_of_ne (target_ne_of_place? (hp ▸ hplace))

theorem measured_perform {q : String} (h : v.Orderly total c) (hlinks : v.AvoidsLinks r.target)
    (hstate : placeOf v.stateFile ≠ v.place q)
    (halone : r.place? v = some (v.place q) → r.target = .text q ∧ r.Storable)
    (hmeasured : v.Measured q extra) :
    (r.perform.on v).2.Measured q (r.grownBy v (v.place q) extra) := by
  intro size hsize
  rw [place_perform]
  by_cases hplace : r.place? v = some (v.place q)
  · have hresized := lengthAt_perform h hlinks hplace hstate
    obtain ⟨htarget, hstorable⟩ := halone hplace
    cases r with
    | create path asked =>
      obtain rfl : path = .text q := htarget
      rw [grownBy_create hplace]
      cases hmet : (create (.text q) asked).met v with
      | false =>
        rw [hmet] at hresized
        have hsame := hresized.resolve_right fun hempty => hempty.2 hstorable
        rw [recordedSize_perform_of_unmet hmet] at hsize
        rw [hsame, hmeasured size hsize, if_neg nofun]
      | true =>
        rw [hmet] at hresized
        obtain ⟨n, hint, hnew⟩ := hresized
        rw [recordedSize_create hmet, hint] at hsize
        rw [hnew, Option.some.inj hsize, if_pos rfl, Nat.add_zero]
    | write path data offset =>
      rw [(perform_effect _ v).recordedSize_written] at hsize
      have hold := hmeasured size hsize
      rw [show _ = _ from hresized, hold, grownBy_write hplace hold, Option.map_some, Nat.add_assoc]
    | delete path =>
      obtain rfl : path = .text q := htarget
      cases hmet : (delete (.text q)).met v with
      | false =>
        rw [hmet] at hresized
        rw [recordedSize_perform_of_unmet hmet] at hsize
        rw [show _ = _ from hresized, hmeasured size hsize, grownBy_delete hplace, hmet, if_neg nofun]
      | true => cases hsize.symm.trans (recordedSize_delete h.paths hmet)
    | read path size offset => cases htarget
    | list directory => cases htarget
  · rw [(r.perform_effect v).recordedSize_of_ne (target_ne_of_place? hplace)] at hsize
    rw [grownBy_of_ne hplace, lengthAt_perform_of_ne hlinks hplace hstate, hmeasured size hsize]

/-! ### After any requests -/

/-- The file of a path is used under this path only, and no creation asks for more than can be stored. -/
def UsedAlone (v : Volume) (q : String) (requests : List Request) : Prop :=
  ∀ r ∈ requests, r.place? v = some (v.place q) → r.target = .text q ∧ r.Storable

theorem orderly_afterAll (hc : c.isFinite = true) (requests : List Request)
    (hsizes : ∀ r ∈ requests, r.AsksNoNegativeSize) {v : Volume} (h : v.Orderly total c) :
    (afterAll requests v).Orderly total c := by
  induction requests generalizing v with
  | nil => exact h
  | cons r rest ih =>
    have hstep := orderly_perform h hc (hsizes r List.mem_cons_self)
    exact ih (fun r' hr' => hsizes r' (List.mem_cons_of_mem _ hr')) hstep

theorem covered_afterAll (hc : c.isFinite = true) (requests : List Request)
    (hsizes : ∀ r ∈ requests, r.AsksNoNegativeSize) {v : Volume} (h : v.Orderly total c)
    (hlinks : ∀ r ∈ requests, v.AvoidsLinks r.target) (hstate : placeOf v.stateFile ≠ place) {extra : Nat}
    (hcovered : v.Covered place extra) : (afterAll requests v).Covered place (grown place requests v extra) := by
  induction requests generalizing v extra with
  | nil => exact hcovered
  | cons r rest ih =>
    have hr := hsizes r List.mem_cons_self
    have hways := hlinks r List.mem_cons_self
    refine ih (fun r' hr' => hsizes r' (List.mem_cons_of_mem _ hr')) (orderly_perform h hc hr)
      (fun r' hr' => avoidsLinks_perform hways (hlinks r' (List.mem_cons_of_mem _ hr'))) ?_
      (covered_perform h hr hways hstate hcovered)
    rwa [stateFile_perform]

theorem measured_afterAll (hc : c.isFinite = true) (requests : List Request)
    (hsizes : ∀ r ∈ requests, r.AsksNoNegativeSize) {v : Volume} {q : String} (h : v.Orderly total c)
    (hlinks : ∀ r ∈ requests, v.AvoidsLinks r.target) (hstate : placeOf v.stateFile ≠ v.place q)
    (halone : UsedAlone v q requests) {extra : Nat} (hmeasured : v.Measured q extra) :
    (afterAll requests v).Measured q (grown (v.place q) requests v extra) := by
  induction requests generalizing v extra with
  | nil => exact hmeasured
  | cons r rest ih =>
    have hr := hsizes r List.mem_cons_self
    have hways := hlinks r List.mem_cons_self
    have hstep := measured_perform h hways hstate (halone r List.mem_cons_self) hmeasured
    have hrest := ih (fun r' hr' => hsizes r' (List.mem_cons_of_mem _ hr')) (orderly_perform h hc hr)
      (fun r' hr' => avoidsLinks_perform hways (hlinks r' (List.mem_cons_of_mem _ hr')))
      (by rwa [stateFile_perform, place_perform]) ?_ hstep
    · rwa [place_perform] at hrest
    · intro r' hr' hplace'
      rw [place_perform, place?_perform] at hplace'
      exact halone r' (List.mem_cons_of_mem _ hr') hplace'

end Request

namespace Volume

variable {v : Volume}

/-- The places of the recorded files, that of the state file apart. -/
def recordedPlaces (v : Volume) : Finset Place :=
  match v.files with
  | .object fields => (fields.map fun entry => v.place entry.1).toFinset.erase (placeOf v.stateFile)
  | _ => ∅

/-- Amounts at different places that are each within a size recorded at the place are together within all
the recorded sizes. -/
theorem sum_le_recordedBytes {fields : List (String × Value)} (hnoted : NotNegative fields)
    {places : Finset Place} {amount : Place → Int}
    (h : ∀ place ∈ places, amount place ≤ 0 ∨ ∃ entry ∈ fields, v.place entry.1 = place ∧
      amount place ≤ (notedSize? entry.2).getD 0) :
    ∑ place ∈ places, amount place ≤ recordedBytes fields := by
  induction fields generalizing places with
  | nil =>
    refine Finset.sum_nonpos fun place hplace => ?_
    rcases h place hplace with hzero | ⟨entry, hentry, -⟩
    · exact hzero
    · cases hentry
  | cons first rest ih =>
    obtain ⟨name, noted⟩ := first
    have hrest : NotNegative rest := fun entry hentry => hnoted entry (List.mem_cons_of_mem _ hentry)
    -- the first entry serves for its place, if its size is enough, and for no other
    have hserved {place : Place} (hplace : place ∈ places)
        (hother : ¬(v.place name = place ∧ amount place ≤ (notedSize? noted).getD 0)) :
        amount place ≤ 0 ∨ ∃ entry ∈ rest, v.place entry.1 = place ∧
          amount place ≤ (notedSize? entry.2).getD 0 := by
      refine (h place hplace).imp_right ?_
      rintro ⟨entry, hentry, hserves⟩
      rcases List.mem_cons.mp hentry with rfl | hentry
      · exact absurd hserves hother
      · exact ⟨entry, hentry, hserves⟩
    by_cases hfirst : v.place name ∈ places ∧ amount (v.place name) ≤ (notedSize? noted).getD 0
    · rw [← Finset.add_sum_erase places amount hfirst.1]
      refine add_le_add hfirst.2 (ih hrest fun place hplace => ?_)
      obtain ⟨hne, hplace⟩ := Finset.mem_erase.mp hplace
      exact hserved hplace fun hserves => hne hserves.1.symm
    · have hnonneg := hnoted.sizeAt_nonneg name
      rw [sizeAt_cons, if_pos rfl] at hnonneg
      refine (ih hrest fun place hplace => hserved hplace ?_).trans (Int.le_add_of_nonneg_left hnonneg)
      rintro ⟨rfl, hle⟩
      exact hfirst ⟨hplace, hle⟩

/-- Files that are covered take no more bytes than are recorded, but for what was added to each. -/
theorem sum_lengthAt_le {fields : List (String × Value)} {extra : Place → Nat}
    (hfiles : v.files = .object fields) (hsized : Sized fields) (hnoted : NotNegative fields)
    (hcovered : ∀ place, placeOf v.stateFile ≠ place → v.Covered place (extra place)) :
    ∑ place ∈ v.recordedPlaces, ((v.lengthAt place).getD 0 : Int) ≤
      recordedBytes fields + ∑ place ∈ v.recordedPlaces, (extra place : Int) := by
  rw [← sub_le_iff_le_add, ← Finset.sum_sub_distrib]
  refine sum_le_recordedBytes (v := v) hnoted fun place hplace => ?_
  rw [recordedPlaces, hfiles] at hplace
  obtain ⟨hstate, hplace⟩ := Finset.mem_erase.mp hplace
  obtain ⟨entry, hentry, hq⟩ := List.mem_map.mp (List.mem_toFinset.mp hplace)
  cases hlength : v.lengthAt place with
  | none => exact .inl (by simp)
  | some n =>
    have hrecorded : (v.recordedSize entry.1).isSome := by
      obtain ⟨found, hfound⟩ := Option.isSome_iff_exists.mp (Table.has_of_mem hentry)
      obtain ⟨size, hsize⟩ := hsized.find? hfound
      rw [recordedSize_of_files hfiles, hfound, Option.bind_some, hsize, Option.isSome_some]
    obtain ⟨p, size, hp, hsize, hle⟩ := hcovered place hstate.symm n hlength entry.1 hq hrecorded
    rw [recordedSize_of_files hfiles] at hsize
    obtain ⟨noted, hnoted, hsize⟩ := Option.bind_eq_some_iff.mp hsize
    refine .inr ⟨(p, noted), Table.mem_of_find? hnoted, hp, ?_⟩
    rw [hsize, Option.getD_some, Option.getD_some]
    omega

end Volume

namespace Request

open Volume

/-- After any requests to a new volume of finite capacity that ask for no negative size and whose ways meet no link,
a recorded file is no longer than it is recorded to be under some path of its place, but for what writes have added
behind its end since it was created, and exactly so much longer if only one path is used for it. All recorded files
together take no more bytes than are recorded but for what was added, and only the recorded bytes are bounded by the
capacity. -/
theorem stored_bytes_exceed_records_by_growth {v₀ v w : Volume} {root : String} {gigabytes : Value} {c : Num}
    (hopen : (Storing.openAt root gigabytes).on v₀ = (.ok (), v))
    (hnew : v.tree.pathExists v.stateFile = false) (hcapacity : v.capacity.num? = some c) (hfinite : c.isFinite = true)
    (hnonneg : Value.compare .ge v.capacity (.int 0) = .ok true) {requests : List Request}
    (hlinks : ∀ r ∈ requests, v.AvoidsLinks r.target) (hsizes : ∀ r ∈ requests, r.AsksNoNegativeSize)
    (hw : afterAll requests v = w) :
    ∃ fields used, w.files = .object fields ∧ w.used = .int used ∧
      (∀ q, w.recorded (.text q) = .ok true → placeOf w.stateFile ≠ w.place q →
        ∃ size, w.recordedSize q = some size ∧
          (∀ n, w.lengthAt (w.place q) = some n → ∃ p size, w.place p = w.place q ∧
            w.recordedSize p = some size ∧ (n : Int) ≤ size + grown (w.place q) requests v 0) ∧
          (UsedAlone v q requests →
            w.lengthAt (w.place q) = some (size.toNat + grown (w.place q) requests v 0))) ∧
      ∑ place ∈ w.recordedPlaces, ((w.lengthAt place).getD 0 : Int) ≤
        recordedBytes fields + ∑ place ∈ w.recordedPlaces, (grown place requests v 0 : Int) ∧
      recordedBytes fields ≤ used ∧ Value.compare .le (.int used) v.capacity = .ok true := by
  subst hw
  obtain ⟨hused, hfiles⟩ := Storing.openAt_new hopen hnew
  have hnone (q : String) : v.recordedSize q = none := recordedSize_of_files hfiles q
  have hstart : v.Orderly v.capacity c := by
    refine ⟨solvent_of_new hused hfiles hcapacity hfinite hnonneg, fun fields hfields => ?_⟩
    obtain rfl := Value.object.inj (hfiles.symm.trans hfields)
    exact List.nodup_nil
  have hend := orderly_afterAll hfinite requests hsizes hstart
  have hroot := root_afterAll requests v
  have hstate : (afterAll requests v).stateFile = v.stateFile := by rw [stateFile, hroot, stateFile]
  have hcovered (place : Place) (hne : placeOf (afterAll requests v).stateFile ≠ place) :
      (afterAll requests v).Covered place (grown place requests v 0) := by
    refine covered_afterAll hfinite requests hsizes hstart hlinks (hstate ▸ hne) fun n _ q _ hq => ?_
    rw [hnone] at hq
    cases hq
  obtain ⟨fields, used, info, hfiles', hsized, hused', hle, hwithin, -⟩ := hend.solvent.exists_info hfinite
  rw [hused', hend.solvent.capacity_eq] at hwithin
  refine ⟨fields, used, hfiles', hused', fun q hq hne => ?_, ?_, hle, hwithin⟩
  · obtain ⟨entry, hentry⟩ := Option.isSome_iff_exists.mp ((recorded_iff hfiles').mp hq)
    obtain ⟨size, hsize⟩ := hsized.find? hentry
    have hrecorded : (afterAll requests v).recordedSize q = some size := by
      rw [recordedSize_of_files hfiles', hentry, Option.bind_some, hsize]
    refine ⟨size, hrecorded, fun n hn => ?_, fun halone => ?_⟩
    · exact hcovered _ hne n hn q rfl (by rw [hrecorded, Option.isSome_some])
    · have hplace : (afterAll requests v).place q = v.place q := by
        rw [Volume.place, physicalPath, hroot, Volume.place, physicalPath]
      rw [hstate, hplace] at hne
      have hmeasured : (afterAll requests v).Measured q (grown (v.place q) requests v 0) := by
        refine measured_afterAll hfinite requests hsizes hstart hlinks hne halone fun size hsize => ?_
        rw [hnone] at hsize
        cases hsize
      rw [hmeasured size hrecorded, hplace]
  · exact sum_lengthAt_le hfiles' hsized (hend.solvent.notNegative fields hfiles') hcovered

/-- Two files, both written to past their ends, the first one twice. -/
def growingRequests : List Request :=
  [.create (.text "/a") (.int 2), .write (.text "/a") (.bytes #[7, 7, 7, 7, 7]) (.int 1),
    .create (.text "/d\\b") (.int 3), .write (.text "/a") (.bytes #[7]) (.int 15),
    .write (.text "/d\\b") (.bytes #[7, 7]) (.int 2), .create (.text "/a") (.int 9)]

def grownVolume : Volume :=
  afterAll growingRequests fractionalVolume

theorem grownVolume_exceeds_records_by_growth :
    (Storing.openAt "/v" (.double ⟨0x3E45000000000000⟩)).on { root := "" } = (.ok (), fractionalVolume) ∧
    fractionalVolume.tree.pathExists fractionalVolume.stateFile = false ∧
    (∀ r ∈ growingRequests, fractionalVolume.AvoidsLinks r.target) ∧
    fractionalVolume.capacity.num? = some (.double ⟨0x4025000000000000⟩) ∧
    Value.compare .ge fractionalVolume.capacity (.int 0) = .ok true ∧
    (∀ r ∈ growingRequests, r.AsksNoNegativeSize) ∧ UsedAlone fractionalVolume "/a" growingRequests ∧
    grownVolume.recorded (.text "/a") = .ok true ∧
    (∃ size, grownVolume.recordedSize "/a" = some size ∧
      grownVolume.lengthAt (grownVolume.place "/a") = some (size.toNat + 14)) ∧
    ∃ fields, grownVolume.files = .object fields ∧
      ∑ place ∈ grownVolume.recordedPlaces, ((grownVolume.lengthAt place).getD 0 : Int) ≤
        recordedBytes fields + 15 := by
  have hopen : (Storing.openAt "/v" (.double ⟨0x3E45000000000000⟩)).on { root := "" } =
      (.ok (), fractionalVolume) :=
    Prod.ext (eq_ok_of_toOption (by decide +kernel)) rfl
  obtain ⟨hnew, hlinks, hcapacity, hnonneg, hapart⟩ :
      fractionalVolume.tree.pathExists fractionalVolume.stateFile = false ∧
      (∀ r ∈ growingRequests, fractionalVolume.AvoidsLinks r.target) ∧
      fractionalVolume.capacity.num? = some (.double ⟨0x4025000000000000⟩) ∧
      (Value.compare .ge fractionalVolume.capacity (.int 0)).toOption = some true ∧
      fractionalVolume.place "/d\\b" ≠ fractionalVolume.place "/a" := by
    decide +kernel
  obtain ⟨hrecorded, hstate, hgrown, hall⟩ :
      (grownVolume.recorded (.text "/a")).toOption = some true ∧
      placeOf grownVolume.stateFile ≠ grownVolume.place "/a" ∧
      grown (grownVolume.place "/a") growingRequests fractionalVolume 0 = 14 ∧
      ∑ place ∈ grownVolume.recordedPlaces, (grown place growingRequests fractionalVolume 0 : Int) = 15 := by
    decide +kernel
  have hnonneg := eq_ok_of_toOption hnonneg
  have hrecorded := eq_ok_of_toOption hrecorded
  have hsizes : ∀ r ∈ growingRequests, r.AsksNoNegativeSize := by decide
  have halone : UsedAlone fractionalVolume "/a" growingRequests := by
    intro r hr hplace
    simp only [growingRequests, List.mem_cons, List.not_mem_nil, or_false] at hr
    rcases hr with rfl | rfl | rfl | rfl | rfl | rfl
    · exact ⟨rfl, _, rfl⟩
    · exact ⟨rfl, trivial⟩
    · exact absurd (Option.some.inj hplace) hapart
    · exact ⟨rfl, trivial⟩
    · exact absurd (Option.some.inj hplace) hapart
    · exact ⟨rfl, _, rfl⟩
  have hw : afterAll growingRequests fractionalVolume = grownVolume := rfl
  obtain ⟨fields, used, hfiles, -, hfile, hsum, -⟩ := stored_bytes_exceed_records_by_growth hopen hnew
    hcapacity (by decide) hnonneg hlinks hsizes hw
  obtain ⟨size, hsize, -, hlength⟩ := hfile "/a" hrecorded hstate
  have hlength := hlength halone
  rw [hgrown] at hlength
  rw [hall] at hsum
  exact ⟨hopen, hnew, hlinks, hcapacity, hnonneg, hsizes, halone, hrecorded, ⟨size, hsize, hlength⟩,
    fields, hfiles, hsum⟩

/-- One file under two names, and a file that is created once more with a size that none can have. -/
def mismeasuredVolume : Volume :=
  afterAll [.create (.text "/a") (.int 2), .create (.text "a") (.int 5), .create (.text "/b") (.int 2),
    .create (.text "/b") (.double ⟨0x3FF8000000000000⟩)] newVolume

/-- A recorded file can be longer than its size and than the capacity if it is written to, longer than its
size if it is created under another path, and empty if it is created in vain. -/
theorem stored_bytes_exceed_capacity :
    (grownVolume.recordedSize "/a" = some 2 ∧ grownVolume.lengthAt (grownVolume.place "/a") = some 16 ∧
      grownVolume.used.int? = some 5 ∧ Value.compare .gt (.int 16) grownVolume.capacity = .ok true) ∧
    mismeasuredVolume.recordedSize "/a" = some 2 ∧
      mismeasuredVolume.lengthAt (mismeasuredVolume.place "/a") = some 5 ∧
    mismeasuredVolume.recordedSize "/b" = some 2 ∧
      mismeasuredVolume.lengthAt (mismeasuredVolume.place "/b") = some 0 := by
  obtain ⟨hsize, hlength, hused, hfull⟩ :
      grownVolume.recordedSize "/a" = some 2 ∧ grownVolume.lengthAt (grownVolume.place "/a") = some 16 ∧
      grownVolume.used.int? = some 5 ∧
      (Value.compare .gt (.int 16) grownVolume.capacity).toOption = some true := by
    decide +kernel
  exact ⟨⟨hsize, hlength, hused, eq_ok_of_toOption hfull⟩, by decide +kernel⟩

end Request

end Handset
