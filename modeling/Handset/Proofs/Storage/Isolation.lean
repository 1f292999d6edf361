import Handset.Proofs.Storage.Accounting

/-!
# Which files a request can change

A volume records its files by the paths that it was given, but keeps them in a file tree, where many paths
lead to one place: a leading slash is dropped, backslashes are slashes, and `.`, `..` and repeated slashes
do not count. A request changes the content at two places at most, that of its path and that of the state
file.
-/
namespace Handset

open Step FileTree

namespace Volume

/-- The places where a request for a path can change the content. -/
def placesOf (v : Volume) : Value → List Place
  | .text name => [placeOf (v.physicalPath name), placeOf v.stateFile]
  | _ => []

theorem place_mem_placesOf (v : Volume) (name : String) :
    placeOf (v.physicalPath name) ∈ v.placesOf (.text name) := List.mem_cons_self

theorem stateFile_mem_placesOf (v : Volume) (name : String) :
    placeOf v.stateFile ∈ v.placesOf (.text name) := List.mem_cons_of_mem _ List.mem_cons_self

/-- No link stands on the ways of the state file and of the path that a request is for. -/
def AvoidsLinks (v : Volume) : Value → Prop
  | .text name => v.tree.Avoids v.stateFile ∧ v.tree.Avoids (v.physicalPath name)
  | _ => True

instance (v : Volume) : DecidablePred v.AvoidsLinks
  | .text _ => inferInstanceAs (Decidable (_ ∧ _))
  | .none | .bool _ | .int _ | .double _ | .bytes _ | .list _ | .object _ => isTrue trivial

variable {v w : Volume} {places : List Place}

theorem keepsWays_savedTree (v : Volume) : KeepsWays v.tree v.savedTree := by
  rcases v.savedTree_cases with hsame | ⟨spot, hopens, hput⟩
  · rw [hsame]
    exact .refl v.tree
  · rw [hput]
    exact hopens.keepsWays_put _

/-- Saving the books changes the content of the state file only. -/
theorem reworked_savedTree (hv : v.tree.Avoids v.stateFile) (hplace : placeOf v.stateFile ∈ places) :
    Reworked places v.tree v.savedTree := by
  rcases v.savedTree_cases with hsame | ⟨spot, hopens, hput⟩
  · rw [hsame]
    exact .refl places v.tree
  · rw [hput]
    exact hopens.reworked_put hv hplace _

theorem contentAt_resaved {tree : FileTree} {place : Place} (hv : tree.Avoids v.stateFile)
    (hne : placeOf v.stateFile ≠ place) (used files : Value) (log : Log) :
    (resaved { v with tree, used, files } log).tree.contentAt place = tree.contentAt place := by
  have hsaved := reworked_savedTree (v := { v with tree, used, files }) hv (List.mem_singleton_self _)
  exact hsaved.contents place fun hmem => hne (List.mem_singleton.mp hmem).symm

/-- A file that is made changes the content at its place only. -/
theorem reworked_preparedTree_put {name : String} {place : Place} (hv : v.AvoidsLinks (.text name))
    (hopens : (v.preparedTree name).Opens (v.physicalPath name) place) (content : Content) :
    Reworked (v.placesOf (.text name)) v.tree ((v.preparedTree name).put place (.file content)) := by
  have hprepared := v.addsDirectories_preparedTree name
  exact hprepared.reworked.trans
    (hopens.reworked_put (hprepared.keepsWays.avoids hv.2) (v.place_mem_placesOf name) content)

theorem reworked_put_of_fileAt {name : String} {place : Place} {content : Content}
    (hv : v.AvoidsLinks (.text name)) (hfile : v.tree.fileAt (v.physicalPath name) = .ok (place, content))
    (content' : Content) : Reworked (v.placesOf (.text name)) v.tree (v.tree.put place (.file content')) :=
  (fileAt_eq_ok_iff.mp hfile).1.reworked_put hv.2 (v.place_mem_placesOf name) content'

/-- A change that spares all but the places of a path still does once the books have been saved. -/
theorem reworked_resaved {name : String} {tree : FileTree} (hv : v.AvoidsLinks (.text name))
    (h : Reworked (v.placesOf (.text name)) v.tree tree) (used files : Value) (log : Log) :
    Reworked (v.placesOf (.text name)) v.tree (resaved { v with tree, used, files } log).tree :=
  h.trans (reworked_savedTree (v := { v with tree, used, files }) (h.ways.avoids hv.1) (v.stateFile_mem_placesOf name))

end Volume

namespace Storing

open Volume

variable {v : Volume} {name : String}

def excerpt (content : Content) (size offset : Value) : Except Fault Bytes := do
  let position ← Volume.position offset
  let rest := content.drop position
  let count ← Volume.amount size rest.size
  pure (rest.take count).toBytes

/-- Reading a recorded path answers from the content at its place, and nothing if there is none. -/
theorem read_answer (size offset : Value) (hrecorded : v.recorded (.text name) = .ok true)
    (hreaches : v.tree.Reaches (v.physicalPath name)) :
    ((read (.text name) size offset).on v).1 =
      .ok ((v.tree.contentAt (placeOf (v.physicalPath name))).bind fun content =>
        (excerpt content size offset).toOption) := by
  have hfile := hreaches.fileAt
  generalize placeOf (v.physicalPath name) = place at hfile ⊢
  generalize hanswer :
    ((v.tree.contentAt place).bind fun content => (excerpt content size offset).toOption) = answer
  have hread : Ends v (read (.text name) size offset) fun r _ => r = .ok answer := by
    unfold read onRecorded
    refine ends_get_bind (ends_lift_bind_of_ok hrecorded (ends_lift_bind_of_ok rfl ?_))
    refine ends_attempt (Q := fun r _ => r.toOption.join = answer) (ends_get_bind ?_)
      (fun a _ ha => congrArg Except.ok ha) fun _ _ _ ha => congrArg Except.ok ha
    cases hfound : v.tree.fileAt (v.physicalPath name) with
    | error e =>
      rw [hfound] at hfile
      rw [Option.map_eq_none_iff.mp hfile.symm] at hanswer
      exact hanswer
    | ok found =>
      rw [hfound] at hfile
      obtain ⟨content, hcontent, rfl⟩ := Option.map_eq_some_iff.mp hfile.symm
      rw [hcontent] at hanswer
      have hexcerpt : (excerpt content size offset).toOption = answer := hanswer
      unfold excerpt at hexcerpt
      refine ends_lift_bind_of_ok rfl ?_
      cases hposition : Volume.position offset with
      | error e =>
        rw [hposition] at hexcerpt
        exact hexcerpt
      | ok position =>
        rw [hposition] at hexcerpt
        refine ends_lift_bind_of_ok rfl ?_
        dsimp only
        cases hamount : Volume.amount size (content.drop position).size with
        | error e =>
          simp only [bind, Except.bind, hamount] at hexcerpt
          exact hexcerpt
        | ok count =>
          simp only [bind, Except.bind, hamount] at hexcerpt
          exact hexcerpt
  exact hread

end Storing

namespace Volume

variable {v w : Volume} {p q : String}

/-- All recorded paths lead to their places. -/
def Settled (v : Volume) : Prop :=
  ∀ name, v.recorded (.text name) = .ok true → v.tree.Reaches (v.physicalPath name)

/-- Recorded paths are read alike where their places hold the same content. -/
theorem Settled.read_congr (hv : v.Settled) (hw : w.Settled) (hp : v.recorded (.text p) = .ok true)
    (hq : w.recorded (.text q) = .ok true)
    (hcontent : v.tree.contentAt (placeOf (v.physicalPath p)) =
      w.tree.contentAt (placeOf (w.physicalPath q)))
    (size offset : Value) :
    ((Storing.read (.text p) size offset).on v).1 = ((Storing.read (.text q) size offset).on w).1 := by
  rw [Storing.read_answer size offset hp (hv p hp), Storing.read_answer size offset hq (hw q hq), hcontent]

theorem recorded_iff {fields : List (String × Value)} (h : v.files = .object fields) :
    v.recorded (.text q) = .ok true ↔ Table.has fields q = true := by
  unfold recorded
  rw [h]
  exact ⟨Except.ok.inj, congrArg Except.ok⟩

theorem SameBooks.recorded_iff (hw : v.SameBooks w) :
    w.recorded (.text q) = .ok true ↔ v.recorded (.text q) = .ok true := by
  obtain ⟨tree, log, rfl⟩ := hw
  exact Iff.rfl

theorem Created.recorded_iff {path size : Value} (hw : v.Created path size w) :
    w.recorded (.text q) = .ok true ↔ path = .text q ∨ v.recorded (.text q) = .ok true := by
  obtain ⟨tree, log, hfiles, rfl, -, -, -⟩ := hw
  rw [Volume.recorded_iff rfl, Volume.recorded_iff hfiles, Table.has_put, Bool.or_eq_true, beq_iff_eq,
    Value.text.injEq]

theorem Touched.recorded_iff {path : Value} (hw : v.Touched path w) :
    w.recorded (.text q) = .ok true ↔ v.recorded (.text q) = .ok true := by
  obtain ⟨tree, log, hfiles, rfl, hentry⟩ := hw
  rw [Volume.recorded_iff rfl, Volume.recorded_iff hfiles, Table.has_put, Bool.or_eq_true, beq_iff_eq,
    or_iff_right_iff_imp]
  rintro rfl
  rw [Table.has, hentry, Option.isSome_some]

theorem Deleted.recorded {path : Value} (hw : v.Deleted path w) (h : w.recorded (.text q) = .ok true) :
    v.recorded (.text q) = .ok true := by
  obtain ⟨tree, log, hfiles, rfl, -, -, -⟩ := hw
  rw [recorded_iff rfl] at h
  rw [recorded_iff hfiles]
  exact Table.has_of_has_remove h

theorem Deleted.recorded_of_ne {path : Value} (hw : v.Deleted path w) (hne : path ≠ .text q)
    (h : v.recorded (.text q) = .ok true) : w.recorded (.text q) = .ok true := by
  obtain ⟨tree, log, hfiles, rfl, -, -, -⟩ := hw
  rw [recorded_iff hfiles] at h
  rw [recorded_iff rfl, Table.has, Table.find?_remove_of_ne _ fun hname => hne (congrArg Value.text hname)]
  exact h

end Volume

namespace Request

open Volume

variable {v w : Volume} {r : Request} {answer : Except Fault Bool}

/-- A request changes the content at the place of its path and at that of the state file only. -/
theorem Outcome.reworked (h : r.Outcome v answer w) (hv : v.AvoidsLinks r.target) :
    Reworked (v.placesOf r.target) v.tree w.tree := by
  cases h with
  | looked _ | refused _ _ => exact .refl _ v.tree
  | prepared _ => exact (v.addsDirectories_preparedTree _).reworked
  | emptied hopens _ | unrecorded hopens _ => exact reworked_preparedTree_put hv hopens _
  | created hopens _ _ _ _ _ => exact reworked_resaved hv (reworked_preparedTree_put hv hopens _) _ _ _
  | spliced _ hfile _ _ => exact reworked_put_of_fileAt hv hfile _
  | written _ hfile _ _ _ => exact reworked_resaved hv (reworked_put_of_fileAt hv hfile _) _ _ _
  | unlinked _ hremove _ => exact (reworked_remove hv.2 hremove (v.place_mem_placesOf _)).1
  | deleted hremove _ _ _ _ =>
    exact reworked_resaved hv (reworked_remove hv.2 hremove (v.place_mem_placesOf _)).1 _ _ _

theorem reworked_perform (hv : v.AvoidsLinks r.target) :
    Reworked (v.placesOf r.target) v.tree (r.perform.on v).2.tree :=
  (r.perform_outcome v).reworked hv

theorem avoidsLinks_perform (hv : v.AvoidsLinks r.target) {path : Value} (h : v.AvoidsLinks path) :
    (r.perform.on v).2.AvoidsLinks path := by
  have hways := (reworked_perform hv).ways
  cases path with
  | text name =>
    rw [AvoidsLinks, stateFile_perform, physicalPath_perform]
    exact ⟨hways.avoids h.1, hways.avoids h.2⟩
  | _ => trivial

/-- A creation that is met has made its path lead to its place. -/
theorem Outcome.reaches {name : String} {size : Value} (h : (create (.text name) size).Outcome v (.ok true) w)
    (hv : v.tree.Avoids (v.physicalPath name)) : w.tree.Reaches (v.physicalPath name) := by
  cases h with
  | looked hr => cases hr
  | refused hanswer _ | prepared hanswer => exact absurd rfl hanswer
  | created hopens _ _ _ _ _ =>
    have hprepared := (v.addsDirectories_preparedTree name).keepsWays.avoids hv
    refine (hopens.reaches hprepared).persists (KeepsWays.trans ?_ (keepsWays_savedTree _))
    exact hopens.keepsWays_put _

/-- A path that is recorded after a request was recorded before, or it has just been created. -/
theorem Effect.recorded_before {name : String} (h : r.Effect v answer w) (hname : w.recorded (.text name) = .ok true) :
    v.recorded (.text name) = .ok true ∨ ∃ size, r = .create (.text name) size ∧ answer = .ok true := by
  cases h with
  | same _ hsame => exact .inl (hsame.recorded_iff.mp hname)
  | created hdone =>
    rcases hdone.recorded_iff.mp hname with rfl | hold
    · exact .inr ⟨_, rfl, rfl⟩
    · exact .inl hold
  | touched hdone => exact .inl (hdone.recorded_iff.mp hname)
  | deleted hdone => exact .inl (hdone.recorded hname)

/-- Only the path that a request is for can be recorded no more after it. -/
theorem Effect.recorded_after {name : String} (h : r.Effect v answer w) (hne : r.target ≠ .text name)
    (hname : v.recorded (.text name) = .ok true) : w.recorded (.text name) = .ok true := by
  cases h with
  | same _ hsame => exact hsame.recorded_iff.mpr hname
  | created hdone => exact hdone.recorded_iff.mpr (.inr hname)
  | touched hdone => exact hdone.recorded_iff.mpr hname
  | deleted hdone => exact hdone.recorded_of_ne hne hname

theorem settled_perform (h : v.Settled) (hv : v.AvoidsLinks r.target) : (r.perform.on v).2.Settled := by
  intro name hname
  rw [physicalPath_perform]
  rcases (r.perform_effect v).recorded_before hname with hold | ⟨size, rfl, hmet⟩
  · exact (h name hold).persists (reworked_perform hv).ways
  · have hcreated := perform_outcome (.create (.text name) size) v
    unfold Ends at hcreated
    rw [hmet] at hcreated
    exact hcreated.reaches hv.2

/-- What holds at first and is kept by every request that meets no link holds after all of them, and links stand on
no more ways than at first. -/
theorem afterAll_induction {P : Volume → Prop} (requests : List Request)
    (hstep : ∀ r ∈ requests, ∀ v : Volume, P v → v.AvoidsLinks r.target → P (r.perform.on v).2)
    (hv : ∀ r ∈ requests, v.AvoidsLinks r.target) (h : P v) :
    P (afterAll requests v) ∧ ∀ path, v.AvoidsLinks path → (afterAll requests v).AvoidsLinks path := by
  induction requests generalizing v with
  | nil => exact ⟨h, fun _ hpath => hpath⟩
  | cons r rest ih =>
    have hr := hv r List.mem_cons_self
    have hrest := ih (fun r' hr' => hstep r' (List.mem_cons_of_mem _ hr'))
      (fun r' hr' => avoidsLinks_perform hr (hv r' (List.mem_cons_of_mem _ hr'))) (hstep r List.mem_cons_self v h hr)
    exact ⟨hrest.1, fun path hpath => hrest.2 path (avoidsLinks_perform hr hpath)⟩

/-- A request for one path changes nothing that is read under a recorded path of another place. -/
theorem read_after_request (hw : w.Settled) {p q : String} (hlinks : w.AvoidsLinks (.text p))
    (hq : w.recorded (.text q) = .ok true)
    (hplaces : placeOf (w.physicalPath p) ≠ placeOf (w.physicalPath q))
    (hstate : placeOf w.stateFile ≠ placeOf (w.physicalPath q)) (hr : r.target = .text p) (size offset : Value) :
    ((Storing.read (.text q) size offset).on (r.perform.on w).2).1 =
      ((Storing.read (.text q) size offset).on w).1 := by
  rw [← hr] at hlinks
  have hother : r.target ≠ .text q := by
    rw [hr]
    rintro hname
    exact hplaces (by rw [Value.text.inj hname])
  have helsewhere : placeOf (w.physicalPath q) ∉ w.placesOf r.target := by
    rw [hr, placesOf, List.mem_cons, List.mem_singleton]
    exact not_or.mpr ⟨hplaces.symm, hstate.symm⟩
  refine (settled_perform hw hlinks).read_congr hw ((r.perform_effect w).recorded_after hother hq) hq ?_ size offset
  rw [physicalPath_perform, (reworked_perform hlinks).contents _ helsewhere]

/-- After any requests to a new volume whose ways meet no link, two recorded paths of one place are read alike, and no
creation, writing or deletion of a path whose way meets no link changes what is read under a recorded path of another
place, unless that is the place of the state file. -/
theorem recorded_paths_share_places {v₀ v : Volume} {root : String} {gigabytes : Value}
    (hopen : (Storing.openAt root gigabytes).on v₀ = (.ok (), v))
    (hnew : v.tree.pathExists v.stateFile = false) (requests : List Request)
    (hlinks : ∀ r ∈ requests, v.AvoidsLinks r.target)
    {q : String} (hq : (afterAll requests v).recorded (.text q) = .ok true) (p : String) :
    (placeOf ((afterAll requests v).physicalPath p) = placeOf ((afterAll requests v).physicalPath q) →
      (afterAll requests v).recorded (.text p) = .ok true → ∀ size offset,
        ((Storing.read (.text p) size offset).on (afterAll requests v)).1 =
          ((Storing.read (.text q) size offset).on (afterAll requests v)).1) ∧
    (v.AvoidsLinks (.text p) →
      placeOf ((afterAll requests v).physicalPath p) ≠ placeOf ((afterAll requests v).physicalPath q) →
      placeOf (afterAll requests v).stateFile ≠ placeOf ((afterAll requests v).physicalPath q) →
      ∀ r : Request, r.target = .text p → ∀ size offset,
        ((Storing.read (.text q) size offset).on (r.perform.on (afterAll requests v)).2).1 =
          ((Storing.read (.text q) size offset).on (afterAll requests v)).1) := by
  obtain ⟨-, hfiles⟩ := Storing.openAt_new hopen hnew
  have hstart : v.Settled := by
    intro name hname
    rw [recorded_iff hfiles] at hname
    cases hname
  obtain ⟨hend, hways⟩ := afterAll_induction requests (fun _ _ _ => settled_perform) hlinks hstart
  constructor
  · intro hsame hp size offset
    exact hend.read_congr hend hp hq (by rw [hsame]) size offset
  · intro hp hplaces hstate r hr size offset
    exact read_after_request hend (hways _ hp) hq hplaces hstate hr size offset

/-- Two names for one file, and a file of its own in a directory. -/
def aliasedCreations : List Request :=
  [.create (.text "/a") (.int 2), .create (.text "a") (.int 2), .create (.text "/d\\b") (.int 2)]

def aliasedVolume : Volume :=
  afterAll aliasedCreations newVolume

theorem aliasedCreations_share_place :
    (Storing.openAt "/v" (.int 1)).on { root := "" } = (.ok (), newVolume) ∧
    newVolume.tree.pathExists newVolume.stateFile = false ∧
    (∀ r ∈ aliasedCreations, newVolume.AvoidsLinks r.target) ∧
    aliasedVolume.recorded (.text "/a") = .ok true ∧ aliasedVolume.recorded (.text "a") = .ok true ∧
    aliasedVolume.recorded (.text "/d\\b") = .ok true ∧
    (∀ size offset, ((Storing.read (.text "/a") size offset).on aliasedVolume).1 =
      ((Storing.read (.text "a") size offset).on aliasedVolume).1) ∧
    ∀ data size offset,
      ((Storing.read (.text "/d\\b") size offset).on
        ((Request.write (.text "/a") data (.int 0)).perform.on aliasedVolume).2).1 =
      ((Storing.read (.text "/d\\b") size offset).on aliasedVolume).1 := by
  have hopen : (Storing.openAt "/v" (.int 1)).on { root := "" } = (.ok (), newVolume) :=
    Prod.ext (eq_ok_of_toOption (by decide +kernel)) rfl
  have hnew : newVolume.tree.pathExists newVolume.stateFile = false := by decide +kernel
  have hlinks : ∀ r ∈ aliasedCreations, newVolume.AvoidsLinks r.target := by decide +kernel
  -- one evaluation of the volume serves for all that is to be looked up in it
  obtain ⟨hslash, hplain, hother, hshared, happart, hstate⟩ :
      (aliasedVolume.recorded (.text "/a")).toOption = some true ∧
      (aliasedVolume.recorded (.text "a")).toOption = some true ∧
      (aliasedVolume.recorded (.text "/d\\b")).toOption = some true ∧
      placeOf (aliasedVolume.physicalPath "/a") = placeOf (aliasedVolume.physicalPath "a") ∧
      placeOf (aliasedVolume.physicalPath "/a") ≠ placeOf (aliasedVolume.physicalPath "/d\\b") ∧
      placeOf aliasedVolume.stateFile ≠ placeOf (aliasedVolume.physicalPath "/d\\b") := by
    decide +kernel
  have hslash := eq_ok_of_toOption hslash
  have hplain := eq_ok_of_toOption hplain
  have hother := eq_ok_of_toOption hother
  have halike := (recorded_paths_share_places hopen hnew aliasedCreations hlinks hplain "/a").1 hshared hslash
  have hisolated := (recorded_paths_share_places hopen hnew aliasedCreations hlinks hother "/a").2
    (hlinks (.create (.text "/a") (.int 2)) List.mem_cons_self) happart hstate
  exact ⟨hopen, hnew, hlinks, hslash, hplain, hother, halike,
    fun data => hisolated (.write (.text "/a") data (.int 0)) rfl⟩

/-- A file, and another one in the place of the state file. -/
def exposedVolume : Volume :=
  afterAll [.create (.text "/a") (.int 2), .create (.text "/.storage_state.json") (.int 2)] newVolume

/-- Neither exception can be left out: writing to one name of a file changes what is read under the other
one, and a creation changes what is read under the name of the state file. -/
theorem recorded_paths_interfere :
    (aliasedVolume.recorded (.text "/a") = .ok true ∧ aliasedVolume.recorded (.text "a") = .ok true ∧
      ((Storing.read (.text "a") (.int (-1)) (.int 0)).on aliasedVolume).1 = .ok (some #[0, 0]) ∧
      ((Storing.read (.text "a") (.int (-1)) (.int 0)).on
        ((Storing.write (.text "/a") (.bytes #[7, 7]) (.int 0)).on aliasedVolume).2).1 =
        .ok (some #[7, 7])) ∧
    (exposedVolume.recorded (.text "/a") = .ok true ∧
      exposedVolume.recorded (.text "/.storage_state.json") = .ok true ∧
      ((Storing.read (.text "/.storage_state.json") (.int (-1)) (.int 0)).on
        ((Storing.create (.text "/a") (.int 9)).on exposedVolume).2).1 ≠
      ((Storing.read (.text "/.storage_state.json") (.int (-1)) (.int 0)).on exposedVolume).1) := by
  obtain ⟨hslash, hplain, hbefore, hafter⟩ :
      (aliasedVolume.recorded (.text "/a")).toOption = some true ∧
      (aliasedVolume.recorded (.text "a")).toOption = some true ∧
      ((Storing.read (.text "a") (.int (-1)) (.int 0)).on aliasedVolume).1.toOption = some (some #[0, 0]) ∧
      ((Storing.read (.text "a") (.int (-1)) (.int 0)).on
        ((Storing.write (.text "/a") (.bytes #[7, 7]) (.int 0)).on aliasedVolume).2).1.toOption =
        some (some #[7, 7]) := by
    decide +kernel
  obtain ⟨hfile, hstate, hchanged⟩ :
      (exposedVolume.recorded (.text "/a")).toOption = some true ∧
      (exposedVolume.recorded (.text "/.storage_state.json")).toOption = some true ∧
      ((Storing.read (.text "/.storage_state.json") (.int (-1)) (.int 0)).on
        ((Storing.create (.text "/a") (.int 9)).on exposedVolume).2).1.toOption ≠
      ((Storing.read (.text "/.storage_state.json") (.int (-1)) (.int 0)).on exposedVolume).1.toOption := by
    decide +kernel
  refine ⟨⟨eq_ok_of_toOption hslash, eq_ok_of_toOption hplain, eq_ok_of_toOption hbefore,
    eq_ok_of_toOption hafter⟩, eq_ok_of_toOption hfile, eq_ok_of_toOption hstate, fun hsame => ?_⟩
  exact hchanged (congrArg Except.toOption hsame)

end Request

end Handset
