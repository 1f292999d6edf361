import Handset.Proofs.Storage.StateFile

/-!
# Books survive the volume

Every request that changes the books of a volume saves them, and one that changes nothing leaves the state file
as it is, as long as no request leads to the state file or through it. Opening the directory again then gives a
volume that has the same books and reads the same files. The proof follows one invariant through the requests:
books that can be written are those that the state file holds.
-/
namespace Handset

open Step FileTree

namespace Volume

variable {v w : Volume} {tree : FileTree}

/-! ### What a request does to the state file -/

/-- The tree has come out of the volume's by changes elsewhere than at the state file. -/
structure Spares (v : Volume) (tree : FileTree) : Prop where
  ways : KeepsWays v.tree tree
  node_eq : tree.node? (placeOf v.stateFile) = v.tree.node? (placeOf v.stateFile)

theorem Spares.refl (v : Volume) : v.Spares v.tree := ⟨.refl v.tree, rfl⟩

theorem Spares.put (h : v.Spares tree) {path : String} {place : Place} (hopens : tree.Opens path place)
    (hlinks : v.tree.Avoids path) (haway : Away (placeOf v.stateFile) path) (content : Content) :
    v.Spares (tree.put place (.file content)) := by
  refine ⟨h.ways.trans (hopens.keepsWays_put content), ?_⟩
  rw [hopens.node?_put, if_neg, h.node_eq]
  rw [hopens.eq_placeOf (h.ways.avoids hlinks)]
  exact haway.placeOf_ne

/-- The state file is not among the directories that are made. -/
theorem spares_preparedTree {name : String} (hlinks : v.tree.Avoids (v.physicalPath name))
    (haway : Away (placeOf v.stateFile) (v.physicalPath name)) : v.Spares (v.preparedTree name) := by
  refine ⟨(v.addsDirectories_preparedTree name).keepsWays, ?_⟩
  have habove := names_dirName_initial (v.physicalPath name)
  unfold preparedTree
  split
  · rfl
  · exact node?_makeDirectories false (hlinks.of_initial habove) (haway.of_initial habove)

theorem spares_remove {path : String} (hlinks : v.tree.Avoids path) (haway : Away (placeOf v.stateFile) path)
    (hremove : v.tree.remove path = .ok tree) : v.Spares tree := by
  obtain ⟨⟨content, hnode⟩, rfl⟩ := exists_of_remove hlinks hremove
  refine ⟨keepsWays_without hnode, ?_⟩
  rw [node?_without (ne_nil_of_node? (t := v.tree) (by simp [hnode])), if_neg haway.placeOf_ne]

theorem Spares.ready (h : v.Spares tree) (hv : v.Ready) (hroot : w.root = v.root) (htree : w.tree = tree) :
    w.Ready := by
  have hstate : w.stateFile = v.stateFile := by rw [stateFile, hroot, stateFile]
  rw [← htree] at h
  refine ⟨?_, ?_⟩
  · rw [hstate]
    exact h.ways.avoids hv.avoids
  · rw [hstate]
    refine hv.opens.persists h.ways ?_
    rw [h.node_eq]
    exact hv.opens.free

/-- The books have been saved, or they are the same and the state file is as it was. -/
structure Kept (v w : Volume) : Prop where
  ready : w.Ready
  books : w.Saved ∨ v.SameBooks w ∧ w.savedContent = v.savedContent

theorem Spares.saved (h : v.Spares tree) (hv : v.Ready) (used files : Value) (log : Log) :
    v.Kept (resaved { v with tree, used, files } log) := by
  have hready : ({ v with tree, used, files } : Volume).Ready := h.ready hv rfl rfl
  exact ⟨(hready.resaved log).1, .inl (hready.resaved log).2⟩

theorem Spares.unsaved (h : v.Spares tree) (hv : v.Ready) (log : Log) : v.Kept { v with tree, log } := by
  refine ⟨h.ready hv rfl rfl, .inr ⟨⟨tree, log, rfl⟩, ?_⟩⟩
  have hnode := h.node_eq
  rw [savedContent, savedContent, contentAt, contentAt, ← hnode]
  rfl

end Volume

namespace Request

open Volume

variable {v w : Volume} {r : Request} {answer : Except Fault Bool}

/-- No part of the way to the request's path is the state file. -/
def AwayFromState (v : Volume) (r : Request) : Prop :=
  ∀ name, r.target = .text name → Away (placeOf v.stateFile) (v.physicalPath name)

theorem Outcome.kept (h : r.Outcome v answer w) (hv : v.Ready) (hlinks : v.AvoidsLinks r.target)
    (haway : r.AwayFromState v) : v.Kept w := by
  cases h with
  | looked _ | refused _ _ => exact (Spares.refl v).unsaved hv _
  | prepared _ => exact (spares_preparedTree hlinks.2 (haway _ rfl)).unsaved hv _
  | emptied hopens _ | unrecorded hopens _ =>
    exact ((spares_preparedTree hlinks.2 (haway _ rfl)).put hopens hlinks.2 (haway _ rfl) _).unsaved hv _
  | created hopens _ _ _ _ _ =>
    exact ((spares_preparedTree hlinks.2 (haway _ rfl)).put hopens hlinks.2 (haway _ rfl) _).saved hv _ _ _
  | spliced _ hfile _ _ =>
    exact ((Spares.refl v).put (fileAt_eq_ok_iff.mp hfile).1 hlinks.2 (haway _ rfl) _).unsaved hv _
  | written _ hfile _ _ _ =>
    exact ((Spares.refl v).put (fileAt_eq_ok_iff.mp hfile).1 hlinks.2 (haway _ rfl) _).saved hv _ _ _
  | unlinked _ hremove _ => exact (spares_remove hlinks.2 (haway _ rfl) hremove).unsaved hv _
  | deleted hremove _ _ _ _ => exact (spares_remove hlinks.2 (haway _ rfl) hremove).saved hv _ _ _

end Request

namespace Volume

variable {v w : Volume}

/-! ### Books that can be saved -/

/-- The books can be written and read again, except for a number of bytes with too many digits. -/
structure Storable (v : Volume) : Prop where
  clock : v.clock.Plain
  used : v.used.isWritable = true → Json.Readable bookDepth v.used
  files : Json.Readable bookDepth v.files

theorem readable_booksOf (v : Volume) :
    Json.Readable bookDepth (booksOf v.savedValue).1 ∧ Json.Readable bookDepth (booksOf v.savedValue).2 := by
  have hfresh : Json.Readable bookDepth (.int 0) ∧ Json.Readable bookDepth (.object []) :=
    ⟨.int (Value.isWritable_int_iff.mp (by decide +kernel)), .object List.nodup_nil nofun⟩
  cases hsaved : v.savedValue with
  | none => exact hfresh
  | some saved =>
    obtain ⟨content, -, hsaved⟩ := Option.bind_eq_some_iff.mp hsaved
    obtain ⟨text, -, hsaved⟩ := Option.bind_eq_some_iff.mp hsaved
    have hreadable := Json.readable_of_parse (eq_ok_of_toOption hsaved)
    cases saved with
    | object fields =>
      obtain ⟨-, hfields⟩ := Json.readable_object_iff.mp hreadable
      have hfield {key : String} {fallback : Value} (hfallback : Json.Readable bookDepth fallback) :
          Json.Readable bookDepth ((Table.find? fields key).getD fallback) := by
        cases hfound : Table.find? fields key with
        | none => exact hfallback
        | some found => exact hfields _ (Table.mem_of_find? hfound)
      exact ⟨hfield hfresh.1, hfield hfresh.2⟩
    | _ => exact hfresh

theorem SameBooks.storable (h : v.SameBooks w) (hv : v.Storable) : w.Storable := by
  obtain ⟨tree, log, rfl⟩ := h
  exact ⟨hv.clock, hv.used, hv.files⟩

theorem readable_of_word {size : Value} {n : Int} (h : word size = .ok n) (depth : Nat) : Json.Readable depth size := by
  obtain ⟨hint, hbits⟩ := word_eq_ok h
  cases size with
  | int i =>
    obtain rfl := Option.some.inj hint
    refine .int ?_
    have hlt {k : Nat} (hk : i.natAbs.log2 + 1 ≤ k) : i.natAbs < 10 ^ k :=
      calc i.natAbs < 2 ^ (i.natAbs.log2 + 1) := Nat.lt_log2_self
        _ ≤ 2 ^ k := Nat.pow_le_pow_right Nat.two_pos hk
        _ ≤ 10 ^ k := Nat.pow_le_pow_left (by decide) k
    exact hlt (by omega)
  | bool b => exact .bool b
  | _ => cases hint

theorem readable_noted (hclock : v.clock.Plain) {size : Value} {n : Int} (h : word size = .ok n) (depth : Nat) :
    Json.Readable (depth + 1) (v.noted size) := by
  refine .object (by simp [Table.keys]) fun field hfield => ?_
  rcases List.mem_cons.mp hfield with rfl | hfield
  · exact readable_of_word h depth
  · rcases List.mem_cons.mp hfield with rfl | hfield
    · exact .double hclock
    · rw [List.mem_singleton.mp hfield]
      exact .double hclock

theorem Created.storable {path size : Value} (h : v.Created path size w) (hv : v.Storable) : w.Storable := by
  obtain ⟨tree, log, hfiles, rfl, hsize, htotal, -⟩ := h
  have hfields := Json.readable_object_iff.mp (hfiles ▸ hv.files)
  refine ⟨hv.clock, fun hwritable => ?_, ?_⟩
  · exact Value.readable_of_add (word_eq_ok hsize).1 htotal hwritable _
  · exact Json.readable_object_iff.mpr (hfields.put _ (readable_noted hv.clock hsize _))

theorem Touched.storable {path : Value} (h : v.Touched path w) (hv : v.Storable) : w.Storable := by
  obtain ⟨tree, log, hfiles, rfl, hentry⟩ := h
  have hfields := Json.readable_object_iff.mp (hfiles ▸ hv.files)
  have hnoted := Json.readable_object_iff.mp (hfields.2 _ (Table.mem_of_find? hentry))
  refine ⟨hv.clock, hv.used, Json.readable_object_iff.mpr (hfields.put _ ?_)⟩
  exact Json.readable_object_iff.mpr (hnoted.put _ (.double hv.clock))

theorem Deleted.storable {path : Value} (h : v.Deleted path w) (hv : v.Storable) : w.Storable := by
  obtain ⟨tree, log, hfiles, rfl, -, -, hused⟩ := h
  have hfields := Json.readable_object_iff.mp (hfiles ▸ hv.files)
  refine ⟨hv.clock, fun hwritable => Value.readable_of_sub hused hwritable _, ?_⟩
  exact Json.readable_object_iff.mpr (hfields.remove _)

/-- The state file is ready, and books that can be saved are those that a new volume would load. -/
structure Recalled (v : Volume) : Prop where
  ready : v.Ready
  storable : v.Storable
  books : v.used.isWritable = true → booksOf v.savedValue = (v.used, v.files)

theorem Recalled.of_kept (h : v.Recalled) (hkept : v.Kept w) (hstorable : w.Storable) : w.Recalled := by
  refine ⟨hkept.ready, hstorable, fun hwritable => ?_⟩
  rcases hkept.books with hsaved | ⟨⟨tree, log, rfl⟩, hcontent⟩
  · exact hsaved.booksOf_eq hwritable (hstorable.used hwritable) hstorable.files
  · rw [savedValue, hcontent]
    exact h.books hwritable

end Volume

namespace Request

open Volume

variable {v w : Volume} {r : Request}

theorem Effect.storable {answer : Except Fault Bool} (h : r.Effect v answer w) (hv : v.Storable) : w.Storable := by
  cases h with
  | same _ hsame => exact hsame.storable hv
  | created hdone => exact hdone.storable hv
  | touched hdone => exact hdone.storable hv
  | deleted hdone => exact hdone.storable hv

theorem recalled_perform (h : v.Recalled) (hlinks : v.AvoidsLinks r.target) (haway : r.AwayFromState v) :
    (r.perform.on v).2.Recalled :=
  h.of_kept ((r.perform_outcome v).kept h.ready hlinks haway) ((r.perform_effect v).storable h.storable)

theorem AwayFromState.of_root (h : r.AwayFromState v) (hroot : w.root = v.root) : r.AwayFromState w := by
  intro name hname
  rw [stateFile, physicalPath, hroot]
  exact h name hname

theorem recalled_afterAll (requests : List Request) (h : v.Recalled)
    (hlinks : ∀ r ∈ requests, v.AvoidsLinks r.target) (haway : ∀ r ∈ requests, r.AwayFromState v) :
    (afterAll requests v).Recalled ∧ (afterAll requests v).root = v.root := by
  refine (afterAll_induction (P := fun u => u.Recalled ∧ u.root = v.root) requests ?_ hlinks ⟨h, rfl⟩).1
  -- the volume stays where it is, so later requests are away from the same state file
  rintro r hr u ⟨hu, hroot⟩ hways
  exact ⟨recalled_perform hu hways ((haway r hr).of_root hroot), (root_perform r u).trans hroot⟩

end Request

namespace Storing

open Volume

variable {v w : Volume}

/-- Reading answers from the file tree and the catalogue alone. -/
theorem read_congr (htree : w.tree = v.tree) (hroot : w.root = v.root) (hfiles : w.files = v.files)
    (path size offset : Value) : ((read path size offset).on w).1 = ((read path size offset).on v).1 := by
  have hrecorded : w.recorded path = v.recorded path := by
    unfold recorded
    rw [hfiles]
  have hget {α : Type} (f : Volume → Storing α) (u : Volume) : ((get >>= f).on u).1 = ((f u).on u).1 := rfl
  unfold read onRecorded
  rw [hget, hget, hrecorded]
  refine answer_lift_bind_congr _ fun found => ?_
  split
  · refine answer_lift_bind_congr _ fun name => answer_attempt_congr ?_
    have hphysical : w.physicalPath name = v.physicalPath name := by
      rw [physicalPath, hroot, physicalPath]
    rw [hget, hget, htree, hphysical]
    refine answer_lift_bind_congr _ fun entry => ?_
    refine answer_lift_bind_congr _ fun position => ?_
    exact answer_lift_bind_congr _ fun count => rfl
  · exact answer_lift_bind_congr _ fun shown => rfl

end Storing

namespace Request

open Volume

variable {v₀ v : Volume} {root : String} {gigabytes : Value}

theorem recalled_of_openAt (hopen : (Storing.openAt root gigabytes).on v₀ = (.ok (), v)) (hready : v.Ready)
    (hclock : v.clock.Plain) : v.Recalled := by
  have hbooks := (Storing.openAt_loads hopen).2 hready.reaches
  have hreadable := readable_booksOf v
  rw [hbooks] at hreadable
  exact ⟨hready, ⟨hclock, fun _ => hreadable.1, hreadable.2⟩, fun _ => hbooks⟩

/-- Whatever was asked of a volume, opening its directory again gives a volume with the same bytes in use and the same
catalogue, in which everything is read as before. This takes a state file that can be written, requests that do not lead
to it or through it, no links on the ways of both, and bytes in use that can be written as a number. -/
theorem reopening_recovers_books (hopen : (Storing.openAt root gigabytes).on v₀ = (.ok (), v))
    (hclock : v.clock.isNaN = false) {tree : FileTree} (hstate : v.tree.write v.stateFile #[] = .ok tree)
    (hclear : v.tree.Avoids v.stateFile) (requests : List Request) (hlinks : ∀ r ∈ requests, v.AvoidsLinks r.target)
    (haway : ∀ r ∈ requests, r.AwayFromState v) (hused : (afterAll requests v).used.isWritable = true)
    {w : Volume} (hw : w.tree = (afterAll requests v).tree) {gigabytes' capacity : Value}
    (hcapacity : Storing.capacityOf gigabytes' = .ok capacity) :
    ∃ reopened, (Storing.openAt root gigabytes').on w = (.ok (), reopened) ∧ reopened.capacity = capacity ∧
      reopened.used = (afterAll requests v).used ∧ reopened.files = (afterAll requests v).files ∧
      ∀ path size offset, ((Storing.read path size offset).on reopened).1 =
        ((Storing.read path size offset).on (afterAll requests v)).1 := by
  have hplain : v.clock.Plain := by
    intro hnan
    rw [hclock] at hnan
    cases hnan
  have hstart := recalled_of_openAt hopen (ready_of_write hclear hstate) hplain
  obtain ⟨hend, hroot⟩ := recalled_afterAll requests hstart hlinks haway
  have hsame : (afterAll requests v).root = root := hroot.trans (Storing.openAt_loads hopen).1
  have hnonempty : (afterAll requests v).root ≠ "" := hsame ▸ Storing.root_ne_empty_of_openAt hopen
  obtain ⟨log, hreopen⟩ := Storing.on_openAt_of_ready hend.ready hnonempty hw hcapacity
  rw [hend.books hused, hsame] at hreopen
  exact ⟨_, hreopen, rfl, rfl, rfl, Storing.read_congr hw hsame.symm rfl⟩

instance (v : Volume) (r : Request) : Decidable (r.AwayFromState v) :=
  match h : r.target with
  | .text name => decidable_of_iff (Away (placeOf v.stateFile) (v.physicalPath name))
      ⟨fun haway _ hother => Value.text.inj (h.symm.trans hother) ▸ haway, fun haway => haway name h⟩
  | .none | .bool _ | .int _ | .double _ | .bytes _ | .list _ | .object _ =>
    isTrue fun _ hother => nomatch h.symm.trans hother

/-- Two files are made, one of them is written to and the other one deleted; other requests fail. -/
def mixedRequests : List Request :=
  [.create (.text "/a") (.int 2), .create (.text "/d\\b") (.int 3), .write (.text "/a") (.bytes #[7]) (.int 1),
    .create (.text "/c") (.text "x"), .delete (.text "/d\\b"), .delete (.text "/d\\b")]

theorem mixedRequests_are_recovered :
    (Storing.openAt "/v" (.int 1)).on { root := "" } = (.ok (), newVolume) ∧
    newVolume.clock.isNaN = false ∧ (∃ tree, newVolume.tree.write newVolume.stateFile #[] = .ok tree) ∧
    newVolume.tree.Avoids newVolume.stateFile ∧ (∀ r ∈ mixedRequests, newVolume.AvoidsLinks r.target) ∧
    (∀ r ∈ mixedRequests, r.AwayFromState newVolume) ∧ (afterAll mixedRequests newVolume).used.isWritable = true ∧
    Storing.capacityOf (.int 2) = .ok (.int 2147483648) ∧
    ∃ reopened, (Storing.openAt "/v" (.int 2)).on { root := "", tree := (afterAll mixedRequests newVolume).tree } =
        (.ok (), reopened) ∧
      reopened.used = (afterAll mixedRequests newVolume).used ∧
      reopened.files = (afterAll mixedRequests newVolume).files ∧
      ((Storing.read (.text "/a") (.int (-1)) (.int 0)).on reopened).1 = .ok (some #[0, 7]) := by
  have hopen : (Storing.openAt "/v" (.int 1)).on { root := "" } = (.ok (), newVolume) :=
    Prod.ext (eq_ok_of_toOption (by decide +kernel)) rfl
  obtain ⟨hclock, hwritten, hclear, hlinks, haway⟩ : newVolume.clock.isNaN = false ∧
      (newVolume.tree.write newVolume.stateFile #[]).toOption.isSome = true ∧
      newVolume.tree.Avoids newVolume.stateFile ∧ (∀ r ∈ mixedRequests, newVolume.AvoidsLinks r.target) ∧
      ∀ r ∈ mixedRequests, r.AwayFromState newVolume := by
    decide +kernel
  obtain ⟨tree, hwrite⟩ := Option.isSome_iff_exists.mp hwritten
  have hwrite := eq_ok_of_toOption hwrite
  obtain ⟨hused, hread⟩ : (afterAll mixedRequests newVolume).used.isWritable = true ∧
      ((Storing.read (.text "/a") (.int (-1)) (.int 0)).on (afterAll mixedRequests newVolume)).1.toOption =
        some (some #[0, 7]) := by
    decide +kernel
  have hcapacity : Storing.capacityOf (.int 2) = .ok (.int 2147483648) := rfl
  obtain ⟨reopened, hreopen, -, hsame, hfiles, hreads⟩ :=
    reopening_recovers_books hopen hclock hwrite hclear mixedRequests hlinks haway hused
      (w := { root := "", tree := (afterAll mixedRequests newVolume).tree }) rfl hcapacity
  exact ⟨hopen, hclock, ⟨tree, hwrite⟩, hclear, hlinks, haway, hused, hcapacity, reopened, hreopen, hsame, hfiles,
    (hreads _ _ _).trans (eq_ok_of_toOption hread)⟩

/-- Opening the directory once more, after requests that do not lead to the state file or through it, loses the
file `/a`. -/
def LosesFile (v₀ : Volume) (requests : List Request) : Prop :=
  ∃ v w, (Storing.openAt "/v" (.int 100)).on v₀ = (.ok (), v) ∧ (∀ r ∈ requests, r.AwayFromState v) ∧
    (afterAll requests v).recorded (.text "/a") = .ok true ∧
    (Storing.openAt "/v" (.int 100)).on (afterAll requests v) = (.ok (), w) ∧
    w.recorded (.text "/a") = .ok false

/-- The bytes in use are the least number that can be written. -/
def overdrawnVolume : Volume :=
  { root := "/v", tree := newVolume.tree, capacity := .int 107374182400, used := .int (1 - (10 ^ 4300 : Nat)) }

/-- The volume, opened where its books have been saved. -/
def overdrawnOpened : Volume :=
  { overdrawnVolume.resaved #[] with
    log := ((Storing.openAt "/v" (.int 100)).on (overdrawnVolume.resaved #[])).2.log }

-- The many digits are never evaluated: that what was printed is read back is known for all numbers.
theorem on_openAt_overdrawnVolume :
    (Storing.openAt "/v" (.int 100)).on (overdrawnVolume.resaved #[]) = (.ok (), overdrawnOpened) ∧
      overdrawnOpened.Ready := by
  obtain ⟨hlinks, hwritten, hwritable⟩ : overdrawnVolume.tree.Avoids overdrawnVolume.stateFile ∧
      (overdrawnVolume.tree.write overdrawnVolume.stateFile #[]).toOption.isSome = true ∧
      overdrawnVolume.used.isWritable = true := by
    decide +kernel
  obtain ⟨tree, hwrite⟩ := Option.isSome_iff_exists.mp hwritten
  have hready := ready_of_write hlinks (eq_ok_of_toOption hwrite)
  have hcapacity : Storing.capacityOf (.int 100) = .ok overdrawnVolume.capacity := rfl
  have hused : Json.Readable bookDepth overdrawnVolume.used := .int (Value.isWritable_int_iff.mp hwritable)
  have hfiles : Json.Readable bookDepth overdrawnVolume.files := .object List.nodup_nil nofun
  exact ⟨Storing.on_openAt_resaved hready (by decide) hcapacity hwritable hused hfiles #[],
    (hready.resaved #[]).1.setLog _⟩

/-- A file whose size takes the bytes in use past the least number that can be written. -/
def overdraft : Request :=
  .create (.text "/a") (.int (-1))

theorem overdrawnVolume_losesFile :
    LosesFile (overdrawnVolume.resaved #[]) [overdraft] := by
  obtain ⟨hopen, hready⟩ := on_openAt_overdrawnVolume
  have haway : overdraft.AwayFromState overdrawnOpened :=
    AwayFromState.of_root (v := overdrawnVolume) (by decide +kernel) rfl
  have hlinks : overdrawnOpened.AvoidsLinks (.text "/a") := by
    have hbefore : overdrawnVolume.AvoidsLinks (.text "/a") := by decide +kernel
    exact ⟨hready.avoids, overdrawnVolume.keepsWays_savedTree.avoids hbefore.2⟩
  obtain ⟨hrecorded, hunwritable⟩ :
      ((overdraft.perform.on overdrawnOpened).2.recorded (.text "/a")).toOption = some true ∧
      (overdraft.perform.on overdrawnOpened).2.used.isWritable = false := by
    decide +kernel
  have hrecorded := eq_ok_of_toOption hrecorded
  have hkept : overdrawnOpened.Kept (overdraft.perform.on overdrawnOpened).2 :=
    (overdraft.perform_outcome overdrawnOpened).kept hready hlinks haway
  have hroot : (overdraft.perform.on overdrawnOpened).2.root = "/v" :=
    (overdraft.root_perform overdrawnOpened).trans rfl
  have hsaved : (overdraft.perform.on overdrawnOpened).2.Saved := by
    have hbefore : overdrawnOpened.recorded (.text "/a") = .ok false := rfl
    refine hkept.books.resolve_right fun hsame => ?_
    cases hbefore.symm.trans (hsame.1.recorded_iff.mp hrecorded)
  have hlost := hsaved.booksOf_of_not_writable hunwritable
  have hcapacity : Storing.capacityOf (.int 100) = .ok overdrawnVolume.capacity := rfl
  obtain ⟨log, hreopen⟩ := Storing.on_openAt_of_ready hkept.ready (by rw [hroot]; decide) rfl hcapacity
  rw [hlost, hroot] at hreopen
  exact ⟨overdrawnOpened, _, hopen, List.forall_mem_singleton.mpr haway, hrecorded, hreopen, rfl⟩

/-- A directory lies in the place of the state file. -/
def blockedVolume : Volume :=
  { newVolume with tree := newVolume.tree.put (placeOf newVolume.stateFile) .directory }

/-- A link leads to the state file. -/
def linkedVolume : Volume :=
  { newVolume with tree := newVolume.tree.put (placeOf "/v/l") (.link newVolume.stateFile) }

theorem losesFile_of_evaluation {v₀ : Volume} {requests : List Request}
    (haway : ∀ r ∈ requests, r.AwayFromState newVolume)
    (h : ((Storing.openAt "/v" (.int 100)).on v₀).1.toOption = some () ∧
      ((Storing.openAt "/v" (.int 100)).on v₀).2.root = newVolume.root ∧
      ((afterAll requests ((Storing.openAt "/v" (.int 100)).on v₀).2).recorded (.text "/a")).toOption = some true ∧
      ((Storing.openAt "/v" (.int 100)).on
        (afterAll requests ((Storing.openAt "/v" (.int 100)).on v₀).2)).1.toOption = some () ∧
      (((Storing.openAt "/v" (.int 100)).on
        (afterAll requests ((Storing.openAt "/v" (.int 100)).on v₀).2)).2.recorded (.text "/a")).toOption =
          some false) : LosesFile v₀ requests := by
  obtain ⟨hopen, hroot, hrecorded, hreopen, hlost⟩ := h
  exact ⟨_, _, Prod.ext (eq_ok_of_toOption hopen) rfl, fun r hr => (haway r hr).of_root hroot,
    eq_ok_of_toOption hrecorded, Prod.ext (eq_ok_of_toOption hreopen) rfl, eq_ok_of_toOption hlost⟩

/-- A file is lost if the bytes in use become a number that cannot be written, if a directory lies in the place of
the state file, and if a failed creation empties the state file through a link. -/
theorem reopening_can_lose_books :
    LosesFile (overdrawnVolume.resaved #[]) [overdraft] ∧
    LosesFile blockedVolume [.create (.text "/a") (.int 1)] ∧
    LosesFile linkedVolume [.create (.text "/a") (.int 1), .create (.text "/l") (.int 34359738368)] := by
  exact ⟨overdrawnVolume_losesFile, losesFile_of_evaluation (by decide +kernel) (by decide +kernel),
    losesFile_of_evaluation (by decide +kernel) (by decide +kernel)⟩

end Request

end Handset
