import Handset.Proofs.Machine.HeapAccounting

/-!
# New objects and collection

Creation puts the object into its cell and then collects if the heap has become full, before anything can
refer to the object. So a new object outlives its own creation in two cases only: the heap has room for it,
or some value that marking looks at counts as its number already, by accident.
-/
namespace Handset

open Step

open Dex (Instruction)

namespace Machine

variable {m s : Machine} {id : Nat} {className used : Value} {log : Log}

/-- A value that marking looks at counts as this number, whether or not it has an object. -/
inductive Mentions (m : Machine) (id : Nat) : Prop
  | root {v} (hr : m.Root v) (hv : v.int? = some (id : Int)) : Mentions m id
  | field {source o v} (hs : m.Reachable source) (ho : (source, o) ∈ m.objects)
      (hf : v ∈ Table.values o.fields) (hv : v.int? = some (id : Int)) : Mentions m id

/-- The heap is not full with one more object. -/
def HasRoom (m : Machine) : Prop :=
  ∃ used, m.used.add (.int objectSize) = .ok used ∧ isFull { m with used } = .ok false

/-- Same roots and at least the same objects. -/
structure Extends (m s : Machine) : Prop where
  registers : s.registers = m.registers
  callStack : s.callStack = m.callStack
  objects : ∀ x ∈ m.objects, x ∈ s.objects

theorem Extends.setLog (m : Machine) (log : Log) : m.Extends { m with log } :=
  ⟨rfl, rfl, fun _ hx => hx⟩

theorem Extends.ofLog (m : Machine) (log : Log) : Extends { m with log } m :=
  ⟨rfl, rfl, fun _ hx => hx⟩

theorem Root.extend {v : Value} (h : m.Root v) (hext : m.Extends s) : s.Root v := by
  cases h with
  | register hv =>
    rw [← hext.registers] at hv
    exact .register hv
  | frame hs hf hr hv =>
    rw [← hext.callStack] at hs
    exact .frame hs hf hr hv

theorem Names.extend {v : Value} (h : m.Names v id) (hext : m.Extends s) : s.Names v id := by
  obtain ⟨hv, o, ho⟩ := h
  exact ⟨hv, o, hext.objects _ ho⟩

theorem Reachable.extend (h : m.Reachable id) (hext : m.Extends s) : s.Reachable id := by
  induction h with
  | root hr hv => exact .root (hr.extend hext) (hv.extend hext)
  | field _ ho hf hv ih => exact .field ih (hext.objects _ ho) hf (hv.extend hext)

theorem Mentions.extend (h : m.Mentions id) (hext : m.Extends s) : s.Mentions id := by
  cases h with
  | root hr hv => exact .root (hr.extend hext) hv
  | field hs ho hf hv => exact .field (hs.extend hext) (hext.objects _ ho) hf hv

theorem Reachable.lt_nextId (h : m.Reachable id) : id < m.nextId := by
  cases h with
  | root _ hv => exact lt_nextId_of_mem_objects hv.2.choose_spec
  | field _ _ _ hv => exact lt_nextId_of_mem_objects hv.2.choose_spec

def withNew (m : Machine) (className used : Value) (log : Log) : Machine :=
  { m with cells := m.cells.push (.object { className }), used, log }

theorem mem_objects_withNew {o : Obj} :
    (id, o) ∈ (m.withNew className used log).objects ↔
      (id, o) ∈ m.objects ∨ id = m.nextId ∧ o = { className } := by
  simp only [mem_objects_iff, withNew, Array.getElem?_push, nextId]
  constructor
  · rintro ⟨p, rfl, hp⟩
    split at hp
    next hlast =>
      cases hp
      exact .inr ⟨congrArg (· + 1) hlast, rfl⟩
    next => exact .inl ⟨p, rfl, hp⟩
  · rintro (⟨p, rfl, hp⟩ | ⟨rfl, rfl⟩)
    · have hsize : p < m.cells.size := (Array.getElem?_eq_some_iff.mp hp).1
      refine ⟨p, rfl, ?_⟩
      rwa [if_neg (Nat.ne_of_lt hsize)]
    · exact ⟨m.cells.size, rfl, if_pos rfl⟩

theorem extends_withNew (m : Machine) (className used : Value) (log : Log) :
    m.Extends (m.withNew className used log) :=
  ⟨rfl, rfl, fun _ hx => mem_objects_withNew.mpr (.inl hx)⟩

theorem root_of_withNew {v : Value} (h : (m.withNew className used log).Root v) : m.Root v := by
  cases h with
  | register hv => exact .register hv
  | frame hs hf hr hv => exact .frame hs hf hr hv

theorem reachable_of_withNew (h : (m.withNew className used log).Reachable id) :
    m.Reachable id ∨ id = m.nextId ∧ m.Mentions id := by
  induction h with
  | root hr hv =>
    obtain ⟨hint, o, ho⟩ := hv
    rcases mem_objects_withNew.mp ho with ho | ⟨rfl, -⟩
    · exact .inl (.root (root_of_withNew hr) ⟨hint, o, ho⟩)
    · exact .inr ⟨rfl, .root (root_of_withNew hr) hint⟩
  | field _ ho hf hv ih =>
    rcases mem_objects_withNew.mp ho with ho | ⟨-, rfl⟩
    · have hsource : m.Reachable _ := ih.resolve_right fun ⟨hnew, _⟩ =>
        (lt_nextId_of_mem_objects ho).ne hnew
      obtain ⟨hint, o, ho'⟩ := hv
      rcases mem_objects_withNew.mp ho' with ho' | ⟨rfl, -⟩
      · exact .inl (.field hsource ho hf ⟨hint, o, ho'⟩)
      · exact .inr ⟨rfl, .field hsource ho hf hint⟩
    · -- the new object has no fields
      cases hf

theorem reachable_new_iff : (m.withNew className used log).Reachable m.nextId ↔ m.Mentions m.nextId := by
  have hnew : (m.nextId, { className }) ∈ (m.withNew className used log).objects :=
    mem_objects_withNew.mpr (.inr ⟨rfl, rfl⟩)
  have hext := m.extends_withNew className used log
  constructor
  · intro h
    rcases reachable_of_withNew h with hold | ⟨-, hmentions⟩
    · exact absurd hold.lt_nextId (Nat.lt_irrefl _)
    · exact hmentions
  · intro h
    cases h with
    | root hr hv => exact .root (hr.extend hext) ⟨hv, _, hnew⟩
    | field hs ho hf hv => exact .field (hs.extend hext) (hext.objects _ ho) hf ⟨hv, _, hnew⟩

end Machine

namespace Act

variable {m t : Machine} {frames : List Value} {u : Int} {id : Nat} {className : Value}

/-- A look at the heap leaves everything if there is room, and what can be reached if there is none. -/
theorem mem_objects_of_collectIfNeeded (h : m.Rooted frames) (hu : m.used = .int u)
    (hcollect : collectIfNeeded.on m = (.ok (), t)) (id : Nat) (o : Obj) :
    (id, o) ∈ t.objects ↔ (id, o) ∈ m.objects ∧ (m.isFull = .ok false ∨ m.Reachable id) := by
  obtain ⟨log, hon⟩ := on_collectIfNeeded m
  rw [hon] at hcollect
  cases hfull : m.isFull with
  | error e =>
    rw [hfull] at hcollect
    cases hcollect
  | ok full =>
    rw [hfull] at hcollect
    cases full with
    | false =>
      obtain rfl : m = t := congrArg Prod.snd hcollect
      simp
    | true =>
      have hlogged : Machine.Rooted { m with log } frames := ⟨h.ready, h.own, h.stack, h.framed⟩
      have hreachable : Machine.Reachable { m with log } id ↔ m.Reachable id :=
        ⟨fun hr => hr.extend (.ofLog m log), fun hr => hr.extend (.setLog m log)⟩
      rw [mem_objects_of_collect hlogged hu hcollect, hreachable]
      simp [Machine.objects, Machine.numbered]

theorem mem_objects_of_createObject (h : m.Rooted frames) (hu : m.used = .int u)
    (hcreate : (createObject className).on m = (.ok id, t)) (o : Obj) :
    (id, o) ∈ t.objects ↔ o = { className } ∧ (m.HasRoom ∨ m.Mentions id) := by
  have hadd : m.used.add (.int objectSize) = .ok (.int (u + objectSize)) := by
    rw [hu]
    rfl
  obtain rfl := eq_nextId_of_createObject (congrArg Prod.fst hcreate)
  rw [on_createObject, hadd] at hcreate
  obtain ⟨-, log, hcollect⟩ := on_announce_ok hcreate
  have hcollect : collectIfNeeded.on (m.withNew className (.int (u + objectSize)) log) = (.ok (), t) :=
    hcollect
  have hrooted : (m.withNew className (.int (u + objectSize)) log).Rooted frames :=
    ⟨h.ready, h.own, h.stack, h.framed⟩
  have hroom : (m.withNew className (.int (u + objectSize)) log).isFull = .ok false ↔ m.HasRoom := by
    constructor
    · exact fun hfull => ⟨_, hadd, hfull⟩
    · rintro ⟨used, hused, hfull⟩
      obtain rfl := Except.ok.inj (hadd.symm.trans hused)
      exact hfull
  have hmem : (m.nextId, o) ∈ (m.withNew className (.int (u + objectSize)) log).objects ↔
      o = { className } := by
    rw [Machine.mem_objects_withNew]
    constructor
    · rintro (hold | ⟨-, ho⟩)
      · exact absurd (Machine.lt_nextId_of_mem_objects hold) (Nat.lt_irrefl _)
      · exact ho
    · exact fun ho => .inr ⟨rfl, ho⟩
  rw [mem_objects_of_collectIfNeeded hrooted rfl hcollect, hmem, hroom, Machine.reachable_new_iff]

theorem mem_objects_of_newInstance {pools : Pools} {i : Instruction} (h : m.Rooted frames)
    (hu : m.used = .int u) (hnew : (newInstance pools i).on m = (.ok (), t)) :
    ∃ className, ((instanceClass pools i).on m).1 = .ok className ∧
      t.registers[i.a]? = some (.int m.nextId) ∧
      ∀ o, (m.nextId, o) ∈ t.objects ↔ o = { className } ∧ (m.HasRoom ∨ m.Mentions m.nextId) := by
  rw [newInstance_eq] at hnew
  obtain ⟨className, hclass, hnew⟩ := (quiet_instanceClass pools i).exists_of_on_bind hnew
  obtain ⟨id, s, hcreate, hkeep⟩ := exists_of_on_bind hnew
  obtain rfl := eq_nextId_of_createObject (congrArg Prod.fst hcreate)
  obtain ⟨hobjects, hregister⟩ := on_keepNumber_ok hkeep
  refine ⟨className, hclass, hregister, ?_⟩
  rw [hobjects]
  exact mem_objects_of_createObject h hu hcreate

theorem mem_objects_of_dispatch {pools : Pools} {i : Instruction} (h : m.Rooted frames)
    (hu : m.used = .int u) (hop : Operation.ofOpcode? i.opcode = some .newInstance)
    (hdispatch : (dispatch pools i).on m = (.ok (), t)) :
    ∃ className, ((instanceClass pools i).on m).1 = .ok className ∧
      t.registers[i.a]? = some (.int m.nextId) ∧
      ∀ o, (m.nextId, o) ∈ t.objects ↔ o = { className } ∧ (m.HasRoom ∨ m.Mentions m.nextId) := by
  obtain ⟨log, hperform⟩ := exists_on_dispatch pools hop m
  have hnew : (newInstance pools i).on { m with log } = (.ok (), t) := hperform.symm.trans hdispatch
  have hlogged : Machine.Rooted { m with log } frames := ⟨h.ready, h.own, h.stack, h.framed⟩
  have hmentions : Machine.Mentions { m with log } m.nextId ↔ m.Mentions m.nextId :=
    ⟨fun hm => hm.extend (.ofLog m log), fun hm => hm.extend (.setLog m log)⟩
  obtain ⟨className, hclass, hregister, hobjects⟩ := mem_objects_of_newInstance hlogged hu hnew
  rw [instanceClass_congr pools i (m := { m with log }) (s := m) rfl] at hclass
  exact ⟨className, hclass, hregister, fun o =>
    (hobjects o).trans (and_congr_right fun _ => or_congr_right hmentions)⟩

/-- A new object is in the heap when its creation returns exactly if the heap had room for it or something
that marking looks at mentioned its number before; if it is there, it is of its class and has no fields. An
instruction that creates an object and completes leaves the number in its register in either case. -/
theorem new_object_alive_iff (h : m.Rooted frames) (hu : m.used = .int u) :
    (∀ className id t, (createObject className).on m = (.ok id, t) →
      id = m.nextId ∧
      ∀ o, (id, o) ∈ t.objects ↔ o = { className } ∧ (m.HasRoom ∨ m.Mentions id)) ∧
    ∀ pools i t, Operation.ofOpcode? i.opcode = some .newInstance →
      (dispatch pools i).on m = (.ok (), t) →
      ∃ className, ((instanceClass pools i).on m).1 = .ok className ∧
        t.registers[i.a]? = some (.int m.nextId) ∧
        ∀ o, (m.nextId, o) ∈ t.objects ↔ o = { className } ∧ (m.HasRoom ∨ m.Mentions m.nextId) := by
  refine ⟨fun className id t hcreate => ?_, fun pools i t => mem_objects_of_dispatch h hu⟩
  have hid := eq_nextId_of_createObject (congrArg Prod.fst hcreate)
  exact ⟨hid, mem_objects_of_createObject h hu hcreate⟩

theorem new_object_of_tangledMachine_alive :
    tangledMachine.used = .int 4096 ∧ tangledMachine.HasRoom ∧
      ∃ t, (createObject (.text "E")).on tangledMachine = (.ok 5, t) ∧
        (5, { className := .text "E" }) ∈ t.objects := by
  have hroom : tangledMachine.HasRoom := ⟨.int 5120, rfl, eq_ok_of_toOption (by decide +kernel)⟩
  have hanswer : ((createObject (.text "E")).on tangledMachine).1 = .ok 5 :=
    eq_ok_of_toOption (by decide +kernel)
  have hcreate := Prod.ext hanswer (Eq.refl ((createObject (.text "E")).on tangledMachine).2)
  obtain ⟨-, hobjects⟩ :=
    (new_object_alive_iff rooted_tangledMachine (Eq.refl (Value.int 4096))).1 _ _ _ hcreate
  exact ⟨rfl, hroom, _, hcreate, (hobjects _).mpr ⟨rfl, .inl hroom⟩⟩

theorem on_announce_of_written {shown : String} (h : className.written = .ok shown) (id : Nat)
    (m : Machine) :
    ∃ log, (announce className id).on m =
      (do collectIfNeeded; pure id : Act Nat).on { m with log } := by
  rw [announce, h, on_bind_ok (on_lift _ m), on_bind_ok (on_report _ _ m)]
  exact ⟨_, rfl⟩

/-- No registers and no frames, and this many objects. -/
def stocked (n : Nat) (log : Log) : Machine where
  registersReady := true
  callStack := some (.list [])
  cells := Array.replicate n (.object { className := .text "A" })
  used := .int (objectSize * n)
  log := log

theorem rooted_stocked (n : Nat) (log : Log) : (stocked n log).Rooted [] :=
  ⟨rfl, rfl, rfl, nofun⟩

theorem on_createObject_stocked (n : Nat) (log : Log) :
    (createObject (.text "A")).on (stocked n log) =
      (announce (.text "A") (n + 1)).on (stocked (n + 1) log) := by
  have hadd : (stocked n log).used.add (.int objectSize) = .ok (.int (objectSize * (n + 1 : Nat))) := by
    have hbytes : (objectSize * (n + 1 : Nat) : Int) = objectSize * n + objectSize := by
      push_cast
      ring
    rw [hbytes]
    rfl
  have hid : (stocked n log).nextId = n + 1 := by simp [Machine.nextId, stocked]
  rw [on_createObject, hadd, hid]
  unfold stocked
  rw [Array.replicate_succ]

theorem written_stock : (Value.text "A").written = .ok "A" := rfl

theorem isFull_stocked {n : Nat} (hn : n < 717) (log : Log) : (stocked n log).isFull = .ok false := by
  have hall : ∀ n < 717, (stocked n #[]).isFull.toOption = some false := by decide +kernel
  exact eq_ok_of_toOption (hall n hn)

theorem on_createObject_below {n : Nat} (hn : n < 716) (log : Log) :
    ∃ log', (createObject (.text "A")).on (stocked n log) = (.ok (n + 1), stocked (n + 1) log') := by
  rw [on_createObject_stocked]
  obtain ⟨log₁, hannounce⟩ := on_announce_of_written written_stock (n + 1) (stocked (n + 1) log)
  obtain ⟨log₂, hcollect⟩ := on_collectIfNeeded (stocked (n + 1) log₁)
  rw [isFull_stocked (Nat.succ_lt_succ hn)] at hcollect
  exact ⟨log₁, hannounce.trans (on_bind_ok hcollect _)⟩

theorem afterAll_creations (k : Nat) {n : Nat} (hn : n + k ≤ 716) (log : Log) :
    ∃ log', HeapRequest.afterAll (List.replicate k (.create (.text "A"))) (stocked n log) =
      stocked (n + k) log' := by
  induction k generalizing n log with
  | zero => exact ⟨log, rfl⟩
  | succ k ih =>
    obtain ⟨log₁, hcreate⟩ := on_createObject_below (n := n) (by omega) log
    obtain ⟨log₂, hrest⟩ := ih (n := n + 1) (by omega) log₁
    have hperform : ((HeapRequest.create (.text "A")).perform.on (stocked n log)).2 =
        stocked (n + 1) log₁ := by
      rw [HeapRequest.perform, on_bind_ok hcreate]
      rfl
    refine ⟨log₂, ?_⟩
    rw [List.replicate_succ, HeapRequest.afterAll, hperform, hrest]
    congr 1
    omega

theorem collect_stocked (n : Nat) (log : Log) :
    ∃ t, collect.on (stocked n log) = (.ok (), t) ∧ t.objects = [] := by
  have hmarks : Machine.trace (stocked n log).cells ([].map (0, ·)) (stocked n log).blankMarks =
      .ok (stocked n log).blankMarks := by
    rw [List.map_nil, Machine.trace]
  have hroots : (stocked n log).roots (.list []) = .ok [] := rfl
  obtain ⟨log', hstate, houtcome⟩ := on_collect (rooted_stocked n log) hroots hmarks (Eq.refl _)
  generalize hkeep : (fun p => ((stocked n log).blankMarks.getD p none).isSome) = keep at hstate
  have hempty : ((stocked n log).swept keep).objects = [] := by
    apply List.eq_nil_iff_forall_not_mem.mpr
    rintro ⟨id, o⟩ hmem
    have hkept := (Machine.mem_objects_swept.mp hmem).2
    rw [← hkeep] at hkept
    exact Machine.not_isMarked_blankMarks _ _ hkept
  have hgone : ((stocked n log).doomed keep).length = n := by
    have hlength := (stocked n log).length_objects_swept keep
    have hcount : (stocked n log).heapCount = n := Array.countP_replicate.trans (if_pos rfl)
    rw [hempty, Machine.length_objects, hcount] at hlength
    simpa using hlength
  have hused : (collect.on (stocked n log)).2.used = .int 0 := by
    rw [hstate, hgone]
    exact congrArg Value.int (sub_self _)
  have hsize : (collect.on (stocked n log)).2.heapSize = .int (1024 * 1024) := by rw [hstate]; rfl
  rw [Machine.closing_eq_ok hused hsize (by decide) (by decide) (by decide)] at houtcome
  have hobjects : (collect.on (stocked n log)).2.objects = [] := by
    rw [hstate]
    exact hempty
  exact ⟨_, Prod.ext houtcome rfl, hobjects⟩

/-- After 716 creations the next one answers its number and leaves nothing in the heap. -/
theorem new_object_of_crowd_collected :
    (HeapRequest.afterAll (List.replicate 716 (.create (.text "A"))) (stocked 0 #[])).Rooted [] ∧
      ∃ t, (createObject (.text "A")).on
          (HeapRequest.afterAll (List.replicate 716 (.create (.text "A"))) (stocked 0 #[])) = (.ok 717, t) ∧
        t.objects = [] := by
  obtain ⟨log, hcreations⟩ := afterAll_creations 716 (n := 0) (by decide) #[]
  have hfull : (stocked 717 #[]).isFull.toOption = some true := by decide +kernel
  rw [hcreations, on_createObject_stocked]
  obtain ⟨log₁, hannounce⟩ := on_announce_of_written written_stock 717 (stocked 717 log)
  obtain ⟨log₂, hcollectIfNeeded⟩ := on_collectIfNeeded (stocked 717 log₁)
  obtain ⟨t, hcollect, hempty⟩ := collect_stocked 717 log₂
  rw [eq_ok_of_toOption (x := (stocked 717 log₁).isFull) hfull] at hcollectIfNeeded
  refine ⟨rooted_stocked _ log, t, ?_, hempty⟩
  exact hannounce.trans (on_bind_ok (hcollectIfNeeded.trans hcollect) _)

end Act

end Handset
