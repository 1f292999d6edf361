import Handset.Proofs.Machine.Marking
import Handset.Proofs.Machine.Sweeping
import Handset.Proofs.Number.Quotients
import Handset.Proofs.Value.Integers

/-!
# Collection keeps exactly what can be reached

Reachability is stated on the heap itself: a value names an object if it counts as the integer that is
the object's number, the roots are the values in the registers and in the registers of the frames, and
each object leads on to the objects that the values in its fields name.
-/
namespace Handset

namespace Machine

/-- The registers and the call stack have been set up: the registers are a list, and every frame is an
object whose registers, if it has any, are a list. -/
structure Rooted (m : Machine) (frames : List Value) : Prop where
  ready : m.registersReady = true
  own : m.registersInstead = none
  stack : m.callStack = some (.list frames)
  framed : ∀ f ∈ frames, ∃ parts, f = .object parts ∧
    ∀ w, Value.field? parts "registers" = some w → ∃ vs, w = .list vs

/-- The values that everything reachable is reached from. -/
inductive Root (m : Machine) : Value → Prop
  | register {v} (hv : v ∈ m.registers) : Root m v
  | frame {frames parts vs v} (hs : m.callStack = some (.list frames))
      (hf : Value.object parts ∈ frames) (hr : Value.field? parts "registers" = some (.list vs))
      (hv : v ∈ vs) : Root m v

/-- The value counts as the number of an object of the heap. -/
def Names (m : Machine) (v : Value) (id : Nat) : Prop :=
  v.int? = some (id : Int) ∧ ∃ o, (id, o) ∈ m.objects

/-- The objects that the roots lead to, by their numbers. -/
inductive Reachable (m : Machine) : Nat → Prop
  | root {v id} (hr : m.Root v) (hv : m.Names v id) : Reachable m id
  | field {source o v id} (hs : Reachable m source) (ho : (source, o) ∈ m.objects)
      (hf : v ∈ Table.values o.fields) (hv : m.Names v id) : Reachable m id

theorem referent?_iff_names {m : Machine} {v : Value} {p : Nat} :
    referent? m.cells v = some p ↔ m.Names v (p + 1) := by
  simp [referent?_eq_some_iff, Names, mem_objects_iff]

theorem mem_fieldValues_iff {cells : Array Cell} {p : Nat} {v : Value} :
    v ∈ fieldValues cells p ↔ ∃ o, cells[p]? = some (.object o) ∧ v ∈ Table.values o.fields := by
  unfold fieldValues
  rcases cells[p]? with _ | _ | o | _ <;> simp

/-- The values in the registers of a frame. -/
def heldBy : Value → List Value
  | .object parts => match Value.field? parts "registers" with
    | some (.list vs) => vs
    | _ => []
  | _ => []

theorem Rooted.frameRegisters {m : Machine} {frames : List Value} (h : m.Rooted frames) :
    Machine.frameRegisters (.list frames) = .ok (frames.flatMap heldBy) := by
  have hframe : ∀ f ∈ frames,
      (do (← f.partOr "registers" (.list [])).walk : Except Fault (List Value)) = .ok (heldBy f) := by
    intro f hf
    obtain ⟨parts, rfl, hparts⟩ := h.framed f hf
    cases hr : Value.field? parts "registers" with
    | none => simp [Value.partOr, hr, Value.walk, heldBy, bind, Except.bind]
    | some w =>
      obtain ⟨vs, rfl⟩ := hparts w hr
      simp [Value.partOr, hr, Value.walk, heldBy, bind, Except.bind]
  rw [List.flatMap_def]
  exact congrArg (· >>= fun registers => pure registers.flatten) (Step.mapM_eq_ok hframe)

theorem mem_heldBy_iff {f v : Value} :
    v ∈ heldBy f ↔ ∃ parts vs, f = .object parts ∧
      Value.field? parts "registers" = some (.list vs) ∧ v ∈ vs := by
  unfold heldBy
  constructor
  · intro h
    split at h
    next parts =>
      split at h
      next vs hr => exact ⟨parts, vs, rfl, hr, h⟩
      next => simp at h
    next => simp at h
  · rintro ⟨parts, vs, rfl, hr, hv⟩
    simpa [hr] using hv

theorem Rooted.roots {m : Machine} {frames : List Value} (h : m.Rooted frames) :
    ∃ values, m.roots (.list frames) = .ok values ∧ ∀ v, v ∈ values ↔ m.Root v := by
  refine ⟨m.registers.toList ++ frames.flatMap heldBy, ?_, ?_⟩
  · simp [Machine.roots, h.own, h.frameRegisters, bind, Except.bind, pure, Except.pure]
  · intro v
    rw [List.mem_append, List.mem_flatMap, Array.mem_toList_iff]
    constructor
    · rintro (hv | ⟨f, hf, hv⟩)
      · exact .register hv
      · obtain ⟨parts, vs, rfl, hr, hv⟩ := mem_heldBy_iff.mp hv
        exact .frame h.stack hf hr hv
    · rintro (hv | ⟨hs, hf, hr, hv⟩)
      · exact .inl hv
      · obtain rfl := Value.list.inj (Option.some.inj (h.stack.symm.trans hs))
        exact .inr ⟨_, hf, mem_heldBy_iff.mpr ⟨_, _, rfl, hr, hv⟩⟩

theorem size_blankMarks (m : Machine) : m.blankMarks.size = m.cells.size := by
  simp [blankMarks]

theorem not_isMarked_blankMarks (m : Machine) (p : Nat) : ¬ IsMarked m.blankMarks p := by
  rw [isMarked_iff, blankMarks, Array.getElem?_replicate]
  split <;> simp

/-- Marking that starts from the roots marks the places of the reachable objects. -/
theorem isMarked_iff_reachable {m : Machine} {values : List Value} {marks : Marks}
    (hroots : ∀ v, v ∈ values ↔ m.Root v)
    (h : Traced m.cells marks (values.map (0, ·)) m.blankMarks) (p : Nat) :
    IsMarked marks p ↔ m.Reachable (p + 1) := by
  constructor
  · refine h.within (R := fun p => m.Reachable (p + 1)) ?_ ?_ ?_ p
    · intro q hq v hv r hr
      obtain ⟨o, ho, hv⟩ := mem_fieldValues_iff.mp hv
      exact .field hq (mem_objects_iff.mpr ⟨q, rfl, ho⟩) hv (referent?_iff_names.mp hr)
    · intro x hx q hq
      obtain ⟨v, hv, rfl⟩ := List.mem_map.mp hx
      exact .root ((hroots v).mp hv) (referent?_iff_names.mp hq)
    · intro q hq
      exact absurd hq (m.not_isMarked_blankMarks q)
  · suffices ∀ id, m.Reachable id → ∀ p, id = p + 1 → IsMarked marks p from
      fun hp => this _ hp p rfl
    intro id hid
    induction hid with
    | root hr hv =>
      rintro p rfl
      exact h.pending_marked m.size_blankMarks _
        (List.mem_map.mpr ⟨_, (hroots _).mpr hr, rfl⟩) p (referent?_iff_names.mpr hv)
    | field _ ho hf hv ih =>
      rintro p rfl
      obtain ⟨q, rfl, hq⟩ := mem_objects_iff.mp ho
      exact h.fields_marked m.size_blankMarks (ih q rfl) (m.not_isMarked_blankMarks q) _
        (mem_fieldValues_iff.mpr ⟨_, hq, hf⟩) p (referent?_iff_names.mpr hv)

/-- What can go wrong with the last record of a collection, which gives the bytes in use and their share
of the heap. -/
def closing (m : Machine) : Except Fault Unit := do
  let _ ← m.share
  let _ ← m.used.written
  let _ ← m.heapSize.written

/-- The last record can be written if the two numbers in it have at most a thousand bits. -/
theorem closing_eq_ok {m : Machine} {used size : Int} (hused : m.used = .int used)
    (hsize : m.heapSize = .int size) (hpos : 0 < size) (hu : used.natAbs.log2 < 1000)
    (hs : size.natAbs.log2 < 1000) : m.closing = .ok () := by
  have hwritten (i : Int) (hi : i.natAbs.log2 < 1000) :
      (Value.int i).written = .ok (Value.int i).display := Value.written_of_int? rfl hi
  have hshare : ∃ d, m.share = .ok d := by
    have hne : size ≠ 0 := by omega
    have hsome := Double.isSome_ofRatio? (decide (used < 0) != decide (size < 0))
      (Int.natAbs_ne_zero.mpr hne) hu
    obtain ⟨d, hd⟩ := Option.isSome_iff_exists.mp hsome
    refine ⟨d, ?_⟩
    simp [share, hused, hsize, Value.trueDiv, Value.num?, hne, Double.ofQuotient?, hd, bind, Except.bind,
      Value.toDouble]
  obtain ⟨d, hd⟩ := hshare
  simp [closing, hd, hused, hsize, hwritten used hu, hwritten size hs, bind, Except.bind, Pure.pure,
    Except.pure]

theorem doomed_swept (m : Machine) (keep : Nat → Bool) : (m.swept keep).doomed keep = [] := by
  apply List.eq_nil_iff_forall_not_mem.mpr
  intro p hp
  obtain ⟨hk, o, ho⟩ := mem_doomed_iff.mp hp
  rw [(getElem?_swept_object.mp ho).1] at hk
  cases hk

/-- Marking a heap that was swept with its marks gives the same marks. -/
theorem trace_swept {m : Machine} {values : List Value} {marks : Marks}
    (h : trace m.cells (values.map (0, ·)) m.blankMarks = .ok marks) :
    trace (m.swept fun p => (marks.getD p none).isSome).cells (values.map (0, ·))
      (m.swept fun p => (marks.getD p none).isSome).blankMarks = .ok marks := by
  have hblank : (m.swept fun p => (marks.getD p none).isSome).blankMarks = m.blankMarks := by
    simp [blankMarks, swept]
  rw [hblank, trace_eq_ok_iff]
  refine (trace_eq_ok_iff.mp h).congr m.size_blankMarks ?_ ?_
  · intro p hp
    exact getElem?_swept m _ p hp
  · intro p o ho
    exact (getElem?_swept_object.mp ho).2

end Machine

namespace Act

open Machine (Marks Traced)

theorem on_mark {m : Machine} {frames values : List Value} (h : m.Rooted frames)
    (hvalues : m.roots (.list frames) = .ok values) :
    mark.on m = (Machine.trace m.cells (values.map (0, ·)) m.blankMarks, m) := by
  simp [mark, Step.on_bind, h.ready, h.stack, hvalues]

theorem on_sweep (keep : Nat → Bool) {m : Machine} {u : Int} (hu : m.used = .int u) :
    (sweep keep).on m =
      (.ok (), { m.swept keep with
        used := .int (u - objectSize * (m.doomed keep).length)
        log := m.log.add .info s!"删除了 {(m.doomed keep).length} 个不可达对象" }) := by
  simp only [sweep, Step.on_bind, Step.on_get, on_removeObjects _ hu, Step.on_report]
  rfl

/-- The report on a collection changes the log only, and fails only where its last record cannot be
written. -/
theorem on_reportCollection (marks : Marks) (m : Machine) :
    ∃ log, (reportCollection marks).on m = (m.closing, { m with log }) := by
  simp only [reportCollection, Machine.closing, Step.on_bind, Step.on_get, Step.on_report,
    Step.on_lift]
  cases m.share with
  | error e => exact ⟨_, rfl⟩
  | ok share =>
    cases m.used.written with
    | error e => exact ⟨_, rfl⟩
    | ok used =>
      cases m.heapSize.written with
      | error e => exact ⟨_, rfl⟩
      | ok size => exact ⟨_, rfl⟩

/-- A collection whose marking succeeds sweeps with the marks; all that can fail after that is the
writing of its last record. -/
theorem on_collect {m : Machine} {frames values : List Value} {marks : Marks} {u : Int}
    (h : m.Rooted frames) (hvalues : m.roots (.list frames) = .ok values)
    (hmarks : Machine.trace m.cells (values.map (0, ·)) m.blankMarks = .ok marks)
    (hu : m.used = .int u) :
    ∃ log, (collect.on m).2 = { m.swept (fun p => (marks.getD p none).isSome) with
        collections := m.collections + 1
        used := .int (u - objectSize * (m.doomed fun p => (marks.getD p none).isSome).length)
        log } ∧
      (collect.on m).1 = (collect.on m).2.closing := by
  have hmark : mark.on { m with collections := m.collections + 1 } =
      (.ok marks, { m with collections := m.collections + 1 }) := by
    rw [← hmarks]
    exact on_mark ⟨h.ready, h.own, h.stack, h.framed⟩ hvalues
  have hsweep := on_sweep (fun p => (marks.getD p none).isSome)
    (m := { m with collections := m.collections + 1 }) hu
  obtain ⟨log, hreport⟩ := on_reportCollection marks
    ((sweep fun p => (marks.getD p none).isSome).on { m with collections := m.collections + 1 }).2
  have hcollect : collect.on m = (reportCollection marks).on
      ((sweep fun p => (marks.getD p none).isSome).on { m with collections := m.collections + 1 }).2 := by
    rw [collect, Step.on_bind_ok (Step.on_modify _ m), Step.on_bind_ok hmark, Step.on_bind_ok hsweep,
      hsweep]
  rw [hcollect, hreport]
  refine ⟨log, ?_, rfl⟩
  rw [hsweep]
  rfl

theorem cells_collect_again {m : Machine} {frames values : List Value} {marks : Marks} {u : Int}
    (h : m.Rooted frames) (hvalues : m.roots (.list frames) = .ok values)
    (hmarks : Machine.trace m.cells (values.map (0, ·)) m.blankMarks = .ok marks)
    (hu : m.used = .int u) :
    (collect.on (collect.on m).2).2.cells = (collect.on m).2.cells := by
  obtain ⟨log, hstate, -⟩ := on_collect h hvalues hmarks hu
  rw [hstate]
  have hrooted : Machine.Rooted { m.swept (fun p => (marks.getD p none).isSome) with
      collections := m.collections + 1
      used := .int (u - objectSize * (m.doomed fun p => (marks.getD p none).isSome).length)
      log } frames := ⟨h.ready, h.own, h.stack, h.framed⟩
  obtain ⟨log', hagain, -⟩ := on_collect hrooted hvalues (Machine.trace_swept hmarks) rfl
  rw [hagain]
  change Machine.vacate (m.swept _).cells ((m.swept _).doomed _) = _
  rw [Machine.doomed_swept, Machine.vacate_nil]

/-- A store with fewer cells than the longest chain is always marked to the end. -/
theorem mark_ne_nestedTooDeeply {m : Machine} {frames : List Value} (h : m.Rooted frames)
    (hsize : m.cells.size < Machine.longestChain) : (mark.on m).1 ≠ .error .nestedTooDeeply := by
  obtain ⟨values, hvalues, -⟩ := h.roots
  rw [on_mark h hvalues]
  apply Machine.trace_ne_error
  intro x hx
  obtain ⟨v, -, rfl⟩ := List.mem_map.mp hx
  simpa [Machine.unmarked, Machine.blankMarks, Array.countP_replicate] using hsize

theorem exists_marks {m : Machine} {frames : List Value} (h : m.Rooted frames)
    (hdepth : (mark.on m).1 ≠ .error .nestedTooDeeply) :
    ∃ values marks, m.roots (.list frames) = .ok values ∧ (∀ v, v ∈ values ↔ m.Root v) ∧
      Machine.trace m.cells (values.map (0, ·)) m.blankMarks = .ok marks := by
  obtain ⟨values, hvalues, hroots⟩ := h.roots
  rw [on_mark h hvalues] at hdepth
  cases htrace : Machine.trace m.cells (values.map (0, ·)) m.blankMarks with
  | ok marks => exact ⟨values, marks, hvalues, hroots, htrace⟩
  | error e => exact absurd (by rw [htrace, Machine.eq_nestedTooDeeply_of_trace htrace]) hdepth

/-- A collection that returns leaves the reachable objects, each as it was. -/
theorem mem_objects_of_collect {m t : Machine} {frames : List Value} {u : Int} (h : m.Rooted frames)
    (hu : m.used = .int u) (hcollect : collect.on m = (.ok (), t)) (id : Nat) (o : Obj) :
    (id, o) ∈ t.objects ↔ (id, o) ∈ m.objects ∧ m.Reachable id := by
  have hcounted : Machine.Rooted { m with collections := m.collections + 1 } frames :=
    ⟨h.ready, h.own, h.stack, h.framed⟩
  obtain ⟨values, hvalues, hroots⟩ := h.roots
  have hmarks : ∃ marks, Machine.trace m.cells (values.map (0, ·)) m.blankMarks = .ok marks := by
    rw [collect, Step.on_bind_ok (Step.on_modify _ m)] at hcollect
    obtain ⟨marks, s, hmark, -⟩ := Step.exists_of_on_bind hcollect
    rw [on_mark hcounted hvalues] at hmark
    exact ⟨marks, congrArg Prod.fst hmark⟩
  obtain ⟨marks, hmarks⟩ := hmarks
  have hreachable := Machine.isMarked_iff_reachable hroots (Machine.trace_eq_ok_iff.mp hmarks)
  obtain ⟨log, hstate, -⟩ := on_collect h hvalues hmarks hu
  have hobjects : t.objects = (m.swept fun p => (marks.getD p none).isSome).objects := by
    rw [hcollect] at hstate
    obtain rfl := hstate
    rfl
  rw [hobjects, Machine.mem_objects_swept]
  refine and_congr_right fun ho => ?_
  obtain ⟨p, rfl, -⟩ := Machine.mem_objects_iff.mp ho
  exact hreachable p

/-- Collection is exact. For a machine whose registers and call stack are set up, and whose references
form no chain that is too long to follow, the heap holds after a collection exactly the reachable
objects, each as it was; the collection is counted, the bytes in use fall by the size of an object for
each object that is gone, the next number and the registers stay, and another collection removes
nothing more. The collection returns if the two numbers in its last record have at most a thousand
bits. -/
theorem collect_keeps_exactly_reachable {m : Machine} {frames : List Value} {u : Int}
    (h : m.Rooted frames) (hu : m.used = .int u)
    (hdepth : (mark.on m).1 ≠ .error .nestedTooDeeply) :
    (∀ id o, (id, o) ∈ (collect.on m).2.objects ↔ (id, o) ∈ m.objects ∧ m.Reachable id) ∧
    (collect.on m).2.collections = m.collections + 1 ∧
    (collect.on m).2.used =
      .int (u - objectSize * ((m.objects.length : Int) - (collect.on m).2.objects.length)) ∧
    (collect.on m).2.nextId = m.nextId ∧
    (collect.on m).2.registers = m.registers ∧
    (collect.on (collect.on m).2).2.objects = (collect.on m).2.objects ∧
    ∀ used size : Int, (collect.on m).2.used = .int used → m.heapSize = .int size → 0 < size →
      used.natAbs.log2 < 1000 → size.natAbs.log2 < 1000 → (collect.on m).1 = .ok () := by
  obtain ⟨values, marks, hvalues, hroots, hmarks⟩ := exists_marks h hdepth
  have hreachable := Machine.isMarked_iff_reachable hroots (Machine.trace_eq_ok_iff.mp hmarks)
  have hagain := cells_collect_again h hvalues hmarks hu
  obtain ⟨log, hstate, houtcome⟩ := on_collect h hvalues hmarks hu
  generalize hkeep : (fun p => (marks.getD p none).isSome) = keep at hstate
  have hobjects : (collect.on m).2.objects = (m.swept keep).objects := by
    rw [hstate]
    rfl
  refine ⟨?_, by rw [hstate], ?_, ?_, by rw [hstate]; rfl, ?_, ?_⟩
  · intro id o
    rw [hobjects, Machine.mem_objects_swept, ← hkeep]
    refine and_congr_right fun ho => ?_
    obtain ⟨p, rfl, -⟩ := Machine.mem_objects_iff.mp ho
    exact hreachable p
  · have hused : (collect.on m).2.used = .int (u - objectSize * (m.doomed keep).length) := by
      rw [hstate]
    have hlength := m.length_objects_swept keep
    have hgone : ((m.doomed keep).length : Int) =
        (m.objects.length : Int) - (m.swept keep).objects.length := by omega
    rw [hused, hobjects, hgone]
  · rw [hstate]
    simp [Machine.nextId, Machine.swept]
  · unfold Machine.objects Machine.numbered
    rw [hagain]
  · intro used size hused hsize hpos hub hsb
    rw [houtcome]
    refine Machine.closing_eq_ok hused ?_ hpos hub hsb
    rw [hstate]
    exact hsize

/-- Two objects that refer to each other, one of them also to itself and to an object that is not there,
an object that only refers to others, and one that only a frame holds. -/
def tangledMachine : Machine :=
  { registers := #[.none, .int 1]
    registersReady := true
    callStack := some (.list [.object [("registers", .list [.int 4, .text "4"])], .object []])
    cells := #[
      .object { className := .text "A", fields := [(.int 0, .int 2)] },
      .object { className := .text "B"
                fields := [(.int 0, .int 1), (.int 1, .int 2), (.int 2, .int 9)] },
      .object { className := .text "C", fields := [(.int 0, .bool true)] },
      .object { className := .text "D" }]
    used := .int 4096 }

theorem rooted_tangledMachine : tangledMachine.Rooted
    [.object [("registers", .list [.int 4, .text "4"])], .object []] where
  ready := rfl
  own := rfl
  stack := rfl
  framed := by
    intro f hf
    rcases List.mem_cons.mp hf with rfl | hf
    · exact ⟨_, rfl, by simp [Value.field?]⟩
    · obtain rfl := List.mem_singleton.mp hf
      exact ⟨_, rfl, by simp [Value.field?]⟩

theorem collect_tangledMachine :
    tangledMachine.cells.size < Machine.longestChain ∧
    ∀ id o, (id, o) ∈ (collect.on tangledMachine).2.objects ↔
      (id, o) ∈ tangledMachine.objects ∧ tangledMachine.Reachable id :=
  have hsize : tangledMachine.cells.size < Machine.longestChain := by decide
  ⟨hsize, (collect_keeps_exactly_reachable rooted_tangledMachine rfl
    (mark_ne_nestedTooDeeply rooted_tangledMachine hsize)).1⟩

end Act

end Handset
