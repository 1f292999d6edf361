import Handset.Proofs.Machine.HeapAccounting

/-!
# What a collection reports

A collection writes two records on the objects that it removes. Sweeping counts them as it removes them. The
collection itself takes the marked objects from the objects of the heap only when the heap has been swept and no
others are left: whatever was removed, it reports that nothing was.
-/
namespace Handset

open Step

namespace Machine

variable {m : Machine} {marks : Marks} {values : List Value}

theorem isObject_iff {c : Cell} : Cell.isObject c = true ↔ ∃ o, c = .object o := by
  cases c <;> simp [Cell.isObject]

/-- Only objects are marked. -/
theorem exists_object_of_isMarked (h : Traced m.cells marks (values.map (0, ·)) m.blankMarks) {p : Nat}
    (hp : IsMarked marks p) : ∃ o, m.cells[p]? = some (.object o) := by
  have hobject (v : Value) (q : Nat) (hq : referent? m.cells v = some q) : ∃ o, m.cells[q]? = some (.object o) :=
    (referent?_eq_some_iff.mp hq).2
  exact h.within (R := fun p => ∃ o, m.cells[p]? = some (.object o))
    (fun _ _ v _ q hq => hobject v q hq) (fun x _ q hq => hobject x.2 q hq)
    (fun q hq => absurd hq (m.not_isMarked_blankMarks q)) p hp

theorem isObject_swept_iff (h : Traced m.cells marks (values.map (0, ·)) m.blankMarks) (p : Nat) :
    (∃ o, (m.swept fun p => (marks.getD p none).isSome).cells[p]? = some (.object o)) ↔ IsMarked marks p := by
  simp only [getElem?_swept_object]
  constructor
  · rintro ⟨o, hp, -⟩
    exact hp
  · intro hp
    obtain ⟨o, ho⟩ := exists_object_of_isMarked h hp
    exact ⟨o, hp, ho⟩

theorem heapCount_swept_eq (h : Traced m.cells marks (values.map (0, ·)) m.blankMarks) :
    (m.swept fun p => (marks.getD p none).isSome).heapCount = marks.countP Option.isSome := by
  have hsize : (m.swept fun p => (marks.getD p none).isSome).cells.size = marks.size := by
    rw [h.size_eq, m.size_blankMarks]
    exact size_vacate _ _
  have hcells : (m.swept fun p => (marks.getD p none).isSome).cells.map Cell.isObject =
      marks.map Option.isSome := by
    apply Array.ext (by rw [Array.size_map, Array.size_map, hsize])
    intro p hp hp'
    rw [Array.size_map] at hp hp'
    rw [Array.getElem_map, Array.getElem_map, Bool.eq_iff_iff]
    have hmarked : IsMarked marks p ↔ marks[p].isSome = true := by
      rw [isMarked_iff, Array.getElem?_eq_getElem hp', Option.isSome_iff_exists]
      simp
    rw [← hmarked, ← isObject_swept_iff h, Array.getElem?_eq_getElem hp, isObject_iff]
    simp only [Option.some.injEq]
  calc (m.swept fun p => (marks.getD p none).isSome).heapCount
      = ((m.swept fun p => (marks.getD p none).isSome).cells.map Cell.isObject).countP id := by
        rw [Array.countP_map]
        rfl
    _ = marks.countP Option.isSome := by
        rw [hcells, Array.countP_map]
        rfl

def collecting (m : Machine) : Machine :=
  { m with collections := m.collections + 1 }

theorem Rooted.collecting {frames : List Value} (h : m.Rooted frames) : m.collecting.Rooted frames :=
  ⟨h.ready, h.own, h.stack, h.framed⟩

/-- The record on the bytes in use, which is missing if its numbers cannot be written. -/
def IsUsageReport (records : Log) : Prop :=
  records = #[] ∨
    ∃ used size percent : String, records = #[⟨.info, s!"堆状态: {used}/{size} ({percent})"⟩]

/-- What a collection that goes through leaves of the heap and of the log of a machine: `removed` objects are gone,
sweeping reports so many, and the collection none. -/
structure Recycled (m t : Machine) (removed : Nat) : Prop where
  objects : t.objects.length + removed = m.objects.length
  log : ∃ usage, IsUsageReport usage ∧
    t.log = ((m.log.add .info s!"删除了 {removed} 个不可达对象").add .info
      "垃圾回收完成: 回收了 0 个对象, 耗时") ++ usage

end Machine

theorem Value.exists_sub_objectSize {v : Value} (h : v.num?.isSome) :
    ∃ w, v.sub (.int objectSize) = .ok w ∧ w.num?.isSome := by
  cases v with
  | bool b => exact ⟨_, rfl, rfl⟩
  | int i => exact ⟨_, rfl, rfl⟩
  | double d => exact ⟨_, rfl, rfl⟩
  | _ => cases h

namespace Act

open Machine (Marks Traced Recycled IsUsageReport)

variable {m : Machine} {marks : Marks}

theorem log_removeObjects (places : List Nat) (m : Machine) : ((removeObjects places).on m).2.log = m.log :=
  keeps_removeObjects (P := fun t => t.log = m.log) (fun _ _ _ h => h) (fun _ _ h => h) m rfl

theorem on_removeObjects_of_ok {places : List Nat} (h : ((removeObjects places).on m).1 = .ok ()) :
    ∃ used, ((removeObjects places).on m).2 = { m with cells := Machine.vacate m.cells places, used } := by
  induction places generalizing m with
  | nil => exact ⟨m.used, rfl⟩
  | cons p rest ih =>
    simp only [removeObjects, on_bind, on_modify, on_get, on_lift] at h ⊢
    cases hsub : (m.setCell p .vacated).used.sub (.int objectSize) with
    | error e =>
      rw [hsub] at h
      cases h
    | ok used =>
      rw [hsub] at h
      exact ih (m := { m.setCell p .vacated with used }) h

theorem removeObjects_ok (places : List Nat) (h : m.used.num?.isSome) :
    ((removeObjects places).on m).1 = .ok () := by
  induction places generalizing m with
  | nil => rfl
  | cons p rest ih =>
    obtain ⟨used, hsub, hused⟩ := Value.exists_sub_objectSize h
    have hsub : (m.setCell p .vacated).used.sub (.int objectSize) = .ok used := hsub
    simp only [removeObjects, on_bind, on_modify, on_get, on_lift, hsub]
    exact ih (m := { m.setCell p .vacated with used }) hused

/-- Sweeping that goes through reports how many objects it removes. -/
theorem on_sweep_of_ok {keep : Nat → Bool} (h : ((removeObjects (m.doomed keep)).on m).1 = .ok ()) :
    ∃ used, (sweep keep).on m = (.ok (), { m.swept keep with
      used, log := m.log.add .info s!"删除了 {(m.doomed keep).length} 个不可达对象" }) := by
  obtain ⟨used, hremove⟩ := on_removeObjects_of_ok h
  refine ⟨used, ?_⟩
  rw [sweep, on_bind_ok (on_get m), on_bind_ok (Prod.ext h hremove)]
  rfl

theorem on_sweep_of_error {keep : Nat → Bool} {fault : Fault}
    (h : ((removeObjects (m.doomed keep)).on m).1 = .error fault) :
    ∃ t, (sweep keep).on m = (.error fault, t) ∧ t.log = m.log := by
  refine ⟨_, ?_, log_removeObjects (m.doomed keep) m⟩
  rw [sweep, on_bind_ok (on_get m), on_bind_error (Prod.ext h rfl)]

/-- The report on a collection is about the objects beyond the marked ones that are in the heap when it is
written. -/
theorem state_reportCollection (marks : Marks) (m : Machine) :
    ∃ usage, IsUsageReport usage ∧ ((reportCollection marks).on m).2 = { m with
      log := m.log.add .info
        s!"垃圾回收完成: 回收了 {(m.heapCount : Int) - marks.countP Option.isSome} 个对象, 耗时" ++ usage } := by
  simp only [reportCollection, on_bind, on_get, on_report, on_lift]
  cases m.share with
  | error e => exact ⟨#[], .inl rfl, rfl⟩
  | ok share =>
    cases m.used.written with
    | error e => exact ⟨#[], .inl rfl, rfl⟩
    | ok used =>
      cases m.heapSize.written with
      | error e => exact ⟨#[], .inl rfl, rfl⟩
      | ok size => exact ⟨_, .inr ⟨used, size, share.percent 2, rfl⟩, rfl⟩

/-- Marking, sweeping and the report, which make up a collection once it is counted. -/
def recycle : Act Unit := do
  let marks ← mark
  sweep fun p => (marks.getD p none).isSome
  reportCollection marks

theorem on_collect_eq (m : Machine) : collect.on m = recycle.on m.collecting :=
  on_bind_ok (on_modify _ m) _

/-- Nothing is left beyond the marked objects when the report is written. -/
theorem recycled_recycle (hmark : (mark.on m).1 = .ok marks)
    (hremove : ((removeObjects (m.doomed fun p => (marks.getD p none).isSome)).on m).1 = .ok ()) :
    m.Recycled (recycle.on m).2 (m.doomed fun p => (marks.getD p none).isSome).length := by
  obtain ⟨-, values, -, -, htraced⟩ := exists_of_mark hmark
  obtain ⟨used, hsweep⟩ := on_sweep_of_ok hremove
  have hcount := Machine.heapCount_swept_eq htraced
  have hlength := m.length_objects_swept fun p => (marks.getD p none).isSome
  generalize hkeep : (fun p => (marks.getD p none).isSome) = keep at *
  obtain ⟨usage, husage, hreport⟩ := state_reportCollection marks ((sweep keep).on m).2
  have hrecycle : recycle.on m = (reportCollection marks).on ((sweep keep).on m).2 := by
    rw [recycle, on_bind_ok (Prod.ext hmark (quiet_mark m)), hkeep, on_bind_ok hsweep, hsweep]
  rw [hrecycle, hreport, hsweep]
  refine ⟨hlength, usage, husage, ?_⟩
  -- the report counts the heap as sweeping has left it
  have hzero : ((m.swept keep).heapCount : Int) - marks.countP Option.isSome = 0 := by
    rw [hcount, sub_self]
  exact congrArg (fun n : Int => (m.log.add .info s!"删除了 {(m.doomed keep).length} 个不可达对象").add .info
    s!"垃圾回收完成: 回收了 {n} 个对象, 耗时" ++ usage) hzero

theorem recycle_cases (m : Machine) :
    (∃ fault, (recycle.on m).1 = .error fault ∧ (recycle.on m).2.log = m.log) ∨
      ∃ removed, m.Recycled (recycle.on m).2 removed := by
  cases hmark : (mark.on m).1 with
  | error fault =>
    refine .inl ⟨fault, ?_⟩
    rw [recycle, on_bind_error (Prod.ext hmark (quiet_mark m))]
    exact ⟨rfl, rfl⟩
  | ok marks =>
    cases hremove : ((removeObjects (m.doomed fun p => (marks.getD p none).isSome)).on m).1 with
    | ok _ => exact .inr ⟨_, recycled_recycle hmark hremove⟩
    | error fault =>
      obtain ⟨t, hsweep, hlog⟩ := on_sweep_of_error hremove
      refine .inl ⟨fault, ?_⟩
      rw [recycle, on_bind_ok (Prod.ext hmark (quiet_mark m)), on_bind_error hsweep]
      exact ⟨rfl, hlog⟩

/-- A collection that fails before its report leaves the log as it was. Every other one reports twice on the objects
that it removed: sweeping gives their number, and the collection gives none, so that the two agree only if nothing
was removed. A collection gets to its report if the registers and the call stack are set up, the bytes in use are a
number and no chain of references is too long to follow. -/
theorem collection_reports_none (m : Machine) :
    ((∃ fault, (collect.on m).1 = .error fault ∧ (collect.on m).2.log = m.log) ∨
      ∃ removed, m.Recycled (collect.on m).2 removed) ∧
    ∀ frames, m.Rooted frames → m.used.num?.isSome → (mark.on m).1 ≠ .error .nestedTooDeeply →
      ∃ removed, m.Recycled (collect.on m).2 removed := by
  rw [on_collect_eq]
  constructor
  · exact (recycle_cases m.collecting).imp_right
      fun ⟨removed, h⟩ => ⟨removed, h.objects, h.log⟩
  · intro frames hrooted hused hdepth
    obtain ⟨values, marks, hvalues, -, htrace⟩ := exists_marks hrooted hdepth
    have hmark : (mark.on m.collecting).1 = .ok marks :=
      (congrArg Prod.fst (on_mark hrooted.collecting hvalues)).trans htrace
    have h := recycled_recycle hmark (removeObjects_ok _ hused)
    exact ⟨_, h.objects, h.log⟩

theorem tangledMachine_reports_none :
    tangledMachine.used = .int 4096 ∧ tangledMachine.cells.size < Machine.longestChain ∧
      ∃ removed, tangledMachine.Recycled (collect.on tangledMachine).2 removed := by
  have hsize : tangledMachine.cells.size < Machine.longestChain := by decide
  exact ⟨rfl, hsize, (collection_reports_none tangledMachine).2 _ rooted_tangledMachine rfl
    (mark_ne_nestedTooDeeply rooted_tangledMachine hsize)⟩

/-- An object that nothing holds. -/
def abandoned : Machine :=
  { registersReady := true
    callStack := some (.list [])
    cells := #[.object { className := .text "A" }]
    used := .int 1024 }

theorem collect_abandoned :
    abandoned.objects.length = 1 ∧ (collect.on abandoned).2.objects.length = 0 ∧
      (collect.on abandoned).2.log.toList.take 2 =
        [⟨.info, "删除了 1 个不可达对象"⟩, ⟨.info, "垃圾回收完成: 回收了 0 个对象, 耗时"⟩] := by
  have hrooted : abandoned.Rooted [] := ⟨rfl, rfl, rfl, fun _ h => absurd h List.not_mem_nil⟩
  have hroots : abandoned.collecting.roots (.list []) = .ok [] := rfl
  have hmark : (mark.on abandoned.collecting).1 = .ok abandoned.blankMarks := by
    rw [on_mark hrooted.collecting hroots, List.map_nil, Machine.trace]
    rfl
  have h := recycled_recycle hmark (removeObjects_ok _ rfl)
  have hgone : (abandoned.collecting.doomed fun p => (abandoned.blankMarks.getD p none).isSome).length = 1 := by
    decide
  have htext : s!"删除了 {1} 个不可达对象" = "删除了 1 个不可达对象" := by decide
  rw [hgone] at h
  obtain ⟨usage, -, hlog⟩ := h.log
  rw [on_collect_eq]
  refine ⟨rfl, Nat.succ.inj h.objects, ?_⟩
  rw [hlog, htext, Array.toList_append]
  rfl

end Act

end Handset
