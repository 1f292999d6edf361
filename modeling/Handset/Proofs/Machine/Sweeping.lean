import Handset.Machine.Collection
import Handset.Proofs.Steps
import Mathlib.Data.List.Basic
import Mathlib.Tactic.Ring

/-!
# What sweeping removes

Sweeping filters the heap: the objects that are to be kept stay under their numbers, in their order and
with their contents, and every other object gives back the size of one object.
-/
namespace Handset

namespace Machine

theorem mem_objects_iff {m : Machine} {id : Nat} {o : Obj} :
    (id, o) ∈ m.objects ↔ ∃ p, id = p + 1 ∧ m.cells[p]? = some (.object o) := by
  unfold objects numbered
  simp only [List.mem_filterMap, Prod.exists, List.mk_mem_zipIdx_iff_le_and_getElem?_sub,
    Array.getElem?_toList]
  constructor
  · rintro ⟨c, n, ⟨hn, hc⟩, h⟩
    cases c with
    | object o' =>
      obtain ⟨rfl, rfl⟩ : n = id ∧ o' = o := by simpa using h
      exact ⟨n - 1, by omega, hc⟩
    | vacated => simp at h
    | array type items => simp at h
  · rintro ⟨p, rfl, hp⟩
    exact ⟨.object o, p + 1, ⟨by omega, by simpa using hp⟩, rfl⟩

theorem lt_nextId_of_mem_objects {m : Machine} {id : Nat} {o : Obj} (h : (id, o) ∈ m.objects) :
    id < m.nextId := by
  obtain ⟨p, rfl, hp⟩ := mem_objects_iff.mp h
  have hsize : p < m.cells.size := (Array.getElem?_eq_some_iff.mp hp).1
  exact Nat.succ_lt_succ hsize

def vacate (cells : Array Cell) (places : List Nat) : Array Cell :=
  places.foldl (fun cells p => cells.setIfInBounds p .vacated) cells

@[simp] theorem vacate_nil (cells : Array Cell) : vacate cells [] = cells := rfl

@[simp] theorem vacate_cons (cells : Array Cell) (p : Nat) (rest : List Nat) :
    vacate cells (p :: rest) = vacate (cells.setIfInBounds p .vacated) rest := rfl

@[simp] theorem size_vacate (cells : Array Cell) (places : List Nat) :
    (vacate cells places).size = cells.size := by
  induction places generalizing cells with
  | nil => rfl
  | cons p rest ih => simp [ih]

theorem getElem?_vacate (cells : Array Cell) (places : List Nat) (q : Nat) :
    (vacate cells places)[q]? = if q ∈ places then cells[q]?.map fun _ => .vacated else cells[q]? := by
  induction places generalizing cells with
  | nil => simp
  | cons p rest ih =>
    rw [vacate_cons, ih, Array.getElem?_setIfInBounds]
    by_cases hp : p = q
    · subst hp
      by_cases hr : p < cells.size <;> simp [hr]
    · by_cases hr : q ∈ rest <;> simp [hp, hr, Ne.symm hp]

theorem mem_doomed_iff {m : Machine} {keep : Nat → Bool} {p : Nat} :
    p ∈ m.doomed keep ↔ keep p = false ∧ ∃ o, m.cells[p]? = some (.object o) := by
  unfold doomed
  simp only [List.mem_filter, List.mem_map, Prod.exists, mem_objects_iff]
  constructor
  · rintro ⟨⟨id, o, ⟨q, rfl, hq⟩, rfl⟩, hk⟩
    exact ⟨by simpa using hk, o, hq⟩
  · rintro ⟨hk, o, ho⟩
    exact ⟨⟨p + 1, o, ⟨p, rfl, ho⟩, rfl⟩, by simp [hk]⟩

def swept (m : Machine) (keep : Nat → Bool) : Machine :=
  { m with cells := vacate m.cells (m.doomed keep) }

theorem getElem?_swept (m : Machine) (keep : Nat → Bool) (p : Nat) (hp : keep p = true) :
    (m.swept keep).cells[p]? = m.cells[p]? := by
  have : p ∉ m.doomed keep := by simp [mem_doomed_iff, hp]
  simp [swept, getElem?_vacate, this]

theorem getElem?_swept_object {m : Machine} {keep : Nat → Bool} {p : Nat} {o : Obj} :
    (m.swept keep).cells[p]? = some (.object o) ↔ keep p = true ∧ m.cells[p]? = some (.object o) := by
  constructor
  · intro h
    cases hk : keep p with
    | true => exact ⟨rfl, by rwa [getElem?_swept m keep p hk] at h⟩
    | false =>
      by_cases hd : p ∈ m.doomed keep
      · obtain ⟨-, o', ho'⟩ := mem_doomed_iff.mp hd
        simp [swept, getElem?_vacate, hd, ho'] at h
      · have ho : m.cells[p]? = some (.object o) := by
          simpa [swept, getElem?_vacate, hd] using h
        exact absurd (mem_doomed_iff.mpr ⟨hk, o, ho⟩) hd
  · rintro ⟨hk, ho⟩
    rwa [getElem?_swept m keep p hk]

/-- An object is in the swept heap exactly if it was in the heap and is to be kept. -/
theorem mem_objects_swept {m : Machine} {keep : Nat → Bool} {id : Nat} {o : Obj} :
    (id, o) ∈ (m.swept keep).objects ↔ (id, o) ∈ m.objects ∧ keep (id - 1) = true := by
  simp only [mem_objects_iff, getElem?_swept_object]
  constructor
  · rintro ⟨p, rfl, hk, ho⟩
    exact ⟨⟨p, rfl, ho⟩, hk⟩
  · rintro ⟨⟨p, rfl, ho⟩, hk⟩
    exact ⟨p, rfl, hk, ho⟩

/-- What sweeping makes of a numbered cell. -/
private def sweptCell (keep : Nat → Bool) : Cell × Nat → Cell × Nat
  | (.object o, id) => (if keep (id - 1) then .object o else .vacated, id)
  | (c, id) => (c, id)

private theorem numbered_swept (m : Machine) (keep : Nat → Bool) :
    (m.swept keep).numbered = m.numbered.map (sweptCell keep) := by
  unfold numbered
  apply List.ext_getElem?
  intro k
  simp only [List.getElem?_map, List.getElem?_zipIdx, Array.getElem?_toList, Option.map_map]
  cases hk : keep k with
  | true =>
    rw [getElem?_swept m keep k hk]
    rcases m.cells[k]? with _ | _ | _ | _ <;> simp [sweptCell, hk]
  | false =>
    by_cases hd : k ∈ m.doomed keep
    · obtain ⟨-, o, ho⟩ := mem_doomed_iff.mp hd
      simp [swept, getElem?_vacate, hd, ho, sweptCell, hk]
    · have hno (o : Obj) : m.cells[k]? ≠ some (.object o) :=
        fun ho => hd (mem_doomed_iff.mpr ⟨hk, o, ho⟩)
      have hsame : (m.swept keep).cells[k]? = m.cells[k]? := by simp [swept, getElem?_vacate, hd]
      rw [hsame]
      rcases hc : m.cells[k]? with _ | _ | o | _
      · rfl
      · rfl
      · exact absurd hc (hno o)
      · rfl

theorem objects_swept (m : Machine) (keep : Nat → Bool) :
    (m.swept keep).objects = m.objects.filter fun x => keep (x.1 - 1) := by
  unfold objects
  rw [numbered_swept, List.filterMap_map, List.filter_filterMap]
  apply List.filterMap_congr
  rintro ⟨c, id⟩ -
  cases c with
  | object o => cases hk : keep (id - 1) <;> simp [sweptCell, Option.filter, hk]
  | vacated => rfl
  | array type items => rfl

theorem length_objects_swept (m : Machine) (keep : Nat → Bool) :
    (m.swept keep).objects.length + (m.doomed keep).length = m.objects.length := by
  rw [objects_swept, doomed, List.filter_map, List.length_map, ← List.countP_eq_length_filter,
    ← List.countP_eq_length_filter, List.length_eq_countP_add_countP fun x => keep (x.1 - 1)]
  congr 2
  funext x
  simp

end Machine

namespace Act

/-- Vacating cells takes the size of one object for each off an integral number of used bytes. -/
theorem on_removeObjects (places : List Nat) {m : Machine} {u : Int} (hu : m.used = .int u) :
    (removeObjects places).on m =
      (.ok (), { m with
        cells := Machine.vacate m.cells places
        used := .int (u - objectSize * places.length) }) := by
  induction places generalizing m u with
  | nil =>
    cases m
    simp_all [removeObjects]
  | cons p rest ih =>
    have hsub : (m.setCell p .vacated).used.sub (.int objectSize) = .ok (.int (u - objectSize)) := by
      rw [show (m.setCell p .vacated).used = .int u from hu]
      rfl
    simp only [removeObjects, Step.on_bind, Step.on_modify, Step.on_get, Step.on_lift, hsub]
    rw [ih (u := u - objectSize) rfl]
    simp only [Machine.setCell, Machine.vacate_cons, List.length_cons, Prod.mk.injEq, true_and]
    congr 2
    push_cast
    ring

end Act

end Handset
