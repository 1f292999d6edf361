import Handset.Machine.Collection

/-!
# What marking reaches

Marking follows references from the pending values through the fields of objects. A place is marked
at the end exactly if it can be reached: nothing else is marked, because the marked places stay within
every set that contains the referents of the pending values and is closed under fields; and all of it
is marked, because a place is marked before its fields become pending, and no pending value is dropped
before its referent is marked. Only the limit on the length of chains stops marking early.
-/
namespace Handset.Machine

def IsMarked (marks : Marks) (p : Nat) : Prop :=
  (marks.getD p none).isSome = true

theorem isMarked_iff {marks : Marks} {p : Nat} : IsMarked marks p ↔ ∃ v, marks[p]? = some (some v) := by
  unfold IsMarked
  rw [Array.getD_eq_getD_getElem?]
  rcases h : marks[p]? with _ | _ | v <;> simp

theorem isMarked_set {marks : Marks} {p q : Nat} {v : Value} (h : marks[p]? = some none) :
    IsMarked (marks.setIfInBounds p (some v)) q ↔ q = p ∨ IsMarked marks q := by
  have hp : p < marks.size := (Array.getElem?_eq_some_iff.mp h).1
  rw [isMarked_iff, isMarked_iff, Array.getElem?_setIfInBounds]
  by_cases hq : p = q
  · subst hq
    simp [hp]
  · simp [hq, Ne.symm hq]

/-- A value refers to a place that holds an object. -/
theorem referent?_eq_some_iff {cells : Array Cell} {v : Value} {p : Nat} :
    referent? cells v = some p ↔ v.int? = some (p + 1 : Nat) ∧ ∃ o, cells[p]? = some (.object o) := by
  unfold referent?
  cases hv : v.int? with
  | none => simp
  | some i =>
    by_cases hi : 1 ≤ i
    · obtain ⟨n, rfl⟩ : ∃ n : Nat, i = (n + 1 : Nat) := ⟨(i - 1).toNat, by omega⟩
      have hn : (((n + 1 : Nat) : Int) - 1).toNat = n := by omega
      simp only [hi, if_true, hn]
      constructor
      · intro h
        split at h
        next o ho =>
          obtain rfl := Option.some.inj h
          exact ⟨rfl, o, ho⟩
        next => cases h
      · rintro ⟨hi, o, ho⟩
        obtain rfl : n = p := by
          have := Option.some.inj hi
          omega
        rw [ho]
    · simp only [hi, if_false]
      constructor
      · intro h
        cases h
      · rintro ⟨h, -⟩
        have := Option.some.inj h
        omega

theorem lt_size_of_referent? {cells : Array Cell} {v : Value} {p : Nat}
    (h : referent? cells v = some p) : p < cells.size := by
  obtain ⟨-, o, ho⟩ := referent?_eq_some_iff.mp h
  exact (Array.getElem?_eq_some_iff.mp ho).1

/-- A successful marking, turn by turn: a pending value that refers to no object is passed over, an
object met for the first time is marked and its fields become pending, and an object met before is
passed over. -/
inductive Traced (cells : Array Cell) (out : Marks) : List (Nat × Value) → Marks → Prop
  | done : Traced cells out [] out
  | skip {depth v rest marks} (hv : referent? cells v = none)
      (tail : Traced cells out rest marks) : Traced cells out ((depth, v) :: rest) marks
  | fresh {depth v rest marks p} (hv : referent? cells v = some p) (hdepth : depth < longestChain)
      (hmark : marks[p]? = some none)
      (tail : Traced cells out ((fieldValues cells p).map (depth + 1, ·) ++ rest)
        (marks.setIfInBounds p (some v))) : Traced cells out ((depth, v) :: rest) marks
  | seen {depth v rest marks p} (hv : referent? cells v = some p) (hdepth : depth < longestChain)
      (hmark : marks[p]? ≠ some none) (tail : Traced cells out rest marks) :
      Traced cells out ((depth, v) :: rest) marks

theorem trace_cons_fresh {cells : Array Cell} {depth p : Nat} {v : Value} {marks : Marks}
    (rest : List (Nat × Value)) (hv : referent? cells v = some p) (hdepth : depth < longestChain)
    (hmark : marks[p]? = some none) :
    trace cells ((depth, v) :: rest) marks =
      trace cells ((fieldValues cells p).map (depth + 1, ·) ++ rest)
        (marks.setIfInBounds p (some v)) := by
  rw [trace, hv]
  simp only [Nat.not_le.mpr hdepth, if_false]
  split
  · rfl
  · contradiction

theorem trace_cons_seen {cells : Array Cell} {depth p : Nat} {v : Value} {marks : Marks}
    (rest : List (Nat × Value)) (hv : referent? cells v = some p) (hdepth : depth < longestChain)
    (hmark : marks[p]? ≠ some none) :
    trace cells ((depth, v) :: rest) marks = trace cells rest marks := by
  rw [trace, hv]
  simp only [Nat.not_le.mpr hdepth, if_false]

theorem trace_eq_ok_iff {cells : Array Cell} {pending : List (Nat × Value)} {marks out : Marks} :
    trace cells pending marks = .ok out ↔ Traced cells out pending marks := by
  constructor
  · intro h
    induction pending, marks using trace.induct cells with
    | case1 marks =>
      rw [trace] at h
      obtain rfl := Except.ok.inj h
      exact .done
    | case2 depth v rest marks hv ih =>
      rw [trace, hv] at h
      exact .skip hv (ih h)
    | case3 depth v rest marks p hv hdeep =>
      rw [trace, hv] at h
      simp only [hdeep, if_true] at h
      cases h
    | case4 depth v rest marks p hv hdeep hmark ih =>
      have hdepth := Nat.not_le.mp hdeep
      rw [trace_cons_fresh rest hv hdepth hmark] at h
      exact .fresh hv hdepth hmark (ih h)
    | case5 depth v rest marks p hv hdeep hmark ih =>
      have hdepth := Nat.not_le.mp hdeep
      rw [trace_cons_seen rest hv hdepth hmark] at h
      exact .seen hv hdepth hmark (ih h)
  · intro h
    induction h with
    | done => rw [trace]
    | skip hv _ ih => rw [trace, hv]; exact ih
    | fresh hv hdepth hmark _ ih => rw [trace_cons_fresh _ hv hdepth hmark]; exact ih
    | seen hv hdepth hmark _ ih => rw [trace_cons_seen _ hv hdepth hmark]; exact ih

/-- Marking fails only at a chain of references that is too long. -/
theorem eq_nestedTooDeeply_of_trace {cells : Array Cell} {pending : List (Nat × Value)}
    {marks : Marks} {e : Fault} (h : trace cells pending marks = .error e) : e = .nestedTooDeeply := by
  induction pending, marks using trace.induct cells with
  | case1 marks =>
    rw [trace] at h
    cases h
  | case2 depth v rest marks hv ih =>
    rw [trace, hv] at h
    exact ih h
  | case3 depth v rest marks p hv hdeep =>
    rw [trace, hv] at h
    simp only [hdeep, if_true] at h
    exact (Except.error.inj h).symm
  | case4 depth v rest marks p hv hdeep hmark ih =>
    rw [trace_cons_fresh rest hv (Nat.not_le.mp hdeep) hmark] at h
    exact ih h
  | case5 depth v rest marks p hv hdeep hmark ih =>
    rw [trace_cons_seen rest hv (Nat.not_le.mp hdeep) hmark] at h
    exact ih h

/-- No chain is longer than the number of cells that were marked along it, so a store with fewer cells
than the limit is always marked to the end. -/
theorem trace_ne_error {cells : Array Cell} {pending : List (Nat × Value)} {marks : Marks}
    (h : ∀ x ∈ pending, x.1 + unmarked marks < longestChain) (e : Fault) :
    trace cells pending marks ≠ .error e := by
  induction pending, marks using trace.induct cells with
  | case1 marks => simp [trace]
  | case2 depth v rest marks hv ih =>
    rw [trace, hv]
    exact ih fun x hx => h x (List.mem_cons_of_mem _ hx)
  | case3 depth v rest marks p hv hdeep =>
    have := h _ List.mem_cons_self
    omega
  | case4 depth v rest marks p hv hdeep hmark ih =>
    rw [trace_cons_fresh rest hv (Nat.not_le.mp hdeep) hmark]
    -- the fields are one reference further away, and one cell fewer is blank
    have hless := unmarked_set_lt marks p v hmark
    apply ih
    intro x hx
    rcases List.mem_append.mp hx with hx | hx
    · obtain ⟨w, -, rfl⟩ := List.mem_map.mp hx
      have := h _ List.mem_cons_self
      omega
    · have := h x (List.mem_cons_of_mem _ hx)
      omega
  | case5 depth v rest marks p hv hdeep hmark ih =>
    rw [trace_cons_seen rest hv (Nat.not_le.mp hdeep) hmark]
    exact ih fun x hx => h x (List.mem_cons_of_mem _ hx)

/-- A set of places that contains with each object whatever its fields refer to. -/
def Closed (cells : Array Cell) (R : Nat → Prop) : Prop :=
  ∀ p, R p → ∀ v ∈ fieldValues cells p, ∀ q, referent? cells v = some q → R q

namespace Traced

variable {cells : Array Cell} {out : Marks} {pending : List (Nat × Value)} {marks : Marks}

theorem size_eq (h : Traced cells out pending marks) : out.size = marks.size := by
  induction h with
  | done => rfl
  | skip _ _ ih => exact ih
  | fresh _ _ _ _ ih => rw [ih, Array.size_setIfInBounds]
  | seen _ _ _ _ ih => exact ih

/-- Marking stays within every closed set that it starts in. -/
theorem within {R : Nat → Prop} (h : Traced cells out pending marks) (hR : Closed cells R)
    (hpending : ∀ x ∈ pending, ∀ p, referent? cells x.2 = some p → R p)
    (hmarks : ∀ p, IsMarked marks p → R p) : ∀ p, IsMarked out p → R p := by
  induction h with
  | done => exact hmarks
  | skip hv _ ih => exact ih (fun x hx => hpending x (List.mem_cons_of_mem _ hx)) hmarks
  | @fresh depth v rest marks p hv _ hmark _ ih =>
    have hp : R p := hpending _ List.mem_cons_self p hv
    apply ih
    · intro x hx
      rcases List.mem_append.mp hx with hx | hx
      · obtain ⟨w, hw, rfl⟩ := List.mem_map.mp hx
        exact hR p hp w hw
      · exact hpending x (List.mem_cons_of_mem _ hx)
    · intro q hq
      rcases (isMarked_set hmark).mp hq with rfl | hq
      · exact hp
      · exact hmarks q hq
  | seen _ _ _ _ ih => exact ih (fun x hx => hpending x (List.mem_cons_of_mem _ hx)) hmarks

theorem mono (h : Traced cells out pending marks) {p : Nat} (hp : IsMarked marks p) :
    IsMarked out p := by
  induction h with
  | done => exact hp
  | skip _ _ ih => exact ih hp
  | fresh _ _ hmark _ ih => exact ih ((isMarked_set hmark).mpr (.inr hp))
  | seen _ _ _ _ ih => exact ih hp

/-- The referent of every pending value is marked in the end. -/
theorem pending_marked (h : Traced cells out pending marks) (hsize : marks.size = cells.size) :
    ∀ x ∈ pending, ∀ p, referent? cells x.2 = some p → IsMarked out p := by
  induction h with
  | done => simp
  | skip hv _ ih =>
    intro x hx p hp
    rcases List.mem_cons.mp hx with rfl | hx
    · rw [hv] at hp
      cases hp
    · exact ih hsize x hx p hp
  | fresh hv _ hmark tail ih =>
    intro x hx q hq
    rcases List.mem_cons.mp hx with rfl | hx
    · obtain rfl := Option.some.inj (hv.symm.trans hq)
      exact tail.mono ((isMarked_set hmark).mpr (.inl rfl))
    · exact ih (by simpa using hsize) x (List.mem_append_right _ hx) q hq
  | @seen depth v rest marks p hv _ hmark tail ih =>
    intro x hx q hq
    rcases List.mem_cons.mp hx with rfl | hx
    · obtain rfl := Option.some.inj (hv.symm.trans hq)
      -- the place exists, so it has a mark if it is not blank
      have hp : p < marks.size := hsize ▸ lt_size_of_referent? hv
      apply tail.mono
      rw [isMarked_iff]
      rw [Array.getElem?_eq_getElem hp] at hmark ⊢
      cases hm : marks[p] with
      | none => exact absurd (congrArg some hm) hmark
      | some w => exact ⟨w, rfl⟩
    · exact ih hsize x hx q hq

/-- What the fields of a newly marked object refer to is marked as well. -/
theorem fields_marked (h : Traced cells out pending marks) (hsize : marks.size = cells.size) {p : Nat}
    (hp : IsMarked out p) (hnew : ¬ IsMarked marks p) :
    ∀ v ∈ fieldValues cells p, ∀ q, referent? cells v = some q → IsMarked out q := by
  induction h with
  | done => exact absurd hp hnew
  | skip _ _ ih => exact ih hsize hnew
  | @fresh depth v rest marks r _ _ hmark tail ih =>
    by_cases hr : p = r
    · subst hr
      intro w hw q hq
      exact tail.pending_marked (by simpa using hsize) (depth + 1, w)
        (List.mem_append_left _ (List.mem_map.mpr ⟨w, hw, rfl⟩)) q hq
    · refine ih (by simpa using hsize) ?_
      rw [isMarked_set hmark]
      exact not_or.mpr ⟨hr, hnew⟩
  | seen _ _ _ _ ih => exact ih hsize hnew

/-- Marking takes the same course in a store that has the same objects at the marked places, and no
objects where there were none. -/
theorem congr {cells' : Array Cell} (h : Traced cells out pending marks)
    (hsize : marks.size = cells.size)
    (hsame : ∀ p, IsMarked out p → cells'[p]? = cells[p]?)
    (hless : ∀ (p : Nat) (o : Obj), cells'[p]? = some (Cell.object o) → cells[p]? = some (.object o)) :
    Traced cells' out pending marks := by
  have hreferent {v : Value} {p : Nat} (hv : referent? cells v = some p) (hp : IsMarked out p) :
      referent? cells' v = some p := by
    rw [referent?_eq_some_iff] at hv ⊢
    rwa [hsame p hp]
  induction h with
  | done => exact .done
  | @skip depth v rest marks hv _ ih =>
    refine .skip ?_ (ih hsize)
    cases hv' : referent? cells' v with
    | none => rfl
    | some p =>
      obtain ⟨hi, o, ho⟩ := referent?_eq_some_iff.mp hv'
      exact (referent?_eq_some_iff.mpr ⟨hi, o, hless p o ho⟩).symm.trans hv
  | @fresh depth v rest marks p hv hdepth hmark tail ih =>
    have hp : IsMarked out p := tail.mono ((isMarked_set hmark).mpr (.inl rfl))
    have hfields : fieldValues cells' p = fieldValues cells p := by
      unfold fieldValues
      rw [hsame p hp]
    refine .fresh (hreferent hv hp) hdepth hmark ?_
    rw [hfields]
    exact ih (by simpa using hsize)
  | @seen depth v rest marks p hv hdepth hmark tail ih =>
    have hp : IsMarked out p :=
      (Traced.seen hv hdepth hmark tail).pending_marked hsize _ List.mem_cons_self p hv
    exact .seen (hreferent hv hp) hdepth hmark (ih hsize)

end Traced

end Handset.Machine
