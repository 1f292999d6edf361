import Handset.Proofs.Machine.FreshObjects
import Handset.Proofs.Machine.Unserved
import Handset.Proofs.Number.Order

/-!
# Collections that cannot be completed

A new machine has no call stack, and nothing that the machine does sets one up. So every collection fails when
it looks for its roots, after it has counted itself and before it has removed anything. Calls, loading and field
writes keep the objects and the bytes in use, since without services no instruction allocates; creation adds
one object of fixed size.
-/
namespace Handset

open Step

open Dex (CodeItem Instruction)

namespace Machine

variable {m s t : Machine} {α : Type} {r : Except Fault α} {n : Nat}

/-- Neither services nor a call stack. -/
structure Bare (m : Machine) : Prop where
  services : m.services = none
  callStack : m.callStack = none

/-- What marking fails with if there is no call stack: registers are looked for first. -/
def missingRoots (m : Machine) : Fault :=
  .noMember "BytecodeInterpreter" (if m.registersReady then "call_stack" else "registers")

/-- The same cells, in a heap of the same size, use and threshold, and the same surroundings. -/
structure SameHeap (m s : Machine) : Prop where
  services : s.services = m.services
  callStack : s.callStack = m.callStack
  heapSize : s.heapSize = m.heapSize
  threshold : s.threshold = m.threshold
  used : s.used = m.used
  cells : s.cells = m.cells

theorem SameHeap.refl (m : Machine) : m.SameHeap m := ⟨rfl, rfl, rfl, rfl, rfl, rfl⟩

theorem SameHeap.trans (h : m.SameHeap s) (h' : s.SameHeap t) : m.SameHeap t where
  services := h'.services.trans h.services
  callStack := h'.callStack.trans h.callStack
  heapSize := h'.heapSize.trans h.heapSize
  threshold := h'.threshold.trans h.threshold
  used := h'.used.trans h.used
  cells := h'.cells.trans h.cells

theorem SameHeap.objects (h : m.SameHeap s) : s.objects = m.objects := by
  unfold Machine.objects numbered
  rw [h.cells]

theorem SameHeap.bare (h : m.SameHeap s) (hm : m.Bare) : s.Bare :=
  ⟨h.services.trans hm.services, h.callStack.trans hm.callStack⟩

/-- The heap is kept, and if a collection was started, its failure is the outcome. -/
def Thwarted (m : Machine) (r : Except Fault α) (s : Machine) : Prop :=
  m.SameHeap s ∧ (s.collections = m.collections ∨
    s.collections = m.collections + 1 ∧ r = .error s.missingRoots)

theorem Thwarted.after (h : m.SameHeap s) (hcount : s.collections = m.collections) (ht : s.Thwarted r t) :
    m.Thwarted r t := by
  obtain ⟨hheap, houtcome⟩ := ht
  rw [hcount] at houtcome
  exact ⟨h.trans hheap, houtcome⟩

/-- An action that succeeded has not started a collection. -/
theorem Thwarted.of_ok {a : α} (h : m.Thwarted (.ok a) s) : s.collections = m.collections := by
  rcases h.2 with hsame | ⟨-, hfailed⟩
  · exact hsame
  · cases hfailed

end Machine

namespace Act

open Machine (Bare SameHeap Thwarted)

variable {α β : Type} {m : Machine}

/-- On a machine without services and call stack, the action keeps the heap and completes no collection. -/
def Barren (x : Act α) : Prop :=
  ∀ m : Machine, m.Bare → Ends m x m.Thwarted

theorem barren_of_sameHeap {x : Act α}
    (h : ∀ m : Machine, m.Bare → m.SameHeap (x.on m).2 ∧ (x.on m).2.collections = m.collections) :
    Barren x :=
  fun m hm => ⟨(h m hm).1, .inl (h m hm).2⟩

theorem barren_of_quiet {x : Act α} (h : Quiet x) : Barren x :=
  barren_of_sameHeap fun m _ => by rw [h m]; exact ⟨.refl m, rfl⟩

theorem barren_lift (x : Except Fault α) : Barren (lift x : Act α) := barren_of_quiet (quiet_lift x)

theorem barren_pure (a : α) : Barren (pure a : Act α) := barren_of_quiet (quiet_pure a)

theorem barren_get : Barren (get : Act Machine) := barren_of_quiet quiet_get

theorem barren_modify {f : Machine → Machine}
    (h : ∀ m : Machine, m.SameHeap (f m) ∧ (f m).collections = m.collections) :
    Barren (modify f : Act PUnit) :=
  barren_of_sameHeap fun m _ => h m

theorem barren_report (level : Level) (text : String) : Barren (report level text : Act Unit) :=
  barren_of_sameHeap fun _ _ => ⟨⟨rfl, rfl, rfl, rfl, rfl, rfl⟩, rfl⟩

theorem barren_bind {x : Act α} {f : α → Act β} (hx : Barren x) (hf : ∀ a, Barren (f a)) :
    Barren (x >>= f) := by
  intro m hm
  refine ends_bind (hx m hm) (fun a t ht => ?_) fun e t ht => ⟨ht.1, ?_⟩
  · exact .after ht.1 ht.of_ok (hf a t (ht.1.bare hm))
  · exact ht.2.imp_right fun h => ⟨h.1, congrArg _ (Except.error.inj h.2)⟩

/-- A collection counts itself and does not get further than looking for its roots. -/
theorem on_collect_of_no_callStack (h : m.callStack = none) :
    collect.on m = (.error m.missingRoots, { m with collections := m.collections + 1 }) := by
  have hmark : mark.on { m with collections := m.collections + 1 } =
      (.error m.missingRoots, { m with collections := m.collections + 1 }) := by
    cases hready : m.registersReady <;>
      simp only [mark, on_bind, on_get, hready, h, if_true, Bool.false_eq_true, if_false, on_throw,
        Machine.missingRoots]
  rw [collect, on_bind_ok (on_modify _ m), on_bind_error hmark]

theorem barren_collect : Barren collect := by
  intro m hm
  unfold Ends
  rw [on_collect_of_no_callStack hm.callStack]
  exact ⟨⟨rfl, rfl, rfl, rfl, rfl, rfl⟩, .inr ⟨rfl, rfl⟩⟩

theorem barren_collectIfNeeded : Barren collectIfNeeded := by
  refine barren_bind barren_get fun m => barren_bind (barren_lift _) fun share =>
    barren_bind (barren_lift _) fun full => ?_
  split
  · exact barren_bind (barren_report _ _) fun _ => barren_collect
  · exact barren_pure _

theorem barren_dispatch (pools : Pools) (i : Instruction) : Barren (dispatch pools i) := by
  refine barren_of_sameHeap fun m hm => ?_
  obtain ⟨registers, pc, pending, log, hstate⟩ := state_dispatch_of_unserved pools i hm.services
  rw [hstate]
  exact ⟨⟨rfl, rfl, rfl, rfl, rfl, rfl⟩, rfl⟩

theorem barren_spend : Barren spend := by
  refine barren_of_sameHeap fun m _ => ?_
  rw [on_spend]
  split
  · exact ⟨.refl m, rfl⟩
  · exact ⟨⟨rfl, rfl, rfl, rfl, rfl, rfl⟩, rfl⟩

theorem barren_step (pools : Pools) (code : CodeItem) : Barren (step pools code) := by
  refine barren_bind barren_get fun m => barren_bind (barren_lift _) fun i =>
    barren_bind barren_spend fun _ => barren_bind (barren_dispatch pools i) fun _ =>
      barren_bind barren_get fun m => ?_
  split
  · exact barren_collectIfNeeded
  · exact barren_pure _

theorem barren_settle (code : CodeItem) : Barren (settle code) := by
  refine barren_of_sameHeap fun m _ => ?_
  obtain ⟨pc, pending, log, hstate⟩ := state_settle code m
  rw [hstate]
  exact ⟨⟨rfl, rfl, rfl, rfl, rfl, rfl⟩, rfl⟩

theorem barren_run (pools : Pools) (code : CodeItem) (steps : Nat) : Barren (run pools code steps) := by
  induction steps with
  | zero =>
    refine barren_bind (barren_settle code) fun next => ?_
    cases next with
    | stop => exact barren_pure _
    | go =>
      exact barren_bind barren_get fun _ => barren_bind (barren_lift _) fun _ =>
        barren_of_quiet (quiet_throw _)
  | succ steps ih =>
    refine barren_bind (barren_settle code) fun next => ?_
    cases next with
    | stop => exact barren_pure _
    | go => exact barren_bind (barren_step pools code) fun _ => ih

theorem barren_interpret (pools : Pools) (code? : Key → Option CodeItem) (c : Callee) :
    Barren (interpret pools code? c) := by
  refine barren_bind (barren_lift _) fun offset => ?_
  split
  · exact barren_bind (barren_lift _) fun _ => barren_report _ _
  · refine barren_bind (barren_lift _) fun key => ?_
    split
    · exact barren_bind (barren_lift _) fun _ => barren_report _ _
    · refine barren_bind (barren_modify fun m => ?_) fun _ => barren_bind (barren_lift _) fun _ =>
        barren_bind (barren_report _ _) fun _ => barren_bind barren_get fun m => barren_run _ _ _
      exact ⟨⟨rfl, rfl, rfl, rfl, rfl, rfl⟩, rfl⟩

theorem barren_shouldCompile (c : Callee) : Barren (shouldCompile c) := by
  refine barren_bind (barren_lift _) fun id => barren_of_sameHeap fun m _ => ?_
  rw [on_bind_ok (on_get m)]
  split
  · exact ⟨⟨rfl, rfl, rfl, rfl, rfl, rfl⟩, rfl⟩
  · rw [on_bind_ok (on_set m _), (quiet_lift _).on_bind, on_lift]
    split <;> exact ⟨⟨rfl, rfl, rfl, rfl, rfl, rfl⟩, rfl⟩

theorem barren_setCompiled (c : Callee) (form : Compiled) : Barren (setCompiled c form) :=
  barren_bind (barren_lift _) fun _ => barren_modify fun _ => ⟨⟨rfl, rfl, rfl, rfl, rfl, rfl⟩, rfl⟩

theorem barren_compile (c : Callee) : Barren (compile c none) := by
  refine barren_bind barren_get fun m => ?_
  split
  · exact barren_bind (barren_setCompiled _ _) fun _ => barren_pure _
  · refine barren_bind (barren_lift _) fun id => barren_bind (barren_lift _) fun name =>
      barren_bind (barren_report _ _) fun _ => barren_bind (barren_lift _) fun offset => ?_
    split <;> exact barren_bind (barren_report _ _) fun _ => barren_pure _

theorem barren_runCompiled (c : Callee) : Barren (runCompiled c) := by
  refine barren_bind (barren_lift _) fun id => barren_bind barren_get fun m => ?_
  split
  · refine barren_bind (barren_lift _) fun _ => barren_bind (barren_lift _) fun _ =>
      barren_bind (barren_report _ _) fun _ => ?_
    split
    · exact barren_of_quiet (quiet_throw _)
    · exact barren_modify fun _ => ⟨⟨rfl, rfl, rfl, rfl, rfl, rfl⟩, rfl⟩
  · exact barren_bind (barren_lift _) fun _ => barren_report _ _

theorem barren_call (pools : Pools) (code? : Key → Option CodeItem) (c : Callee) :
    Barren (call pools code? c) := by
  refine barren_bind (barren_shouldCompile c) fun due => ?_
  split
  · refine barren_bind (barren_compile c) fun form => ?_
    split
    · exact barren_runCompiled c
    · exact barren_interpret pools code? c
  · exact barren_interpret pools code? c

theorem barren_readImage (d : Bytes) : Barren (readImage d) :=
  barren_bind (barren_report _ _) fun _ => barren_pure _

theorem barren_loadClasses (classes : List Dex.ClassDef) : Barren (loadClasses classes) := by
  induction classes with
  | nil => exact barren_pure _
  | cons c rest ih =>
    exact barren_bind (barren_modify fun _ => ⟨⟨rfl, rfl, rfl, rfl, rfl, rfl⟩, rfl⟩) fun _ =>
      barren_bind (barren_report _ _) fun _ => ih

theorem barren_loadImage (d : Bytes) : Barren (loadImage d) := by
  refine barren_bind (barren_readImage d) fun p => ?_
  split
  · exact barren_pure _
  · exact barren_bind (barren_loadClasses _) fun _ => barren_pure _

theorem barren_runMain (d : Bytes) : Barren (runMain d) := by
  refine barren_bind (barren_readImage d) fun p => ?_
  split
  · exact barren_report _ _
  · split
    · exact barren_report _ _
    · refine barren_bind (barren_report _ _) fun _ => ?_
      split
      · exact barren_report _ _
      · exact barren_call _ _ _

theorem barren_announce (className : Value) (id : Nat) : Barren (announce className id) :=
  barren_bind (barren_lift _) fun _ => barren_bind (barren_report _ _) fun _ =>
    barren_bind barren_collectIfNeeded fun _ => barren_pure _

end Act

namespace Machine

variable {m s : Machine} {n : Nat}

/-! ### The new machine -/

/-- A machine as it is delivered, in which this many objects have been created. -/
structure Delivered (n : Nat) (m : Machine) : Prop where
  bare : m.Bare
  heapSize : m.heapSize = .int (1024 * 1024)
  threshold : m.threshold = .double ⟨0x3FE6666666666666⟩
  used : m.used = .int (objectSize * n)
  size : m.cells.size = n
  objects : ∀ p < n, ∃ o, m.cells[p]? = some (.object o)

theorem delivered_new (allowance : Nat) : Delivered 0 { allowance } :=
  ⟨⟨rfl, rfl⟩, rfl, rfl, rfl, rfl, nofun⟩

theorem Delivered.of_sameHeap (h : Delivered n m) (hs : m.SameHeap s) : Delivered n s where
  bare := hs.bare h.bare
  heapSize := hs.heapSize.trans h.heapSize
  threshold := hs.threshold.trans h.threshold
  used := hs.used.trans h.used
  size := hs.cells ▸ h.size
  objects := hs.cells ▸ h.objects

theorem Delivered.nextId (h : Delivered n m) : m.nextId = n + 1 := by rw [Machine.nextId, h.size]

theorem Delivered.withNew (h : Delivered n m) (className : Value) :
    Delivered (n + 1) (m.withNew className (.int (objectSize * (n + 1 : Nat))) m.log) where
  bare := ⟨h.bare.services, h.bare.callStack⟩
  heapSize := h.heapSize
  threshold := h.threshold
  used := rfl
  size := by rw [Machine.withNew, Array.size_push, h.size]
  objects p hp := by
    rw [Machine.withNew, Array.getElem?_push, h.size]
    split
    · exact ⟨_, rfl⟩
    · exact h.objects p (by omega)

theorem map_fst_objects (h : ∀ c ∈ m.cells, ∃ o, c = .object o) :
    m.objects.map (·.1) = List.range' 1 m.cells.size := by
  have hnumbers : m.numbered.map Prod.snd = List.range' 1 m.cells.size := by
    rw [numbered, List.zipIdx_map_snd, Array.length_toList]
  rw [← hnumbers, objects, List.map_filterMap, ← List.filterMap_eq_map]
  apply List.filterMap_congr
  rintro ⟨cell, id⟩ hmem
  obtain ⟨o, rfl⟩ := h cell (Array.mem_toList_iff.mp (List.fst_mem_of_mem_zipIdx hmem))
  rfl

theorem Delivered.numbers (h : Delivered n m) : m.objects.map (·.1) = List.range' 1 (m.nextId - 1) := by
  apply map_fst_objects
  intro c hc
  obtain ⟨p, hp⟩ := Array.mem_iff_getElem?.mp hc
  have hlt : p < n := h.size ▸ (Array.getElem?_eq_some_iff.mp hp).1
  obtain ⟨o, ho⟩ := h.objects p hlt
  exact ⟨o, Option.some.inj (hp.symm.trans ho)⟩

theorem Delivered.isFull_eq (h : Delivered n m) : m.isFull = (Act.stocked n #[]).isFull := by
  simp only [isFull, share, h.used, h.heapSize, h.threshold, Act.stocked]

theorem share_stocked (n : Nat) : (Act.stocked n #[]).share =
    match Double.ofRatio? false (1024 * n) (1024 * 1024) with
    | some d => .ok d
    | none => .error .tooLarge := by
  have hquotient : Double.ofQuotient? (objectSize * n) (1024 * 1024) =
      Double.ofRatio? false (1024 * n) (1024 * 1024) := by
    have hpos : ¬(objectSize : Int) * n < 0 := by
      unfold objectSize
      omega
    have habs : ((objectSize : Int) * n).natAbs = 1024 * n := by
      unfold objectSize
      omega
    rw [Double.ofQuotient?, habs, decide_eq_false hpos]
    rfl
  rw [← hquotient]
  change (Value.trueDiv (.int (objectSize * n)) (.int (1024 * 1024)) >>= Value.toDouble) = _
  unfold Value.trueDiv
  change ((match Double.ofQuotient? (objectSize * n) (1024 * 1024) with
    | some d => .ok (.double d)
    | none => .error .tooLarge : Except Fault Value) >>= Value.toDouble) = _
  cases Double.ofQuotient? (objectSize * n) (1024 * 1024) <;> rfl

/-- From 717 objects on their share of the heap has reached the threshold. -/
theorem isFull_stocked_ne (hn : 717 ≤ n) : (Act.stocked n #[]).isFull ≠ .ok false := by
  intro h
  obtain ⟨d, hd, h⟩ := exists_of_bind_eq_ok h
  rw [share_stocked] at hd
  split at hd
  next d' hratio =>
    obtain rfl := Except.ok.inj hd
    obtain ⟨hsmall, hlarge⟩ := Double.le_bits_of_ofRatio? (k := 717 * 2 ^ 42) (by decide) (by omega)
      (by decide) (by omega) hratio
    have hlt : Double.lt ⟨0x3FE6666666666666⟩ d' = true := by
      apply Double.lt_of_bits_lt (by decide) hlarge
      have hbits : (0x3FE6666666666666 : UInt64).toNat = 0x3FE6666666666666 := by decide
      rw [hbits]
      omega
    have hle := Except.ok.inj h
    change (Double.lt ⟨0x3FE6666666666666⟩ d' || _) = false at hle
    rw [hlt] at hle
    cases hle
  next => cases hd

end Machine

namespace Act

open Machine (Bare SameHeap Thwarted Delivered)

variable {m s : Machine} {n : Nat}

/-- A delivered machine with one more object, before the look at the heap. -/
theorem on_createObject_delivered (h : Delivered n m) (className : Value) :
    (createObject className).on m =
      (announce className (n + 1)).on (m.withNew className (.int (objectSize * (n + 1 : Nat))) m.log) := by
  have hadd : m.used.add (.int objectSize) = .ok (.int (objectSize * (n + 1 : Nat))) := by
    have hbytes : (objectSize * (n + 1 : Nat) : Int) = objectSize * n + objectSize := by
      push_cast
      ring
    rw [h.used, hbytes]
    rfl
  rw [on_createObject, hadd, h.nextId]
  rfl

/-- A look at the heap fails exactly if 717 objects have been created. -/
theorem isError_collectIfNeeded_iff (h : Delivered n m) :
    (∃ e, (collectIfNeeded.on m).1 = .error e) ↔ 717 ≤ n := by
  obtain ⟨log, hon⟩ := on_collectIfNeeded m
  rw [h.isFull_eq] at hon
  constructor
  · rintro ⟨e, he⟩
    by_contra hn
    rw [isFull_stocked (by omega)] at hon
    rw [hon] at he
    cases he
  · intro hn
    have hfull := Machine.isFull_stocked_ne hn
    cases hstocked : (stocked n #[]).isFull with
    | error e =>
      rw [hstocked] at hon
      exact ⟨e, congrArg Prod.fst hon⟩
    | ok full =>
      cases full with
      | false => exact absurd hstocked hfull
      | true =>
        rw [hstocked] at hon
        have hcollect := on_collect_of_no_callStack (m := { m with log }) h.bare.callStack
        exact ⟨_, congrArg Prod.fst (hon.trans hcollect)⟩

theorem isError_bind_pure {α β : Type} (x : Act α) (b : β) (m : Machine) :
    (∃ e, ((do let _ ← x; pure b : Act β).on m).1 = .error e) ↔ ∃ e, (x.on m).1 = .error e := by
  rw [on_bind]
  rcases x.on m with ⟨e | a, t⟩ <;> simp

theorem isError_createObject_iff (h : Delivered n m) (className : String) :
    (∃ e, ((createObject (.text className)).on m).1 = .error e) ↔ 717 ≤ n + 1 := by
  have hwritten : (Value.text className).written = .ok className := rfl
  obtain ⟨log, hon⟩ := on_announce_of_written hwritten (n + 1)
    (m.withNew (.text className) (.int (objectSize * (n + 1 : Nat))) m.log)
  have hnew : Delivered (n + 1)
      { m.withNew (.text className) (.int (objectSize * (n + 1 : Nat))) m.log with log } :=
    (h.withNew (.text className)).of_sameHeap ⟨rfl, rfl, rfl, rfl, rfl, rfl⟩
  rw [on_createObject_delivered h, hon, isError_bind_pure, isError_collectIfNeeded_iff hnew]

theorem mem_objects_createObject (h : Delivered n m) (className : Value) (id : Nat) (o : Obj) :
    (id, o) ∈ ((createObject className).on m).2.objects ↔
      (id, o) ∈ m.objects ∨ id = n + 1 ∧ o = { className } := by
  have hthwarted := barren_announce className (n + 1) _ (h.withNew className).bare
  rw [on_createObject_delivered h, hthwarted.1.objects, Machine.mem_objects_withNew, h.nextId]

/-- A field write changes nothing or one object, which keeps its class. -/
theorem state_setField (v key value : Value) (m : Machine) :
    ((setField v key value).on m).2 = m ∨ ∃ p o fields, m.cells[p]? = some (.object o) ∧
      ((setField v key value).on m).2 = m.setCell p (.object { o with fields }) := by
  unfold setField
  rw [(quiet_need v).on_bind]
  cases hneed : ((need v).on m).1 with
  | error e => exact .inl rfl
  | ok found =>
    obtain ⟨p, o⟩ := found
    dsimp only
    rw [(quiet_lift _).on_bind, on_lift]
    cases key.key with
    | error e => exact .inl rfl
    | ok k => exact .inr ⟨p, o, _, getElem?_of_need hneed, rfl⟩

end Act

namespace Machine

variable {m s : Machine} {n p : Nat} {o : Obj}

/-- No object is lost, and all keep their number and their class. -/
def Retains (m s : Machine) : Prop :=
  ∀ id o, (id, o) ∈ m.objects → ∃ fields, (id, { o with fields }) ∈ s.objects

theorem SameHeap.retains (h : m.SameHeap s) : m.Retains s := by
  intro id o ho
  rw [h.objects]
  exact ⟨o.fields, ho⟩

theorem exists_object_setCell (ho : m.cells[p]? = some (.object o)) (fields : Table Key Value) {q : Nat} {o' : Obj}
    (ho' : m.cells[q]? = some (.object o')) :
    ∃ fields', (m.setCell p (.object { o with fields })).cells[q]? =
      some (.object { o' with fields := fields' }) := by
  rw [getElem?_setCell ho]
  split
  next hq =>
    subst hq
    obtain rfl : o = o' := Cell.object.inj (Option.some.inj (ho.symm.trans ho'))
    exact ⟨fields, rfl⟩
  next => exact ⟨o'.fields, ho'⟩

theorem retains_setCell (ho : m.cells[p]? = some (.object o)) (fields : Table Key Value) :
    m.Retains (m.setCell p (.object { o with fields })) := by
  intro id o' ho'
  obtain ⟨q, rfl, hq⟩ := mem_objects_iff.mp ho'
  obtain ⟨fields', hfields'⟩ := exists_object_setCell ho fields hq
  exact ⟨fields', mem_objects_iff.mpr ⟨q, rfl, hfields'⟩⟩

theorem Delivered.setCell (h : Delivered n m) (ho : m.cells[p]? = some (.object o)) (fields : Table Key Value) :
    Delivered n (m.setCell p (.object { o with fields })) where
  bare := ⟨h.bare.services, h.bare.callStack⟩
  heapSize := h.heapSize
  threshold := h.threshold
  used := h.used
  size := Array.size_setIfInBounds.trans h.size
  objects q hq := by
    obtain ⟨o', ho'⟩ := h.objects q hq
    obtain ⟨fields', hfields'⟩ := exists_object_setCell ho fields ho'
    exact ⟨_, hfields'⟩

/-- What is asked of a machine. -/
inductive Request where
  | load (d : Bytes)
  | runMain (d : Bytes)
  | call (image : Dex.Image) (c : Callee)
  | create (className : String)
  | setField (object key value : Value)
  | collect
  | collectIfNeeded

namespace Request

def perform : Request → Act Unit
  | load d => do let _ ← Act.loadImage d
  | runMain d => Act.runMain d
  | call image c => Act.callIn image c
  | create className => do let _ ← Act.createObject (.text className)
  | setField object key value => Act.setField object key value
  | collect => Act.collect
  | collectIfNeeded => Act.collectIfNeeded

def creates : Request → Bool
  | create _ => true
  | _ => false

/-- The machine after requests in turn, which go on after failures. -/
def afterAll (requests : List Request) (m : Machine) : Machine :=
  requests.foldl (fun m r => (r.perform.on m).2) m

/-- A request to a delivered machine keeps all objects, creates one if it is asked to, and ends with the
failure of the collection that it starts, if it starts one. -/
theorem perform_spec (r : Request) (h : Delivered n m) :
    Ends m r.perform fun outcome s => Delivered (n + if r.creates then 1 else 0) s ∧ m.Retains s ∧
      (s.collections = m.collections ∨
        s.collections = m.collections + 1 ∧ outcome = .error s.missingRoots) := by
  have hbarren {x : Act Unit} (hx : Act.Barren x) : Ends m x fun outcome s => Delivered n s ∧ m.Retains s ∧
      (s.collections = m.collections ∨
        s.collections = m.collections + 1 ∧ outcome = .error s.missingRoots) := by
    obtain ⟨hsame, hcount⟩ := hx m h.bare
    exact ⟨h.of_sameHeap hsame, hsame.retains, hcount⟩
  cases r with
  | load d => exact hbarren (Act.barren_bind (Act.barren_loadImage d) fun _ => Act.barren_pure _)
  | runMain d => exact hbarren (Act.barren_runMain d)
  | call image c => exact hbarren (Act.barren_call _ _ c)
  | create className =>
    have hnew := h.withNew (.text className)
    have hon : (perform (create className)).on m = (do let _ ← Act.announce (.text className) (n + 1)).on
        (m.withNew (.text className) (.int (objectSize * (n + 1 : Nat))) m.log) := by
      unfold perform
      rw [on_bind, on_bind, Act.on_createObject_delivered h]
    obtain ⟨hsame, hcount⟩ := Act.barren_bind (Act.barren_announce (.text className) (n + 1))
      (fun _ => Act.barren_pure ()) _ hnew.bare
    unfold Ends
    rw [hon]
    refine ⟨hnew.of_sameHeap hsame, fun id o ho => ?_, hcount⟩
    exact hsame.retains id o (mem_objects_withNew.mpr (.inl ho))
  | setField object key value =>
    unfold Ends perform
    rcases Act.state_setField object key value m with hstate | ⟨p, o, fields, ho, hstate⟩
    · rw [hstate]
      exact ⟨h, (SameHeap.refl m).retains, .inl rfl⟩
    · rw [hstate]
      exact ⟨h.setCell ho fields, retains_setCell ho fields, .inl rfl⟩
  | collect => exact hbarren Act.barren_collect
  | collectIfNeeded => exact hbarren Act.barren_collectIfNeeded

theorem delivered_afterAll (requests : List Request) (h : Delivered n m) :
    Delivered (n + requests.countP creates) (afterAll requests m) := by
  induction requests generalizing n m with
  | nil => exact h
  | cons r requests ih =>
    have hrest := ih (r.perform_spec h).1
    rw [List.countP_cons, Nat.add_comm (requests.countP creates), ← Nat.add_assoc]
    exact hrest

/-- Whatever is asked of a new machine: each collection that is started counts itself and ends the request with
its failure, no object is removed, the numbers of the objects are all that have been given, and the `k`-th
creation fails exactly from the 717th on, while its object is added all the same. -/
theorem collections_never_complete (allowance : Nat) (requests : List Request) :
    let m := afterAll requests { allowance }
    let k := requests.countP creates + 1
    (∀ r : Request, Ends m r.perform fun outcome s => m.Retains s ∧
      (s.collections = m.collections ∨
        s.collections = m.collections + 1 ∧ outcome = .error s.missingRoots)) ∧
    Act.collect.on m = (.error m.missingRoots, { m with collections := m.collections + 1 }) ∧
    m.objects.map (·.1) = List.range' 1 (m.nextId - 1) ∧
    m.nextId = k ∧
    ∀ className, Ends m (Act.createObject (.text className)) fun outcome s =>
      ((∃ e, outcome = .error e) ↔ 717 ≤ k) ∧
      ∀ id o, (id, o) ∈ s.objects ↔ (id, o) ∈ m.objects ∨ id = k ∧ o = { className := .text className } := by
  intro m k
  have hm : Delivered (requests.countP creates) m := by
    have hall := delivered_afterAll requests (delivered_new allowance)
    rwa [Nat.zero_add] at hall
  refine ⟨fun r => (r.perform_spec hm).2, Act.on_collect_of_no_callStack hm.bare.callStack, hm.numbers,
    hm.nextId, fun className => ?_⟩
  exact ⟨Act.isError_createObject_iff hm className, Act.mem_objects_createObject hm (.text className)⟩

end Request

end Machine

end Handset
