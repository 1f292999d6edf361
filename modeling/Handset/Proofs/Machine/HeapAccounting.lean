import Handset.Proofs.Machine.Allocation
import Handset.Proofs.Machine.Detachment
import Handset.Proofs.Machine.HeldObjects

/-!
# Bytes in use, objects and numbers

Allocation and sweeping change the bytes in use, the objects of the heap and the supply of numbers one
after the other, and a failure can come in between. The books balance at every such point: the bytes in
use exceed what the objects take by an amount that never changes, and the next number never falls. So no
number is given twice.
-/
namespace Handset

open Step

open Dex (CodeItem Instruction)

namespace Machine

theorem length_objects (m : Machine) : m.objects.length = m.heapCount := by
  have hcells : m.numbered.map Prod.fst = m.cells.toList := List.zipIdx_map_fst 1 m.cells.toList
  unfold objects heapCount
  rw [List.length_filterMap_eq_countP, ← Array.countP_toList, ← hcells, List.countP_map]
  congr 1
  funext x
  rcases x with ⟨_ | _ | _, id⟩ <;> rfl

theorem heapCount_swept (m : Machine) (keep : Nat → Bool) :
    (m.swept keep).heapCount + (m.doomed keep).length = m.heapCount := by
  simpa only [length_objects] using m.length_objects_swept keep

theorem heapCount_setCell {m : Machine} {q : Nat} {old c : Cell} (hq : m.cells[q]? = some old)
    (hc : Cell.isObject c = Cell.isObject old) : (m.setCell q c).heapCount = m.heapCount := by
  obtain ⟨hsize, rfl⟩ := Array.getElem?_eq_some_iff.mp hq
  have hpos : Cell.isObject m.cells[q] = true → 0 < m.cells.countP Cell.isObject := fun hobject =>
    Array.countP_pos_iff.mpr ⟨m.cells[q], Array.getElem_mem hsize, hobject⟩
  unfold heapCount setCell
  rw [Array.setIfInBounds_def, dif_pos hsize, Array.countP_set, hc]
  split
  next hobject =>
    have := hpos hobject
    omega
  next => rfl

/-- The bytes in use are `base` more than the objects of the heap take, and the numbers below `first` are
no longer to be given. -/
structure Accounts (base : Int) (first : Nat) (m : Machine) : Prop where
  used : m.used = .int (base + objectSize * m.heapCount)
  next : first ≤ m.nextId

theorem Accounts.mono {base : Int} {first first' : Nat} {m : Machine} (h : m.Accounts base first)
    (hfirst : first' ≤ m.nextId) : m.Accounts base first' :=
  ⟨h.used, hfirst⟩

theorem Accounts.push {base : Int} {first : Nat} {m : Machine} (h : m.Accounts base first) {c : Cell}
    {used : Value}
    (hused : used = .int (base + objectSize * (m.heapCount + if Cell.isObject c then 1 else 0 : Nat))) :
    Accounts base first { m with cells := m.cells.push c, used } := by
  refine ⟨?_, ?_⟩
  · rw [hused]
    simp only [heapCount, Array.countP_push]
  · have hnext := h.next
    simp only [nextId, Array.size_push] at hnext ⊢
    omega

theorem Accounts.setCell {base : Int} {first : Nat} {m : Machine} (h : m.Accounts base first) {q : Nat}
    {old c : Cell} (hq : m.cells[q]? = some old) (hc : Cell.isObject c = Cell.isObject old) :
    (m.setCell q c).Accounts base first := by
  refine ⟨?_, ?_⟩
  · rw [heapCount_setCell hq hc]
    exact h.used
  · have hsame : (m.setCell q c).nextId = m.nextId := by simp [nextId, Machine.setCell]
    rw [hsame]
    exact h.next

/-- The numbers of a list rise and lie in the interval from `low` up to, but not including, `high`. -/
structure Issues (low high : Nat) (ids : List Nat) : Prop where
  le : low ≤ high
  sorted : ids.Pairwise (· < ·)
  bounds : ∀ id ∈ ids, low ≤ id ∧ id < high

theorem Issues.nil {low high : Nat} (h : low ≤ high) : Issues low high [] :=
  ⟨h, .nil, nofun⟩

theorem Issues.single {low high : Nat} (h : low + 1 ≤ high) : Issues low high [low] :=
  ⟨Nat.le_of_succ_le h, List.pairwise_singleton _ _, List.forall_mem_singleton.mpr ⟨le_rfl, h⟩⟩

theorem Issues.mono {low low' high : Nat} {ids : List Nat} (h : Issues low high ids) (hlow : low' ≤ low) :
    Issues low' high ids :=
  ⟨hlow.trans h.le, h.sorted, fun id hid => ⟨hlow.trans (h.bounds id hid).1, (h.bounds id hid).2⟩⟩

theorem Issues.append {low middle high : Nat} {ids ids' : List Nat} (h : Issues low middle ids)
    (h' : Issues middle high ids') : Issues low high (ids ++ ids') := by
  refine ⟨h.le.trans h'.le, List.pairwise_append.mpr ⟨h.sorted, h'.sorted, fun id hid id' hid' => ?_⟩,
    fun id hid => ?_⟩
  · exact (h.bounds id hid).2.trans_le (h'.bounds id' hid').1
  · rcases List.mem_append.mp hid with hid | hid
    · exact ⟨(h.bounds id hid).1, (h.bounds id hid).2.trans_le h'.le⟩
    · exact ⟨h.le.trans (h'.bounds id hid).1, (h'.bounds id hid).2⟩

end Machine

namespace Act

open Machine (Accounts Issues)

variable {base : Int} {first : Nat}

theorem accounts_report (level : Level) (text : String) :
    Keeps (Accounts base first) (report level text : Act Unit) :=
  keeps_report (fun _ _ hm => ⟨hm.used, hm.next⟩) level text

theorem accounts_sweep (keep : Nat → Bool) : Keeps (Accounts base first) (sweep keep) := by
  intro m hm
  have hcount := m.heapCount_swept keep
  rw [on_sweep keep hm.used]
  refine ⟨?_, ?_⟩
  · have hbytes : base + objectSize * (m.heapCount : Int) - objectSize * ((m.doomed keep).length : Int) =
        base + objectSize * ((m.swept keep).heapCount : Int) := by
      rw [← hcount]
      push_cast
      ring
    exact congrArg Value.int hbytes
  · have hsize : (m.swept keep).nextId = m.nextId := by simp [Machine.nextId, Machine.swept]
    exact hm.next.trans_eq hsize.symm

theorem accounts_collect : Keeps (Accounts base first) collect :=
  keeps_collect accounts_report (fun _ _ hm => ⟨hm.used, hm.next⟩) accounts_sweep

theorem accounts_collectIfNeeded : Keeps (Accounts base first) collectIfNeeded :=
  keeps_collectIfNeeded accounts_report accounts_collect

theorem accounts_createObject (className : Value) :
    Keeps (Accounts base first) (createObject className) := by
  intro m hm
  have hadd : m.used.add (.int objectSize) =
      .ok (.int (base + objectSize * m.heapCount + objectSize)) := by
    rw [hm.used]
    rfl
  rw [on_createObject, hadd]
  -- the books balance once the object is in its cell, whatever becomes of the collection
  refine keeps_announce accounts_report accounts_collectIfNeeded className m.nextId _ (hm.push ?_)
  have hobject : Machine.Cell.isObject (.object { className }) = true := rfl
  rw [if_pos hobject]
  push_cast
  congr 1
  ring

theorem accounts_createArray (type length : Value) :
    Keeps (Accounts base first) (createArray type length) := by
  refine keeps_bind (quiet_service _).keeps fun _ => ?_
  split
  · exact (quiet_refuse _).keeps
  · split
    · exact (quiet_refuse _).keeps
    · exact keeps_get_bind fun m hm => hm.push hm.used

theorem accounts_setArrayElement (array index value : Value) :
    Keeps (Accounts base first) (setArrayElement array index value) := by
  refine keeps_bind (quiet_service _).keeps fun _ m hm => ?_
  rw [(quiet_element array index).on_bind]
  cases helement : ((element array index).on m).1 with
  | error e => exact hm
  | ok r => exact hm.setCell (Machine.array?_eq_some_iff.mp (array?_of_element helement)).2 rfl

theorem accounts_setObjectField (object : Value) (field : Nat) (value : Value) :
    Keeps (Accounts base first) (setObjectField object field value) := by
  refine keeps_bind (quiet_service _).keeps fun _ => keeps_get_bind fun m hm => ?_
  cases hobject : m.object? object with
  | none => exact hm
  | some found => exact hm.setCell (Machine.object?_eq_some_iff.mp hobject).2 rfl

theorem robust_accounts (op : Operation) (i : Instruction) : Robust (Accounts base first) op i where
  write n v _ := by
    intro m hm
    rw [on_setRegister]
    split
    · exact ⟨hm.used, hm.next⟩
    · exact hm
  raise _ _ := keeps_modify fun _ hm => ⟨hm.used, hm.next⟩
  advance _ _ := keeps_modify fun _ hm => ⟨hm.used, hm.next⟩
  services _ := keeps_modify fun _ hm => ⟨hm.used, hm.next⟩
  createObject _ := accounts_createObject
  createArray := accounts_createArray
  setArrayElement := accounts_setArrayElement
  setObjectField := accounts_setObjectField
  report := accounts_report

theorem accounts_dispatch (pools : Pools) (i : Instruction) :
    Keeps (Accounts base first) (dispatch pools i) := by
  unfold dispatch
  split
  next op _ => exact keeps_bind (accounts_report _ _) fun _ => (robust_accounts op i).perform pools
  next => exact keeps_bind (accounts_report _ _) fun _ => keeps_modify fun _ hm => ⟨hm.used, hm.next⟩

theorem accounts_step (pools : Pools) (code : CodeItem) :
    Keeps (Accounts base first) (step pools code) :=
  keeps_step_of_look (keeps_lookAtHeap accounts_collectIfNeeded)
    (fun _ _ hm => ⟨hm.used, hm.next⟩) fun i _ => accounts_dispatch pools i

theorem accounts_settle (code : CodeItem) : Keeps (Accounts base first) (settle code) := by
  intro m hm
  obtain ⟨pc, pending, log, hstate⟩ := state_settle code m
  rw [hstate]
  exact ⟨hm.used, hm.next⟩

theorem accounts_run (pools : Pools) (code : CodeItem) (steps : Nat) :
    Keeps (Accounts base first) (run pools code steps) :=
  keeps_run (accounts_settle code) (accounts_step pools code) steps

theorem quiet_need (v : Value) : Quiet (need v) := by
  refine quiet_bind (quiet_lift _) fun key => ?_
  split
  · refine quiet_bind quiet_get fun m => ?_
    split
    · exact quiet_pure _
    · exact quiet_throw _
  · exact quiet_throw _

theorem getElem?_of_need {v : Value} {m : Machine} {r : Nat × Obj} (h : ((need v).on m).1 = .ok r) :
    m.cells[r.1]? = some (.object r.2) := by
  have h : (need v).on m = (.ok r, ((need v).on m).2) := Prod.ext h rfl
  obtain ⟨key, -, h⟩ := (quiet_lift _).exists_of_on_bind h
  split at h
  next i =>
    rw [on_bind_ok (on_get m)] at h
    split at h
    next found hfound =>
      obtain rfl : found = r := Except.ok.inj (congrArg Prod.fst h)
      exact (Machine.object?_eq_some_iff.mp hfound).2
    next => cases h
  next => cases h

theorem accounts_setField (object key value : Value) :
    Keeps (Accounts base first) (setField object key value) := by
  intro m hm
  unfold setField
  rw [(quiet_need object).on_bind]
  cases hneed : ((need object).on m).1 with
  | error e => exact hm
  | ok r =>
    dsimp only
    rw [(quiet_lift _).on_bind, on_lift]
    cases key.key with
    | error e => exact hm
    | ok key => exact hm.setCell (getElem?_of_need hneed) rfl

/-- The instruction at hand as far as it creates an object, with the number that the object gets. -/
def allocation (pools : Pools) (code : CodeItem) : Act (Option Nat) := do
  let i ← lift (fetch code.instructions (← get).pc)
  spend
  match Operation.ofOpcode? i.opcode with
  | some .newInstance =>
    let className ← instanceClass pools i
    let id ← createObject className
    pure (some id)
  | _ => pure none

/-- The number that the instruction at hand gives to an object, if it gives one. -/
def given (pools : Pools) (code : CodeItem) (m : Machine) : List Nat :=
  match ((allocation pools code).on m).1 with
  | .ok (some id) => [id]
  | _ => []

/-- The numbers that a run of at most so many instructions gives to objects, in turn. -/
def allocations (pools : Pools) (code : CodeItem) : (steps : Nat) → Machine → List Nat
  | 0, _ => []
  | steps + 1, m =>
    match (settle code).on m with
    | (.ok .go, s) =>
      match (step pools code).on s with
      | (.ok _, t) => given pools code s ++ allocations pools code steps t
      | (.error _, _) => given pools code s
    | _ => []

theorem accounts_keepNumber (i : Instruction) (className : Value) (id : Nat) :
    Keeps (Accounts base first) (keepNumber i className id) :=
  keeps_bind ((robust_accounts .newInstance i).write i.a _ rfl) fun _ =>
    keeps_bind (quiet_lift _).keeps fun _ => keeps_bind (accounts_report _ _) fun _ =>
      (robust_accounts .newInstance i).advance 2 (.inr (by decide))

theorem accounts_newInstance {pools : Pools} {i : Instruction} {m : Machine} {className : Value}
    (hm : m.Accounts base first) (hclass : ((instanceClass pools i).on m).1 = .ok className) :
    ((newInstance pools i).on m).2.Accounts base (m.nextId + 1) := by
  have hcreated : ((createObject className).on m).2.Accounts base (m.nextId + 1) :=
    (accounts_createObject className m hm).mono (nextId_createObject className m).ge
  rw [newInstance_eq, (quiet_instanceClass pools i).on_bind, hclass]
  -- the number is used up even if no register takes it
  exact holds_bind hcreated fun id => accounts_keepNumber i className id

theorem exists_of_allocation {pools : Pools} {code : CodeItem} {m : Machine} {id : Nat}
    (h : ((allocation pools code).on m).1 = .ok (some id)) :
    ∃ i className, fetch code.instructions m.pc = .ok i ∧ m.allowance ≠ 0 ∧
      Operation.ofOpcode? i.opcode = some .newInstance ∧
      ((instanceClass pools i).on m).1 = .ok className ∧ id = m.nextId := by
  have h : (allocation pools code).on m = (.ok (some id), ((allocation pools code).on m).2) :=
    Prod.ext h rfl
  generalize ((allocation pools code).on m).2 = t at h
  unfold allocation at h
  rw [on_bind_ok (on_get m)] at h
  obtain ⟨i, hfetch, h⟩ := (quiet_lift _).exists_of_on_bind h
  obtain ⟨_, s, hspend, h⟩ := exists_of_on_bind h
  rw [on_spend] at hspend
  split at hspend
  · cases hspend
  next hallowance =>
    obtain ⟨-, rfl⟩ := Prod.mk.inj hspend
    split at h
    next hop =>
      obtain ⟨className, hclass, h⟩ := (quiet_instanceClass pools i).exists_of_on_bind h
      obtain ⟨n, s, hcreate, h⟩ := exists_of_on_bind h
      obtain rfl : n = id := Option.some.inj (Except.ok.inj (congrArg Prod.fst h))
      have hid := eq_nextId_of_createObject (congrArg Prod.fst hcreate)
      refine ⟨i, className, ?_, hallowance, hop, ?_, hid⟩
      · rwa [on_lift] at hfetch
      · rwa [instanceClass_congr pools i (m := m) (s := { m with allowance := m.allowance - 1 }) rfl]
    next => cases h

/-- The number that an instruction gives to an object is the next one, and it is used up afterwards. -/
theorem nextId_of_allocation {pools : Pools} {code : CodeItem} {m : Machine} {id : Nat}
    (hm : m.Accounts base first) (h : ((allocation pools code).on m).1 = .ok (some id)) :
    id = m.nextId ∧ m.nextId + 1 ≤ ((step pools code).on m).2.nextId := by
  obtain ⟨i, className, hfetch, hallowance, hop, hclass, hid⟩ := exists_of_allocation h
  have hdispatched : ((dispatch pools i).on { m with allowance := m.allowance - 1 }).2.Accounts base
      (m.nextId + 1) := by
    obtain ⟨log, hperform⟩ := exists_on_dispatch pools hop { m with allowance := m.allowance - 1 }
    have hlogged : Accounts base first { m with allowance := m.allowance - 1, log } := ⟨hm.used, hm.next⟩
    have hclass : ((instanceClass pools i).on { m with allowance := m.allowance - 1, log }).1 =
        .ok className := Eq.trans (instanceClass_congr pools i (s := m) rfl) hclass
    rw [hperform]
    exact accounts_newInstance hlogged hclass
  rw [on_step, hfetch]
  dsimp only
  rw [if_neg hallowance]
  exact ⟨hid, (holds_bind hdispatched fun _ => keeps_lookAtHeap accounts_collectIfNeeded).next⟩

theorem issues_given (pools : Pools) (code : CodeItem) {m : Machine} (hm : m.Accounts base first) :
    Issues m.nextId ((step pools code).on m).2.nextId (given pools code m) := by
  unfold given
  split
  next id h =>
    obtain ⟨rfl, hused⟩ := nextId_of_allocation hm h
    exact .single hused
  next => exact .nil (accounts_step pools code m (hm.mono le_rfl)).next

theorem issues_allocations (pools : Pools) (code : CodeItem) {m : Machine} (hm : m.Accounts base first)
    (steps : Nat) :
    Issues m.nextId (after pools code steps m).nextId (allocations pools code steps m) := by
  induction steps generalizing m first with
  | zero => exact .nil (accounts_run pools code 0 m (hm.mono le_rfl)).next
  | succ steps ih =>
    have hnext : m.nextId ≤ (after pools code (steps + 1) m).nextId :=
      (accounts_run pools code (steps + 1) m (hm.mono le_rfl)).next
    rcases hsettle : (settle code).on m with ⟨e | _ | _, s⟩
    · simp only [allocations, hsettle]
      exact .nil hnext
    · simp only [allocations, hsettle]
      exact .nil hnext
    · have hs : s.Accounts base m.nextId := by
        have hsettled := accounts_settle code m (hm.mono le_rfl)
        rwa [hsettle] at hsettled
      have ht := accounts_step pools code s hs
      have hgiven := issues_given pools code hs
      simp only [allocations, hsettle]
      rw [after_succ_of_go hsettle]
      rcases hstep : (step pools code).on s with ⟨e | _, t⟩
      · rw [hstep] at hgiven
        rw [on_bind_error hstep]
        exact hgiven.mono hs.next
      · rw [hstep] at ht hgiven
        rw [on_bind_ok hstep]
        exact (hgiven.mono hs.next).append (ih (m := t) ht)

end Act

/-- What can be asked of the heap: objects, collections and the execution of code, for which the machine can
be set up anew. -/
inductive HeapRequest where
  | create (className : Value)
  | setField (object key value : Value)
  | collect
  | collectIfNeeded
  | sweep (kept : Value)
  | enter (registers : Value) (callStack : Option Value) (pc : Int) (pending : Value)
      (services : Option Services) (allowance : Nat)
  | execute (pools : Pools) (code : CodeItem)

namespace HeapRequest

open Machine (Accounts Issues)

variable {base : Int} {first : Nat}

def perform : HeapRequest → Act Unit
  | create className => do let _ ← Act.createObject className
  | setField object key value => Act.setField object key value
  | collect => Act.collect
  | collectIfNeeded => Act.collectIfNeeded
  | sweep kept => Act.sweepAllBut kept
  | enter registers callStack pc pending services allowance => do
    Act.setRegisters registers
    modify fun m => { m with callStack, pc, pending, services, allowance }
  | execute pools code => Act.execute pools code

/-- The numbers that a request gives to new objects, in turn. -/
def issued (m : Machine) : HeapRequest → List Nat
  | create className =>
    match ((Act.createObject className).on m).1 with
    | .ok id => [id]
    | .error _ => []
  | execute pools code => Act.allocations pools code m.allowance m
  | _ => []

/-- The machine after a sequence of requests, which goes on after failures. -/
def afterAll : List HeapRequest → Machine → Machine
  | [], m => m
  | r :: requests, m => afterAll requests (r.perform.on m).2

def issuedByAll : List HeapRequest → Machine → List Nat
  | [], _ => []
  | r :: requests, m => r.issued m ++ issuedByAll requests (r.perform.on m).2

theorem accounts_perform (r : HeapRequest) : Keeps (Accounts base first) r.perform := by
  cases r with
  | create className =>
    exact keeps_bind (Act.accounts_createObject className) fun _ => (quiet_pure _).keeps
  | setField object key value => exact Act.accounts_setField object key value
  | collect => exact Act.accounts_collect
  | collectIfNeeded => exact Act.accounts_collectIfNeeded
  | sweep kept =>
    exact keeps_bind (quiet_lift _).keeps fun _ => keeps_bind (quiet_lift _).keeps fun _ =>
      Act.accounts_sweep _
  | enter registers callStack pc pending services allowance =>
    refine keeps_bind ?_ fun _ => keeps_modify fun _ hm => ⟨hm.used, hm.next⟩
    cases registers <;> exact keeps_modify fun _ hm => ⟨hm.used, hm.next⟩
  | execute pools code =>
    exact Act.keeps_execute (Act.accounts_settle code) (Act.accounts_step pools code)

theorem issues_issued (r : HeapRequest) {m : Machine} (hm : m.Accounts base first) :
    Issues m.nextId (r.perform.on m).2.nextId (r.issued m) := by
  have hnext := (r.accounts_perform m (hm.mono le_rfl)).next
  cases r with
  | create className =>
    simp only [issued]
    split
    next id hid =>
      obtain rfl := Act.eq_nextId_of_createObject hid
      exact .single (holds_bind (P := fun s : Machine => m.nextId + 1 ≤ s.nextId)
        (Act.nextId_createObject className m).ge fun _ => (quiet_pure _).keeps)
    next => exact .nil hnext
  | execute pools code => exact Act.issues_allocations pools code hm m.allowance
  | _ => exact .nil hnext

theorem issues_issuedByAll (requests : List HeapRequest) {m : Machine} (hm : m.Accounts base first) :
    Issues m.nextId (afterAll requests m).nextId (issuedByAll requests m) := by
  induction requests generalizing m with
  | nil => exact .nil le_rfl
  | cons r requests ih => exact (r.issues_issued hm).append (ih (r.accounts_perform m hm))

theorem accounts_afterAll (requests : List HeapRequest) {m : Machine} (hm : m.Accounts base first) :
    (afterAll requests m).Accounts base first := by
  induction requests generalizing m with
  | nil => exact hm
  | cons r requests ih => exact ih (r.accounts_perform m hm)

/-- Whatever is asked of the heap, and whether or not it fails: the bytes in use and the objects change
together, all objects have numbers below the next one, which never falls, and no number is given twice. -/
theorem requests_balance_heap (requests : List HeapRequest) (m : Machine) (u : Int)
    (hu : m.used = .int u) :
    (∃ v : Int, (afterAll requests m).used = .int v ∧
      v - objectSize * (afterAll requests m).objects.length = u - objectSize * m.objects.length) ∧
    (∀ id o, (id, o) ∈ (afterAll requests m).objects → id < (afterAll requests m).nextId) ∧
    m.nextId ≤ (afterAll requests m).nextId ∧
    (issuedByAll requests m).Pairwise (· < ·) ∧
    ∀ id ∈ issuedByAll requests m, m.nextId ≤ id ∧ id < (afterAll requests m).nextId := by
  have hm : m.Accounts (u - objectSize * m.heapCount) m.nextId := by
    refine ⟨?_, le_rfl⟩
    rw [hu, sub_add_cancel]
  have hafter := accounts_afterAll requests hm
  have hissued := issues_issuedByAll requests hm
  refine ⟨⟨_, hafter.used, ?_⟩, fun id o h => Machine.lt_nextId_of_mem_objects h, hissued.le,
    hissued.sorted, hissued.bounds⟩
  rw [Machine.length_objects, Machine.length_objects, add_sub_cancel_right]

/-- The second object goes, a collection fails for want of registers, and an instruction fails when its object
has been created, for want of a register to keep the number in. -/
def changingRequests : List HeapRequest :=
  [.create (.text "LA;"), .create (.text "LB;"), .setField (.int 1) (.text "next") (.int 2),
    .sweep (.list [.int 1]), .collect,
    .enter (.list [.none, .none]) (some (.list [])) 0 .none (some { code := #[0, 0, 0, 0, 0, 0xFE] }) 3,
    .execute { types := #[.text "LC;"] } Act.allocatingLoop, .create (.text "LD;")]

theorem changingRequests_balance_heap :
    ({} : Machine).used = .int 0 ∧ issuedByAll changingRequests {} = [1, 2, 3, 4] ∧
      (afterAll changingRequests {}).used =
        .int (objectSize * (afterAll changingRequests {}).objects.length) ∧
      ∀ id ∈ [1, 2, 3, 4], id < (afterAll changingRequests {}).nextId := by
  have hissued : issuedByAll changingRequests {} = [1, 2, 3, 4] := by decide +kernel
  obtain ⟨⟨v, hused, hv⟩, -, -, -, hbounds⟩ := requests_balance_heap changingRequests {} 0 rfl
  rw [hissued] at hbounds
  refine ⟨rfl, hissued, ?_, fun id hid => (hbounds id hid).2⟩
  rw [hused, sub_eq_zero.mp hv]

end HeapRequest

end Handset
