import Handset.Proofs.Machine.Allocation
import Handset.Proofs.Machine.FetchBounds
import Handset.Proofs.Machine.HeldObjects
import Handset.Proofs.Machine.ResultHandover

/-!
# What a failing operation leaves

An operation takes its operands first and moves the program counter last, and what it stores it stores in
one piece. So an operation that fails has left the program counter and the pending exception alone. What it
may have done is to write the first register of its result, to take values from the stack, and to take a cell
for an object or an array.
-/
namespace Handset

open Step

open Dex (Instruction)

namespace Operation

/-- The register that an operation writes first, if it writes any. -/
def destination? (op : Operation) (i : Instruction) (m : Machine) : Option Nat :=
  match op with
  | .move .bothWords _ | .load .farString => ((Act.operand i 1 2).on m).1.toOption
  | .move _ _ | .moveResult _ | .load _ | .instanceGet _ | .staticGet _ | .arrayGet _ | .newInstance
  | .newArray | .instanceOf | .compare _ _ | .binary _ _ | .unary _ _ | .extend | .convert _ _ _
  | .narrow _ => some i.a
  | _ => none

/-- How many values an operation takes from the value stack. -/
def pops : Operation → Nat
  | .moveResult .single => 1
  | .moveResult .wide => 2
  | _ => 0

/-- The operations that take a cell of the store. -/
def allocates : Operation → Bool
  | .newInstance | .newArray | .filledNewArray => true
  | _ => false

end Operation

/-- The machine without the `k` topmost values of its stack. -/
def Machine.popped (m : Machine) (k : Nat) : Machine :=
  { m with services := m.services.map fun s => { s with stack := s.stack.drop k } }

@[simp] theorem Machine.popped_zero (m : Machine) : m.popped 0 = m := by
  have hsame : (fun s : Services => { s with stack := s.stack.drop 0 }) = id := rfl
  rw [popped, hsame, Option.map_id_fun, id]

@[simp] theorem Machine.popped_popped (m : Machine) (j k : Nat) :
    (m.popped j).popped k = m.popped (j + k) := by
  simp only [popped, Option.map_map, Function.comp_def, List.drop_drop]

namespace Act

variable {α β : Type} {x : Act α} {f : α → Act β} {pools : Pools} {op : Operation} {i : Instruction}
  {m s t : Machine} {n : Nat} {d : Int} {e : Fault}

/-- From `m` to `t` the operation has taken one cell. All that has become of the cells that were there is
that a collection, which only the creation of an object can lead to, has removed objects. -/
structure Grown (op : Operation) (m t : Machine) : Prop where
  allocates : op.allocates = true
  size : t.cells.size = m.cells.size + 1
  cell : ∀ p < m.cells.size, t.cells[p]? = m.cells[p]? ∨
    op = .newInstance ∧ (∃ o, m.cells[p]? = some (.object o)) ∧ t.cells[p]? = some .vacated
  counters : op ≠ .newInstance → t.used = m.used ∧ t.collections = m.collections ∧ t.log = m.log

/-- `t` is a state in which the operation, begun in `m`, may fail. -/
structure Aborted (op : Operation) (i : Instruction) (m t : Machine) : Prop where
  registers : t.registers = m.registers ∨
    ∃ n v, op.destination? i m = some n ∧ t.registers = m.registers.setIfInBounds n v
  services : ∃ k ≤ op.pops, t.services = m.services.map fun s => { s with stack := s.stack.drop k }
  heap : (t.cells = m.cells ∧ t.used = m.used ∧ t.collections = m.collections ∧ t.log = m.log) ∨
    Grown op m t
  rest : t = { m with
    registers := t.registers
    services := t.services
    cells := t.cells
    used := t.used
    collections := t.collections
    log := t.log }

namespace Aborted

theorem popped {k : Nat} (hk : k ≤ op.pops) : Aborted op i m (m.popped k) where
  registers := .inl rfl
  services := ⟨k, hk, rfl⟩
  heap := .inl ⟨rfl, rfl, rfl, rfl⟩
  rest := rfl

theorem refl (op : Operation) (i : Instruction) (m : Machine) : Aborted op i m m := by
  have hpopped : Aborted op i m (m.popped 0) := popped (Nat.zero_le op.pops)
  rwa [Machine.popped_zero] at hpopped

theorem pc (h : Aborted op i m t) : t.pc = m.pc := by rw [h.rest]

theorem pending (h : Aborted op i m t) : t.pending = m.pending := by rw [h.rest]

/-- The first register of the result can be written, and written again. -/
theorem write (h : Aborted op i m t) (hn : op.destination? i m = some n) (v : Value) :
    Aborted op i m { t with registers := t.registers.setIfInBounds n v } where
  registers := by
    rcases h.registers with hsame | ⟨k, w, hk, hset⟩
    · exact .inr ⟨n, v, hn, by rw [hsame]⟩
    · obtain rfl : k = n := Option.some.inj (hk.symm.trans hn)
      exact .inr ⟨k, v, hn, by rw [hset, Array.setIfInBounds_setIfInBounds]⟩
  services := h.services
  heap := h.heap.imp id fun g => ⟨g.allocates, g.size, g.cell, g.counters⟩
  rest := congrArg (fun s : Machine => { s with registers := t.registers.setIfInBounds n v }) h.rest

theorem grow (h : Aborted op i m t) {cells : Array Cell} {used : Value} {collections : Nat} {log : Log}
    (hgrown : Grown op m { t with cells, used, collections, log }) :
    Aborted op i m { t with cells, used, collections, log } where
  registers := h.registers
  services := h.services
  heap := .inr hgrown
  rest := congrArg (fun s : Machine => { s with cells, used, collections, log }) h.rest

end Aborted

/-- How an operation may end: it has failed on the way, or it has gone forwards, jumped or returned. -/
structure Outcome (op : Operation) (i : Instruction) (m : Machine) (r : Except Fault Unit) (t : Machine) :
    Prop where
  failed : ∀ e, r = .error e → Aborted op i m t
  moved : r = .ok () → op.jumps = true ∨ op.isReturn = true ∨ m.pc < t.pc

theorem Aborted.outcome (h : Aborted op i m t) : Outcome op i m (.error e) t :=
  ⟨fun _ _ => h, fun hok => by cases hok⟩

theorem outcome_of_lt (h : m.pc < t.pc) : Outcome op i m (.ok ()) t :=
  ⟨fun e he => (by cases he), fun _ => .inr (.inr h)⟩

/-! ### Parts of an operation -/

/-- The part fails only in states in which the operation may fail, and does not move the program counter. -/
structure Tentative (op : Operation) (i : Instruction) (m : Machine) (x : Act α) : Prop where
  ends : ∀ t, Aborted op i m t → Ends t x fun r u => u.pc = m.pc ∧ ∀ e, r = .error e → Aborted op i m u

/-- The part ends the operation as it may end. -/
structure Final (op : Operation) (i : Instruction) (m : Machine) (x : Act Unit) : Prop where
  ends : ∀ t, Aborted op i m t → Ends t x (Outcome op i m)

/-- The action changes nothing if it fails, and never the program counter. -/
structure Indivisible (x : Act α) : Prop where
  refused : ∀ s e, (x.on s).1 = .error e → (x.on s).2 = s
  pc : ∀ s, (x.on s).2.pc = s.pc

theorem Indivisible.of_quiet (h : Quiet x) : Indivisible x :=
  ⟨fun s _ _ => h s, fun s => congrArg Machine.pc (h s)⟩

theorem indivisible_modify {g : Machine → Machine} (h : ∀ s, (g s).pc = s.pc) :
    Indivisible (modify g : Act PUnit) where
  refused s e he := by cases he
  pc := h

theorem Indivisible.after (hx : Quiet x) (hf : ∀ a, Indivisible (f a)) : Indivisible (x >>= f) := by
  constructor
  · intro s e
    rw [hx.on_bind]
    cases (x.on s).1 with
    | ok a => exact (hf a).refused s e
    | error e' => exact fun _ => rfl
  · intro s
    rw [hx.on_bind]
    cases (x.on s).1 with
    | ok a => exact (hf a).pc s
    | error e' => rfl

theorem indivisible_setServices (s : Services) : Indivisible (setServices s) :=
  indivisible_modify fun _ => rfl

theorem indivisible_raise (v : Value) : Indivisible (raise v) := indivisible_modify fun _ => rfl

theorem indivisible_setRegister (n : Nat) (v : Value) : Indivisible (setRegister n v) := by
  constructor
  · intro s e
    rw [on_setRegister]
    split
    · exact fun he => by cases he
    · exact fun _ => rfl
  · intro s
    rw [on_setRegister]
    split <;> rfl

theorem indivisible_push (v : Value) : Indivisible (push v) :=
  .after (quiet_service _) fun _ => indivisible_setServices _

theorem indivisible_lock (v : Value) : Indivisible (lock v) := by
  refine .after (quiet_service _) fun s => .after quiet_get fun m => ?_
  split
  · exact .of_quiet (quiet_refuse _)
  · exact indivisible_setServices _

theorem indivisible_unlock (v : Value) : Indivisible (unlock v) := by
  refine .after (quiet_service _) fun s => ?_
  split
  · exact .of_quiet (quiet_refuse _)
  · split
    · exact .of_quiet (quiet_refuse _)
    · split
      · exact indivisible_setServices _
      · exact .of_quiet (quiet_refuse _)

theorem indivisible_setStaticField (field : Nat) (v : Value) : Indivisible (setStaticField field v) :=
  .after (quiet_service _) fun _ => indivisible_setServices _

theorem indivisible_setObjectField (object : Value) (field : Nat) (v : Value) :
    Indivisible (setObjectField object field v) := by
  refine .after (quiet_service _) fun s => .after quiet_get fun m => ?_
  split
  · exact .of_quiet (quiet_refuse _)
  · exact indivisible_modify fun _ => rfl

theorem indivisible_setArrayElement (array index v : Value) :
    Indivisible (setArrayElement array index v) :=
  .after (quiet_service _) fun _ => .after (quiet_element _ _) fun _ => indivisible_modify fun _ => rfl

theorem unmet_return (pools : Pools) (i : Instruction) (hop : op.isReturn = true) :
    Unmet (perform pools op i) := by
  cases op with
  | returnVoid => exact (unmet_service _).bind _
  | returnValue width => exact .after (quiet_load _ _) fun _ => ((unmet_service _).bind _).bind _
  | _ => cases hop

theorem indivisible_return (hop : op.isReturn = true) : Indivisible (perform pools op i) := by
  have hcases (s : Machine) : (∃ e, (perform pools op i).on s = (.error e, s)) ∨
      ∃ services, (perform pools op i).on s = (.ok (), { s with services := some services }) := by
    cases hs : s.services with
    | none => exact .inl (unmet_return pools i hop s hs)
    | some services =>
      have hframes : s.frames? = some services.frames := congrArg (Option.map Services.frames) hs
      rcases perform_return pools i hop hframes with ⟨e, he, -⟩ | ⟨-, services', hok, -⟩
      · exact .inl ⟨e, he⟩
      · exact .inr ⟨services', hok⟩
  constructor
  · intro s e he
    rcases hcases s with ⟨e', herror⟩ | ⟨services, hok⟩
    · rw [herror]
    · rw [hok] at he
      cases he
  · intro s
    rcases hcases s with ⟨e', herror⟩ | ⟨services, hok⟩
    · rw [herror]
    · rw [hok]

theorem ends_pop (s : Machine) :
    Ends s pop fun r u => (∀ v, r = .ok v → u = s.popped 1) ∧ ∀ e, r = .error e → u = s := by
  unfold Ends
  cases hs : s.services with
  | none =>
    obtain ⟨e, he⟩ : ∃ e, pop.on s = (.error e, s) := (unmet_service "stack").bind _ s hs
    rw [he]
    exact ⟨fun v hv => (by cases hv), fun _ _ => rfl⟩
  | some services =>
    cases hstack : services.stack with
    | nil =>
      rw [on_pop_of_empty hs hstack]
      exact ⟨fun v hv => (by cases hv), fun _ _ => rfl⟩
    | cons v rest =>
      rw [on_pop hs hstack]
      refine ⟨fun _ _ => ?_, fun e he => by cases he⟩
      simp only [Machine.popped, hs, Option.map_some, hstack, List.drop_succ_cons, List.drop_zero]

/-! ### Putting parts together -/

theorem Indivisible.tentative (h : Indivisible x) : Tentative op i m x :=
  ⟨fun t ht => ⟨(h.pc t).trans ht.pc, fun e he => (h.refused t e he).symm ▸ ht⟩⟩

theorem Tentative.seq (hx : Keeps (Aborted op i m) x) (hf : ∀ a, Tentative op i m (f a)) :
    Tentative op i m (x >>= f) :=
  ⟨fun t ht => ends_bind (Q := fun _ u => Aborted op i m u) (hx t ht) (fun a u hu => (hf a).ends u hu)
    fun _ _ hu => ⟨hu.pc, fun _ _ => hu⟩⟩

theorem Final.seq {f : α → Act Unit} (hx : Keeps (Aborted op i m) x) (hf : ∀ a, Final op i m (f a)) :
    Final op i m (x >>= f) :=
  ⟨fun t ht => ends_bind (Q := fun _ u => Aborted op i m u) (hx t ht) (fun a u hu => (hf a).ends u hu)
    fun _ _ hu => hu.outcome⟩

theorem outcome_advance (hpc : t.pc = m.pc) (hd : 0 < d) : Ends t (advance d) (Outcome op i m) := by
  refine outcome_of_lt ?_
  change m.pc < t.pc + d
  rw [hpc]
  exact Int.lt_add_of_pos_right _ hd

theorem final_advance (hd : 0 < d) : Final op i m (advance d) :=
  ⟨fun _ ht => outcome_advance ht.pc hd⟩

theorem Tentative.advance (h : Tentative op i m x) (hd : 0 < d) :
    Final op i m (x >>= fun _ => Act.advance d) :=
  ⟨fun t ht => ends_bind (h.ends t ht) (fun _ _ hu => outcome_advance hu.1 hd)
    fun e _ hu => (hu.2 e rfl).outcome⟩

theorem Final.outcome {x : Act Unit} (h : Final op i m x) : Ends m x (Outcome op i m) :=
  h.ends m (.refl op i m)

/-- What has been looked at in the first state is known to the rest. -/
theorem ends_look {f : α → Act Unit} (hx : Quiet x)
    (hf : ∀ a, (x.on m).1 = .ok a → Ends m (f a) (Outcome op i m)) :
    Ends m (x >>= f) (Outcome op i m) := by
  unfold Ends
  rw [hx.on_bind]
  cases h : (x.on m).1 with
  | ok a => exact hf a h
  | error e => exact (Aborted.refl op i m).outcome

/-! ### Results -/

theorem keeps_write (hn : op.destination? i m = some n) (v : Value) :
    Keeps (Aborted op i m) (setRegister n v) := by
  intro t ht
  rw [on_setRegister]
  split
  · exact ht.write hn v
  · exact ht

theorem tentative_setPair (hn : op.destination? i m = some n) (v : Value) :
    Tentative op i m (setPair n v) :=
  .seq (quiet_lift _).keeps fun _ => .seq (keeps_write hn _) fun _ => .seq (quiet_lift _).keeps fun _ =>
    (indivisible_setRegister _ _).tentative

theorem tentative_store (hn : op.destination? i m = some n) (w : Width) (v : Value) :
    Tentative op i m (store w n v) := by
  cases w with
  | single => exact (indivisible_setRegister _ _).tentative
  | wide => exact tentative_setPair hn v

theorem tentative_receive (hn : op.destination? i m = some n) (kind : Kind) (v : Value) :
    Tentative op i m (receive kind n v) := by
  cases kind with
  | plain | boolean => exact (indivisible_setRegister _ _).tentative
  | wide => exact tentative_setPair hn v
  | byte | half =>
    exact .seq (quiet_lift _).keeps fun _ => (indivisible_setRegister _ _).tentative

theorem final_words (hn : op.destination? i m = some n) (v w : Value) (hd : 0 < d) :
    Final op i m (do setRegister n v; setRegister (n + 1) w; advance d) :=
  .seq (keeps_write hn v) fun _ => (indivisible_setRegister _ _).tentative.advance hd

/-! ### New cells -/

theorem grown_push (hop : op.allocates = true) (c : Cell) {used : Value}
    (hused : op ≠ .newInstance → used = m.used) :
    Grown op m { m with cells := m.cells.push c, used } where
  allocates := hop
  size := Array.size_push c
  cell _ hp := .inl (Array.getElem?_push_lt hp ▸ (Array.getElem?_eq_getElem hp).symm)
  counters hne := ⟨hused hne, rfl, rfl⟩

theorem ends_createArray (type length : Value) (m : Machine) :
    Ends m (createArray type length) fun r u => (∃ e, r = .error e) ∧ u = m ∨
      r = .ok m.nextId ∧ ∃ c, u = { m with cells := m.cells.push c } := by
  unfold Ends createArray
  rw [(quiet_service _).on_bind]
  cases ((service "_create_array").on m).1 with
  | error e => exact .inl ⟨⟨e, rfl⟩, rfl⟩
  | ok services =>
    dsimp only
    split
    · exact .inl ⟨⟨_, rfl⟩, rfl⟩
    · split
      · exact .inl ⟨⟨_, rfl⟩, rfl⟩
      · exact .inr ⟨rfl, _, rfl⟩

theorem ends_createArray_bind {g : Nat → Act Unit} (hop : op.allocates = true) (type length : Value)
    (hg : Final op i m (g m.nextId)) : Ends m (createArray type length >>= g) (Outcome op i m) := by
  refine ends_bind (ends_createArray type length m) (fun id u hu => ?_) fun e u hu => ?_
  · rcases hu with ⟨⟨e, he⟩, -⟩ | ⟨hid, c, rfl⟩
    · cases he
    · obtain rfl := Except.ok.inj hid
      exact hg.ends _ ((Aborted.refl op i m).grow (grown_push hop c fun _ => rfl))
  · rcases hu with ⟨-, rfl⟩ | ⟨he, -⟩
    · exact (Aborted.refl op i u).outcome
    · cases he

theorem Aborted.setNew (h : Aborted op i m t) (c : Cell) : Aborted op i m (t.setCell m.cells.size c) := by
  rcases h.heap with ⟨hcells, -⟩ | hgrown
  -- without a new cell the place lies behind the store
  · have hsame : t.setCell m.cells.size c = t := by
      rw [Machine.setCell, Array.setIfInBounds_eq_of_size_le (by rw [hcells])]
    rwa [hsame]
  · refine h.grow ⟨hgrown.allocates, ?_, fun p hp => ?_, hgrown.counters⟩
    · rw [Array.size_setIfInBounds, hgrown.size]
    · rw [Array.getElem?_setIfInBounds_ne (Nat.ne_of_gt hp)]
      exact hgrown.cell p hp

theorem keeps_setNewElement (index v : Value) :
    Keeps (Aborted op i m) (setArrayElement (.int m.nextId) index v) := by
  refine keeps_bind (quiet_service _).keeps fun _ t ht => ?_
  rw [(quiet_element _ _).on_bind]
  cases helement : ((element (.int m.nextId) index).on t).1 with
  | error e => exact ht
  | ok r =>
    -- the number that was next in `m` can only mean the new cell
    have hplace : r.1 = m.cells.size := by
      have hr := (Machine.array?_eq_some_iff.mp (array?_of_element helement)).1
      simp only [Machine.place?, Value.int?] at hr
      split at hr
      · simp only [Machine.nextId] at hr
        have := Option.some.inj hr
        omega
      · cases hr
    have hset := ht.setNew (.array r.2.1 (r.2.2.1.setIfInBounds r.2.2.2 v))
    rwa [← hplace] at hset

theorem keeps_fillNew (start left done : Nat) :
    Keeps (Aborted op i m) (fillArray (.int m.nextId) start left done) := by
  induction left generalizing done with
  | zero => exact (quiet_pure _).keeps
  | succ left ih =>
    exact keeps_bind (quiet_service _).keeps fun _ => keeps_bind (quiet_register _).keeps fun _ =>
      keeps_bind (keeps_setNewElement _ _) fun _ => ih (done + 1)

/-- A state in which the creation of an object may fail once it has taken its cell. -/
structure Created (i : Instruction) (m t : Machine) : Prop where
  aborted : Aborted .newInstance i m t
  grown : Grown .newInstance m t

namespace Created

/-- Cells may lose objects, and the counters and the log are free. -/
theorem update (h : Created i m t) {cells : Array Cell} (used : Value) (collections : Nat) (log : Log)
    (hsize : cells.size = t.cells.size)
    (hcell : ∀ p < m.cells.size, cells[p]? = t.cells[p]? ∨
      (∃ o, m.cells[p]? = some (.object o)) ∧ cells[p]? = some .vacated) :
    Created i m { t with cells, used, collections, log } := by
  have hgrown : Grown .newInstance m { t with cells, used, collections, log } := by
    refine ⟨rfl, hsize.trans h.grown.size, fun p hp => ?_, fun hne => absurd rfl hne⟩
    rcases hcell p hp with hsame | hgone
    · rcases h.grown.cell p hp with hkept | ⟨-, hobject, hvacated⟩
      · exact .inl (hsame.trans hkept)
      · exact .inr ⟨rfl, hobject, hsame.trans hvacated⟩
    · exact .inr ⟨rfl, hgone⟩
  exact ⟨h.aborted.grow hgrown, hgrown⟩

theorem count (h : Created i m t) (used : Value) (collections : Nat) (log : Log) :
    Created i m { t with used, collections, log } :=
  h.update used collections log rfl fun _ _ => .inl rfl

theorem report (level : Level) (text : String) :
    Keeps (Created i m) (Step.report level text : Act Unit) :=
  keeps_report (fun t log ht => ht.count t.used t.collections log) level text

/-- What a collection sweeps away was an object already in `m`, or is the new one. -/
theorem sweep (keep : Nat → Bool) : Keeps (Created i m) (Act.sweep keep) := by
  refine keeps_get_bind fun t ht => keeps_bind ?_ (fun _ => report _ _) t ht
  refine keeps_removeObjects (fun u q hq hu => ?_) fun u used hu => hu.count used u.collections u.log
  -- `q` is an object before the sweep, in `t`; `u` is any state on the way
  obtain ⟨-, o, ho⟩ := Machine.mem_doomed_iff.mp hq
  refine hu.update u.used u.collections u.log Array.size_setIfInBounds fun p hp => ?_
  by_cases hpq : q = p
  · subst hpq
    refine .inr ⟨?_, ?_⟩
    · rcases ht.grown.cell q hp with hkept | ⟨-, hobject, -⟩
      · exact ⟨o, hkept ▸ ho⟩
      · exact hobject
    · exact Array.getElem?_setIfInBounds_self_of_lt (by rw [hu.grown.size]; exact Nat.lt_succ_of_lt hp)
  · exact .inl (Array.getElem?_setIfInBounds_ne hpq)

theorem announce (className : Value) (id : Nat) : Keeps (Created i m) (Act.announce className id) :=
  keeps_announce report
    (keeps_collectIfNeeded report
      (keeps_collect report (fun t n ht => ht.count t.used n t.log) sweep)) className id

theorem of_createObject (className : Value) : Created i m ((createObject className).on m).2 := by
  have hpushed (c : Cell) (used : Value) : Created i m { m with cells := m.cells.push c, used } := by
    have hgrown : Grown .newInstance m { m with cells := m.cells.push c, used } :=
      grown_push rfl c fun hne => absurd rfl hne
    exact ⟨(Aborted.refl .newInstance i m).grow hgrown, hgrown⟩
  rw [on_createObject]
  split
  next used _ => exact announce className m.nextId _ (hpushed _ used)
  next => exact hpushed .vacated m.used

theorem write (h : Created i m t) (v : Value) :
    Created i m { t with registers := t.registers.setIfInBounds i.a v } :=
  ⟨h.aborted.write rfl v, h.grown.allocates, h.grown.size, h.grown.cell, h.grown.counters⟩

theorem keepNumber (h : Created i m t) (className : Value) (id : Nat) :
    Ends t (Act.keepNumber i className id) (Outcome .newInstance i m) := by
  have hwrite : Created i m ((setRegister i.a (.int id)).on t).2 := by
    rw [on_setRegister]
    split
    · exact h.write _
    · exact h
  refine ends_bind (Q := fun _ u => Created i m u) hwrite (fun _ u hu => ?_)
    fun _ _ hu => hu.aborted.outcome
  refine ends_lift_bind (fun shown _ => ends_report_bind fun log => ?_) fun _ => hu.aborted.outcome
  exact (final_advance (by decide)).ends _ (hu.count u.used u.collections log).aborted

end Created

/-! ### All operations -/

theorem outcome_newInstance (pools : Pools) (i : Instruction) (m : Machine) :
    Ends m (newInstance pools i) (Outcome .newInstance i m) := by
  rw [newInstance_eq]
  refine ends_look (quiet_instanceClass pools i) fun className _ => ?_
  exact ends_bind (Q := fun _ u => Created i m u) (.of_createObject className)
    (fun id u hu => hu.keepNumber className id) fun _ _ hu => hu.aborted.outcome

/-- A move writes the register that it finds first, and goes forwards. -/
theorem destination?_of_moveRegisters {addressing : Addressing} {r : Nat × Nat × Int} (width : Width)
    (h : ((moveRegisters addressing i).on m).1 = .ok r) :
    (Operation.move addressing width).destination? i m = some r.1 ∧ 0 < r.2.2 := by
  cases addressing with
  | packed =>
    obtain rfl := Except.ok.inj h
    exact ⟨rfl, (by decide : (0 : Int) < 1)⟩
  | sourceWord =>
    obtain ⟨source, -, hr⟩ := (quiet_operand i 1 2).exists_of_on_bind (Prod.ext h rfl)
    obtain rfl := Except.ok.inj (congrArg Prod.fst hr)
    exact ⟨rfl, (by decide : (0 : Int) < 2)⟩
  | bothWords =>
    obtain ⟨target, htarget, hr⟩ := (quiet_operand i 1 2).exists_of_on_bind (Prod.ext h rfl)
    obtain ⟨source, -, hr⟩ := (quiet_operand i 3 2).exists_of_on_bind hr
    obtain rfl := Except.ok.inj (congrArg Prod.fst hr)
    refine ⟨?_, (by decide : (0 : Int) < 4)⟩
    rw [Operation.destination?, htarget]
    rfl

theorem quiet_moveRegisters (addressing : Addressing) (i : Instruction) :
    Quiet (moveRegisters addressing i) := by
  cases addressing with
  | packed => exact quiet_pure _
  | sourceWord => exact quiet_bind (quiet_operand _ _ _) fun _ => quiet_pure _
  | bothWords =>
    exact quiet_bind (quiet_operand _ _ _) fun _ => quiet_bind (quiet_operand _ _ _) fun _ => quiet_pure _

theorem outcome_move (addressing : Addressing) (width : Width) (i : Instruction) (m : Machine) :
    Ends m (move addressing width i) (Outcome (.move addressing width) i m) := by
  -- the destination may be an operand, which is known from the first state only
  refine ends_look (quiet_moveRegisters addressing i) fun (target, source, distance) hr => ?_
  obtain ⟨hn, hd⟩ := destination?_of_moveRegisters width hr
  refine Final.outcome (.seq (quiet_register _).keeps fun v => .seq (keeps_write hn v) fun _ => ?_)
  cases width with
  | single => exact final_advance hd
  | wide =>
    exact .seq (quiet_register _).keeps fun _ => (indivisible_setRegister _ _).tentative.advance hd

theorem outcome_moveResult (width : Width) (i : Instruction) (m : Machine) :
    Ends m (moveResult width i) (Outcome (.moveResult width) i m) := by
  cases width with
  | single =>
    refine ends_bind (ends_pop m) (fun v u hu => ?_) fun e u hu => ?_
    · obtain rfl := hu.1 v rfl
      have hfinal : Final (.moveResult .single) i m (do setRegister i.a v; advance 1) :=
        (indivisible_setRegister _ _).tentative.advance (by decide)
      exact hfinal.ends _ (.popped (Nat.le_refl 1))
    · rw [hu.2 e rfl]
      exact (Aborted.refl _ _ _).outcome
  | wide =>
    refine ends_bind (ends_pop m) (fun low u hu => ?_) fun e u hu => ?_
    · obtain rfl := hu.1 low rfl
      refine ends_bind (ends_pop (m.popped 1)) (fun high u hu => ?_) fun e u hu => ?_
      · rw [hu.1 high rfl, Machine.popped_popped]
        exact (final_words rfl low high (by decide)).ends _ (.popped (Nat.le_refl 2))
      · rw [hu.2 e rfl]
        exact (Aborted.popped (by decide)).outcome
    · rw [hu.2 e rfl]
      exact (Aborted.refl _ _ _).outcome

theorem outcome_loadLiteral (pools : Pools) (literal : Literal) (i : Instruction) (m : Machine) :
    Ends m (loadLiteral pools literal i) (Outcome (.load literal) i m) := by
  cases literal with
  | nibble =>
    exact Final.outcome ((indivisible_setRegister _ _).tentative.advance (by decide))
  | half | word | highHalf =>
    exact Final.outcome (.seq (quiet_operand _ _ _).keeps fun _ =>
      (indivisible_setRegister _ _).tentative.advance (by decide))
  | wideHalf | wideWord | wideLong | wideHighHalf =>
    exact Final.outcome (.seq (quiet_operand _ _ _).keeps fun _ => final_words rfl _ _ (by decide))
  | string | className =>
    exact Final.outcome (.seq (quiet_operand _ _ _).keeps fun _ => .seq (quiet_lift _).keeps fun _ =>
      (indivisible_setRegister _ _).tentative.advance (by decide))
  | farString =>
    exact Final.outcome (.seq (quiet_operand _ _ _).keeps fun _ => .seq (quiet_operand _ _ _).keeps fun _ =>
      .seq (quiet_lift _).keeps fun _ => (indivisible_setRegister _ _).tentative.advance (by decide))

theorem final_binary (width : Width) (op : BinaryOp) (i : Instruction) (m : Machine) :
    Final (.binary width op) i m (binary width op i) := by
  refine .seq (quiet_load _ _).keeps fun v => .seq (quiet_load _ _).keeps fun w => ?_
  split
  · exact (indivisible_raise _).tentative.advance (by decide)
  · exact .seq (quiet_withMemory _).keeps fun _ => (tentative_store rfl _ _).advance (by decide)

theorem final_checkCast (pools : Pools) (i : Instruction) (m : Machine) :
    Final .checkCast i m (checkCast pools i) := by
  refine .seq (quiet_operand _ _ _).keeps fun _ => .seq (quiet_lift _).keeps fun _ =>
    .seq (quiet_register _).keeps fun _ => .seq (quiet_typeOf _).keeps fun _ => ?_
  split
  · exact final_advance (by decide)
  · exact .seq (quiet_lift _).keeps fun _ => .seq (quiet_lift _).keeps fun _ =>
      (indivisible_raise _).tentative.advance (by decide)

theorem outcome_jump (pools : Pools) (i : Instruction) (m : Machine) (hop : op.jumps = true) :
    Ends m (perform pools op i) (Outcome op i m) := by
  rw [perform_of_jumps pools i hop]
  exact ends_look (looks_jumpDistance op i).quiet fun _ _ => ⟨fun e he => (by cases he), fun _ => .inl hop⟩

theorem outcome_return (pools : Pools) (i : Instruction) (m : Machine) (hop : op.isReturn = true) :
    Ends m (perform pools op i) (Outcome op i m) := by
  refine ⟨fun e he => ?_, fun _ => .inr (.inl hop)⟩
  rw [(indivisible_return hop).refused m e he]
  exact .refl op i m

/-- An operation fails in a state in which it may, or goes forwards, jumps or returns. -/
theorem outcome_perform (pools : Pools) (op : Operation) (i : Instruction) (m : Machine) :
    Ends m (perform pools op i) (Outcome op i m) := by
  cases op with
  | nop => exact (final_advance (by decide)).outcome
  | move addressing width => exact outcome_move addressing width i m
  | moveResult width => exact outcome_moveResult width i m
  | load literal => exact outcome_loadLiteral pools literal i m
  | monitorEnter =>
    exact Final.outcome (.seq (quiet_register _).keeps fun _ =>
      (indivisible_lock _).tentative.advance (by decide))
  | monitorExit =>
    exact Final.outcome (.seq (quiet_register _).keeps fun _ =>
      (indivisible_unlock _).tentative.advance (by decide))
  | instanceGet kind =>
    exact Final.outcome (.seq (quiet_operand _ _ _).keeps fun _ => .seq (quiet_register _).keeps fun _ =>
      .seq (quiet_objectField _ _).keeps fun _ => (tentative_receive rfl kind _).advance (by decide))
  | instancePut kind =>
    exact Final.outcome (.seq (quiet_operand _ _ _).keeps fun _ => .seq (quiet_register _).keeps fun _ =>
      .seq (quiet_deliver _ _).keeps fun _ =>
        (indivisible_setObjectField _ _ _).tentative.advance (by decide))
  | staticGet kind =>
    exact Final.outcome (.seq (quiet_operand _ _ _).keeps fun _ => .seq (quiet_staticField _).keeps fun _ =>
      (tentative_receive rfl kind _).advance (by decide))
  | staticPut kind =>
    exact Final.outcome (.seq (quiet_operand _ _ _).keeps fun _ => .seq (quiet_deliver _ _).keeps fun _ =>
      (indivisible_setStaticField _ _).tentative.advance (by decide))
  | arrayGet kind =>
    exact Final.outcome (.seq (quiet_register _).keeps fun _ => .seq (quiet_register _).keeps fun _ =>
      .seq (quiet_arrayElement _ _).keeps fun _ => (tentative_receive rfl kind _).advance (by decide))
  | arrayPut kind =>
    exact Final.outcome (.seq (quiet_register _).keeps fun _ => .seq (quiet_register _).keeps fun _ =>
      .seq (quiet_deliver _ _).keeps fun _ =>
        (indivisible_setArrayElement _ _ _).tentative.advance (by decide))
  | invoke =>
    exact Final.outcome (.seq (quiet_operand _ _ _).keeps fun _ => final_advance (by decide))
  | returnVoid | returnValue => exact outcome_return pools i m rfl
  | newInstance => exact outcome_newInstance pools i m
  | newArray =>
    refine ends_look (quiet_operand _ _ _) fun _ _ => ends_look (quiet_register _) fun _ _ =>
      ends_look (quiet_lift _) fun _ _ => ends_createArray_bind rfl _ _ ?_
    exact (indivisible_setRegister _ _).tentative.advance (by decide)
  | filledNewArray =>
    refine ends_look (quiet_operand _ _ _) fun _ _ => ends_look (quiet_lift _) fun _ _ =>
      ends_createArray_bind rfl _ _ ?_
    exact .seq (keeps_fillNew _ _ _) fun _ => (indivisible_push _).tentative.advance (by decide)
  | fillArrayData =>
    exact Final.outcome (.seq (quiet_register _).keeps fun _ => .seq (quiet_operand _ _ _).keeps fun _ =>
      final_advance (by decide))
  | throwValue =>
    exact Final.outcome (.seq (quiet_register _).keeps fun _ =>
      (indivisible_raise _).tentative.advance (by decide))
  | checkCast => exact (final_checkCast pools i m).outcome
  | instanceOf =>
    exact Final.outcome (.seq (quiet_operand _ _ _).keeps fun _ => .seq (quiet_lift _).keeps fun _ =>
      .seq (quiet_register _).keeps fun _ => .seq (quiet_typeOf _).keeps fun _ =>
        (indivisible_setRegister _ _).tentative.advance (by decide))
  | compare width inverted =>
    exact Final.outcome (.seq (quiet_load _ _).keeps fun _ => .seq (quiet_load _ _).keeps fun _ =>
      .seq (quiet_lift _).keeps fun _ => (indivisible_setRegister _ _).tentative.advance (by decide))
  | branch | branchZero | jump | packedSwitch | sparseSwitch => exact outcome_jump pools i m rfl
  | binary width op => exact (final_binary width op i m).outcome
  | unary width op =>
    exact Final.outcome (.seq (quiet_load _ _).keeps fun _ => .seq (quiet_lift _).keeps fun _ =>
      (tentative_store rfl _ _).advance (by decide))
  | extend =>
    exact Final.outcome (.seq (quiet_register _).keeps fun _ => final_words rfl _ _ (by decide))
  | convert source kind target =>
    exact Final.outcome (.seq (quiet_load _ _).keeps fun _ => .seq (quiet_lift _).keeps fun _ =>
      (tentative_store rfl _ _).advance (by decide))
  | narrow kind =>
    exact Final.outcome (.seq (quiet_register _).keeps fun _ =>
      (tentative_receive rfl kind _).advance (by decide))

theorem Aborted.object (h : Aborted op i m t) {p : Nat} {o : Obj} (hp : p < m.cells.size)
    (ho : t.cells[p]? = some (.object o)) : m.cells[p]? = some (.object o) := by
  rcases h.heap with ⟨hcells, -⟩ | hgrown
  · rwa [hcells] at ho
  · rcases hgrown.cell p hp with hkept | ⟨-, -, hvacated⟩
    · rwa [hkept] at ho
    · rw [hvacated] at ho
      cases ho

/-- An operation that fails leaves the program counter, the pending exception and the objects that are still
there as they were. It has written the first register of its result or none. It has taken from the value
stack what a result consists of, or less, and has changed nothing else of the services. It has taken one cell
or none, and only if it creates an object or an array; objects are gone only if an object was created. -/
theorem failure_leaves_control_state (pools : Pools) (op : Operation) (i : Instruction) (m t : Machine)
    (e : Fault) (h : (perform pools op i).on m = (.error e, t)) :
    t.pc = m.pc ∧ t.pending = m.pending ∧
      (∀ p < m.cells.size, ∀ o, t.cells[p]? = some (.object o) → m.cells[p]? = some (.object o)) ∧
      Aborted op i m t := by
  have houtcome : Outcome op i m _ _ := outcome_perform pools op i m
  rw [h] at houtcome
  have haborted := houtcome.failed e rfl
  exact ⟨haborted.pc, haborted.pending, fun p hp o ho => haborted.object hp ho, haborted⟩

/-- One register, and two values on the stack. -/
def narrowMachine : Machine where
  registers := #[.int 5]
  pc := 3
  services := some { stack := [.int 7, .int 8], frames := 1, statics := [(0, .int 1)] }

/-- The machine after it has taken a pair from its stack, the second word of which has no register. -/
def narrowedMachine : Machine where
  registers := #[.int 7]
  pc := 3
  services := some { stack := [], frames := 1, statics := [(0, .int 1)] }

theorem narrowMachine_leaves_control_state :
    (perform {} (.moveResult .wide) { opcode := 0, registers := 0, offset := 0 }).on narrowMachine =
        (.error .slotOutOfRange, narrowedMachine) ∧
      narrowedMachine.pc = narrowMachine.pc ∧ narrowedMachine.pending = narrowMachine.pending ∧
      (∀ p < narrowMachine.cells.size, ∀ o,
        narrowedMachine.cells[p]? = some (.object o) → narrowMachine.cells[p]? = some (.object o)) ∧
      Aborted (.moveResult .wide) { opcode := 0, registers := 0, offset := 0 } narrowMachine
        narrowedMachine := by
  have hrun : (perform {} (.moveResult .wide) { opcode := 0, registers := 0, offset := 0 }).on
      narrowMachine = (.error .slotOutOfRange, narrowedMachine) := rfl
  exact ⟨hrun, failure_leaves_control_state {} _ _ _ _ _ hrun⟩

end Act

end Handset
