import Handset.Proofs.Machine.CompiledForms
import Handset.Proofs.Number.Positions

/-!
# What the compiler counts

The compiler has one entry for each name under which methods are called. Every question whether a method should be
compiled adds to the count of its name, and a compiled form that is put into the cache stands in the entry of its
name. The entry of a name is what the events of that name alone make of it, in whatever order they come among the
events of other names.
-/
namespace Handset

open Step

/-! ### Thresholds -/

namespace Value

/-- The count has reached the threshold: the threshold is a number, and it is at most the count. -/
def ReachedBy (threshold : Value) (n : Nat) : Prop :=
  ∃ t, threshold.num? = some t ∧ t.isNaN = false ∧ t.position ≤ (Num.int n).position

theorem reachedBy_int_iff {t : Int} {n : Nat} : (int t).ReachedBy n ↔ t ≤ n := by
  simp [ReachedBy, num?, Num.isNaN, Num.position_le_position_iff]

theorem compare_ge_of_num? {v : Value} {t : Num} (h : v.num? = some t) (n : Nat) :
    compare .ge (.int n) v = .ok (t.le (.int n)) := by
  cases v with
  | bool b => cases h; rfl
  | int i => cases h; rfl
  | double d => cases h; rfl
  | _ => cases h

theorem compare_ge_eq_true_iff {v : Value} {n : Nat} :
    compare .ge (.int n) v = .ok true ↔ v.ReachedBy n := by
  cases ht : v.num? with
  | some t =>
    rw [compare_ge_of_num? ht, Except.ok.injEq, Num.le_int_iff, ReachedBy, ht]
    simp
  | none =>
    have hmismatch : compare .ge (.int n) v = .error .kindMismatch := by
      cases v with
      | bool b => cases ht
      | int i => cases ht
      | double d => cases ht
      | _ => rfl
    simp [hmismatch, ReachedBy, ht]

end Value

/-! ### Events of the compiler -/

def Callee.goesBy (id : String) (c : Callee) : Bool :=
  c.id.toOption == some id

theorem Callee.goesBy_iff {c : Callee} {id : String} : c.goesBy id = true ↔ c.id = .ok id := by
  unfold goesBy
  cases c.id <;> simp [Except.toOption]

def CacheEntry.oneMore : Option CacheEntry → CacheEntry
  | none => ⟨1, none⟩
  | some e => { e with executions := e.executions + 1 }

def Machine.withEntry (m : Machine) (id : String) (e : CacheEntry) : Machine :=
  { m with jit := { m.jit with cache := Table.put m.jit.cache id e } }

/-- What happens to the cache of the compiler: it is asked whether a method should be compiled, or a compiled form
is put into it. -/
inductive Jit.Event where
  | asked (c : Callee)
  | stored (c : Callee) (form : Compiled)

namespace Jit.Event

def callee : Event → Callee
  | asked c => c
  | stored c _ => c

/-- What the event does to the machine. -/
def act : Event → Act Unit
  | asked c => do
    let _ ← Act.shouldCompile c
  | stored c form => Act.setCompiled c form

def update : Event → Option CacheEntry → CacheEntry
  | asked _, e => .oneMore e
  | stored _ form, _ => ⟨1, some form⟩

def isQuestion : Event → Bool
  | asked _ => true
  | stored _ _ => false

/-- Is the compiler asked about a method of this name? -/
def asksFor (id : String) (e : Event) : Bool :=
  e.callee.goesBy id && e.isQuestion

/-- The machine after events in turn, which go on after failures. -/
def afterAll (events : List Event) (m : Machine) : Machine :=
  events.foldl (fun m e => (e.act.on m).2) m

end Jit.Event

namespace Act

variable {m : Machine} {c : Callee} {id : String}

theorem state_shouldCompile (hid : c.id = .ok id) :
    ((shouldCompile c).on m).2 = m.withEntry id (.oneMore (Table.find? m.jit.cache id)) := by
  cases hentry : Table.find? m.jit.cache id with
  | none => rw [on_shouldCompile_of_no_entry hid hentry]; rfl
  | some e => rw [on_shouldCompile_of_entry hid hentry]; rfl

end Act

namespace Jit.Event

variable {m : Machine} {id : String}

theorem on_act_of_id {e : Event} (hid : e.callee.id = .ok id) :
    (e.act.on m).2 = m.withEntry id (e.update (Table.find? m.jit.cache id)) := by
  cases e with
  | asked c =>
    have hcount : ((Act.shouldCompile c).on m).2 = _ := Act.state_shouldCompile hid
    refine (holds_bind (P := fun s => s = _) hcount fun _ => (quiet_pure _).keeps)
  | stored c form =>
    have hid : c.id = .ok id := hid
    simp only [act, Act.setCompiled, on_bind, on_lift, hid, on_modify]
    rfl

/-- A method that has no name is not known to the compiler. -/
theorem on_act_of_error {e : Event} {fault : Fault} (hid : e.callee.id = .error fault) :
    (e.act.on m).2 = m := by
  cases e with
  | asked c =>
    have hid : c.id = .error fault := hid
    simp only [act, Act.shouldCompile, on_bind, on_lift, hid]
  | stored c form =>
    have hid : c.id = .error fault := hid
    simp only [act, Act.setCompiled, on_bind, on_lift, hid]

/-- An event changes the entry of its own name only. -/
theorem entry_act (e : Event) (m : Machine) (id : String) :
    Table.find? (e.act.on m).2.jit.cache id =
      if e.callee.goesBy id then some (e.update (Table.find? m.jit.cache id)) else Table.find? m.jit.cache id := by
  cases hid : e.callee.id with
  | error fault =>
    have hother : ¬ e.callee.goesBy id = true := by
      rw [Callee.goesBy_iff, hid]
      intro h
      cases h
    rw [on_act_of_error hid, if_neg hother]
  | ok own =>
    rw [on_act_of_id hid, Machine.withEntry, Table.find?_put]
    by_cases hown : own = id
    · subst hown
      rw [if_pos (beq_self_eq_true own), if_pos (Callee.goesBy_iff.mpr hid)]
    · have hother : ¬ e.callee.goesBy id = true := by
        rw [Callee.goesBy_iff, hid]
        exact fun h => hown (Except.ok.inj h)
      rw [if_neg (by rwa [beq_iff_eq]), if_neg hother]

theorem threshold_act (e : Event) (m : Machine) : (e.act.on m).2.jit.threshold = m.jit.threshold := by
  cases hid : e.callee.id with
  | error fault => rw [on_act_of_error hid]
  | ok own => rw [on_act_of_id hid]; rfl

theorem threshold_afterAll (events : List Event) (m : Machine) :
    (afterAll events m).jit.threshold = m.jit.threshold := by
  induction events generalizing m with
  | nil => rfl
  | cons e rest ih => exact (ih _).trans (threshold_act e m)

/-- The entry that events of its own name leave. -/
def entryAfter (own : List Event) (e? : Option CacheEntry) : Option CacheEntry :=
  own.foldl (fun e? e => some (e.update e?)) e?

/-- The events of other names make no difference to an entry. -/
theorem entry_afterAll (events : List Event) (m : Machine) (id : String) :
    Table.find? (afterAll events m).jit.cache id =
      entryAfter (events.filter (·.callee.goesBy id)) (Table.find? m.jit.cache id) := by
  induction events generalizing m with
  | nil => rfl
  | cons e rest ih =>
    refine (ih _).trans ?_
    rw [entry_act, List.filter_cons]
    split <;> rfl

theorem entryAfter_questions {own : List Event} (h : ∀ e ∈ own, e.isQuestion = true) (n : Nat) :
    entryAfter own (if n = 0 then none else some ⟨n, none⟩) =
      if n + own.length = 0 then none else some ⟨n + own.length, none⟩ := by
  induction own generalizing n with
  | nil => rfl
  | cons e rest ih =>
    have hrest := ih (fun e' he' => h e' (List.mem_cons_of_mem _ he')) (n + 1)
    have hupdate : some (e.update (if n = 0 then none else some ⟨n, none⟩)) =
        if n + 1 = 0 then none else some ⟨n + 1, none⟩ := by
      cases e with
      | asked c => cases n <;> rfl
      | stored c form => cases h _ List.mem_cons_self
    rw [entryAfter, List.foldl_cons, hupdate, List.length_cons, Nat.add_comm rest.length, ← Nat.add_assoc]
    exact hrest

/-- An entry has a compiled form exactly if it had one or one was stored. -/
theorem compiled_entryAfter (own : List Event) (e? : Option CacheEntry) :
    (entryAfter own e?).bind (·.compiled) = none ↔
      e?.bind (·.compiled) = none ∧ ∀ e ∈ own, e.isQuestion = true := by
  induction own generalizing e? with
  | nil => simp [entryAfter]
  | cons e rest ih =>
    refine (ih (some (e.update e?))).trans ?_
    cases e with
    | asked c => cases e? <;> simp [update, CacheEntry.oneMore, isQuestion]
    | stored c form => simp [update, isQuestion]

variable {c : Callee} {events : List Event}

/-- The answer is yes exactly if there is an entry that has no compiled form and whose count is about to reach the
threshold. -/
theorem answer_eq_true_iff (hid : c.id = .ok id) :
    ((Act.shouldCompile c).on m).1 = .ok true ↔
      ∃ e, Table.find? m.jit.cache id = some e ∧ m.jit.threshold.ReachedBy (e.executions + 1) ∧
        e.compiled = none := by
  cases hentry : Table.find? m.jit.cache id with
  | none =>
    rw [Act.on_shouldCompile_of_no_entry hid hentry]
    simp
  | some e =>
    rw [Act.on_shouldCompile_of_entry hid hentry]
    simp only [Option.some.injEq, exists_eq_left', ← Value.compare_ge_eq_true_iff]
    cases Value.compare .ge (.int (e.executions + 1 : Nat)) m.jit.threshold <;> simp [Except.map]

theorem exists_answer (hid : c.id = .ok id) (hnumber : m.jit.threshold.num?.isSome) :
    ∃ due, ((Act.shouldCompile c).on m).1 = .ok due := by
  cases hentry : Table.find? m.jit.cache id with
  | none => exact ⟨false, by rw [Act.on_shouldCompile_of_no_entry hid hentry]⟩
  | some e =>
    obtain ⟨often, hoften⟩ := Value.exists_compare_ge hnumber (e.executions + 1)
    exact ⟨often && e.compiled.isNone, by rw [Act.on_shouldCompile_of_entry hid hentry, hoften]; rfl⟩

/-- From an empty cache on, the entry of a name under which nothing is stored counts the questions about it. -/
theorem entry_of_questions (hcache : m.jit.cache = [])
    (hquestions : ∀ e ∈ events, e.callee.goesBy id = true → e.isQuestion = true) :
    Table.find? (afterAll events m).jit.cache id =
      if events.countP (asksFor id) = 0 then none else some ⟨events.countP (asksFor id), none⟩ := by
  have hlength : (events.filter (·.callee.goesBy id)).length = events.countP (asksFor id) := by
    rw [List.countP_eq_length_filter]
    refine congrArg List.length (List.filter_congr fun e he => ?_)
    cases hown : e.callee.goesBy id with
    | true => simp [asksFor, hown, hquestions e he hown]
    | false => simp [asksFor, hown]
  have hown : ∀ e ∈ events.filter (·.callee.goesBy id), e.isQuestion = true := fun e he =>
    hquestions e (List.mem_filter.mp he).1 (List.mem_filter.mp he).2
  have hcount := entryAfter_questions hown 0
  rw [entry_afterAll, hcache, ← hlength]
  rwa [Nat.zero_add] at hcount

/-- A form that was stored stays. -/
theorem exists_form_of_stored
    (hstored : ¬ ∀ e ∈ events, e.callee.goesBy id = true → e.isQuestion = true) :
    ∃ n form, Table.find? (afterAll events m).jit.cache id = some ⟨n, some form⟩ := by
  have hform : (Table.find? (afterAll events m).jit.cache id).bind (·.compiled) ≠ none := by
    rw [entry_afterAll, Ne, compiled_entryAfter]
    exact fun h => hstored fun e he hown => h.2 e (List.mem_filter.mpr ⟨he, hown⟩)
  cases hentry : Table.find? (afterAll events m).jit.cache id with
  | none => exact absurd (by rw [hentry]; rfl) hform
  | some e =>
    obtain ⟨n, _ | form⟩ := e
    · exact absurd (by rw [hentry]; rfl) hform
    · exact ⟨n, form, rfl⟩

/-- Whatever the threshold is, from an empty cache on the entry of a name counts the questions about it as long as no
compiled form is stored under it; what happens under other names does not matter. The next question about it is
answered with yes exactly if it is not the first one, the count of questions, this one included, has reached the
threshold, and no compiled form stands in the entry. It is always answered if the threshold is a number. -/
theorem questions_are_counted (m : Machine) (hcache : m.jit.cache = []) (events : List Event) (id : String) :
    ((∀ e ∈ events, e.callee.goesBy id = true → e.isQuestion = true) →
      Table.find? (afterAll events m).jit.cache id =
        if events.countP (asksFor id) = 0 then none else some ⟨events.countP (asksFor id), none⟩) ∧
    ∀ c : Callee, c.id = .ok id →
      (((Act.shouldCompile c).on (afterAll events m)).1 = .ok true ↔
        2 ≤ events.countP (asksFor id) + 1 ∧
        m.jit.threshold.ReachedBy (events.countP (asksFor id) + 1) ∧
        (Table.find? (afterAll events m).jit.cache id).bind (·.compiled) = none) ∧
      (m.jit.threshold.num?.isSome → ∃ due, ((Act.shouldCompile c).on (afterAll events m)).1 = .ok due) := by
  refine ⟨entry_of_questions hcache, fun c hid => ⟨?_, fun hnumber => ?_⟩⟩
  · rw [answer_eq_true_iff hid, threshold_afterAll]
    by_cases hquestions : ∀ e ∈ events, e.callee.goesBy id = true → e.isQuestion = true
    · rw [entry_of_questions hcache hquestions]
      generalize events.countP (asksFor id) = n
      cases n with
      | zero => simp
      | succ n => simp
    · obtain ⟨n, form, hentry⟩ := exists_form_of_stored (m := m) hquestions
      rw [hentry]
      simp
  · exact exists_answer hid (by rwa [threshold_afterAll])

/-- The method `go` of a class. -/
def goOf (className : String) : Callee :=
  ⟨.object [("class_name", .text className), ("name", .text "go")]⟩

/-- Questions about two methods in turn, one of which gets a compiled form in between. -/
def mixedEvents : List Event :=
  [asked (goOf "LA;"), asked (goOf "LB;"), asked (goOf "LA;"), stored (goOf "LB;") ⟨false⟩, asked (goOf "LB;")]

/-- A machine whose compiler is asked to compile from the third execution on. -/
def patientMachine : Machine where
  jit := { threshold := .int 3 }

/-- The third question about a method is answered with yes, whatever was asked and stored about the other. -/
theorem mixedEvents_are_counted :
    patientMachine.jit.cache = [] ∧ (goOf "LA;").id = .ok "LA;.go" ∧
      Table.find? (afterAll mixedEvents patientMachine).jit.cache "LA;.go" = some ⟨2, none⟩ ∧
      ((Act.shouldCompile (goOf "LA;")).on (afterAll mixedEvents patientMachine)).1 = .ok true := by
  have hid : (goOf "LA;").id = .ok "LA;.go" := eq_ok_of_toOption (by decide +kernel)
  have hcount : mixedEvents.countP (asksFor "LA;.go") = 2 := by decide +kernel
  obtain ⟨hentry, hanswer⟩ := questions_are_counted patientMachine rfl mixedEvents "LA;.go"
  have hentry := hentry (by decide +kernel)
  rw [hcount, if_neg (by decide)] at hentry
  refine ⟨rfl, hid, hentry, (hanswer _ hid).1.mpr ⟨?_, ?_, by rw [hentry]; rfl⟩⟩
  · rw [hcount]; decide
  · rw [hcount]; exact Value.reachedBy_int_iff.mpr (by decide)

end Jit.Event

end Handset
