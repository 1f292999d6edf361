import Handset.Proofs.Machine.CompilerTransparency

/-!
# Compiled forms are not run again

A call counts, asks whether the method should be compiled now, and runs a compiled form only if the answer
is yes. Once a form is in the cache the answer is no: every later call of the method counts and interprets,
while the form stays in the cache.
-/
namespace Handset

open Step

def Machine.counted (m : Machine) (id : String) (e : CacheEntry) : Machine :=
  { m with jit := { m.jit with
      cache := Table.put m.jit.cache id { e with executions := e.executions + 1 } } }

namespace Act

variable {m : Machine} {c : Callee} {id : String} {e : CacheEntry} {form : Compiled}

/-- Counting a method that has an entry. The compiler is asked only for what it has not compiled. -/
theorem on_shouldCompile_of_entry (hid : c.id = .ok id) (hentry : Table.find? m.jit.cache id = some e) :
    (shouldCompile c).on m =
      ((Value.compare .ge (.int (e.executions + 1 : Nat)) m.jit.threshold).map (· && e.compiled.isNone),
        m.counted id e) := by
  simp only [shouldCompile, on_bind, on_lift, hid, on_get, hentry, on_set]
  cases Value.compare .ge (.int (e.executions + 1 : Nat)) m.jit.threshold <;> rfl

theorem on_shouldCompile_of_no_entry (hid : c.id = .ok id) (hentry : Table.find? m.jit.cache id = none) :
    (shouldCompile c).on m =
      (.ok false, { m with jit := { m.jit with cache := Table.put m.jit.cache id ⟨1, none⟩ } }) := by
  simp only [shouldCompile, on_bind, on_lift, hid, on_get, hentry, on_set, on_pure]

theorem on_call_of_compiled (pools : Pools) (code? : Key → Option Dex.CodeItem) (hid : c.id = .ok id)
    (hentry : Table.find? m.jit.cache id = some e) (hform : e.compiled = some form) :
    (call pools code? c).on m =
      match Value.compare .ge (.int (e.executions + 1 : Nat)) m.jit.threshold with
      | .ok _ => (interpret pools code? c).on (m.counted id e)
      | .error fault => (.error fault, m.counted id e) := by
  have hcount := on_shouldCompile_of_entry hid hentry
  unfold call
  cases hoften : Value.compare .ge (.int (e.executions + 1 : Nat)) m.jit.threshold with
  | ok often =>
    have hno : (often && e.compiled.isNone) = false := by simp [hform]
    rw [hoften] at hcount
    rw [on_bind_ok (a := false) (by rw [hcount, Except.map, hno])]
    rfl
  | error fault =>
    rw [hoften] at hcount
    exact on_bind_error hcount _

theorem jit_interpret (pools : Pools) (code? : Key → Option Dex.CodeItem) (c : Callee) (m : Machine) :
    ((interpret pools code? c).on m).2.jit = m.jit := by
  obtain ⟨log, hon⟩ := detached_interpret pools code? c m m.jit m.log
  have hsame : m.attach m.jit m.log = m := rfl
  rw [hsame] at hon
  exact congrArg (fun r => r.2.jit) hon

/-- Running a compiled form keeps all of the compiler that does not depend on which compiled methods ran. -/
theorem keeps_runCompiled {P : Jit → Prop} (c : Callee) (hran : ∀ jit ran, P jit → P { jit with ran }) :
    Keeps (fun m => P m.jit) (runCompiled c) := by
  have hreport (level : Level) (text : String) :
      Keeps (fun m => P m.jit) (report level text : Act Unit) := keeps_report (fun _ _ hm => hm) level text
  refine keeps_bind (quiet_lift _).keeps fun id => keeps_bind quiet_get.keeps fun m => ?_
  split
  · refine keeps_bind (quiet_lift _).keeps fun _ => keeps_bind (quiet_lift _).keeps fun _ =>
      keeps_bind (hreport _ _) fun _ => ?_
    split
    · exact (quiet_throw _).keeps
    · exact keeps_modify fun m hm => hran m.jit _ hm
  · exact keeps_bind (quiet_lift _).keeps fun _ => hreport _ _

/-- What a call keeps of the compiler: all that depends neither on the entry of the method nor on which
compiled methods ran. -/
theorem keeps_call {P : Jit → Prop} (pools : Pools) (code? : Key → Option Dex.CodeItem) (c : Callee)
    (hcache : ∀ jit id e, c.id = .ok id → P jit → P { jit with cache := Table.put jit.cache id e })
    (hran : ∀ jit ran, P jit → P { jit with ran }) : Keeps (fun m => P m.jit) (call pools code? c) := by
  have hcount : Keeps (fun m => P m.jit) (shouldCompile c) := by
    intro m hm
    cases hid : c.id with
    | error fault => simpa [shouldCompile, on_bind, hid] using hm
    | ok id =>
      cases hentry : Table.find? m.jit.cache id with
      | none =>
        rw [on_shouldCompile_of_no_entry hid hentry]
        exact hcache m.jit id _ hid hm
      | some e =>
        rw [on_shouldCompile_of_entry hid hentry]
        exact hcache m.jit id _ hid hm
  have hinterpret : Keeps (fun m => P m.jit) (interpret pools code? c) := by
    intro m hm
    rwa [jit_interpret]
  have hreport (level : Level) (text : String) :
      Keeps (fun m => P m.jit) (report level text : Act Unit) := keeps_report (fun _ _ hm => hm) level text
  have hcompile : Keeps (fun m => P m.jit) (compile c none) := by
    refine keeps_bind quiet_get.keeps fun m => ?_
    cases m.jit.stand with
    | some form =>
      refine keeps_bind (fun m hm => ?_) fun _ => (quiet_pure _).keeps
      cases hid : c.id with
      | error fault => simpa [setCompiled, on_bind, hid] using hm
      | ok id =>
        simp only [setCompiled, hid, on_bind, on_lift, on_modify]
        exact hcache m.jit id _ hid hm
    | none =>
      refine keeps_bind (quiet_lift _).keeps fun _ => keeps_bind (quiet_lift _).keeps fun _ =>
        keeps_bind (hreport _ _) fun _ => keeps_bind (quiet_lift _).keeps fun _ => ?_
      split <;> exact keeps_bind (hreport _ _) fun _ => (quiet_pure _).keeps
  refine keeps_bind hcount fun due => ?_
  split
  · refine keeps_bind hcompile fun compiled => ?_
    split
    · exact keeps_runCompiled c hran
    · exact hinterpret
  · exact hinterpret

end Act

/-- A call of a method, with the names and the code that it refers to. -/
structure Invocation where
  pools : Pools
  code? : Key → Option Dex.CodeItem
  callee : Callee

namespace Invocation

variable {m : Machine} {id : String} {e : CacheEntry} {form : Compiled}

def make (c : Invocation) : Act Unit :=
  Act.call c.pools c.code? c.callee

/-- What the call does if the method is interpreted. -/
def interpreted (c : Invocation) : Act Unit :=
  Act.interpret c.pools c.code? c.callee

def isOf (id : String) (c : Invocation) : Bool :=
  c.callee.id.toOption == some id

/-- The machine after calls in turn, which go on after failures. -/
def afterAll (calls : List Invocation) (m : Machine) : Machine :=
  calls.foldl (fun m c => (c.make.on m).2) m

theorem isOf_iff {c : Invocation} : c.isOf id = true ↔ c.callee.id = .ok id := by
  unfold isOf
  cases c.callee.id <;> simp [Except.toOption]

theorem threshold_make (c : Invocation) (m : Machine) :
    (c.make.on m).2.jit.threshold = m.jit.threshold :=
  Act.keeps_call (P := fun jit => jit.threshold = m.jit.threshold) c.pools c.code? c.callee
    (fun _ _ _ _ h => h) (fun _ _ h => h) m rfl

/-- An entry with a compiled form stays and counts the calls of its method, failing ones included. -/
theorem entry_make (hentry : Table.find? m.jit.cache id = some e) (hform : e.compiled = some form)
    (c : Invocation) :
    Table.find? (c.make.on m).2.jit.cache id =
      some ⟨e.executions + (if c.isOf id then 1 else 0), some form⟩ := by
  cases hof : c.isOf id with
  | true =>
    have hid := isOf_iff.mp hof
    have hcounted : Table.find? (m.counted id e).jit.cache id = some ⟨e.executions + 1, some form⟩ := by
      simp [Machine.counted, Table.find?_put, hform]
    rw [make, Act.on_call_of_compiled c.pools c.code? hid hentry hform]
    cases Value.compare .ge (.int (e.executions + 1 : Nat)) m.jit.threshold with
    | ok often =>
      dsimp only
      rwa [Act.jit_interpret]
    | error fault => exact hcounted
  | false =>
    have hother : Table.find? (c.make.on m).2.jit.cache id = some e := by
      refine Act.keeps_call (P := fun jit => Table.find? jit.cache id = some e) c.pools c.code? c.callee
        (fun jit other e' hother h => ?_) (fun _ _ h => h) m hentry
      have hne : (other == id) = false := by
        rw [beq_eq_false_iff_ne]
        rintro rfl
        rw [isOf_iff.mpr hother] at hof
        cases hof
      rw [Table.find?_put, hne]
      exact h
    rw [hother, ← hform]
    rfl

theorem entry_afterAll (hentry : Table.find? m.jit.cache id = some e) (hform : e.compiled = some form)
    (calls : List Invocation) :
    Table.find? (afterAll calls m).jit.cache id =
        some ⟨e.executions + calls.countP (isOf id), some form⟩ ∧
      (afterAll calls m).jit.threshold = m.jit.threshold := by
  induction calls generalizing m e with
  | nil =>
    refine ⟨hentry.trans ?_, rfl⟩
    rw [← hform]
    rfl
  | cons c rest ih =>
    obtain ⟨hrest, hthreshold⟩ := ih (entry_make hentry hform c) rfl
    refine ⟨hrest.trans ?_, hthreshold.trans (threshold_make c m)⟩
    rw [List.countP_cons, Nat.add_comm (rest.countP _), Nat.add_assoc]

/-- A compiled form is not run again. Whatever is called after a form has come into the cache, the next
call of its method has the outcome of interpretation and leaves the machine that interpretation leaves;
of the compiler it changes only the count, and the compiled form is not among what ran. -/
theorem compiled_method_is_interpreted (hentry : Table.find? m.jit.cache id = some e)
    (hform : e.compiled = some form) (hthreshold : m.jit.threshold.num?.isSome)
    (calls : List Invocation) {last : Invocation} (hlast : last.callee.id = .ok id) :
    ∃ log, last.make.on (afterAll calls m) =
      ((last.interpreted.on (afterAll calls m)).1,
        (last.interpreted.on (afterAll calls m)).2.attach
          { (afterAll calls m).jit with
            cache := Table.put (afterAll calls m).jit.cache id
              ⟨e.executions + calls.countP (isOf id) + 1, some form⟩ } log) := by
  obtain ⟨hstored, hsame⟩ := entry_afterAll hentry hform calls
  generalize afterAll calls m = s at hstored hsame ⊢
  obtain ⟨often, hoften⟩ := Value.exists_compare_ge (hsame ▸ hthreshold)
    (e.executions + calls.countP (isOf id) + 1)
  have hcall := Act.on_call_of_compiled last.pools last.code? hlast hstored rfl
  rw [hoften] at hcall
  obtain ⟨log, hon⟩ := Act.detached_interpret last.pools last.code? last.callee s
    (s.counted id ⟨e.executions + calls.countP (isOf id), some form⟩).jit s.log
  exact ⟨log, hcall.trans hon⟩

/-- A call of a method without code. -/
def idleCall : Invocation where
  pools := {}
  code? := fun _ => none
  callee := ⟨.object [("class_name", .text "LM;"), ("name", .text "go"), ("code_off", .int 0)]⟩

/-- A machine whose compiler succeeds and is asked at the second call, after that call. -/
def compiledMachine : Machine :=
  afterAll [idleCall, idleCall] { jit := { threshold := .int 2, stand := some ⟨false⟩ } }

theorem idleCall_is_interpreted :
    Table.find? compiledMachine.jit.cache "LM;.go" = some ⟨1, some ⟨false⟩⟩ ∧
    ∃ log, idleCall.make.on (afterAll [idleCall] compiledMachine) =
      ((idleCall.interpreted.on (afterAll [idleCall] compiledMachine)).1,
        (idleCall.interpreted.on (afterAll [idleCall] compiledMachine)).2.attach
          { (afterAll [idleCall] compiledMachine).jit with
            cache := Table.put (afterAll [idleCall] compiledMachine).jit.cache "LM;.go"
              ⟨3, some ⟨false⟩⟩ } log) := by
  have hentry : Table.find? compiledMachine.jit.cache "LM;.go" = some ⟨1, some ⟨false⟩⟩ := by
    decide +kernel
  have hid : idleCall.callee.id = .ok "LM;.go" := eq_ok_of_toOption (by decide +kernel)
  have hcount : 1 + [idleCall].countP (isOf "LM;.go") + 1 = 3 := by decide +kernel
  have hlast := compiled_method_is_interpreted hentry rfl (by decide +kernel) [idleCall] hid
  exact ⟨hentry, hcount ▸ hlast⟩

/-- The call after the one that had the method compiled does not run what was compiled: the interpreter
has the last word, and only one run of a compiled method is on record. -/
theorem third_idleCall_runs_nothing_compiled :
    (Table.find? compiledMachine.jit.cache "LM;.go").bind (·.compiled) = some ⟨false⟩ ∧
    compiledMachine.jit.ran.size = 1 ∧
    (idleCall.make.on compiledMachine).2.jit.ran.size = 1 ∧
    (idleCall.make.on compiledMachine).2.log.back?.map (·.text) = some "方法 go 没有代码" := by
  decide +kernel

end Invocation

end Handset
