import Handset.Proofs.Machine.Detachment

/-!
# The compiler does not show

The compiler counts calls and, from its threshold on, is asked for a compiled form at every call. It has
none to give: a method of an image is never compiled, so every call ends in the interpreter. Since
interpretation does not see the compiler, a sequence of calls leaves the machine that interpretation alone
leaves, but for the counts and the log.
-/
namespace Handset

open Step

/-- Nothing is compiled, no compiled form stands ready, and the threshold is a number. -/
structure Jit.Idle (jit : Jit) : Prop where
  stand : jit.stand = none
  threshold : jit.threshold.num?.isSome
  uncompiled : ∀ entry ∈ jit.cache, entry.2.compiled = none

theorem Value.exists_compare_ge {v : Value} (h : v.num?.isSome) (n : Nat) :
    ∃ often, Value.compare .ge (.int n) v = .ok often := by
  cases v with
  | bool b => exact ⟨_, rfl⟩
  | int i => exact ⟨_, rfl⟩
  | double d => exact ⟨_, rfl⟩
  | _ => cases h

theorem Callee.exists_id (method : Dex.Method) : ∃ id, (Callee.ofMethod method).id = .ok id := ⟨_, rfl⟩

theorem Callee.written_name (method : Dex.Method) :
    (Callee.ofMethod method).name >>= Value.written = .ok method.name := rfl

theorem Callee.codeOffset_ofMethod (method : Dex.Method) :
    (Callee.ofMethod method).codeOffset = .ok (.int method.codeOffset) := rfl

namespace Act

variable {m : Machine}

theorem on_shouldCompile (h : m.jit.Idle) (method : Dex.Method) :
    ∃ often cache, ({ m.jit with cache } : Jit).Idle ∧
      (shouldCompile (.ofMethod method)).on m = (.ok often, { m with jit := { m.jit with cache } }) := by
  have huncompiled (id : String) (e : CacheEntry) (he : e.compiled = none) :
      ({ m.jit with cache := Table.put m.jit.cache id e } : Jit).Idle := by
    refine ⟨h.stand, h.threshold, fun entry hentry => ?_⟩
    rcases Table.eq_or_mem_of_mem_put hentry with rfl | hold
    · exact he
    · exact h.uncompiled entry hold
  obtain ⟨id, hid⟩ := Callee.exists_id method
  simp only [shouldCompile, on_bind, on_lift, hid, on_get]
  cases hfound : Table.find? m.jit.cache id with
  | none => exact ⟨false, _, huncompiled id ⟨1, none⟩ rfl, rfl⟩
  | some e =>
    have he : e.compiled = none := h.uncompiled _ (Table.mem_of_find? hfound)
    obtain ⟨often, hoften⟩ := Value.exists_compare_ge h.threshold (e.executions + 1)
    refine ⟨often && e.compiled.isNone, _, huncompiled id { e with executions := e.executions + 1 } he, ?_⟩
    simp only [on_bind, on_set, on_lift, hoften]
    rfl

theorem on_compile (h : m.jit.stand = none) (method : Dex.Method) :
    ∃ log, (compile (.ofMethod method) none).on m = (.ok none, { m with log }) := by
  have hends : Ends m (compile (.ofMethod method) none) fun r s =>
      r = .ok none ∧ ∃ log, s = { m with log } := by
    obtain ⟨id, hid⟩ := Callee.exists_id method
    unfold compile
    refine ends_get_bind ?_
    rw [h]
    refine ends_lift_bind_of_ok hid (ends_lift_bind_of_ok (Callee.written_name method) ?_)
    refine ends_report_bind fun log => ends_lift_bind_of_ok (Callee.codeOffset_ofMethod method) ?_
    split <;> exact ends_report_bind fun log => ⟨rfl, log, rfl⟩
  obtain ⟨hanswer, log, hstate⟩ := hends
  exact ⟨log, Prod.ext hanswer hstate⟩

/-- A call counts, may ask the compiler, and interprets. -/
theorem on_call (h : m.jit.Idle) (pools : Pools) (code? : Key → Option Dex.CodeItem)
    (method : Dex.Method) :
    ∃ cache log, ({ m.jit with cache } : Jit).Idle ∧ (call pools code? (.ofMethod method)).on m =
      (interpret pools code? (.ofMethod method)).on (m.attach { m.jit with cache } log) := by
  obtain ⟨often, cache, hidle, hcount⟩ := on_shouldCompile h method
  unfold call
  rw [on_bind_ok hcount]
  cases often with
  | false => exact ⟨cache, m.log, hidle, rfl⟩
  | true =>
    obtain ⟨log, hcompile⟩ := on_compile (m := { m with jit := { m.jit with cache } }) h.stand method
    rw [if_pos rfl, on_bind_ok hcompile]
    exact ⟨cache, log, hidle, rfl⟩

/-- Reading an image writes to the log and does not fail: it tells how far it came. -/
theorem on_readImage (d : Bytes) (m : Machine) :
    ∃ log, (readImage d).on m = (.ok (Dex.parse d), { m with log }) := ⟨_, rfl⟩

/-- The method that a reading has as its entry: of an image that was read to the end, the first entry
method, if its class is defined. -/
def entryOf? : Dex.Partial Dex.Image → Option (Dex.Image × Dex.Method)
  | (_, some _) => none
  | (image, none) => do
    let method ← image.mainMethod?
    let _ ← image.classNamed? method.className
    pure (image, method)

/-- A call from outside: of a method of an image, or of the entry of an image. -/
inductive Call where
  | direct (image : Dex.Image) (method : Dex.Method)
  | entry (d : Bytes)

namespace Call

/-- The method that is called, with its image. -/
def called? : Call → Option (Dex.Image × Dex.Method)
  | direct image method => some (image, method)
  | entry d => entryOf? (Dex.parse d)

def make : Call → Act Unit
  | direct image method => callIn image (.ofMethod method)
  | entry d => runMain d

/-- What the call does without a compiler: it interprets the method. -/
def interpreted (c : Call) : Act Unit :=
  match c.called? with
  | some (image, method) => interpret (poolsOf image) (codeAt? image) (.ofMethod method)
  | none => pure ()

/-- The machine after calls in turn, which go on after failures. -/
def afterAll (calls : List Call) (m : Machine) : Machine :=
  calls.foldl (fun m c => (c.make.on m).2) m

/-- The machine after the methods have been interpreted in turn. -/
def interpretedAll (calls : List Call) (m : Machine) : Machine :=
  calls.foldl (fun m c => (c.interpreted.on m).2) m

theorem detached_interpreted (c : Call) : Detached c.interpreted := by
  unfold interpreted
  split
  · exact detached_interpret _ _ _
  · exact detached_pure _

theorem on_make (c : Call) (m : Machine) :
    ∃ log, c.make.on m = match c.called? with
      | some (image, method) => (callIn image (.ofMethod method)).on { m with log }
      | none => (.ok (), { m with log }) := by
  cases c with
  | direct image method => exact ⟨m.log, rfl⟩
  | entry d =>
    obtain ⟨log, hread⟩ := on_readImage d m
    simp only [make, called?, runMain]
    rw [on_bind_ok hread]
    rcases Dex.parse d with ⟨image, fault⟩
    cases fault with
    | some e => exact ⟨_, rfl⟩
    | none =>
      simp only [entryOf?]
      cases image.mainMethod? with
      | none => exact ⟨_, rfl⟩
      | some method =>
        dsimp only [bind, Option.bind]
        cases image.classNamed? method.className with
        | none => exact ⟨_, rfl⟩
        | some definition => exact ⟨_, rfl⟩

theorem make_eq_interpreted {m : Machine} (h : m.jit.Idle) (c : Call) :
    ∃ cache log, ({ m.jit with cache } : Jit).Idle ∧
      c.make.on m = ((c.interpreted.on m).1, (c.interpreted.on m).2.attach { m.jit with cache } log) := by
  obtain ⟨log, hmake⟩ := on_make c m
  unfold interpreted
  cases hcalled : c.called? with
  | none =>
    rw [hmake, hcalled]
    exact ⟨m.jit.cache, log, h, rfl⟩
  | some target =>
    obtain ⟨image, method⟩ := target
    have hstart : ({ m with log } : Machine).jit.Idle := h
    obtain ⟨cache, log₁, hidle, hcall⟩ := on_call hstart (poolsOf image) (codeAt? image) method
    obtain ⟨log₂, hon⟩ :=
      detached_interpret (poolsOf image) (codeAt? image) (.ofMethod method) m { m.jit with cache } log₁
    rw [hmake, hcalled]
    exact ⟨cache, log₂, hidle, hcall.trans hon⟩

/-- Along a sequence of calls the machine is the one that interpretation leaves, but for the counts and
the log. -/
theorem afterAll_eq_interpretedAll {m n : Machine} (h : m.jit.Idle) {log : Log} (hm : m = n.attach m.jit log)
    (calls : List Call) :
    ∃ cache log, ({ m.jit with cache } : Jit).Idle ∧
      afterAll calls m = (interpretedAll calls n).attach { m.jit with cache } log := by
  induction calls generalizing m n log with
  | nil => exact ⟨m.jit.cache, log, h, hm⟩
  | cons c rest ih =>
    obtain ⟨cache, log₁, hidle, hmake⟩ := make_eq_interpreted h c
    obtain ⟨log₂, hon⟩ := c.detached_interpreted n m.jit log
    rw [← hm] at hon
    -- the call sees another compiler than interpretation does, and leaves the same machine
    have hnext : (c.make.on m).2 = (c.interpreted.on n).2.attach { m.jit with cache } log₁ := by
      rw [hmake, hon]
      rfl
    have hjit : (c.make.on m).2.jit = { m.jit with cache } := by rw [hnext]; rfl
    obtain ⟨cache', log', hidle', hrest⟩ := ih (hjit ▸ hidle) (hjit ▸ hnext)
    rw [hjit] at hidle' hrest
    exact ⟨cache', log', hidle', hrest⟩

/-- From an empty cache on, whatever the threshold is and whichever methods are called how often, nothing
is ever compiled, and the machine is the one that interpretation alone leaves, but for the cache and the
log. Each further call has the outcome that interpretation of the method has there and leaves the same
machine, again but for the cache and the log. -/
theorem calls_are_interpreted (m : Machine) (hcache : m.jit.cache = []) (hstand : m.jit.stand = none)
    (hthreshold : m.jit.threshold.num?.isSome) (calls : List Call) :
    (∃ cache log, (∀ entry ∈ cache, entry.2.compiled = none) ∧
      afterAll calls m = (interpretedAll calls m).attach { m.jit with cache } log) ∧
    ∀ c : Call, ∃ cache log, (∀ entry ∈ cache, entry.2.compiled = none) ∧
      c.make.on (afterAll calls m) =
        ((c.interpreted.on (afterAll calls m)).1,
          (c.interpreted.on (afterAll calls m)).2.attach { m.jit with cache } log) := by
  have hidle : m.jit.Idle := ⟨hstand, hthreshold, by simp [hcache]⟩
  obtain ⟨cache, log, hidle', hafter⟩ := afterAll_eq_interpretedAll hidle (rfl : m = m.attach m.jit m.log) calls
  have hjit : (afterAll calls m).jit = { m.jit with cache } := by
    rw [hafter]
    rfl
  refine ⟨⟨cache, log, hidle'.uncompiled, hafter⟩, fun c => ?_⟩
  obtain ⟨cache', log', hidle'', hmake⟩ := make_eq_interpreted (hjit ▸ hidle') c
  rw [hjit] at hidle'' hmake
  exact ⟨cache', log', hidle''.uncompiled, hmake⟩

/-- A method that makes an object and throws it. -/
def throwingImage : Dex.Image where
  types := #["LA;"]
  methods := #[⟨0, "LA;", 0, 0, "run", ⟨"V", "V", #[]⟩, 1⟩]
  code := [(1, ⟨3, 0, 0, 0, #[⟨0x22, 0, 0⟩, ⟨0xF0, 0, 0⟩, ⟨0x27, 0, 4⟩], #[]⟩)]

/-- A machine whose compiler is asked at the second call. -/
def eagerMachine : Machine where
  callStack := some (.list [])
  jit := { threshold := .int 2 }
  services := some { code := #[0, 0, 0, 0, 0, 0, 0, 0] }

theorem calls_of_throwingImage_interpreted :
    eagerMachine.jit.cache = [] ∧ eagerMachine.jit.stand = none ∧
    eagerMachine.jit.threshold.num?.isSome ∧
    ∃ method ∈ throwingImage.methods, ∃ cache log, (∀ entry ∈ cache, entry.2.compiled = none) ∧
      afterAll (List.replicate 5 (.direct throwingImage method) ++ [.entry #[1, 2, 3]]) eagerMachine =
        (interpretedAll (List.replicate 5 (.direct throwingImage method) ++ [.entry #[1, 2, 3]])
          eagerMachine).attach { eagerMachine.jit with cache } log := by
  refine ⟨rfl, rfl, rfl, _, Array.mem_singleton_self _, ?_⟩
  exact (calls_are_interpreted eagerMachine rfl rfl rfl _).1

end Call

end Act

end Handset
