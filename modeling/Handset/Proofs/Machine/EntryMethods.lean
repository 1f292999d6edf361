import Handset.Proofs.Dex.SampleParsing
import Handset.Proofs.Machine.CompiledForms

/-!
# Which entry method is run

The method table names methods of other images as well, so not every entry method in it belongs to a class that is
defined. A run looks for its class only after it has settled on the first entry method. If that class is not
defined, the run ends with a report, and the entry methods behind the first are not looked at.
-/
namespace Handset

namespace Dex

/-- The image defines a class of this name. -/
def Image.Defines (image : Image) (name : String) : Prop :=
  ∃ c ∈ image.classes, c.className = name

/-- The method is an entry of the image, and its class is defined there. -/
structure Image.Runnable (image : Image) (method : Method) : Prop where
  mem : method ∈ image.methods
  isMain : method.isMain = true
  defined : image.Defines method.className

/-- The method is an entry of the image, and no entry stands before it. -/
def Image.FirstMain (image : Image) (method : Method) : Prop :=
  method.isMain = true ∧ ∃ i : Nat, image.methods[i]? = some method ∧
    ∀ (j : Nat) (before : Method), j < i → image.methods[j]? = some before → before.isMain = false

variable {image : Image}

theorem Image.classNamed?_eq_none_iff {name : String} :
    image.classNamed? name = none ↔ ¬ image.Defines name := by
  simp [classNamed?, Defines, Array.find?_eq_none]

theorem Image.mainMethod?_eq_some_iff {method : Method} :
    image.mainMethod? = some method ↔ image.FirstMain method := by
  rw [mainMethod?, Array.find?_eq_some_iff_getElem, FirstMain]
  refine and_congr_right fun _ => exists_congr fun i => ?_
  rw [Array.getElem?_eq_some_iff]
  constructor
  · rintro ⟨hi, hmethod, hbefore⟩
    refine ⟨⟨hi, hmethod⟩, fun j before hj hgot => ?_⟩
    obtain ⟨_, rfl⟩ := Array.getElem?_eq_some_iff.mp hgot
    simpa using hbefore j hj
  · rintro ⟨⟨hi, hmethod⟩, hbefore⟩
    refine ⟨hi, hmethod, fun j hj => ?_⟩
    rw [hbefore j _ hj (Array.getElem?_eq_getElem (by omega))]
    rfl

theorem Image.FirstMain.runnable {method : Method} (h : image.FirstMain method)
    (hdefined : image.Defines method.className) : image.Runnable method := by
  obtain ⟨hmain, i, hi, -⟩ := h
  exact ⟨Array.mem_of_getElem? hi, hmain, hdefined⟩

theorem Image.Runnable.exists_firstMain {method : Method} (h : image.Runnable method) :
    ∃ first, image.FirstMain first := by
  obtain ⟨first, hfirst⟩ := Option.isSome_iff_exists.mp
    (Array.find?_isSome.mpr ⟨method, h.mem, h.isMain⟩ : image.mainMethod?.isSome = true)
  exact ⟨first, mainMethod?_eq_some_iff.mp hfirst⟩

end Dex

namespace Act

open Step

variable {m : Machine}

theorem on_compile_of_stand {c : Callee} {id : String} {form : Compiled} (hid : c.id = .ok id)
    (hstand : m.jit.stand = some form) (registersSize : Option Value) :
    (compile c registersSize).on m = (.ok (some form),
      { m with jit := { m.jit with cache := Table.put m.jit.cache id ⟨1, some form⟩ } }) := by
  have hset : (setCompiled c form).on m = (.ok (),
      { m with jit := { m.jit with cache := Table.put m.jit.cache id ⟨1, some form⟩ } }) := by
    simp only [setCompiled, on_bind, on_lift, hid, on_modify]
  unfold compile
  rw [on_bind_ok (on_get m), hstand, on_bind_ok hset, on_pure]

/-- Every call leaves its trace in the cache, under the name of the method. -/
theorem find?_cache_call_ne (pools : Pools) (code? : Key → Option Dex.CodeItem) {method : Dex.Method}
    {id : String} (hid : (Callee.ofMethod method).id = .ok id) :
    Table.find? ((call pools code? (.ofMethod method)).on m).2.jit.cache id ≠
      Table.find? m.jit.cache id := by
  have hput (entry : CacheEntry) (t : Table String CacheEntry) : (t.put id entry).find? id = some entry := by
    rw [Table.find?_put, beq_self_eq_true, if_pos rfl]
  unfold call
  cases hentry : Table.find? m.jit.cache id with
  | none =>
    rw [on_bind_ok (on_shouldCompile_of_no_entry hid hentry), if_neg (by decide), jit_interpret, hput]
    exact Option.some_ne_none _
  | some e =>
    have hcounted : Table.find? (m.counted id e).jit.cache id ≠ some e := by
      rw [Machine.counted, hput]
      intro hsame
      have hcount : e.executions + 1 = e.executions := congrArg CacheEntry.executions (Option.some.inj hsame)
      omega
    have hcount := on_shouldCompile_of_entry hid hentry
    cases hdue : (Value.compare .ge (.int (e.executions + 1 : Nat)) m.jit.threshold).map
        (· && e.compiled.isNone) with
    | error fault =>
      rw [hdue] at hcount
      rwa [on_bind_error hcount]
    | ok due =>
      rw [hdue] at hcount
      rw [on_bind_ok hcount]
      cases due with
      | false => rwa [if_neg (by decide), jit_interpret]
      | true =>
        rw [if_pos rfl]
        cases hstand : m.jit.stand with
        | none =>
          obtain ⟨log, hcompile⟩ := on_compile (m := m.counted id e) hstand method
          rw [on_bind_ok hcompile, jit_interpret]
          exact hcounted
        | some form =>
          -- the new entry has a compiled form, which the old one has not
          have hkeeps := keeps_runCompiled (P := fun jit => Table.find? jit.cache id = some ⟨1, some form⟩)
            (.ofMethod method) (fun _ _ h => h)
          rw [on_bind_ok (on_compile_of_stand (m := m.counted id e) hid hstand none),
            hkeeps _ (hput ⟨1, some form⟩ (m.counted id e).jit.cache)]
          intro hsame
          obtain rfl := Option.some.inj hsame
          cases hoften : Value.compare .ge (.int (1 + 1 : Nat)) m.jit.threshold with
          | error fault =>
            rw [hoften] at hdue
            cases hdue
          | ok often =>
            rw [hoften] at hdue
            exact Bool.noConfusion (Bool.and_eq_true_iff.mp (Except.ok.inj hdue)).2

/-- Running the image comes down to calling this method. -/
def Executes (d : Bytes) (m : Machine) (method : Dex.Method) : Prop :=
  ∃ log, (runMain d).on m = (callIn (Dex.parse d).1 (.ofMethod method)).on { m with log }

variable {d : Bytes} {first : Dex.Method}

/-- A run settles on the first entry method before it looks for a class. -/
theorem on_runMain (h : (Dex.parse d).2 = none) (hfirst : (Dex.parse d).1.FirstMain first) (m : Machine) :
    ∃ log, (runMain d).on m =
      match (Dex.parse d).1.classNamed? first.className with
      | none => (report .error s!"找不到主类定义: {first.className}" : Act Unit).on { m with log }
      | some _ => (callIn (Dex.parse d).1 (.ofMethod first)).on { m with log } := by
  obtain ⟨log, hread⟩ := on_readImage d m
  unfold runMain
  rw [on_bind_ok hread]
  generalize Dex.parse d = p at h hfirst ⊢
  obtain ⟨image, fault⟩ := p
  obtain rfl : fault = none := h
  dsimp only at hfirst ⊢
  rw [Dex.Image.mainMethod?_eq_some_iff.mpr hfirst]
  dsimp only
  cases image.classNamed? first.className with
  | none => exact ⟨_, rfl⟩
  | some c => exact ⟨_, rfl⟩

theorem executes_first (h : (Dex.parse d).2 = none) (hfirst : (Dex.parse d).1.FirstMain first)
    (hdefined : (Dex.parse d).1.Defines first.className) (m : Machine) : Executes d m first := by
  obtain ⟨log, hrun⟩ := on_runMain h hfirst m
  refine ⟨log, hrun.trans ?_⟩
  cases hclass : (Dex.parse d).1.classNamed? first.className with
  | none => exact absurd hdefined (Dex.Image.classNamed?_eq_none_iff.mp hclass)
  | some c => rfl

/-- A first entry method without a class is reported, and that is all. -/
theorem on_runMain_of_undefined (h : (Dex.parse d).2 = none) (hfirst : (Dex.parse d).1.FirstMain first)
    (hundefined : ¬ (Dex.parse d).1.Defines first.className) (m : Machine) :
    ∃ log : Log, (runMain d).on m =
      (.ok (), { m with log := log.add .error s!"找不到主类定义: {first.className}" }) := by
  obtain ⟨log, hrun⟩ := on_runMain h hfirst m
  rw [Dex.Image.classNamed?_eq_none_iff.mpr hundefined] at hrun
  exact ⟨log, hrun⟩

/-- What changes nothing but the log is no call. -/
theorem not_executes_of_on_runMain {log : Log} (h : (runMain d).on m = (.ok (), { m with log }))
    (method : Dex.Method) : ¬ Executes d m method := by
  rintro ⟨log', hcall⟩
  obtain ⟨id, hid⟩ := Callee.exists_id method
  refine find?_cache_call_ne (m := { m with log := log' }) (poolsOf (Dex.parse d).1)
    (codeAt? (Dex.parse d).1) hid ?_
  change Table.find? ((callIn (Dex.parse d).1 (.ofMethod method)).on { m with log := log' }).2.jit.cache id = _
  rw [← hcall, h]

/-- In an image with an entry method whose class is defined, such a method is run exactly if the class of the
first entry method is defined. Otherwise that first method is reported, and nothing else is changed. -/
theorem runnable_main_executed_iff (d : Bytes) (m : Machine) (h : (Dex.parse d).2 = none)
    (method : Dex.Method) (hmethod : (Dex.parse d).1.Runnable method) :
    ∃ first, (Dex.parse d).1.FirstMain first ∧
      ((∃ run, (Dex.parse d).1.Runnable run ∧ Executes d m run) ↔
        (Dex.parse d).1.Defines first.className) ∧
      ((Dex.parse d).1.Defines first.className → Executes d m first) ∧
      (¬ (Dex.parse d).1.Defines first.className → ∃ log : Log, (runMain d).on m =
        (.ok (), { m with log := log.add .error s!"找不到主类定义: {first.className}" })) := by
  obtain ⟨first, hfirst⟩ := hmethod.exists_firstMain
  refine ⟨first, hfirst, ⟨fun ⟨run, _, hrun⟩ => ?_, fun hdefined => ?_⟩, fun hdefined => ?_, fun hundefined => ?_⟩
  · refine Classical.byContradiction fun hundefined => ?_
    obtain ⟨log, hon⟩ := on_runMain_of_undefined h hfirst hundefined m
    exact not_executes_of_on_runMain hon run hrun
  · exact ⟨first, hfirst.runnable hdefined, executes_first h hfirst hdefined m⟩
  · exact executes_first h hfirst hdefined m
  · exact on_runMain_of_undefined h hfirst hundefined m

section

open Dex.Sample

/-- In a sample image the class of every entry method is defined, so that the first one is run. -/
theorem sample_main_executed :
    (Dex.parse (plain.image 2)).2 = none ∧
      (Dex.parse (plain.image 2)).1.Runnable (plain.methodOf (plain.codeOffset 2) 1) ∧
      ∃ run, (Dex.parse (plain.image 2)).1.Runnable run ∧ Executes (plain.image 2) {} run := by
  have hparse := Design.parse_of_placed (Design.placed_image plain 2) (by decide)
  have hnone : (Dex.parse (plain.image 2)).2 = none := congrArg Prod.snd hparse
  have hrunnable (i : Nat) (hi : i < 2) : (Dex.parse (plain.image 2)).1.Runnable
      (plain.methodOf (plain.codeOffset 2) i) := by
    rw [hparse]
    refine ⟨?_, rfl, plain.classOf 2 i, ?_, rfl⟩
    · change _ ∈ plain.methodsRead 2 2
      rw [Design.methodsRead_all]
      exact List.mem_toArray.mpr (List.mem_map_of_mem (List.mem_range.mpr hi))
    · exact List.mem_toArray.mpr (List.mem_map_of_mem (List.mem_range.mpr hi))
  obtain ⟨first, hfirst, hexecuted, -⟩ := runnable_main_executed_iff (plain.image 2) {} hnone _
    (hrunnable 1 (by decide))
  refine ⟨hnone, hrunnable 1 (by decide), hexecuted.mpr ?_⟩
  obtain ⟨-, i, hi, -⟩ := hfirst
  have hmem := Array.mem_of_getElem? hi
  rw [hparse] at hmem
  change first ∈ plain.methodsRead 2 2 at hmem
  rw [Design.methodsRead_all] at hmem
  obtain ⟨j, hj, rfl⟩ := List.mem_map.mp (List.mem_toArray.mp hmem)
  exact (hrunnable j (List.mem_range.mp hj)).defined

end

/-- An image that defines the class `LB;` with its entry method, and names the entry method of a class `LA;` before
it. -/
def shadowed : Bytes :=
  let word (n : UInt8) : List UInt8 := [n, 0, 0, 0]
  let absent : List UInt8 := List.replicate 4 255
  let definition : List UInt8 := [3, 1].flatMap word ++ absent ++ word 0 ++ absent ++ [0, 200, 0].flatMap word
  ([100, 101, 120, 10, 48, 51, 53, 0] ++ List.replicate 36 0 ++
    [96, 116, 132, 0, 144, 160, 0, 5, 4, 1, 0, 2, 1].flatMap word ++
    -- the strings, the types, the signature and the methods
    [208, 210, 215, 235, 239].flatMap word ++ [0, 2, 3, 4].flatMap word ++ [0, 0, 192].flatMap word ++
    [2, 1, 3, 1].flatMap word ++ definition ++ [1, 1].flatMap word ++ [0, 0, 1, 0, 1, 1, 243, 1] ++
    [1, 86] ++ [4, 109, 97, 105, 110] ++
    [19, 91, 76, 106, 97, 118, 97, 47, 108, 97, 110, 103, 47, 83, 116, 114, 105, 110, 103, 59] ++
    [3, 76, 65, 59] ++ [3, 76, 66, 59] ++ [1, 0, 0, 0] ++ word 0 ++ word 0 ++ word 1 ++ [0xF0, 0]).toArray

theorem parse_shadowed :
    (Dex.parse shadowed).2 = none ∧
      (Dex.parse shadowed).1.methods.map (fun m => (m.className, m.isMain, m.codeOffset)) =
        #[("LA;", true, 0), ("LB;", true, 243)] ∧
      (Dex.parse shadowed).1.classes.map (·.className) = #["LB;"] := by
  decide +kernel

/-- The entry method of the class that is defined is not run, since another one stands before it. -/
theorem shadowed_main_not_executed :
    (Dex.parse shadowed).2 = none ∧ (∃ method, (Dex.parse shadowed).1.Runnable method) ∧
      ¬ ∃ run, (Dex.parse shadowed).1.Runnable run ∧ Executes shadowed {} run := by
  obtain ⟨hnone, hmethods, hclasses⟩ := parse_shadowed
  have hmethod (i : Nat) (name : String) (offset : Nat)
      (hi : #[("LA;", true, 0), ("LB;", true, 243)][i]? = some (name, true, offset)) :
      ∃ method : Dex.Method, (Dex.parse shadowed).1.methods[i]? = some method ∧ method.className = name ∧
        method.isMain = true := by
    rw [← hmethods, Array.getElem?_map] at hi
    obtain ⟨method, hgot, heq⟩ := Option.map_eq_some_iff.mp hi
    exact ⟨method, hgot, congrArg (·.1) heq, congrArg (·.2.1) heq⟩
  have hdefines (name : String) : (Dex.parse shadowed).1.Defines name ↔ name = "LB;" := by
    have hmem : name ∈ (Dex.parse shadowed).1.classes.map (·.className) ↔ name = "LB;" := by
      rw [hclasses, Array.mem_singleton]
    rw [← hmem, Array.mem_map]
    exact Iff.rfl
  obtain ⟨first, hfirst, hname, hmain⟩ := hmethod 0 "LA;" 0 rfl
  obtain ⟨own, hown, hname', hmain'⟩ := hmethod 1 "LB;" 243 rfl
  refine ⟨hnone, ⟨own, Array.mem_of_getElem? hown, hmain', (hdefines _).mpr hname'⟩, fun ⟨run, _, hrun⟩ => ?_⟩
  have hundefined : ¬ (Dex.parse shadowed).1.Defines first.className := by
    rw [hdefines, hname]
    decide
  have hfirstMain : (Dex.parse shadowed).1.FirstMain first :=
    ⟨hmain, 0, hfirst, fun j _ hj => absurd hj (Nat.not_lt_zero j)⟩
  obtain ⟨log, hon⟩ := on_runMain_of_undefined hnone hfirstMain hundefined {}
  exact not_executes_of_on_runMain hon run hrun

end Act

end Handset
