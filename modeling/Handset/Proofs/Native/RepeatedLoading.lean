import Handset.Native.Calls
import Handset.Proofs.Steps

/-!
# Loading a class again

A loader keeps each module that it has loaded, and answers a class of a kept module by the module itself. So
the first request for a class gives the class and every later one its module, whatever lies between, and a
native call that was answered by a method of the class is answered by the module from then on. A module makes no
instances, so it answers nothing unless it has a static member of that name. Requests that load no module are
answered alike each time.
-/
namespace Handset.Native

open Step

namespace ClassLoader

variable {l m n : ClassLoader} {path : String}

/-- The module that a path leads to, if its file can be loaded. -/
def loads? (l : ClassLoader) (path : String) : Option LibraryModule :=
  match l.files.find? (path ++ ".py") with
  | some (.defines classes members) => (definedModule classes members).toOption
  | _ => none

/-- The module of a class: the one that is kept, or else the one that can be loaded. -/
def moduleOf? (l : ClassLoader) (className : String) : Option LibraryModule :=
  (modulePath className).toOption.bind fun path => (l.kept.find? path).or (l.loads? path)

/-- A later state of a loader: it has the same files, and keeps the same modules and some that it could load. -/
structure Later (l m : ClassLoader) : Prop where
  files : m.files = l.files
  kept : ∀ path library, l.kept.find? path = some library → m.kept.find? path = some library
  loaded : ∀ path library, m.kept.find? path = some library →
    l.kept.find? path = some library ∨ l.loads? path = some library

theorem Later.refl (l : ClassLoader) : l.Later l :=
  ⟨rfl, fun _ _ h => h, fun _ _ h => .inl h⟩

theorem loads?_congr (h : m.files = l.files) (path : String) : m.loads? path = l.loads? path := by
  unfold loads?
  rw [h]

theorem Later.trans (h : l.Later m) (h' : m.Later n) : l.Later n := by
  refine ⟨h'.files.trans h.files, fun path library hl => h'.kept path library (h.kept path library hl),
    fun path library hn => ?_⟩
  rcases h'.loaded path library hn with hm | hloads
  · exact h.loaded path library hm
  · rw [loads?_congr h.files] at hloads
    exact .inr hloads

theorem later_put {library : LibraryModule} (hkept : l.kept.find? path = none) (h : l.loads? path = some library)
    (log : Log) : l.Later { l with log, unpacked := true, kept := l.kept.put path library } := by
  refine ⟨rfl, fun other old hother => ?_, fun other new hother => ?_⟩
  · rw [Table.find?_put, if_neg, hother]
    intro hsame
    rw [← eq_of_beq hsame, hkept] at hother
    cases hother
  · rw [Table.find?_put] at hother
    split at hother
    next hsame =>
      rw [← eq_of_beq hsame, h, hother]
      exact .inr rfl
    next => exact .inl hother

theorem member?_ne_ofModule (library : LibraryModule) (name : String) :
    member? library name ≠ some (some (.ofModule path)) := by
  unfold member?
  split
  · split <;> nofun
  split
  · nofun
  split
  · nofun
  split
  · nofun
  split
  · nofun
  cases moduleValues.find? name with
  | none => nofun
  | some kind => nofun

end ClassLoader

/-- What a module answers to a call: nothing, unless it has a static member of that name that takes the
arguments. -/
def LibraryModule.answer (offers : Loaded → LibraryClass) (library : LibraryModule) (name : String) (args : Value) :
    Value :=
  match library.static? offers name with
  | some answer => (args.walk >>= answer).toOption.getD .none
  | none => .none

/-- What is static can be called. -/
theorem LibraryModule.member?_of_static {offers : Loaded → LibraryClass} {library : LibraryModule} {name : String}
    {answer : List Value → Except Fault Value} (h : library.static? offers name = some answer) :
    ClassLoader.member? library name = some (some (.ofClass name)) := by
  unfold LibraryModule.static? at h
  unfold ClassLoader.member?
  cases hmember : library.members.find? name with
  | some member =>
    rw [hmember] at h
    dsimp only at h ⊢
    by_cases hkind : member.kind = .static
    · rw [hkind]
      rfl
    · rw [if_neg hkind] at h
      cases h
  | none =>
    rw [hmember] at h
    dsimp only at h ⊢
    by_cases hclass : library.classes.contains name = true
    · exact if_pos hclass
    · rw [Bool.eq_false_iff.mpr hclass] at h
      cases h

namespace Loading

open ClassLoader

variable {l m : ClassLoader} {className path : String} {library : LibraryModule}

theorem on_load_of_bad_path {e : Fault} (h : modulePath className = .error e) :
    (load className).on l = (.error e, l) := by
  unfold load
  rw [h]
  rfl

theorem on_load_of_kept (h : modulePath className = .ok path) (hkept : l.kept.find? path = some library) :
    (load className).on l = (.ok (some (.ofModule path)), l) := by
  unfold load
  rw [h, on_bind_ok (on_lift _ _), on_bind_ok (on_get l), if_pos (by rw [Table.has, hkept]; rfl)]
  rfl

/-- A module that is not kept is loaded if it can be, and asked for a member with the name of the class. -/
theorem on_load_of_loads (h : modulePath className = .ok path) (hkept : l.kept.find? path = none)
    (hloads : l.loads? path = some library) :
    ∃ log, (load className).on l =
      (.ok ((member? library (simpleName className)).getD none),
        { l with log, unpacked := true, kept := l.kept.put path library }) := by
  unfold load
  rw [h, on_bind_ok (on_lift _ _), on_bind_ok (on_get l), if_neg (by rw [Table.has, hkept]; exact Bool.false_ne_true)]
  unfold loads? at hloads
  split at hloads
  next classes members hfile =>
    have hlibrary := eq_ok_of_toOption hloads
    rw [hfile]
    dsimp only
    rw [on_bind_ok (on_modify _ l), hlibrary, on_bind_ok (on_lift _ _), on_bind_ok (on_modify _ _)]
    cases member? library (simpleName className) with
    | some found => exact ⟨l.log, rfl⟩
    | none => exact ⟨_, rfl⟩
  next => cases hloads

/-- Where no module can be loaded, the request is answered alike each time, and no module is kept. -/
theorem exists_on_load_of_not_loads (h : modulePath className = .ok path) (hloads : l.loads? path = none) :
    ∃ r, (∀ found, r ≠ .ok (some found)) ∧ ∀ m : ClassLoader, m.files = l.files → m.kept.find? path = none →
      ∃ log unpacked, (load className).on m = (r, { m with log, unpacked }) := by
  unfold loads? at hloads
  have hstart : ∀ m : ClassLoader, m.files = l.files → m.kept.find? path = none →
      m.files.find? (path ++ ".py") = l.files.find? (path ++ ".py") ∧ ¬m.kept.has path = true :=
    fun m hm hkept => ⟨by rw [hm], by rw [Table.has, hkept]; exact Bool.false_ne_true⟩
  unfold load
  rw [h]
  cases hfile : l.files.find? (path ++ ".py") with
  | none =>
    refine ⟨.ok none, fun _ hr => (by cases hr), fun m hm hkept => ?_⟩
    obtain ⟨hsame, hnew⟩ := hstart m hm hkept
    rw [on_bind_ok (on_lift _ _), on_bind_ok (on_get m), if_neg hnew, hsame, hfile]
    exact ⟨_, m.unpacked, rfl⟩
  | some file =>
    rw [hfile] at hloads
    cases file with
    | broken =>
      refine ⟨.error .componentFailed, fun _ hr => (by cases hr), fun m hm hkept => ?_⟩
      obtain ⟨hsame, hnew⟩ := hstart m hm hkept
      rw [on_bind_ok (on_lift _ _), on_bind_ok (on_get m), if_neg hnew, hsame, hfile]
      exact ⟨m.log, true, rfl⟩
    | defines classes members =>
      cases hlibrary : definedModule classes members with
      | ok library =>
        simp only [hlibrary] at hloads
        cases hloads
      | error e =>
        refine ⟨.error e, fun _ hr => (by cases hr), fun m hm hkept => ?_⟩
        obtain ⟨hsame, hnew⟩ := hstart m hm hkept
        rw [on_bind_ok (on_lift _ _), on_bind_ok (on_get m), if_neg hnew, hsame, hfile]
        dsimp only
        rw [on_bind_ok (on_modify _ m), hlibrary]
        exact ⟨m.log, true, rfl⟩

theorem later_load (l : ClassLoader) (className : String) : l.Later ((load className).on l).2 := by
  cases h : modulePath className with
  | error e =>
    rw [on_load_of_bad_path h]
    exact .refl l
  | ok path =>
    cases hkept : l.kept.find? path with
    | some library =>
      rw [on_load_of_kept h hkept]
      exact .refl l
    | none =>
      cases hloads : l.loads? path with
      | some library =>
        obtain ⟨log, hload⟩ := on_load_of_loads h hkept hloads
        rw [hload]
        exact later_put hkept hloads log
      | none =>
        obtain ⟨r, -, hload⟩ := exists_on_load_of_not_loads h hloads
        obtain ⟨log, unpacked, hload⟩ := hload l rfl hkept
        rw [hload]
        exact ⟨rfl, fun _ _ hother => hother, fun _ _ hother => .inl hother⟩

/-! ### Native calls -/

variable (offers : Loaded → LibraryClass) (name : String) (args : Value)

theorem on_callOf (c : LibraryClass) (l : ClassLoader) :
    ∃ v log, (Calling.callOf c className name args : Loading Value).on l = (.ok v, { l with log }) := by
  have hmissing : ∃ v log, (Calling.missing className name : Loading Value).on l = (.ok v, { l with log }) :=
    ⟨.none, _, rfl⟩
  have hattempt : ∀ step : List Value → Except Fault Value, ∃ v log,
      (attempt "调用方法失败" .none (lift (args.walk >>= step)) : Loading Value).on l =
        (.ok v, { l with log }) := by
    intro step
    rw [on_attempt, on_lift]
    cases args.walk >>= step with
    | ok v => exact ⟨v, l.log, rfl⟩
    | error e => exact ⟨.none, _, rfl⟩
  unfold Calling.callOf
  dsimp only
  split
  · split
    · exact hmissing
    · exact hattempt _
  · split
    · exact hattempt _
    · exact hmissing

/-- A call on a module is answered by the module. -/
theorem on_callOn_ofModule (hlibrary : (l.kept.find? path).getD {} = library) :
    ∃ log, (callOn offers className name args (.ofModule path)).on l =
      (.ok (library.answer offers name args), { l with log }) := by
  unfold callOn
  rw [on_bind_ok (on_get l), hlibrary]
  dsimp only
  unfold LibraryModule.answer
  cases hstatic : library.static? offers name with
  | some answer =>
    rw [LibraryModule.member?_of_static hstatic]
    dsimp only
    rw [on_attempt, on_lift]
    cases args.walk >>= answer with
    | ok v => exact ⟨l.log, rfl⟩
    | error e => exact ⟨_, rfl⟩
  | none =>
    dsimp only
    split
    · rw [on_attempt, on_lift]
      exact ⟨_, rfl⟩
    · exact ⟨_, rfl⟩

theorem on_callOn (found : Loaded) (l : ClassLoader) :
    ∃ v log, (callOn offers className name args found).on l = (.ok v, { l with log }) := by
  cases found with
  | ofClass c => exact on_callOf name args _ l
  | ofModule path => exact ⟨_, on_callOn_ofModule offers name args rfl⟩
  | ofValue kind => exact on_callOf name args _ l

/-- The loader when the call has been reported. -/
def reported (l : ClassLoader) (className name : String) : ClassLoader :=
  { l with log := l.log.add .info s!"调用本地方法: {className}.{name}" }

variable {offers name args}

theorem on_call_of_error {e : Fault} (h : (load className).on (reported l className name) = (.error e, m)) :
    (call offers className name args).on l = (.error e, m) := by
  unfold call Calling.handle
  rw [on_bind_ok (on_report _ _ l)]
  exact on_bind_error h _

theorem on_call_of_none (h : (load className).on (reported l className name) = (.ok none, m)) :
    ∃ log, (call offers className name args).on l = (.ok .none, { m with log }) := by
  unfold call Calling.handle
  rw [on_bind_ok (on_report _ _ l)]
  exact ⟨_, on_bind_ok h _⟩

theorem on_call_of_some {found : Loaded} (h : (load className).on (reported l className name) = (.ok (some found), m)) :
    (call offers className name args).on l = (callOn offers className name args found).on m := by
  unfold call Calling.handle
  rw [on_bind_ok (on_report _ _ l)]
  exact on_bind_ok h _

/-- A call leaves the loader as the loading of its class does, but for the log. -/
theorem exists_on_call (offers : Loaded → LibraryClass) (l : ClassLoader) (className name : String) (args : Value) :
    ∃ log, ((call offers className name args).on l).2 =
      { ((load className).on (reported l className name)).2 with log } := by
  rcases h : (load className).on (reported l className name) with ⟨r, m⟩
  match r, h with
  | .error e, h => exact ⟨m.log, by rw [on_call_of_error h]⟩
  | .ok none, h =>
    obtain ⟨log, hcall⟩ : ∃ log, (call offers className name args).on l = _ := on_call_of_none h
    exact ⟨log, by rw [hcall]⟩
  | .ok (some found), h =>
    obtain ⟨v, log, hon⟩ := on_callOn offers name args found m
    exact ⟨log, by rw [on_call_of_some h, hon]⟩

end Loading

/-! ### Histories -/

/-- What is done with a loader. -/
inductive Use where
  | load (className : String)
  | call (className name : String) (args : Value)
  | cleanup

/-- The loader after a use. -/
def Use.after (offers : Loaded → LibraryClass) (l : ClassLoader) : Use → ClassLoader
  | load className => ((Loading.load className).on l).2
  | call className name args => ((Loading.call offers className name args).on l).2
  | cleanup => (Loading.cleanup.on l).2

def afterUses (offers : Loaded → LibraryClass) (uses : List Use) (l : ClassLoader) : ClassLoader :=
  uses.foldl (Use.after offers) l

namespace Loading

open ClassLoader

theorem later_call (offers : Loaded → LibraryClass) (l : ClassLoader) (className name : String) (args : Value) :
    l.Later ((call offers className name args).on l).2 := by
  obtain ⟨log, hcall⟩ := exists_on_call offers l className name args
  have hload := later_load (reported l className name) className
  rw [hcall]
  exact ⟨hload.files, hload.kept, hload.loaded⟩

theorem later_cleanup (l : ClassLoader) : l.Later (cleanup.on l).2 := by
  unfold cleanup
  rw [on_bind_ok (on_get l)]
  split
  · exact ⟨rfl, fun _ _ h => h, fun _ _ h => .inl h⟩
  · exact .refl l

theorem later_afterUses (offers : Loaded → LibraryClass) (uses : List Use) (l : ClassLoader) :
    l.Later (afterUses offers uses l) := by
  induction uses generalizing l with
  | nil => exact .refl l
  | cons use rest ih =>
    have hfirst : l.Later (use.after offers l) := by
      cases use with
      | load className => exact later_load l className
      | call className name args => exact later_call offers l className name args
      | cleanup => exact later_cleanup l
    exact hfirst.trans (ih _)

variable {l m : ClassLoader} {className path : String} {library : LibraryModule}

/-- A request for a class finds its module kept, or loads it and leaves it kept, or can load none and is
answered alike from then on. -/
theorem load_again (h : modulePath className = .ok path) (hlater : ((load className).on l).2.Later m) :
    (∃ library, l.kept.find? path = some library ∧ m.kept.find? path = some library) ∨
    (l.kept.find? path = none ∧ ∃ library, l.loads? path = some library ∧ m.kept.find? path = some library) ∨
    (l.kept.find? path = none ∧ l.loads? path = none ∧ ((load className).on m).1 = ((load className).on l).1 ∧
      ∀ found, ((load className).on l).1 ≠ .ok (some found)) := by
  cases hkept : l.kept.find? path with
  | some library =>
    exact .inl ⟨library, rfl, hlater.kept path library ((later_load l className).kept path library hkept)⟩
  | none =>
    cases hloads : l.loads? path with
    | some library =>
      obtain ⟨log, hload⟩ := on_load_of_loads h hkept hloads
      refine .inr (.inl ⟨rfl, library, rfl, hlater.kept path library ?_⟩)
      rw [hload, Table.find?_put, if_pos (beq_self_eq_true path)]
    | none =>
      obtain ⟨r, hnone, hload⟩ := exists_on_load_of_not_loads h hloads
      have hall := (later_load l className).trans hlater
      have hunkept : m.kept.find? path = none := by
        refine Option.eq_none_iff_forall_ne_some.mpr fun library hm => ?_
        rcases hall.loaded path library hm with hl | hsome
        · cases hkept.symm.trans hl
        · cases hloads.symm.trans hsome
      obtain ⟨_, _, hfirst⟩ := hload l rfl hkept
      obtain ⟨_, _, hsecond⟩ := hload m hall.files hunkept
      rw [hfirst, hsecond]
      exact .inr (.inr ⟨rfl, rfl, rfl, hnone⟩)

/-! ### The second time -/

theorem loads_agree_iff (hlater : ((load className).on l).2.Later m) :
    ((load className).on l).1 = ((load className).on m).1 ↔
      ∀ path library, modulePath className = .ok path → l.loads? path = some library →
        l.kept.has path = true := by
  cases h : modulePath className with
  | error e =>
    rw [on_load_of_bad_path h, on_load_of_bad_path h]
    exact ⟨fun _ _ _ hpath => (nomatch hpath), fun _ => rfl⟩
  | ok path =>
    rcases load_again h hlater with ⟨library, hl, hm⟩ | ⟨hl, library, hloads, hm⟩ | ⟨-, hloads, hsame, -⟩
    · rw [on_load_of_kept h hl, on_load_of_kept h hm]
      refine ⟨fun _ other _ hother _ => ?_, fun _ => rfl⟩
      rw [← Except.ok.inj hother, Table.has, hl]
      rfl
    · obtain ⟨log, hload⟩ := on_load_of_loads h hl hloads
      rw [hload, on_load_of_kept h hm]
      refine ⟨fun heq => ?_, fun hall => ?_⟩
      · -- a module has no module among its members
        cases hmember : member? library (simpleName className) with
        | none =>
          rw [hmember] at heq
          cases heq
        | some found =>
          rw [hmember] at heq
          exact absurd (hmember.trans (congrArg some (Except.ok.inj heq))) (member?_ne_ofModule library _)
      · have hkept := hall path library rfl hloads
        rw [Table.has, hl] at hkept
        cases hkept
    · refine ⟨fun _ other library hother hsome => ?_, fun _ => hsame.symm⟩
      rw [← Except.ok.inj hother, hloads] at hsome
      cases hsome

/-- A module that a request has found or loaded is what every later request for the class gives. -/
theorem load_again_of_loads (h : modulePath className = .ok path) (hloads : l.loads? path = some library)
    (hlater : ((load className).on l).2.Later m) : ((load className).on m).1 = .ok (some (.ofModule path)) := by
  rcases load_again h hlater with ⟨_, -, hm⟩ | ⟨-, _, -, hm⟩ | ⟨-, hnone, -, -⟩
  · rw [on_load_of_kept h hm]
  · rw [on_load_of_kept h hm]
  · rw [hloads] at hnone
    cases hnone

theorem call_of_kept (offers : Loaded → LibraryClass) (name : String) (args : Value)
    (h : modulePath className = .ok path) (hkept : l.kept.find? path = some library) :
    ((call offers className name args).on l).1 = .ok (library.answer offers name args) := by
  have hlibrary : ((reported l className name).kept.find? path).getD {} = library := by
    rw [reported, hkept, Option.getD_some]
  have hload : (load className).on (reported l className name) = _ := on_load_of_kept h hkept
  obtain ⟨log, hon⟩ : ∃ log, (callOn offers className name args (.ofModule path)).on _ = _ :=
    on_callOn_ofModule offers name args hlibrary
  rw [on_call_of_some hload, hon]

/-- A call whose class, or none, was found is answered. -/
theorem exists_call_of_ok (offers : Loaded → LibraryClass) (name : String) (args : Value) {found : Option Loaded}
    (h : (load className).on (reported l className name) = (.ok found, m)) :
    ∃ v, ((call offers className name args).on l).1 = .ok v := by
  cases found with
  | none =>
    obtain ⟨log, hcall⟩ : ∃ log, (call offers className name args).on l = _ := on_call_of_none h
    exact ⟨.none, by rw [hcall]⟩
  | some found =>
    obtain ⟨v, log, hon⟩ := on_callOn offers name args found m
    exact ⟨v, by rw [on_call_of_some h, hon]⟩

/-- What is answered to a call the second time, if the first one was answered. -/
def answerAgain (offers : Loaded → LibraryClass) (l : ClassLoader) (className name : String) (args : Value) : Value :=
  ((l.moduleOf? className).map (·.answer offers name args)).getD .none

theorem answerAgain_eq_none {offers : Loaded → LibraryClass} {name : String}
    (h : ∀ library, l.moduleOf? className = some library → library.static? offers name = none) (args : Value) :
    answerAgain offers l className name args = .none := by
  unfold answerAgain
  cases hmodule : l.moduleOf? className with
  | none => rfl
  | some library => rw [Option.map_some, Option.getD_some, LibraryModule.answer, h library hmodule]

theorem call_again (offers : Loaded → LibraryClass) (name : String) (args : Value)
    (hlater : ((call offers className name args).on l).2.Later m) :
    ((call offers className name args).on m).1 =
      ((call offers className name args).on l).1.map fun _ => answerAgain offers l className name args := by
  obtain ⟨log, hstate⟩ := exists_on_call offers l className name args
  rw [hstate] at hlater
  have hreported : ((load className).on (reported l className name)).2.Later (reported m className name) :=
    ⟨hlater.files, hlater.kept, hlater.loaded⟩
  unfold answerAgain moduleOf?
  cases h : modulePath className with
  | error e =>
    rw [on_call_of_error (on_load_of_bad_path h), on_call_of_error (on_load_of_bad_path h)]
    rfl
  | ok path =>
    dsimp only [Except.toOption, Option.bind_some]
    rcases load_again h hreported with
      ⟨library, hl, hm⟩ | ⟨hl, library, hloads, hm⟩ | ⟨hl, hloads, hsame, hnone⟩
    · rw [call_of_kept (l := l) offers name args h hl, call_of_kept (l := m) offers name args h hm,
        show l.kept.find? path = some library from hl]
      rfl
    · obtain ⟨log, hload⟩ := on_load_of_loads h hl hloads
      obtain ⟨v, hv⟩ := exists_call_of_ok offers name args hload
      rw [call_of_kept (l := m) offers name args h hm, hv, show l.kept.find? path = none from hl,
        show l.loads? path = some library from hloads]
      rfl
    · rw [show l.kept.find? path = none from hl, show l.loads? path = none from hloads]
      rcases hfirst : (load className).on (reported l className name) with ⟨r, l'⟩
      rcases hsecond : (load className).on (reported m className name) with ⟨r', m'⟩
      rw [hfirst] at hsame hnone
      rw [hsecond] at hsame
      obtain rfl : r' = r := hsame
      match r', hfirst, hsecond, hnone with
      | .error e, hfirst, hsecond, _ =>
        rw [on_call_of_error hfirst, on_call_of_error hsecond]
        rfl
      | .ok none, hfirst, hsecond, _ =>
        obtain ⟨_, hcall⟩ : ∃ log, (call offers className name args).on l = _ := on_call_of_none hfirst
        obtain ⟨_, hagain⟩ : ∃ log, (call offers className name args).on m = _ := on_call_of_none hsecond
        rw [hcall, hagain]
        rfl
      | .ok (some found), _, _, hnone => exact absurd rfl (hnone found)

/-- Two requests for a class are answered alike exactly if the module of the class cannot be loaded or was kept
before the first of them. A module that can be loaded is what every later request gives, so a native call is
answered by nothing the second time, unless it fails as it did the first time or the module has a static member of
that name, which then answers. -/
theorem repeated_loads_agree_iff (offers : Loaded → LibraryClass) (l : ClassLoader) (between : List Use)
    (className : String) :
    (((load className).on l).1 =
        ((load className).on (afterUses offers between ((load className).on l).2)).1 ↔
      ∀ path library, modulePath className = .ok path → l.loads? path = some library →
        l.kept.has path = true) ∧
    (∀ path library, modulePath className = .ok path → l.loads? path = some library →
      ((load className).on (afterUses offers between ((load className).on l).2)).1 =
        .ok (some (.ofModule path))) ∧
    ∀ name args,
      ((call offers className name args).on
        (afterUses offers between ((call offers className name args).on l).2)).1 =
          ((call offers className name args).on l).1.map (fun _ => answerAgain offers l className name args) ∧
      ((∀ library, l.moduleOf? className = some library → library.static? offers name = none) →
        answerAgain offers l className name args = .none) := by
  have hloaded := later_afterUses offers between ((load className).on l).2
  refine ⟨loads_agree_iff hloaded, fun path library h hloads => load_again_of_loads h hloads hloaded,
    fun name args => ?_⟩
  exact ⟨call_again offers name args (later_afterUses offers between _), fun h => answerAgain_eq_none h args⟩

/-- A loader of an archive with one module, of one class. -/
def viewLoader : ClassLoader where
  files := [("android_libs.view.View.py", .defines ["View"])]

/-- A class with one method. -/
def drawing : LibraryClass where
  members := [("draw", ⟨.method, none⟩)]

theorem repeated_loads_of_viewLoader :
    modulePath "android.view.View" = .ok "android_libs.view.View" ∧
    (∃ library, viewLoader.loads? "android_libs.view.View" = some library ∧ library.classes = ["View"]) ∧
    ((load "android.view.View").on (afterUses (fun _ => drawing) [.load "android.os.Build", .cleanup]
      ((load "android.view.View").on viewLoader).2)).1 = .ok (some (.ofModule "android_libs.view.View")) := by
  have hpath : modulePath "android.view.View" = .ok "android_libs.view.View" :=
    eq_ok_of_toOption (by decide +kernel)
  have hclasses : (viewLoader.loads? "android_libs.view.View").map LibraryModule.classes = some ["View"] := by
    decide +kernel
  obtain ⟨library, hloads, hview⟩ := Option.map_eq_some_iff.mp hclasses
  obtain ⟨-, hagain, -⟩ := repeated_loads_agree_iff (fun _ => drawing) viewLoader
    [.load "android.os.Build", .cleanup] "android.view.View"
  exact ⟨hpath, ⟨library, hloads, hview⟩, hagain _ _ hpath hloads⟩

/-- The class itself and an answer of its method the first time; its module and nothing the second time. -/
theorem second_load_gives_module :
    ((load "android.view.View").on viewLoader).1.toOption = some (some (.ofClass "View")) ∧
    ((load "android.view.View").on ((load "android.view.View").on viewLoader).2).1.toOption =
      some (some (.ofModule "android_libs.view.View")) ∧
    ((call (fun _ => drawing) "android.view.View" "draw" (.list [])).on viewLoader).1.toOption.map Value.isNone =
      some false ∧
    ((call (fun _ => drawing) "android.view.View" "draw" (.list [])).on
      ((call (fun _ => drawing) "android.view.View" "draw" (.list [])).on viewLoader).2).1.toOption.map
        Value.isNone = some true := by
  decide +kernel

end Loading

end Handset.Native
