import Handset.Step

/-!
# How steps run

What each way to build a step does to a state. A failing step hands on the state that it has reached,
so the rule for sequences keeps the state of the part that failed. A quiet step only looks at the
state; a step keeps a property if the property holds after it whenever it held before, whether the
step succeeds or fails.
-/
namespace Handset.Step

variable {σ α β : Type}

@[simp] theorem on_pure (a : α) (s : σ) : (pure a : Step σ α).on s = (.ok a, s) := rfl

@[simp] theorem on_throw (e : Fault) (s : σ) : (throw e : Step σ α).on s = (.error e, s) := rfl

@[simp] theorem on_get (s : σ) : (get : Step σ σ).on s = (.ok s, s) := rfl

@[simp] theorem on_set (s t : σ) : (set t : Step σ PUnit).on s = (.ok ⟨⟩, t) := rfl

@[simp] theorem on_modify (f : σ → σ) (s : σ) :
    (modify f : Step σ PUnit).on s = (.ok ⟨⟩, f s) := rfl

@[simp] theorem on_lift (x : Except Fault α) (s : σ) : (lift x : Step σ α).on s = (x, s) := by
  cases x <;> rfl

@[simp] theorem on_report [Journal σ] (level : Level) (text : String) (s : σ) :
    (report level text : Step σ Unit).on s =
      (.ok (), Journal.setLog s ((Journal.log s).add level text)) := rfl

theorem on_bind (x : Step σ α) (f : α → Step σ β) (s : σ) :
    (x >>= f).on s = match x.on s with
      | (.ok a, t) => (f a).on t
      | (.error e, t) => (.error e, t) := by
  change (ExceptT.bind x f) s = _
  simp only [ExceptT.bind, ExceptT.mk, bind, StateT.bind]
  unfold Step.on
  rcases h : x s with ⟨r, t⟩
  cases r with
  | ok a => simp [ExceptT.bindCont, ExceptT.run, StateT.run, h]
  | error e =>
    simp [ExceptT.bindCont, ExceptT.run, StateT.run, h]
    rfl

theorem on_attempt [Journal σ] (label : String) (otherwise : α) (step : Step σ α) (s : σ) :
    (attempt label otherwise step).on s = match step.on s with
      | (.ok a, t) => (.ok a, t)
      | (.error e, t) =>
        (.ok otherwise, Journal.setLog t ((Journal.log t).add .error s!"{label}: {e.message}")) := by
  unfold Step.on
  rcases h : step s with ⟨r, t⟩
  cases r <;>
    simp [attempt, tryCatch, tryCatchThe, MonadExceptOf.tryCatch, ExceptT.tryCatch, ExceptT.run, ExceptT.mk,
      StateT.run, bind, StateT.bind, h] <;> rfl

theorem on_bind_ok {x : Step σ α} {s t : σ} {a : α} (h : x.on s = (.ok a, t))
    (f : α → Step σ β) : (x >>= f).on s = (f a).on t := by
  rw [on_bind, h]

theorem on_bind_error {x : Step σ α} {s t : σ} {e : Fault} (h : x.on s = (.error e, t))
    (f : α → Step σ β) : (x >>= f).on s = (.error e, t) := by
  rw [on_bind, h]

/-- A step on a part of the state shares the log with it. -/
theorem on_within {τ : Type} [Journal σ] [Journal τ] (part : σ → τ) (setPart : σ → τ → σ) (step : Step τ α)
    (s : σ) :
    (within part setPart step).on s =
      ((step.on (Journal.setLog (part s) (Journal.log s))).1,
        Journal.setLog (setPart s (step.on (Journal.setLog (part s) (Journal.log s))).2)
          (Journal.log (step.on (Journal.setLog (part s) (Journal.log s))).2)) := by
  unfold within
  rw [on_bind_ok (on_get s)]
  rcases step.on (Journal.setLog (part s) (Journal.log s)) with ⟨outcome, t⟩
  rw [on_bind_ok (on_set s _), on_lift]

theorem exists_of_on_bind {x : Step σ α} {f : α → Step σ β} {s t : σ} {b : β}
    (h : (x >>= f).on s = (.ok b, t)) : ∃ a u, x.on s = (.ok a, u) ∧ (f a).on u = (.ok b, t) := by
  rcases hx : x.on s with ⟨r, u⟩
  cases r with
  | ok a => exact ⟨a, u, rfl, (on_bind_ok hx f).symm.trans h⟩
  | error e =>
    rw [on_bind_error hx] at h
    cases h

theorem exists_of_bind_eq_ok {x : Except Fault α} {f : α → Except Fault β} {b : β}
    (h : x >>= f = .ok b) : ∃ a, x = .ok a ∧ f a = .ok b := by
  cases x with
  | ok a => exact ⟨a, rfl, h⟩
  | error e => cases h

theorem mapM_eq_ok {f : α → Except Fault β} {g : α → β} {l : List α} (h : ∀ x ∈ l, f x = .ok (g x)) :
    l.mapM f = .ok (l.map g) := by
  induction l with
  | nil => rfl
  | cons x l ih =>
    rw [List.mapM_cons, h x List.mem_cons_self, ih fun y hy => h y (List.mem_cons_of_mem _ hy)]
    rfl

theorem mapM_cases (f : α → Except Fault β) (l : List α) :
    (∃ bs, l.mapM f = .ok bs) ∨ ∃ a ∈ l, ∃ e, f a = .error e ∧ l.mapM f = .error e := by
  induction l with
  | nil => exact .inl ⟨[], rfl⟩
  | cons a l ih =>
    rw [List.mapM_cons]
    cases ha : f a with
    | error e => exact .inr ⟨a, List.mem_cons_self, e, ha, rfl⟩
    | ok b =>
      rcases ih with ⟨bs, hbs⟩ | ⟨x, hx, e, he, hl⟩
      · exact .inl ⟨b :: bs, by rw [hbs]; rfl⟩
      · exact .inr ⟨x, List.mem_cons_of_mem _ hx, e, he, by rw [hl]; rfl⟩

theorem eq_ok_of_toOption {x : Except Fault α} {a : α} (h : x.toOption = some a) : x = .ok a := by
  cases x with
  | ok b => exact congrArg _ (Option.some.inj h)
  | error e => cases h

/-- The step leaves every state as it is. -/
def Quiet (step : Step σ α) : Prop :=
  ∀ s, (step.on s).2 = s

theorem quiet_pure (a : α) : Quiet (pure a : Step σ α) := fun _ => rfl

theorem quiet_throw (e : Fault) : Quiet (throw e : Step σ α) := fun _ => rfl

theorem quiet_get : Quiet (get : Step σ σ) := fun _ => rfl

theorem quiet_lift (x : Except Fault α) : Quiet (lift x : Step σ α) := fun s => by simp

theorem quiet_bind {x : Step σ α} {f : α → Step σ β} (hx : Quiet x) (hf : ∀ a, Quiet (f a)) :
    Quiet (x >>= f) := by
  intro s
  rcases h : x.on s with ⟨r, t⟩
  obtain rfl : t = s := by simpa [h] using hx s
  cases r with
  | ok a => rw [on_bind_ok h]; exact hf a t
  | error e => rw [on_bind_error h]

/-- What a quiet step answers is all that the rest of a sequence learns from it. -/
theorem Quiet.on_bind {x : Step σ α} (hx : Quiet x) (f : α → Step σ β) (s : σ) :
    (x >>= f).on s = match (x.on s).1 with
      | .ok a => (f a).on s
      | .error e => (.error e, s) := by
  rcases h : x.on s with ⟨r, t⟩
  obtain rfl : t = s := by simpa [h] using hx s
  cases r with
  | ok a => rw [on_bind_ok h]
  | error e => rw [on_bind_error h]

theorem Quiet.answer_bind_congr {x : Step σ α} (hx : Quiet x) {f : α → Step σ β} {s t : σ}
    (h : (x.on s).1 = (x.on t).1) (hf : ∀ a, ((f a).on s).1 = ((f a).on t).1) :
    ((x >>= f).on s).1 = ((x >>= f).on t).1 := by
  rw [hx.on_bind, hx.on_bind, h]
  cases (x.on t).1 with
  | ok a => exact hf a
  | error e => rfl

theorem answer_lift_bind_congr (x : Except Fault α) {f : α → Step σ β} {s t : σ}
    (h : ∀ a, ((f a).on s).1 = ((f a).on t).1) : ((lift x >>= f).on s).1 = ((lift x >>= f).on t).1 :=
  (quiet_lift x).answer_bind_congr (by rw [on_lift, on_lift]) h

theorem answer_attempt_congr [Journal σ] {label : String} {otherwise : α} {step : Step σ α} {s t : σ}
    (h : (step.on s).1 = (step.on t).1) :
    ((attempt label otherwise step).on s).1 = ((attempt label otherwise step).on t).1 := by
  rw [on_attempt, on_attempt]
  rcases hs : step.on s with ⟨r, s'⟩
  rcases ht : step.on t with ⟨r', t'⟩
  rw [hs, ht] at h
  obtain rfl : r = r' := h
  cases r with
  | ok a => rfl
  | error e => rfl

theorem Quiet.exists_of_on_bind {x : Step σ α} (hx : Quiet x) {f : α → Step σ β} {s t : σ} {b : β}
    (h : (x >>= f).on s = (.ok b, t)) : ∃ a, (x.on s).1 = .ok a ∧ (f a).on s = (.ok b, t) := by
  obtain ⟨a, u, ha, h⟩ := Step.exists_of_on_bind h
  have hu := hx s
  rw [ha] at hu
  exact ⟨a, congrArg Prod.fst ha, hu ▸ h⟩

/-- In this state the step changes nothing, answers only such values and fails only for such causes. -/
def Reads (s : σ) (step : Step σ α) (Q : α → Prop) (E : Fault → Prop) : Prop :=
  (step.on s).2 = s ∧ match (step.on s).1 with
    | .ok a => Q a
    | .error e => E e

theorem Reads.mono {s : σ} {step : Step σ α} {Q R : α → Prop} {E : Fault → Prop}
    (h : Reads s step Q E) (hQ : ∀ a, Q a → R a) : Reads s step R E := by
  obtain ⟨hstate, hanswer⟩ := h
  refine ⟨hstate, ?_⟩
  cases hr : (step.on s).1 with
  | ok a => rw [hr] at hanswer; exact hQ a hanswer
  | error e => rw [hr] at hanswer; exact hanswer

theorem reads_lift {s : σ} {x : Except Fault α} {Q : α → Prop} {E : Fault → Prop}
    (hok : ∀ a, x = .ok a → Q a) (herror : ∀ e, x = .error e → E e) :
    Reads s (lift x : Step σ α) Q E := by
  unfold Reads
  rw [on_lift]
  cases x with
  | ok a => exact ⟨rfl, hok a rfl⟩
  | error e => exact ⟨rfl, herror e rfl⟩

theorem reads_bind {s : σ} {x : Step σ α} {f : α → Step σ β} {Q : α → Prop} {R : β → Prop}
    {E : Fault → Prop} (hx : Reads s x Q E) (hf : ∀ a, Q a → Reads s (f a) R E) :
    Reads s (x >>= f) R E := by
  obtain ⟨hstate, hanswer⟩ := hx
  unfold Reads
  rcases h : x.on s with ⟨r, t⟩
  rw [h] at hstate hanswer
  obtain rfl : t = s := hstate
  cases r with
  | ok a => rw [on_bind_ok h]; exact hf a hanswer
  | error e => rw [on_bind_error h]; exact ⟨rfl, hanswer⟩

/-- What the step answers on `s` and the state that it leaves are related so. -/
def Ends (s : σ) (step : Step σ α) (R : Except Fault α → σ → Prop) : Prop :=
  R (step.on s).1 (step.on s).2

theorem ends_bind {s : σ} {x : Step σ α} {f : α → Step σ β} {Q : Except Fault α → σ → Prop}
    {R : Except Fault β → σ → Prop} (hx : Ends s x Q) (hok : ∀ a t, Q (.ok a) t → Ends t (f a) R)
    (herror : ∀ e t, Q (.error e) t → R (.error e) t) : Ends s (x >>= f) R := by
  unfold Ends at hx ⊢
  rcases h : x.on s with ⟨r, t⟩
  rw [h] at hx
  cases r with
  | ok a => rw [on_bind_ok h]; exact hok a t hx
  | error e => rw [on_bind_error h]; exact herror e t hx

theorem ends_get_bind {s : σ} {f : σ → Step σ β} {R : Except Fault β → σ → Prop}
    (h : Ends s (f s) R) : Ends s (get >>= f) R := h

theorem ends_set_bind {s t : σ} {f : PUnit → Step σ β} {R : Except Fault β → σ → Prop}
    (h : Ends t (f ⟨⟩) R) : Ends s (set t >>= f) R := h

theorem ends_modify_bind {s : σ} {g : σ → σ} {f : PUnit → Step σ β} {R : Except Fault β → σ → Prop}
    (h : Ends (g s) (f ⟨⟩) R) : Ends s (modify g >>= f) R := h

theorem ends_report_bind [Journal σ] {s : σ} {level : Level} {text : String} {f : Unit → Step σ β}
    {R : Except Fault β → σ → Prop} (h : ∀ log, Ends (Journal.setLog s log) (f ()) R) :
    Ends s (report level text >>= f) R := h _

theorem ends_lift_bind_cases {s : σ} {x : Except Fault α} {f : α → Step σ β} {R : Except Fault β → σ → Prop}
    (hok : ∀ a, x = .ok a → Ends s (f a) R) (herror : ∀ e, x = .error e → R (.error e) s) :
    Ends s (lift x >>= f) R := by
  cases x with
  | ok a => exact hok a rfl
  | error e => exact herror e rfl

theorem ends_lift_bind {s : σ} {x : Except Fault α} {f : α → Step σ β} {R : Except Fault β → σ → Prop}
    (hok : ∀ a, x = .ok a → Ends s (f a) R) (herror : ∀ e, R (.error e) s) : Ends s (lift x >>= f) R :=
  ends_lift_bind_cases hok fun e _ => herror e

theorem ends_lift_bind_of_ok {s : σ} {x : Except Fault α} {a : α} {f : α → Step σ β}
    {R : Except Fault β → σ → Prop} (hx : x = .ok a) (h : Ends s (f a) R) : Ends s (lift x >>= f) R := by
  subst hx
  exact h

/-- A step whose failures are handled ends as it would, or as the handling does. -/
theorem ends_tryCatch {s : σ} {step : Step σ α} {handle : Fault → Step σ α}
    {Q R : Except Fault α → σ → Prop} (h : Ends s step Q) (hok : ∀ a t, Q (.ok a) t → R (.ok a) t)
    (herror : ∀ e t, Q (.error e) t → Ends t (handle e) R) : Ends s (tryCatch step handle) R := by
  have htry : (tryCatch step handle : Step σ α).on s = match step.on s with
      | (.ok a, t) => (.ok a, t)
      | (.error e, t) => (handle e).on t := by
    simp only [Step.on, tryCatch, tryCatchThe, MonadExceptOf.tryCatch, ExceptT.tryCatch, ExceptT.run, ExceptT.mk,
      StateT.run, bind, StateT.bind]
    rcases step s with ⟨r, t⟩
    cases r with
    | ok a => rfl
    | error e => rfl
  unfold Ends at h herror ⊢
  rw [htry]
  rcases hstep : step.on s with ⟨r, t⟩
  rw [hstep] at h
  cases r with
  | ok a => exact hok a t h
  | error e => exact herror e t h

/-- A step that is attempted ends as it would, or has failed and been reported. -/
theorem ends_attempt [Journal σ] {s : σ} {label : String} {otherwise : α} {step : Step σ α}
    {Q R : Except Fault α → σ → Prop} (h : Ends s step Q) (hok : ∀ a t, Q (.ok a) t → R (.ok a) t)
    (herror : ∀ e t log, Q (.error e) t → R (.ok otherwise) (Journal.setLog t log)) :
    Ends s (attempt label otherwise step) R := by
  unfold Ends at h ⊢
  rw [on_attempt]
  rcases hstep : step.on s with ⟨r, t⟩
  rw [hstep] at h
  cases r with
  | ok a => exact hok a t h
  | error e => exact herror e t _ h

/-- The property holds after the step, whatever its outcome, if it held before. -/
def Keeps (P : σ → Prop) (step : Step σ α) : Prop :=
  ∀ s, P s → P (step.on s).2

variable {P : σ → Prop}

theorem Quiet.keeps {step : Step σ α} (h : Quiet step) : Keeps P step := by
  intro s hs
  rwa [h s]

theorem keeps_modify {f : σ → σ} (h : ∀ s, P s → P (f s)) :
    Keeps P (modify f : Step σ PUnit) := fun s hs => h s hs

theorem keeps_report [Journal σ] (h : ∀ s log, P s → P (Journal.setLog s log)) (level : Level)
    (text : String) : Keeps P (report level text : Step σ Unit) := fun s hs => h s _ hs

/-- The value is what the step answers in some state. -/
def Answers (step : Step σ α) (a : α) : Prop :=
  ∃ s, (step.on s).1 = .ok a

/-- From states with the property, the step answers only such values. -/
def Yields (P : σ → Prop) (step : Step σ α) (Q : α → Prop) : Prop :=
  ∀ s, P s → ∀ a, (step.on s).1 = .ok a → Q a

theorem Reads.yields {s : σ} {step : Step σ α} {Q : α → Prop} {E : Fault → Prop}
    (h : Reads s step Q E) (a : α) (ha : (step.on s).1 = .ok a) : Q a := by
  have := h.2
  rwa [ha] at this

theorem yields_lift {Q : α → Prop} {x : Except Fault α} (h : ∀ a, x = .ok a → Q a) :
    Yields P (lift x : Step σ α) Q := by
  intro s _ a ha
  rw [on_lift] at ha
  exact h a ha

/-- In a sequence, the second part may use what is known about the answers of the first. -/
theorem keeps_bind_of_yields {x : Step σ α} {f : α → Step σ β} {Q : α → Prop} (hx : Keeps P x)
    (hq : Yields P x Q) (hf : ∀ a, Q a → Keeps P (f a)) : Keeps P (x >>= f) := by
  intro s hs
  have ht := hx s hs
  have ha := hq s hs
  rcases h : x.on s with ⟨r, t⟩
  rw [h] at ht ha
  cases r with
  | ok a => rw [on_bind_ok h]; exact hf a (ha a rfl) t ht
  | error e => rwa [on_bind_error h]

theorem keeps_bind {x : Step σ α} {f : α → Step σ β} (hx : Keeps P x) (hf : ∀ a, Keeps P (f a)) :
    Keeps P (x >>= f) :=
  keeps_bind_of_yields hx (Q := fun _ => True) (fun _ _ _ _ => trivial) fun a _ => hf a

theorem keeps_forM {xs : List α} {f : α → Step σ Unit} (h : ∀ x ∈ xs, Keeps P (f x)) :
    Keeps P (xs.forM f) := by
  induction xs with
  | nil => exact (quiet_pure ()).keeps
  | cons x rest ih =>
    have hrest : Keeps P (rest.forM f) := ih fun y hy => h y (List.mem_cons_of_mem _ hy)
    exact keeps_bind (h x List.mem_cons_self) fun _ => hrest

/-- What holds after the first part of a sequence, and is kept by the second, holds after the sequence. -/
theorem holds_bind {x : Step σ α} {f : α → Step σ β} {s : σ} (hx : P (x.on s).2)
    (hf : ∀ a, Keeps P (f a)) : P ((x >>= f).on s).2 := by
  rcases h : x.on s with ⟨r, t⟩
  rw [h] at hx
  cases r with
  | ok a => rw [on_bind_ok h]; exact hf a t hx
  | error e => rwa [on_bind_error h]

/-- After a look at the state, the rest of the step may use that it has seen the state itself. -/
theorem keeps_get_bind {f : σ → Step σ β} (h : ∀ s, P s → P ((f s).on s).2) :
    Keeps P (get >>= f) := fun s hs => h s hs

end Handset.Step
