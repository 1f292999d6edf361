import Handset.Proofs.Machine.Runs

/-!
# Allocation

Creating an object takes the next number and then, if the used share of the heap has reached the threshold,
collects, with the registers as they still are. An instruction that creates an object finds the class,
creates, and only then writes the number to its register.
-/
namespace Handset

open Step

open Dex (CodeItem Instruction)

/-- Has the used share of the heap reached the threshold? -/
def Machine.isFull (m : Machine) : Except Fault Bool := do
  Value.compare .ge (.double (← m.share)) m.threshold

namespace Act

variable {m : Machine} {className : Value} {id : Nat}

theorem on_collectIfNeeded (m : Machine) :
    ∃ log, collectIfNeeded.on m = match m.isFull with
      | .ok true => collect.on { m with log }
      | .ok false => (.ok (), m)
      | .error e => (.error e, m) := by
  simp only [collectIfNeeded, on_bind, on_get, on_lift, Machine.isFull]
  cases m.share with
  | error e => exact ⟨m.log, rfl⟩
  | ok share =>
    cases hfull : Value.compare .ge (.double share) m.threshold with
    | error e => exact ⟨m.log, by simp only [bind, Except.bind, hfull]⟩
    | ok full =>
      simp only [bind, Except.bind, hfull]
      cases full with
      | true => exact ⟨_, rfl⟩
      | false => exact ⟨m.log, rfl⟩

/-- Creation that returns has found room or collected, after the object was put into its cell. -/
theorem on_announce_ok {t : Machine} {n : Nat} (h : (announce className id).on m = (.ok n, t)) :
    n = id ∧ ∃ log, collectIfNeeded.on { m with log } = (.ok (), t) := by
  obtain ⟨shown, -, h⟩ := (quiet_lift _).exists_of_on_bind h
  rw [on_bind_ok (on_report _ _ m)] at h
  obtain ⟨_, s, hcollect, h⟩ := exists_of_on_bind h
  obtain ⟨hn, rfl⟩ := Prod.mk.inj h
  exact ⟨(Except.ok.inj hn).symm, _, hcollect⟩

theorem size_announce (className : Value) (id : Nat) (m : Machine) :
    ((announce className id).on m).2.cells.size = m.cells.size := by
  have hreport (level : Level) (text : String) :
      Keeps (fun s => s.cells.size = m.cells.size) (report level text : Act Unit) :=
    keeps_report (fun _ _ hs => hs) level text
  have hsweep (keep : Nat → Bool) : Keeps (fun s => s.cells.size = m.cells.size) (sweep keep) :=
    keeps_bind quiet_get.keeps fun _ => keeps_bind (keeps_removeObjects (fun s p _ hs => by
      simpa [Machine.setCell] using hs) (fun _ _ hs => hs)) fun _ => hreport _ _
  have hcollect : Keeps (fun s => s.cells.size = m.cells.size) collectIfNeeded :=
    keeps_collectIfNeeded hreport (keeps_collect hreport (fun _ _ hs => hs) hsweep)
  exact keeps_announce hreport hcollect className id m rfl

theorem nextId_createObject (className : Value) (m : Machine) :
    ((createObject className).on m).2.nextId = m.nextId + 1 := by
  unfold Machine.nextId
  rw [on_createObject]
  split
  · rw [size_announce, Array.size_push]
  · rw [Array.size_push]

theorem eq_nextId_of_createObject (h : ((createObject className).on m).1 = .ok id) : id = m.nextId := by
  rw [on_createObject] at h
  split at h
  next used _ =>
    rcases hannounce : (announce className m.nextId).on
      { m with cells := m.cells.push (.object { className }), used } with ⟨outcome, t⟩
    rw [hannounce] at h
    obtain rfl : outcome = .ok id := h
    exact (on_announce_ok hannounce).1
  next => cases h

def instanceClass (pools : Pools) (i : Instruction) : Act Value := do
  let index ← operand i 2 2
  lift (Dex.entry pools.types index)

/-- What a creating instruction does with the number of the object. -/
def keepNumber (i : Instruction) (className : Value) (id : Nat) : Act Unit := do
  setRegister i.a (.int id)
  let shown ← lift className.written
  report .debug s!"创建实例: {shown} (ID: {id})"
  advance 2

theorem newInstance_eq (pools : Pools) (i : Instruction) :
    newInstance pools i = (do
      let className ← instanceClass pools i
      let id ← createObject className
      keepNumber i className id) := by
  simp only [newInstance, instanceClass, keepNumber, bind_assoc]

theorem quiet_instanceClass (pools : Pools) (i : Instruction) : Quiet (instanceClass pools i) :=
  quiet_bind (quiet_operand _ _ _) fun _ => quiet_lift _

theorem instanceClass_congr (pools : Pools) (i : Instruction) {m s : Machine}
    (h : m.services = s.services) :
    ((instanceClass pools i).on m).1 = ((instanceClass pools i).on s).1 := by
  simp only [instanceClass, operand, service, on_bind, on_get, h]
  cases s.services with
  | none => rfl
  | some services =>
    simp only [on_pure, on_lift]
    cases Dex.word services.code 2 (i.offset + 2) <;> rfl

theorem on_keepNumber_ok {i : Instruction} {s t : Machine}
    (h : (keepNumber i className id).on s = (.ok (), t)) :
    t.objects = s.objects ∧ t.registers[i.a]? = some (.int id) := by
  obtain ⟨_, w, hset, h⟩ := exists_of_on_bind h
  obtain ⟨shown, -, h⟩ := (quiet_lift _).exists_of_on_bind h
  rw [on_bind_ok (on_report _ _ w)] at h
  obtain rfl := congrArg Prod.snd h
  rw [on_setRegister] at hset
  split at hset
  next hsize =>
    obtain rfl := congrArg Prod.snd hset
    exact ⟨rfl, Array.getElem?_setIfInBounds_self_of_lt hsize⟩
  next => cases hset

end Act

end Handset
