import Handset.Proofs.Machine.Returns
import Handset.Proofs.Value.IntegerOperations
import Mathlib.Tactic.Ring

/-!
# How results are handed over

A return leaves its result on the value stack and the next instruction of the caller takes it from there. A
single result is left as one value and taken as one. A pair is left as one value too, the number of its two
words, but is taken as two: the first is the whole number, and the second is whatever the caller had on top
of its stack, which is gone afterwards.
-/
namespace Handset.Act

open Step

open Dex (Instruction)

variable {pools : Pools} {i j : Instruction} {m : Machine} {s : Services} {lo hi : Int} {v : Value}

/-- Returns a result and takes it: `return` and `move-result`, `return-object` and `move-result-object` for
single results, `return-wide` and `move-result-wide` for pairs. -/
def handOver (pools : Pools) (width : Width) (i j : Instruction) : Act Unit := do
  perform pools (.returnValue width) i
  perform pools (.moveResult width) j

/-! ### The value stack -/

theorem on_push (hs : m.services = some s) (v : Value) :
    (push v).on m = (.ok (), { m with services := some { s with stack := v :: s.stack } }) := by
  simp only [push, service, on_bind, on_get, hs, on_pure]
  rfl

theorem on_popFrame (hs : m.services = some s) (hframes : 0 < s.frames) :
    popFrame.on m = (.ok (), { m with services := some { s with frames := s.frames - 1 } }) := by
  simp only [popFrame, service, on_bind, on_get, hs, on_pure, if_neg (Int.not_le.mpr hframes)]
  rfl

theorem on_pop {rest : List Value} (hs : m.services = some s) (hstack : s.stack = v :: rest) :
    pop.on m = (.ok v, { m with services := some { s with stack := rest } }) := by
  simp only [pop, service, on_bind, on_get, hs, on_pure, hstack]
  rfl

theorem on_pop_of_empty (hs : m.services = some s) (hstack : s.stack = []) :
    pop.on m = (.error (.refused .emptyStack), m) := by
  simp only [pop, service, on_bind, on_get, hs, on_pure, hstack]
  rfl

/-! ### The number of a pair -/

theorem shiftUp_word_cases (hi : Int) (memory : Memory) :
    (Value.int hi).shiftUp (.int 32) memory = .ok (.int (hi * 2 ^ 32)) ∨
      ∃ e, (Value.int hi).shiftUp (.int 32) memory = .error e := by
  by_cases hfits : Value.Fits memory hi 32
  · exact .inl (Value.shiftUp_of_fits (w := .int 32) (y := 32) rfl rfl (by decide) hfits)
  · rcases Value.shiftUp_of_not_fits (v := .int hi) (w := .int 32) (y := 32) rfl rfl (by decide) hfits with
      hlarge | hmemory
    · exact .inr ⟨_, hlarge⟩
    · exact .inr ⟨_, hmemory⟩

/-- The number of a pair is read, unless its high word is too large to be shifted. -/
theorem on_load_wide {n : Nat} (hlo : m.registers[n]? = some (.int lo))
    (hhi : m.registers[n + 1]? = some (.int hi)) (hlow : 0 ≤ lo) (hword : lo < 2 ^ 32) :
    (load .wide n).on m =
      (((Value.int hi).shiftUp (.int 32) m.memory).map fun _ => .int (hi * 2 ^ 32 + lo), m) := by
  have hor : (Value.int (hi * 2 ^ 32)).or (.int lo) = .ok (.int (hi * 2 ^ 32 + lo)) := by
    rw [← Bitwise.either_eq_add hlow hword]
    rfl
  simp only [load, pair, on_bind, on_register, hhi]
  rcases shiftUp_word_cases hi m.memory with hshift | ⟨e, hshift⟩
  · simp only [on_withMemory_eq hshift, hshift, on_lift, hlo, hor]
    rfl
  · simp only [on_withMemory_eq hshift, hshift]
    rfl

/-! ### Returning and taking -/

theorem on_returnValue {width : Width} (hs : m.services = some s) (hframes : 0 < s.frames)
    (hload : (load width i.a).on m = (.ok v, m)) :
    (returnValue width i).on m =
      (.ok (), { m with services := some { s with stack := v :: s.stack, frames := s.frames - 1 } }) := by
  rw [returnValue, on_bind_ok hload, on_bind_ok (on_popFrame hs hframes), on_push rfl]

theorem on_handOver {width : Width} (hs : m.services = some s) (hframes : 0 < s.frames)
    (hload : (load width i.a).on m = (.ok v, m)) :
    (handOver pools width i j).on m = (moveResult width j).on
      { m with services := some { s with stack := v :: s.stack, frames := s.frames - 1 } } :=
  on_bind_ok (on_returnValue hs hframes hload) _

theorem on_moveResult_single {rest : List Value} (hs : m.services = some s) (hstack : s.stack = v :: rest)
    (htarget : j.a < m.registers.size) :
    (moveResult .single j).on m =
      (.ok (), { m with
        registers := m.registers.setIfInBounds j.a v
        services := some { s with stack := rest }
        pc := m.pc + 1 }) := by
  have hset := on_setRegister j.a v { m with services := some { s with stack := rest } }
  rw [if_pos (by exact htarget)] at hset
  rw [moveResult, on_bind_ok (on_pop hs hstack), on_bind_ok hset]
  rfl

theorem on_moveResult_wide {low high : Value} {rest : List Value} (hs : m.services = some s)
    (hstack : s.stack = low :: high :: rest) (htarget : j.a + 1 < m.registers.size) :
    (moveResult .wide j).on m =
      (.ok (), { m with
        registers := (m.registers.setIfInBounds j.a low).setIfInBounds (j.a + 1) high
        services := some { s with stack := rest }
        pc := m.pc + 1 }) := by
  have hlow := on_setRegister j.a low { m with services := some { s with stack := rest } }
  rw [if_pos (by exact Nat.lt_of_succ_lt htarget)] at hlow
  have hhigh := on_setRegister (j.a + 1) high
    { m with services := some { s with stack := rest }, registers := m.registers.setIfInBounds j.a low }
  rw [if_pos (by rw [Array.size_setIfInBounds]; exact htarget)] at hhigh
  rw [moveResult, on_bind_ok (on_pop hs hstack), on_bind_ok (on_pop rfl rfl), on_bind_ok hlow,
    on_bind_ok hhigh]
  rfl

theorem on_moveResult_wide_of_one (hs : m.services = some s) (hstack : s.stack = [v]) :
    (moveResult .wide j).on m =
      (.error (.refused .emptyStack), { m with services := some { s with stack := [] } }) := by
  rw [moveResult, on_bind_ok (on_pop hs hstack), on_bind_error (on_pop_of_empty rfl rfl)]

/-- With a frame to leave, a single result arrives in the register that it is taken to, and the value stack is
as it was. A pair does not arrive: the number of both words is taken for the low word and the value that the
caller had on top of its stack for the high word, which leaves the stack one value short, and if the stack was
empty the taking fails. The words in the registers are those returned only if the high word was zero and the
caller's value is the same zero. -/
theorem result_handover (pools : Pools) (i j : Instruction) (hs : m.services = some s)
    (hframes : 0 < s.frames) :
    (∀ v, m.registers[i.a]? = some v → j.a < m.registers.size →
      (handOver pools .single i j).on m =
        (.ok (), { m with
          registers := m.registers.setIfInBounds j.a v
          services := some { s with frames := s.frames - 1 }
          pc := m.pc + 1 })) ∧
    ∀ lo hi : Int, m.registers[i.a]? = some (.int lo) → m.registers[i.a + 1]? = some (.int hi) →
      0 ≤ lo → lo < 2 ^ 32 → j.a + 1 < m.registers.size →
      (∀ e, (Value.int hi).shiftUp (.int 32) m.memory = .error e →
        (handOver pools .wide i j).on m = (.error e, m)) ∧
      ((Value.int hi).shiftUp (.int 32) m.memory = .ok (.int (hi * 2 ^ 32)) →
        (s.stack = [] → (handOver pools .wide i j).on m = (.error (.refused .emptyStack),
          { m with services := some { s with frames := s.frames - 1 } })) ∧
        ∀ w rest, s.stack = w :: rest → ∃ t, (handOver pools .wide i j).on m = (.ok (), t) ∧
          t = { m with
            registers := (m.registers.setIfInBounds j.a (.int (hi * 2 ^ 32 + lo))).setIfInBounds (j.a + 1) w
            services := some { s with stack := rest, frames := s.frames - 1 }
            pc := m.pc + 1 } ∧
          (t.registers[j.a]? = some (.int lo) ∧ t.registers[j.a + 1]? = some (.int hi) ↔
            hi = 0 ∧ w = .int 0)) := by
  constructor
  · intro v hv htarget
    have hload : (load .single i.a).on m = (.ok v, m) := by
      rw [load, on_register, hv]
    rw [on_handOver hs hframes hload, on_moveResult_single rfl rfl (by exact htarget)]
  · intro lo hi hlo hhi hlow hword htarget
    have hload := on_load_wide hlo hhi hlow hword
    refine ⟨fun e he => ?_, fun hshift => ?_⟩
    · rw [he] at hload
      exact on_bind_error (on_bind_error hload _) _
    · rw [hshift] at hload
      have hreturn : (handOver pools .wide i j).on m = _ := on_handOver hs hframes hload
      refine ⟨fun hempty => ?_, fun w rest hstack => ?_⟩
      · rw [hreturn, on_moveResult_wide_of_one rfl (by rw [hempty])]
        rw [hempty]
      · refine ⟨_, ?_, rfl, ?_⟩
        · rw [hreturn, on_moveResult_wide rfl (by rw [hstack]) (by exact htarget)]
        · have hfirst : j.a < m.registers.size := Nat.lt_of_succ_lt htarget
          simp only [Array.getElem?_setIfInBounds, Array.size_setIfInBounds, hfirst, htarget]
          simp only [if_true, if_neg (Nat.succ_ne_self j.a), Option.some.injEq, Value.int.injEq]
          constructor
          · rintro ⟨hsum, rfl⟩
            have hzero : hi = 0 := by omega
            exact ⟨hzero, by rw [hzero]⟩
          · rintro ⟨rfl, rfl⟩
            exact ⟨by omega, rfl⟩

/-- A machine in a called method whose caller has one value on the stack, with the words 7 and 3 of a pair. -/
def pairReturning : Machine where
  registers := #[.int 7, .int 3]
  services := some { stack := [.int 99], frames := 1 }

theorem handover_from_pairReturning :
    pairReturning.services = some { stack := [.int 99], frames := 1 } ∧
    (handOver {} .single ⟨0x10, 0, 0⟩ ⟨0, 0, 0⟩).on pairReturning =
      (.ok (), { pairReturning with
        registers := #[.int 3, .int 3], services := some { stack := [.int 99] }, pc := 1 }) ∧
    ∃ t, (handOver {} .wide ⟨0, 0, 0⟩ ⟨0, 0, 0⟩).on pairReturning = (.ok (), t) ∧
      t.registers = #[.int 12884901895, .int 99] ∧ t.services = some {} := by
  obtain ⟨hsingle, -⟩ := result_handover (m := pairReturning) (s := { stack := [.int 99], frames := 1 })
    {} ⟨0x10, 0, 0⟩ ⟨0, 0, 0⟩ rfl (by decide)
  obtain ⟨-, hpair⟩ := result_handover (m := pairReturning) (s := { stack := [.int 99], frames := 1 })
    {} ⟨0, 0, 0⟩ ⟨0, 0, 0⟩ rfl (by decide)
  obtain ⟨t, hrun, rfl, -⟩ :=
    ((hpair 7 3 rfl rfl (by decide) (by decide) (by decide)).2 rfl).2 (.int 99) [] rfl
  exact ⟨rfl, hsingle (.int 3) rfl (by decide), _, hrun, rfl, rfl⟩

/-- The words 7 and 3 are returned, and the number of both and the caller's own value arrive. -/
theorem pair_result_lost :
    ∃ t, (handOver {} .wide ⟨0, 0, 0⟩ ⟨0, 0, 0⟩).on pairReturning = (.ok (), t) ∧
      t.registers[0]? ≠ pairReturning.registers[0]? ∧ t.registers[1]? ≠ pairReturning.registers[1]? ∧
      t.services.map Services.stack ≠ pairReturning.services.map Services.stack := by
  have hrun : (handOver {} .wide ⟨0, 0, 0⟩ ⟨0, 0, 0⟩).on pairReturning =
      (.ok (), { pairReturning with
        registers := #[.int 12884901895, .int 99], services := some {}, pc := 1 }) := rfl
  exact ⟨_, hrun, by simp [pairReturning], by simp [pairReturning], by simp [pairReturning]⟩

end Handset.Act
