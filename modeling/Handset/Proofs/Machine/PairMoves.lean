import Handset.Proofs.Machine.Footprint

/-!
# Moves of pairs

A move of a pair copies its words one after the other, the low word first. If the destination begins at the
second register of the source, the first copy has overwritten the high word before it is read, and the second
copy repeats the low word. In every other position, overlapping or not, the pair arrives.
-/
namespace Handset

open Dex (Instruction)

def Addressing.length : Addressing → Int
  | .packed => 1
  | .sourceWord => 2
  | .bothWords => 4

namespace Act

open Step

variable {m : Machine} {i : Instruction} {addressing : Addressing} {target source : Nat} {v w : Value}

/-- The word of two bytes that stands so many bytes behind the start of an instruction. -/
def Follows (m : Machine) (i : Instruction) (distance n : Nat) : Prop :=
  ∃ s, m.services = some s ∧ Dex.word s.code 2 (i.offset + distance) = .ok n

/-- The first registers of the pairs that a move names, the destination's and the source's. -/
def Designates (m : Machine) (i : Instruction) (addressing : Addressing) (target source : Nat) : Prop :=
  match addressing with
  | .packed => target = i.a ∧ source = i.b
  | .sourceWord => target = i.a ∧ Follows m i 1 source
  | .bothWords => Follows m i 1 target ∧ Follows m i 3 source

theorem Follows.on_operand {distance n : Nat} (h : Follows m i distance n) :
    (operand i distance 2).on m = (.ok n, m) := by
  obtain ⟨s, hs, hword⟩ := h
  exact Act.on_operand hs hword

theorem Designates.on_moveRegisters (h : Designates m i addressing target source) :
    (moveRegisters addressing i).on m = (.ok (target, source, addressing.length), m) := by
  cases addressing with
  | packed =>
    obtain ⟨rfl, rfl⟩ := h
    rfl
  | sourceWord =>
    obtain ⟨rfl, hsource⟩ := h
    rw [moveRegisters, on_bind_ok hsource.on_operand]
    rfl
  | bothWords =>
    obtain ⟨htarget, hsource⟩ := h
    rw [moveRegisters, on_bind_ok htarget.on_operand, on_bind_ok hsource.on_operand]
    rfl

/-- What the second copy of a move of the pair `v`, `w` finds and takes along. -/
def secondCopied (target source : Nat) (v w : Value) : Value :=
  if target = source + 1 then v else w

theorem getElem?_after_first_copy (htarget : target < m.registers.size)
    (hw : m.registers[source + 1]? = some w) :
    (m.registers.setIfInBounds target v)[source + 1]? = some (secondCopied target source v w) := by
  unfold secondCopied
  split
  next hoverlap => rw [← hoverlap, Array.getElem?_setIfInBounds_self_of_lt htarget]
  next happart => rw [Array.getElem?_setIfInBounds_ne happart, hw]

theorem on_move_wide (h : Designates m i addressing target source) (htarget : target + 1 < m.registers.size)
    (hv : m.registers[source]? = some v) (hw : m.registers[source + 1]? = some w) :
    (move addressing .wide i).on m =
      (.ok (), { m with
        registers := (m.registers.setIfInBounds target v).setIfInBounds (target + 1)
          (secondCopied target source v w)
        pc := m.pc + addressing.length }) := by
  have hfirst := on_setRegister target v m
  rw [if_pos (Nat.lt_of_succ_lt htarget)] at hfirst
  have hread := on_register_of_some (m := { m with registers := m.registers.setIfInBounds target v })
    (getElem?_after_first_copy (v := v) (Nat.lt_of_succ_lt htarget) hw)
  have hsecond := on_setRegister (target + 1) (secondCopied target source v w)
    { m with registers := m.registers.setIfInBounds target v }
  rw [if_pos (by rw [Array.size_setIfInBounds]; exact htarget)] at hsecond
  rw [move, on_bind_ok h.on_moveRegisters]
  dsimp only
  rw [on_bind_ok (on_register_of_some hv), on_bind_ok hfirst, on_bind_ok hread, on_bind_ok hsecond]
  rfl

/-- A move of a pair, in any of its forms and with both pairs in range, puts the low word into the first
register of the destination. The second register gets the high word, unless the destination begins at the
second register of the source: then it gets the low word once more. No other register changes. So the pair
arrives exactly if the destination does not begin there or the two words are the same. -/
theorem pair_moved_iff (pools : Pools) (i : Instruction) (m : Machine) (addressing : Addressing)
    (target source : Nat) (v w : Value) (hregisters : Designates m i addressing target source)
    (htarget : target + 1 < m.registers.size) (hv : m.registers[source]? = some v)
    (hw : m.registers[source + 1]? = some w) :
    ∃ t, (perform pools (.move addressing .wide) i).on m = (.ok (), t) ∧
      t.registers[target]? = some v ∧
      t.registers[target + 1]? = some (if target = source + 1 then v else w) ∧
      (∀ k, k ≠ target → k ≠ target + 1 → t.registers[k]? = m.registers[k]?) ∧
      t = { m with registers := t.registers, pc := m.pc + addressing.length } ∧
      (t.registers[target]? = some v ∧ t.registers[target + 1]? = some w ↔
        (target = source + 1 → v = w)) := by
  refine ⟨_, on_move_wide hregisters htarget hv hw, ?_⟩
  dsimp only
  have hlow : ((m.registers.setIfInBounds target v).setIfInBounds (target + 1)
      (secondCopied target source v w))[target]? = some v := by
    rw [Array.getElem?_setIfInBounds_ne (Nat.succ_ne_self target),
      Array.getElem?_setIfInBounds_self_of_lt (Nat.lt_of_succ_lt htarget)]
  have hhigh : ((m.registers.setIfInBounds target v).setIfInBounds (target + 1)
      (secondCopied target source v w))[target + 1]? = some (secondCopied target source v w) :=
    Array.getElem?_setIfInBounds_self_of_lt (by rw [Array.size_setIfInBounds]; exact htarget)
  refine ⟨hlow, hhigh, fun k hk hk' => ?_, rfl, ?_⟩
  · exact (Array.getElem?_setIfInBounds_ne hk'.symm).trans (Array.getElem?_setIfInBounds_ne hk.symm)
  · rw [hlow, hhigh, secondCopied]
    split
    next hoverlap => exact ⟨fun h _ => Option.some.inj h.2, fun h => ⟨rfl, congrArg some (h hoverlap)⟩⟩
    next happart => exact ⟨fun _ h => absurd h happart, fun _ => ⟨rfl, rfl⟩⟩

/-- Three words in a row, and code that names the registers 1 and 0, as words from byte 1 on. -/
def slidingMachine : Machine where
  registers := #[.int 7, .int 3, .int 5]
  services := some { code := #[0x10, 1, 0, 0, 0] }

theorem slidingMachine_designates :
    Designates slidingMachine ⟨0x10, 0, 0⟩ .packed 1 0 ∧ Designates slidingMachine ⟨0x10, 0, 2⟩ .sourceWord 1 0 ∧
      Designates slidingMachine ⟨0x10, 0, 0⟩ .bothWords 1 0 := by
  have hone : Follows slidingMachine ⟨0x10, 0, 0⟩ 1 1 := ⟨_, rfl, eq_ok_of_toOption (by decide +kernel)⟩
  have hzero : Follows slidingMachine ⟨0x10, 0, 0⟩ 3 0 := ⟨_, rfl, eq_ok_of_toOption (by decide +kernel)⟩
  have hlate : Follows slidingMachine ⟨0x10, 0, 2⟩ 1 0 := ⟨_, rfl, eq_ok_of_toOption (by decide +kernel)⟩
  exact ⟨⟨rfl, rfl⟩, ⟨rfl, hlate⟩, ⟨hone, hzero⟩⟩

/-- Downwards by one register the pair arrives; upwards by one register only its low word does. -/
theorem pair_moved_on_slidingMachine :
    (Designates slidingMachine ⟨0x01, 0, 0⟩ .packed 0 1 ∧
      ∃ t, (perform {} (.move .packed .wide) ⟨0x01, 0, 0⟩).on slidingMachine = (.ok (), t) ∧
        t.registers[0]? = some (.int 3) ∧ t.registers[1]? = some (.int 5)) ∧
    Designates slidingMachine ⟨0x10, 0, 0⟩ .bothWords 1 0 ∧
      ∃ t, (perform {} (.move .bothWords .wide) ⟨0x10, 0, 0⟩).on slidingMachine = (.ok (), t) ∧
        t.registers[1]? = some (.int 7) ∧ t.registers[2]? ≠ some (.int 3) := by
  obtain ⟨t, hdown, -, -, -, -, hcopied⟩ := pair_moved_iff {} ⟨0x01, 0, 0⟩ slidingMachine .packed 0 1
    (.int 3) (.int 5) ⟨rfl, rfl⟩ (by decide) rfl rfl
  obtain ⟨s, hup, hlow, -, -, -, hlost⟩ := pair_moved_iff {} ⟨0x10, 0, 0⟩ slidingMachine .bothWords 1 0
    (.int 7) (.int 3) slidingMachine_designates.2.2 (by decide) rfl rfl
  refine ⟨⟨⟨rfl, rfl⟩, t, hdown, hcopied.mpr nofun⟩, slidingMachine_designates.2.2, s, hup, hlow, fun hhigh => ?_⟩
  exact absurd (hlost.mp ⟨hlow, hhigh⟩ rfl) (by simp)

/-- In all forms of the move the high word 3 of the source is lost if the destination begins there. -/
theorem pair_move_loses_high_word :
    Designates slidingMachine ⟨0x10, 0, 0⟩ .packed 1 0 ∧ Designates slidingMachine ⟨0x10, 0, 2⟩ .sourceWord 1 0 ∧
      Designates slidingMachine ⟨0x10, 0, 0⟩ .bothWords 1 0 ∧
    slidingMachine.registers[0 + 1]? = some (.int 3) ∧
    ((perform {} (.move .packed .wide) ⟨0x10, 0, 0⟩).on slidingMachine).2.registers[1 + 1]? = some (.int 7) ∧
    ((perform {} (.move .sourceWord .wide) ⟨0x10, 0, 2⟩).on slidingMachine).2.registers[1 + 1]? =
      some (.int 7) ∧
    ((perform {} (.move .bothWords .wide) ⟨0x10, 0, 0⟩).on slidingMachine).2.registers[1 + 1]? =
      some (.int 7) := by
  obtain ⟨hpacked, hsource, hboth⟩ := slidingMachine_designates
  exact ⟨hpacked, hsource, hboth, rfl, rfl, rfl, rfl⟩

end Act

end Handset
