import Handset.Dex.Parsing

/-!
# How far the tables of an image are read

The passes over an image fill its tables in a fixed order, and each goes on only if the one before has
read all that the header announced. After a pass the tables so far are full and the others empty; where
the reading stops, one table may be cut short and those behind it have not been begun.
-/
namespace Handset.Dex

variable {α : Type}

/-- The entries were read in turn, up to the first that fails. -/
structure Collected (read : Nat → Except Fault α) (count : Nat) (p : Partial (Array α)) : Prop where
  read_eq : ∀ j a, p.1[j]? = some a → read j = .ok a
  size_le : p.1.size ≤ count
  full : p.2 = none → p.1.size = count

theorem collected_from (read : Nat → Except Fault α) (left : Nat) (acc : Array α)
    (hacc : ∀ j a, acc[j]? = some a → read j = .ok a) :
    Collected read (acc.size + left) (collectFrom read left acc.size acc) := by
  induction left generalizing acc with
  | zero => exact ⟨hacc, Nat.le_refl _, fun _ => rfl⟩
  | succ left ih =>
    unfold collectFrom
    cases hread : read acc.size with
    | error e => exact ⟨hacc, Nat.le_add_right _ _, nofun⟩
    | ok a =>
      have hpush : ∀ j b, (acc.push a)[j]? = some b → read j = .ok b := by
        intro j b hb
        rw [Array.getElem?_push] at hb
        split at hb
        next hj =>
          obtain rfl := Option.some.inj hb
          rw [hj, hread]
        next => exact hacc j b hb
      have hrest := ih (acc.push a) hpush
      rw [Array.size_push, Nat.add_assoc, Nat.add_comm 1 left] at hrest
      exact hrest

theorem collected (count : Nat) (read : Nat → Except Fault α) :
    Collected read count (collect count read) := by
  have h := collected_from read count #[] (by simp)
  rwa [Array.size_empty, Nat.zero_add] at h

/-- Every entry that was collected could be read. -/
theorem Collected.exists_read {read : Nat → Except Fault α} {count : Nat} {p : Partial (Array α)}
    (h : Collected read count p) {a : α} (ha : a ∈ p.1) : ∃ j, read j = .ok a := by
  obtain ⟨j, hj⟩ := Array.getElem?_of_mem ha
  exact ⟨j, h.read_eq j a hj⟩

theorem collected_of_readAll {count : Nat} {read : Nat → Except Fault α} {entries : Array α}
    (h : readAll count read = .ok entries) : Collected read count (entries, none) := by
  have hcollected := collected count read
  unfold readAll at h
  split at h
  next hread =>
    obtain rfl := Except.ok.inj h
    rwa [hread] at hcollected
  next => cases h

/-! ### One pass after the other -/

/-- The next pass starts from what the reading has left, unless the reading has stopped there. -/
theorem holds_andThen {P Q : α → Prop} {p : Partial α} {next : α → Partial α} (h : P p.1)
    (hstop : ∀ a, P a → Q a) (hnext : ∀ a, P a → Q (next a).1) : Q (p.andThen next).1 := by
  obtain ⟨a, fault⟩ := p
  cases fault with
  | none => exact hnext a h
  | some e => exact hstop a h

/-- What neither the reading so far nor the next pass changes. -/
theorem keeps_andThen {β : Type} (f : α → β) {p : Partial α} {b : β} (next : α → Partial α) (h : f p.1 = b)
    (hnext : ∀ a, f (next a).1 = f a) : f (p.andThen next).1 = b :=
  holds_andThen (P := fun a => f a = b) (Q := fun a => f a = b) h (fun _ ha => ha) fun a ha => (hnext a).trans ha

theorem exists_of_andThen {p : Partial α} {next : α → Partial α} (h : (p.andThen next).2 = none) :
    ∃ a, p = (a, none) ∧ p.andThen next = next a := by
  obtain ⟨a, fault⟩ := p
  cases fault with
  | none => exact ⟨a, rfl, rfl⟩
  | some e => cases h

/-- The tables whose sizes the header gives. -/
inductive TableKind where
  | strings
  | types
  | protos
  | fields
  | methods
  | classes
deriving DecidableEq

namespace TableKind

/-- The place of a table in the order of reading. -/
def rank : TableKind → Nat
  | strings => 0
  | types => 1
  | protos => 2
  | fields => 3
  | methods => 4
  | classes => 5

/-- The word of the header that gives the size of a table. -/
def counted : TableKind → HeaderWord
  | strings => .stringIdsSize
  | types => .typeIdsSize
  | protos => .protoIdsSize
  | fields => .fieldIdsSize
  | methods => .methodIdsSize
  | classes => .classDefsSize

theorem rank_injective {k l : TableKind} (h : k.rank = l.rank) : k = l := by
  cases k <;> cases l <;> first | rfl | cases h

theorem rank_lt (k : TableKind) : k.rank < 6 := by
  cases k <;> decide

end TableKind

namespace Image

/-- The size of a table. -/
def tableSize (image : Image) : TableKind → Nat
  | .strings => image.strings.size
  | .types => image.types.size
  | .protos => image.protos.size
  | .fields => image.fields.size
  | .methods => image.methods.size
  | .classes => image.classes.size

/-- The first `n` tables are as long as the header says, and the others are empty. -/
def ReadUpTo (image : Image) (n : Nat) : Prop :=
  ∀ k, image.tableSize k = if k.rank < n then image.header.word k.counted else 0

/-- No table is longer than the header says, and behind one that is shorter all are empty. -/
structure FilledInOrder (image : Image) : Prop where
  size_le : ∀ k, image.tableSize k ≤ image.header.word k.counted
  later_empty : ∀ k l, k.rank < l.rank → image.tableSize k < image.header.word k.counted →
    image.tableSize l = 0

/-- An image gets a table of another size. -/
structure Resized (image next : Image) (kind : TableKind) (size : Nat) : Prop where
  header : next.header = image.header
  tableSize : ∀ k, next.tableSize k = if k = kind then size else image.tableSize k

variable {image next : Image} {kind : TableKind} {size : Nat}

theorem ReadUpTo.filledInOrder (h : image.ReadUpTo kind.rank) (hnext : image.Resized next kind size)
    (hle : size ≤ image.header.word kind.counted) : next.FilledInOrder := by
  have hothers (k : TableKind) (hk : k ≠ kind) :
      next.tableSize k = if k.rank < kind.rank then image.header.word k.counted else 0 := by
    rw [hnext.tableSize, if_neg hk, h k]
  refine ⟨fun k => ?_, fun k l hkl hshort => ?_⟩
  · rw [hnext.header]
    by_cases hk : k = kind
    · rwa [hnext.tableSize, if_pos hk, hk]
    · rw [hothers k hk]
      split <;> omega
  · rw [hnext.header] at hshort
    -- the short table is not one of those before the pass, so the later one is behind it
    have hrank : kind.rank ≤ k.rank := by
      refine Nat.le_of_not_lt fun hlt => ?_
      have hk : k ≠ kind := fun hk => Nat.lt_irrefl _ (hk ▸ hlt)
      rw [hothers k hk, if_pos hlt] at hshort
      exact Nat.lt_irrefl _ hshort
    have hl : l ≠ kind := fun hl => Nat.lt_irrefl _ (Nat.lt_of_lt_of_le hkl (hl ▸ hrank))
    rw [hothers l hl, if_neg (by omega)]

theorem ReadUpTo.succ (h : image.ReadUpTo kind.rank) (hnext : image.Resized next kind size)
    (hfull : size = image.header.word kind.counted) : next.ReadUpTo (kind.rank + 1) := by
  intro k
  rw [hnext.header, hnext.tableSize]
  by_cases hk : k = kind
  · rw [if_pos hk, hfull, hk, if_pos (Nat.lt_succ_self _)]
  · have hne : k.rank ≠ kind.rank := fun hrank => hk (TableKind.rank_injective hrank)
    rw [if_neg hk, h k]
    split <;> split <;> omega

end Image

end Handset.Dex
