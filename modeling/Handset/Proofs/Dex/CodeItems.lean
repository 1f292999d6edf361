import Handset.Proofs.Dex.Passes
import Handset.Proofs.Steps

/-!
# The code items of an image

Code is read in the last pass only. What stands under an offset of an image, whole or cut short, is the code
item that can be read at that offset. Its words are unsigned, so no handler lies before the code.
-/
namespace Handset.Dex

open Step (exists_of_bind_eq_ok)

variable {d : Bytes} {image : Image}

/-- Under each offset stands the code item that can be read there. -/
def CodeRead (d : Bytes) (code : Table Nat CodeItem) : Prop :=
  ∀ offset item, Table.find? code offset = some item → readCodeItem d offset = .ok item

theorem codeRead_readCodeOf (methods : List Method) {code : Table Nat CodeItem} (h : CodeRead d code) :
    CodeRead d (readCodeOf d methods code).1 := by
  induction methods generalizing code with
  | nil => exact h
  | cons m rest ih =>
    unfold readCodeOf
    split
    · exact ih h
    · cases hread : readCodeItem d m.codeOffset with
      | error e => exact h
      | ok item =>
        apply ih
        intro offset found hfound
        rw [Table.find?_put] at hfound
        split at hfound
        next hsame =>
          obtain rfl := Option.some.inj hfound
          rw [← beq_iff_eq.mp hsame, hread]
        next => exact h offset found hfound

/-! ### The passes before -/

theorem code_readClass (d : Bytes) (image : Image) (start : Nat) :
    (readClass d image start).1.code = image.code := by
  unfold readClass
  split
  · rfl
  · split
    · rfl
    · dsimp only
      split <;> rfl

theorem code_readClassesFrom (left start : Nat) (image : Image) :
    (readClassesFrom d left start image).1.code = image.code := by
  induction left generalizing start image with
  | zero => rfl
  | succ left ih =>
    have hclass := code_readClass d image start
    unfold readClassesFrom
    split
    next hread => rwa [hread] at hclass
    next hread =>
      rw [hread] at hclass
      rw [ih, hclass]

/-- The code of an image is what can be read at its offset. -/
theorem codeRead_parse (d : Bytes) : CodeRead d (parse d).1.code := by
  unfold parse
  rcases readHeader d with ⟨header, fault⟩
  have hstart : (({ header } : Image), fault).1.code = [] := rfl
  have hstrings := keeps_andThen Image.code (readStrings d) hstart fun _ => rfl
  have htypes := keeps_andThen Image.code (readTypes d) hstrings fun _ => rfl
  have hprotos := keeps_andThen Image.code (readProtos d) htypes fun _ => rfl
  have hfields := keeps_andThen Image.code (readFields d) hprotos fun _ => rfl
  have hmethods := keeps_andThen Image.code (readMethods d) hfields fun _ => rfl
  have hclasses := keeps_andThen Image.code (readClasses d) hmethods fun _ => code_readClassesFrom _ _ _
  have hnone : CodeRead d [] := nofun
  dsimp only
  generalize Partial.andThen _ (readClasses d) = p at hclasses ⊢
  unfold Partial.andThen
  split
  next image => exact codeRead_readCodeOf _ hnone
  next image e =>
    rw [hclasses]
    exact hnone

/-! ### Handlers -/

theorem handler_readTryBlock {offset : Nat} {t : TryBlock} (h : readTryBlock d offset = .ok t) :
    0 ≤ t.handler := by
  obtain ⟨start, -, h⟩ := exists_of_bind_eq_ok h
  obtain ⟨count, -, h⟩ := exists_of_bind_eq_ok h
  obtain ⟨handler, -, h⟩ := exists_of_bind_eq_ok h
  obtain rfl := Except.ok.inj h
  exact Int.natCast_nonneg handler

theorem handler_readCodeItem {offset : Nat} {item : CodeItem} (h : readCodeItem d offset = .ok item) :
    ∀ t ∈ item.tries, 0 ≤ t.handler := by
  intro t ht
  obtain ⟨registersSize, -, h⟩ := exists_of_bind_eq_ok h
  obtain ⟨insSize, -, h⟩ := exists_of_bind_eq_ok h
  obtain ⟨outsSize, -, h⟩ := exists_of_bind_eq_ok h
  obtain ⟨triesSize, -, h⟩ := exists_of_bind_eq_ok h
  obtain ⟨_, -, h⟩ := exists_of_bind_eq_ok h
  obtain ⟨count, -, h⟩ := exists_of_bind_eq_ok h
  obtain ⟨instructions, -, h⟩ := exists_of_bind_eq_ok h
  obtain ⟨tries, htries, h⟩ := exists_of_bind_eq_ok h
  obtain rfl := Except.ok.inj h
  obtain ⟨j, hj⟩ := (collected_of_readAll htries).exists_read ht
  exact handler_readTryBlock hj

end Handset.Dex
