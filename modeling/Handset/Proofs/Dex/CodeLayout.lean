import Handset.Proofs.Dex.CodeItems
import Handset.Proofs.Dex.SampleParsing
import Handset.Proofs.Dex.TrailingBytes

/-!
# The layout of code items

A code item is its sizes, then two bytes for each instruction, then eight for each guarded range. It is read at
an offset exactly if these bytes stand there. Since the offset alone decides what is read, it does not matter how
many methods name it: the table has one item for each offset that a method has in the end.
-/
namespace Handset

namespace Bytes

/-- In so many bytes from this offset on stands this number, the lowest byte first. -/
def Spells (d : Bytes) (width offset n : Nat) : Prop :=
  n < 256 ^ width ∧ Holds d offset (littleEndian width n)

theorem littleEndian_ofLittleEndian (b : Bytes) :
    ofLittleEndian b < 256 ^ b.size ∧ littleEndian b.size (ofLittleEndian b) = b := by
  obtain ⟨bytes⟩ := b
  induction bytes with
  | nil => exact ⟨Nat.one_pos, rfl⟩
  | cons byte rest ih =>
    obtain ⟨hlt, hrest⟩ := ih
    have hbyte := byte.toNat_lt
    have hcons : (⟨byte :: rest⟩ : Bytes) = #[byte] ++ ⟨rest⟩ := by simp
    have hsize : (#[byte] ++ ⟨rest⟩ : Bytes).size = (⟨rest⟩ : Bytes).size + 1 := by simp
    rw [hcons, ofLittleEndian_cons, hsize, littleEndian]
    generalize ofLittleEndian ⟨rest⟩ = value at hlt hrest ⊢
    have hlow : (byte.toNat + 256 * value) % 256 = byte.toNat := by omega
    have hhigh : (byte.toNat + 256 * value) / 256 = value := by omega
    refine ⟨by rw [Nat.pow_succ]; omega, ?_⟩
    rw [hlow, hhigh, hrest, UInt8.ofNat_toNat]

theorem holds_of_getElem? {d block : Bytes} {o : Nat} (hle : o + block.size ≤ d.size)
    (h : ∀ k, k < block.size → d[o + k]? = block[k]?) : Holds d o block := by
  refine holds_iff_extract.mpr ⟨hle, Array.ext_getElem? fun k => ?_⟩
  rw [Array.getElem?_extract]
  split
  next hk => exact h k (by omega)
  next hk => exact (Array.getElem?_eq_none (by omega)).symm

end Bytes

namespace Dex

open Bytes (Holds Spells)
open Step (exists_of_bind_eq_ok)

variable {d : Bytes} {width offset n : Nat}

theorem word_eq_ok_iff (hwidth : 0 < width) : word d width offset = .ok n ↔ d.Spells width offset n := by
  refine ⟨fun h => ?_, fun h => word_of_holds h.2 h.1⟩
  have hle := le_of_word hwidth h
  simp only [word, ← Int.natCast_add] at h
  split at h
  next hsize =>
    obtain rfl := Except.ok.inj h
    obtain ⟨hlt, hbytes⟩ := Bytes.littleEndian_ofLittleEndian (Bytes.slice d offset (offset + width : Nat))
    rw [hsize] at hlt hbytes
    refine ⟨hlt, ?_⟩
    rw [hbytes]
    refine Bytes.holds_iff_extract.mpr ⟨by rwa [hsize], ?_⟩
    rw [hsize, Bytes.slice, Bytes.bound_of_le (by omega), Bytes.bound_of_le hle]
  next => cases h

theorem split_unit (low high : UInt8) : (low.toNat + 256 * high.toNat) % 256 = low.toNat ∧
    (low.toNat + 256 * high.toNat) / 256 = high.toNat := by
  have hbound := low.toNat_lt
  omega

theorem spells_two_iff : d.Spells 2 offset n ↔ ∃ low high : UInt8,
    d[offset]? = some low ∧ d[offset + 1]? = some high ∧ n = low.toNat + 256 * high.toNat := by
  constructor
  · rintro ⟨hlt, h⟩
    refine ⟨_, _, h.getElem? (k := 0) (by simp), h.getElem? (k := 1) (by simp), ?_⟩
    simp [Bytes.littleEndian]
    omega
  · rintro ⟨low, high, hlow, hhigh, rfl⟩
    have hbound := low.toNat_lt
    have hbound' := high.toNat_lt
    obtain ⟨hlt, -⟩ := Array.getElem?_eq_some_iff.mp hhigh
    obtain ⟨hmod, hdiv⟩ := split_unit low high
    have hbytes : Bytes.littleEndian 2 (low.toNat + 256 * high.toNat) = #[low, high] := by
      simp [Bytes.littleEndian, hmod, hdiv]
    refine ⟨by omega, ?_⟩
    rw [hbytes]
    refine Bytes.holds_of_getElem? (Nat.succ_le_of_lt hlt) fun k hk => ?_
    obtain rfl | rfl : k = 0 ∨ k = 1 := Nat.le_one_iff_eq_zero_or_eq_one.mp (Nat.le_of_lt_succ hk)
    · exact hlow
    · exact hhigh

/-! ### The parts of a code item -/

/-- The instruction is the two bytes at this offset, the opcode and the registers. -/
structure Instruction.StandsAt (d : Bytes) (offset : Nat) (i : Instruction) : Prop where
  opcode : d[offset]?.map UInt8.toNat = some i.opcode
  registers : d[offset + 1]?.map UInt8.toNat = some i.registers
  place : i.offset = offset

/-- The guarded range is the three numbers from this offset on. -/
def TryBlock.StandsAt (d : Bytes) (offset : Nat) (t : TryBlock) : Prop :=
  ∃ start count handler : Nat, t = ⟨start, count, handler⟩ ∧ d.Spells 4 offset start ∧
    d.Spells 2 (offset + 4) count ∧ d.Spells 2 (offset + 6) handler

/-- The code item is made of the bytes from this offset on. -/
structure CodeItem.StandsAt (d : Bytes) (offset : Nat) (item : CodeItem) : Prop where
  registersSize : d.Spells 2 offset item.registersSize
  insSize : d.Spells 2 (offset + 2) item.insSize
  outsSize : d.Spells 2 (offset + 4) item.outsSize
  triesSize : d.Spells 2 (offset + 6) item.triesSize
  size : d.Spells 4 (offset + 12) item.instructions.size
  size_tries : item.tries.size = item.triesSize
  instruction : ∀ j (i : Instruction), item.instructions[j]? = some i → i.StandsAt d (offset + 16 + 2 * j)
  tryBlock : ∀ k (t : TryBlock), item.tries[k]? = some t →
    t.StandsAt d (offset + 16 + 2 * item.instructions.size + 8 * k)

theorem readInstruction_eq_ok_iff {i : Instruction} :
    readInstruction d offset = .ok i ↔ i.StandsAt d offset := by
  constructor
  · intro h
    obtain ⟨unit, hunit, h⟩ := exists_of_bind_eq_ok h
    obtain ⟨low, high, hlow, hhigh, rfl⟩ := spells_two_iff.mp ((word_eq_ok_iff (by decide)).mp hunit)
    obtain rfl := Except.ok.inj h
    obtain ⟨hmod, hdiv⟩ := split_unit low high
    exact ⟨by rw [hlow, hmod]; rfl, by rw [hhigh, hdiv]; rfl, rfl⟩
  · obtain ⟨opcode, registers, place⟩ := i
    rintro ⟨hopcode, hregisters, hplace⟩
    obtain ⟨low, hlow, rfl⟩ := Option.map_eq_some_iff.mp hopcode
    obtain ⟨high, hhigh, rfl⟩ := Option.map_eq_some_iff.mp hregisters
    obtain rfl : place = offset := hplace
    have hunit : word d 2 offset = .ok (low.toNat + 256 * high.toNat) :=
      (word_eq_ok_iff (by decide)).mpr (spells_two_iff.mpr ⟨low, high, hlow, hhigh, rfl⟩)
    obtain ⟨hmod, hdiv⟩ := split_unit low high
    simp only [readInstruction, hunit, bind, Except.bind, pure, Except.pure, hmod, hdiv]

theorem readTryBlock_eq_ok_iff {t : TryBlock} : readTryBlock d offset = .ok t ↔ t.StandsAt d offset := by
  constructor
  · intro h
    obtain ⟨start, hstart, h⟩ := exists_of_bind_eq_ok h
    obtain ⟨count, hcount, h⟩ := exists_of_bind_eq_ok h
    obtain ⟨handler, hhandler, h⟩ := exists_of_bind_eq_ok h
    exact ⟨start, count, handler, (Except.ok.inj h).symm, (word_eq_ok_iff (by decide)).mp hstart,
      (word_eq_ok_iff (by decide)).mp hcount, (word_eq_ok_iff (by decide)).mp hhandler⟩
  · rintro ⟨start, count, handler, rfl, hstart, hcount, hhandler⟩
    rw [← word_eq_ok_iff (by decide)] at hstart hcount hhandler
    simp only [readTryBlock, hstart, hcount, hhandler, bind, Except.bind, pure, Except.pure]

theorem readAll_eq_ok_iff {α : Type} {count : Nat} {read : Nat → Except Fault α} {entries : Array α} :
    readAll count read = .ok entries ↔
      entries.size = count ∧ ∀ j a, entries[j]? = some a → read j = .ok a := by
  constructor
  · intro h
    have hcollected := collected_of_readAll h
    exact ⟨hcollected.full rfl, hcollected.read_eq⟩
  · rintro ⟨hsize, h⟩
    exact readAll_eq (l := entries.toList) (by simpa using hsize) (by simpa using h)

theorem readCodeItem_eq_ok_iff {item : CodeItem} :
    readCodeItem d offset = .ok item ↔ item.StandsAt d offset := by
  constructor
  · intro h
    obtain ⟨registersSize, hregisters, h⟩ := exists_of_bind_eq_ok h
    obtain ⟨insSize, hins, h⟩ := exists_of_bind_eq_ok h
    obtain ⟨outsSize, houts, h⟩ := exists_of_bind_eq_ok h
    obtain ⟨triesSize, htries, h⟩ := exists_of_bind_eq_ok h
    obtain ⟨_, -, h⟩ := exists_of_bind_eq_ok h
    obtain ⟨count, hcount, h⟩ := exists_of_bind_eq_ok h
    obtain ⟨instructions, hreads, h⟩ := exists_of_bind_eq_ok h
    obtain ⟨tries, hreads', h⟩ := exists_of_bind_eq_ok h
    obtain rfl := Except.ok.inj h
    obtain ⟨rfl, hinstructions⟩ := readAll_eq_ok_iff.mp hreads
    obtain ⟨hsize, hblocks⟩ := readAll_eq_ok_iff.mp hreads'
    rw [word_eq_ok_iff (by decide)] at hregisters hins houts htries hcount
    exact ⟨hregisters, hins, houts, htries, hcount, hsize,
      fun j i hi => readInstruction_eq_ok_iff.mp (hinstructions j i hi),
      fun k t ht => readTryBlock_eq_ok_iff.mp (hblocks k t ht)⟩
  · intro h
    have hword {width offset n : Nat} (hwidth : 0 < width) (h : d.Spells width offset n) :
        word d width offset = .ok n := (word_eq_ok_iff hwidth).mpr h
    -- the word that is passed over stands before one that is there
    obtain ⟨debug, hdebug⟩ : ∃ debug, word d 4 (offset + 8 : Nat) = .ok debug := by
      have hle := h.size.2.size_le
      rw [Bytes.size_littleEndian] at hle
      refine ⟨Bytes.ofLittleEndian (Bytes.slice d (offset + 8 : Nat) (offset + 8 + 4 : Nat)), ?_⟩
      have hsize : (Bytes.slice d (offset + 8 : Nat) (offset + 8 + 4 : Nat)).size = 4 := by
        rw [Bytes.slice, Bytes.bound_of_le (by omega), Bytes.bound_of_le (by omega), Array.size_extract]
        omega
      exact if_pos hsize
    have hinstructions := readAll_eq_ok_iff.mpr
      ⟨rfl, fun j i hi => readInstruction_eq_ok_iff.mpr (h.instruction j i hi)⟩
    have htries := readAll_eq_ok_iff.mpr
      ⟨h.size_tries, fun k t ht => readTryBlock_eq_ok_iff.mpr (h.tryBlock k t ht)⟩
    simp only [readCodeItem, hword (by decide) h.registersSize, hword (by decide) h.insSize,
      hword (by decide) h.outsSize, hword (by decide) h.triesSize, hdebug, hword (by decide) h.size,
      hinstructions, htries, bind, Except.bind, pure, Except.pure]

/-! ### The table -/

/-- The offsets of the methods that were gone through are added, each once. -/
theorem keys_readCodeOf {methods : List Method} {code last : Table Nat CodeItem}
    (h : readCodeOf d methods code = (last, none)) (hcode : code.keys.Nodup) :
    last.keys.Nodup ∧
      ∀ o, o ∈ last.keys ↔ o ∈ code.keys ∨ o ≠ 0 ∧ ∃ m ∈ methods, m.codeOffset = o := by
  induction methods generalizing code with
  | nil =>
    cases h
    exact ⟨hcode, by simp⟩
  | cons m rest ih =>
    unfold readCodeOf at h
    split at h
    next hzero =>
      obtain ⟨hlast, hkeys⟩ := ih h hcode
      refine ⟨hlast, fun o => ?_⟩
      have hother : o ≠ 0 → m.codeOffset ≠ o := fun ho heq => ho (heq ▸ hzero)
      simp only [hkeys, List.mem_cons, exists_eq_or_imp]
      exact or_congr_right (and_congr_right fun ho => (or_iff_right (hother ho)).symm)
    next hsome =>
      split at h
      next => cases h
      next item hitem =>
        obtain ⟨hlast, hkeys⟩ := ih h (Table.nodup_keys_put hcode _ _)
        refine ⟨hlast, fun o => ?_⟩
        have hsame : o = m.codeOffset ↔ o ≠ 0 ∧ m.codeOffset = o :=
          ⟨fun ho => ⟨ho ▸ hsome, ho.symm⟩, fun ho => ho.2.symm⟩
        simp only [hkeys, Table.mem_keys_put, List.mem_cons, exists_eq_or_imp, and_or_left, ← hsame]
        rw [or_assoc, or_left_comm]

theorem readCodeOf_parse (h : (parse d).2 = none) :
    readCodeOf d (parse d).1.methods.toList [] = ((parse d).1.code, none) := by
  unfold parse at h ⊢
  generalize readHeader d = p at h ⊢
  obtain ⟨header, fault⟩ := p
  obtain ⟨image, -, hcode⟩ := exists_of_andThen h
  dsimp only at h ⊢
  rw [hcode] at h ⊢
  exact Prod.ext rfl h

/-- The table of code has exactly the offsets of the methods, without those of methods that have no code, and
each of them once: methods with the same offset have the same item. What stands under an offset is the code
item that stands there in the bytes. -/
theorem code_items_mirror_bytes (d : Bytes) (h : (parse d).2 = none) :
    (parse d).1.code.keys.Nodup ∧
      (∀ o, o ∈ (parse d).1.code.keys ↔ o ≠ 0 ∧ ∃ m ∈ (parse d).1.methods, m.codeOffset = o) ∧
      ∀ m ∈ (parse d).1.methods, m.codeOffset ≠ 0 →
        ∃ item, Table.find? (parse d).1.code m.codeOffset = some item ∧
          ∀ item' : CodeItem, item'.StandsAt d m.codeOffset ↔ item' = item := by
  obtain ⟨hnodup, hkeys⟩ := keys_readCodeOf (readCodeOf_parse h) List.nodup_nil
  have hexact (o : Nat) : o ∈ (parse d).1.code.keys ↔
      o ≠ 0 ∧ ∃ m ∈ (parse d).1.methods, m.codeOffset = o := by
    rw [hkeys]
    simp [Table.keys]
  refine ⟨hnodup, hexact, fun m hm hsome => ?_⟩
  obtain ⟨entry, hentry, hoffset⟩ := List.mem_map.mp ((hexact m.codeOffset).mpr ⟨hsome, m, hm, rfl⟩)
  obtain ⟨item, hitem⟩ := Option.isSome_iff_exists.mp (Table.has_of_mem hentry)
  rw [hoffset] at hitem
  refine ⟨item, hitem, fun item' => ?_⟩
  rw [← readCodeItem_eq_ok_iff, codeRead_parse d m.codeOffset item hitem, Except.ok.injEq, eq_comm]

section

open Sample

/-- Both methods of a sample image have the same code: four instructions and a guarded range. -/
theorem code_items_of_two_methods :
    (parse (plain.image 2)).2 = none ∧ (parse (plain.image 2)).1.methods.size = 2 ∧
      ∃ o item, (parse (plain.image 2)).1.code = [(o, item)] ∧
        (∀ m ∈ (parse (plain.image 2)).1.methods, m.codeOffset = o) ∧ o ≠ 0 ∧
        item.StandsAt (plain.image 2) o ∧ item.instructions.size = 4 ∧ item.tries.size = 1 := by
  have hparse := Design.parse_of_placed (Design.placed_image plain 2) (by decide)
  have hnone : (parse (plain.image 2)).2 = none := congrArg Prod.snd hparse
  obtain ⟨-, -, hitems⟩ := code_items_mirror_bytes (plain.image 2) hnone
  rw [hparse] at hitems ⊢
  have hoffset (m : Method) (hm : m ∈ plain.methodsRead 2 2) : m.codeOffset = plain.codeOffset 2 := by
    rw [Design.methodsRead_all] at hm
    obtain ⟨i, -, rfl⟩ := List.mem_map.mp (List.mem_toArray.mp hm)
    rfl
  have hfirst : plain.methodOf (plain.codeOffset 2) 0 ∈ plain.methodsRead 2 2 := by
    rw [Design.methodsRead_all]
    exact List.mem_toArray.mpr List.mem_cons_self
  have hsome : plain.codeOffset 2 ≠ 0 := by
    rw [← Design.place_code]
    exact Design.place_ne_zero (by decide) (by decide)
  obtain ⟨item, hfound, hstands⟩ := hitems _ hfirst hsome
  have hcode : Table.find? (plain.codeTable 2) (plain.codeOffset 2) = some (Design.codeAt (plain.codeOffset 2)) :=
    Table.find?_put [] (plain.codeOffset 2) _ _ |>.trans (if_pos (beq_self_eq_true _))
  obtain rfl : Design.codeAt (plain.codeOffset 2) = item := Option.some.inj (hcode.symm.trans hfound)
  exact ⟨rfl, plain.size_methodsRead 2 2, _, _, rfl, hoffset, hsome, (hstands _).mpr rfl, rfl, rfl⟩

end

end Dex

end Handset
