import Handset.Proofs.Dex.Blocks
import Mathlib

/-!
# Where the pieces of a sample image stand

The pieces are written one after the other, whatever their order and the filler between them. The size of a
piece does not depend on the places that it holds, but for the data of a class, which follow the code. So the
places that are worked out before anything is written are those where the pieces stand in the end, and with at
most 65530 classes they all fit into a word.
-/
namespace Handset.Dex.Sample

open Bytes (Holds littleEndian)

/-- The largest number of classes whose indices fit into the field and method tables. -/
def mostClasses : Nat := 65530

theorem length_encode_le {n : Nat} (k : Nat) (h : n < 128 ^ (k + 1)) :
    (Leb128.encode n).length ≤ k + 1 := by
  induction k generalizing n with
  | zero => rw [Leb128.encode, if_pos (by omega)]; exact Nat.le_refl 1
  | succ k ih =>
    rw [Leb128.encode]
    split
    · exact Nat.succ_le_succ (Nat.zero_le _)
    · have hdiv : n / 128 < 128 ^ (k + 1) := by
        rw [Nat.div_lt_iff_lt_mul (by decide)]
        rwa [Nat.pow_succ] at h
      exact Nat.succ_le_succ (ih hdiv)

theorem length_flatMap_encode_le {ns : List Nat} (h : ∀ n ∈ ns, n < 2 ^ 32) :
    (ns.flatMap Leb128.encode).length ≤ 5 * ns.length := by
  induction ns with
  | nil => exact Nat.le_refl 0
  | cons n ns ih =>
    have hlt : n < 128 ^ 5 := Nat.lt_of_lt_of_le (h n List.mem_cons_self) (by decide)
    have hn := length_encode_le 4 hlt
    have := ih fun m hm => h m (List.mem_cons_of_mem _ hm)
    rw [List.flatMap_cons, List.length_append, List.length_cons]
    omega

theorem length_className_le {i : Nat} (hi : i < 10 ^ 5) : (className i).length ≤ 19 := by
  have hdigits : (Nat.toDigits 10 i).length ≤ 5 :=
    (Nat.length_toDigits_le_iff (by decide) (by decide)).mpr hi
  simp only [className, String.length_append, Nat.toString_eq_ofList_toDigits, String.length_ofList]
  have : "Lcom/bench/C".length = 12 := rfl
  have : ";".length = 1 := rfl
  omega

namespace Design

variable {s : Design} {n : Nat}

@[simp] theorem length_base (s : Design) : s.base.length = 6 :=
  s.base_perm.length_eq

@[simp] theorem length_strings (s : Design) (n : Nat) : (s.strings n).length = n + 6 := by
  rw [strings, List.length_append, length_base, List.length_map, List.length_range, Nat.add_comm]

theorem uniform_memberEntries (s : Design) (second n : Nat) :
    ∀ b ∈ (List.range n).map (s.memberEntry second), b.size = 8 := by
  intro b hb
  obtain ⟨i, -, rfl⟩ := List.mem_map.mp hb
  simp [memberEntry]

theorem uniform_classEntries (s : Design) (n : Nat) (place : Piece → Nat) :
    ∀ b ∈ (List.range n).map (s.classEntry n place), b.size = 32 := by
  intro b hb
  obtain ⟨i, -, rfl⟩ := List.mem_map.mp hb
  simp [classEntry]

/-- Of the places that a piece holds only that of the code matters for its size. -/
theorem size_block (s : Design) (n : Nat) (place : Piece → Nat) (p : Piece) :
    (s.block n place p).size = s.size n (place .code) p := by
  cases p with
  | fieldIds => simp [block, size, size_join_of_uniform (s.uniform_memberEntries s.fieldType n)]
  | methodIds => simp [block, size, size_join_of_uniform (s.uniform_memberEntries 0 n)]
  | classDefs => simp [block, size, size_join_of_uniform (s.uniform_classEntries n place)]
  | code => simp [block, size, codeItem]
  | _ => simp [block, size]

@[simp] theorem size_header (s : Design) (n : Nat) (place : Piece → Nat) :
    (s.header n place).size = headerSize := by
  simp [header, headerValues, s.version_length, s.signature_size, headerSize]

/-! ### Places -/

theorem find?_placesFrom (n codeOffset start : Nat) {order : List Piece} {p : Piece} (h : p ∈ order) :
    ∃ place, Table.find? (s.placesFrom n codeOffset start order) p = some place := by
  induction order generalizing start with
  | nil => cases h
  | cons q rest ih =>
    rw [placesFrom, Table.find?]
    split
    · exact ⟨_, rfl⟩
    next hne =>
      have hp : p ∈ rest := (List.mem_cons.mp h).resolve_left fun heq => hne (beq_iff_eq.mpr heq.symm)
      exact ih _ hp

/-- As long as no data of classes are written, the offset that these hold does not matter. -/
theorem find?_code_placesFrom (n codeOffset other : Nat) {start : Nat} {order : List Piece}
    (h : ∀ i, .classData i ∉ order.takeWhile (· != .code)) :
    Table.find? (s.placesFrom n codeOffset start order) .code =
      Table.find? (s.placesFrom n other start order) .code := by
  induction order generalizing start with
  | nil => rfl
  | cons q rest ih =>
    rw [placesFrom, placesFrom, Table.find?, Table.find?]
    by_cases hcode : q = .code
    · rw [if_pos (beq_iff_eq.mpr hcode), if_pos (beq_iff_eq.mpr hcode)]
    · have hbefore : (q :: rest).takeWhile (· != .code) = q :: rest.takeWhile (· != .code) :=
        List.takeWhile_cons_of_pos (bne_iff_ne.mpr hcode)
      rw [hbefore] at h
      have hsize : s.size n codeOffset q = s.size n other q := by
        cases q with
        | classData i => exact absurd List.mem_cons_self (h i)
        | _ => rfl
      rw [if_neg (mt beq_iff_eq.mp hcode), if_neg (mt beq_iff_eq.mp hcode), hsize]
      exact ih fun i hi => h i (List.mem_cons_of_mem _ hi)

theorem place_code (s : Design) (n : Nat) : s.place n .code = s.codeOffset n := by
  rw [place, places, placeIn, s.find?_code_placesFrom n _ 0 (s.code_first n)]
  rfl

theorem mem_order_iff {p : Piece} : p ∈ s.order n ↔ p ∈ pieces n (s.lists n) :=
  (s.order_perm n).mem_iff

/-- Each piece stands where the places say. -/
theorem holds_body (place : Piece → Nat) {start offset : Nat} {order : List Piece} {p : Piece}
    (h : Table.find? (s.placesFrom n (place .code) start order) p = some offset) :
    ∃ k, offset = start + k ∧ Holds (s.body n place start order) k (s.block n place p) := by
  induction order generalizing start with
  | nil => cases h
  | cons q rest ih =>
    rw [placesFrom, Table.find?] at h
    rw [body]
    split at h
    next heq =>
      obtain rfl := beq_iff_eq.mp heq
      obtain rfl := Option.some.inj h
      exact ⟨_, rfl, Bytes.holds_append_middle _ _ _⟩
    next =>
      obtain ⟨k, rfl, hk⟩ := ih h
      refine ⟨_, ?_, (Bytes.holds_append_right _ _).trans hk⟩
      rw [Array.size_append, size_block]
      omega

/-- The data hold the header, and the pieces where they belong. -/
structure Placed (d : Bytes) (s : Design) (n : Nat) : Prop where
  header : Holds d 0 (s.header n (s.place n))
  piece : ∀ p ∈ pieces n (s.lists n), Holds d (s.place n p) (s.block n (s.place n) p)

theorem placed_image (s : Design) (n : Nat) : Placed (s.image n) s n := by
  have himage : s.image n = s.header n (s.place n) ++ s.body n (s.place n) headerSize (s.order n) := rfl
  rw [himage]
  refine ⟨Bytes.holds_append_left _ _, fun p hp => ?_⟩
  obtain ⟨offset, hoffset⟩ := s.find?_placesFrom n (s.place n .code) headerSize (mem_order_iff.mpr hp)
  have hplace : s.place n p = offset := by
    rw [place, places, ← place_code, placeIn, hoffset, Option.getD_some]
  obtain ⟨k, rfl, hk⟩ := holds_body (s.place n) hoffset
  rw [hplace]
  have := (Bytes.holds_append_right (s.header n (s.place n)) _).trans hk
  rwa [size_header] at this

/-! ### Sizes -/

theorem classNumbers_lt {codeOffset i : Nat} (hcode : codeOffset < 2 ^ 32) (hi : i < 2 ^ 32) :
    ∀ m ∈ s.classNumbers codeOffset i, m < 2 ^ 32 := by
  have hstatics := s.statics_le i
  have hinstances := s.instances_le i
  have hflags := s.directFlags_lt i
  intro m hm
  simp only [classNumbers, List.mem_append, List.mem_flatMap, List.mem_cons, List.not_mem_nil, or_false] at hm
  rcases hm with (hcounts | ⟨field, -, rfl | rfl⟩) | hmethods
  · omega
  · exact field.difference_lt
  · exact field.flags_lt
  · omega

theorem length_classNumbers_le (codeOffset i : Nat) : (s.classNumbers codeOffset i).length ≤ 266 := by
  have hstatics := s.statics_le i
  have hinstances := s.instances_le i
  simp only [classNumbers, List.length_append, List.length_flatMap, List.length_cons, List.length_nil,
    List.map_const', List.sum_replicate, smul_eq_mul]
  omega

theorem size_classData_le {codeOffset i : Nat} (hcode : codeOffset < 2 ^ 32) (hi : i < 2 ^ 32) :
    (s.classData codeOffset i).size ≤ 1330 := by
  have hlength := s.length_classNumbers_le codeOffset i
  have := length_flatMap_encode_le (classNumbers_lt (s := s) hcode hi)
  rw [classData, List.size_toArray]
  omega

theorem length_le_of_mem_strings (hn : n ≤ mostClasses) {t : String} (ht : t ∈ s.strings n) : t.length ≤ 19 := by
  rcases List.mem_append.mp ht with hbase | hclass
  · exact (by decide : ∀ t ∈ baseStrings, t.length ≤ 19) t (s.base_perm.mem_iff.mp hbase)
  · obtain ⟨i, hi, rfl⟩ := List.mem_map.mp hclass
    have hi := List.mem_range.mp hi
    exact length_className_le (by simp only [mostClasses] at hn; omega)

theorem size_textItem_le (hn : n ≤ mostClasses) (index : Nat) : (s.textItem n index).size ≤ 78 := by
  have hlength : ((s.strings n).getD index "").length ≤ 19 := by
    rw [List.getD_eq_getElem?_getD]
    cases hget : (s.strings n)[index]? with
    | none => exact Nat.zero_le _
    | some t => exact length_le_of_mem_strings hn (List.mem_of_getElem? hget)
  have hsize := Text.Utf8.size_encode_le ((s.strings n).getD index "")
  have hleb := length_encode_le (n := (Text.Utf8.encode ((s.strings n).getD index "")).size) 0 (by omega)
  simp only [textItem, stringItem, Array.size_append, List.size_toArray, List.length_cons, List.length_nil]
  omega

/-- How far the pieces reach with the most filler before each of them. -/
def reach (s : Design) (n codeOffset : Nat) (order : List Piece) : Nat :=
  (order.map fun p => 4096 + s.size n codeOffset p).sum

theorem start_le_place {codeOffset start place : Nat} {order : List Piece} {p : Piece}
    (h : Table.find? (s.placesFrom n codeOffset start order) p = some place) : start ≤ place := by
  induction order generalizing start with
  | nil => cases h
  | cons q rest ih =>
    rw [placesFrom, Table.find?] at h
    split at h
    · obtain rfl := Option.some.inj h
      exact Nat.le_add_right _ _
    · have := ih h
      omega

theorem place_le_reach {codeOffset start place : Nat} {order : List Piece} {p : Piece}
    (h : Table.find? (s.placesFrom n codeOffset start order) p = some place) :
    place ≤ start + s.reach n codeOffset order := by
  induction order generalizing start with
  | nil => cases h
  | cons q rest ih =>
    have hgap := s.gap_le start q
    rw [placesFrom, Table.find?] at h
    rw [reach, List.map_cons, List.sum_cons]
    split at h
    · obtain rfl := Option.some.inj h
      omega
    · have := ih h
      rw [reach] at this
      omega

theorem reach_order_lt (hn : n ≤ mostClasses) {codeOffset : Nat} (hcode : codeOffset < 2 ^ 32) :
    headerSize + s.reach n codeOffset (s.order n) < 2 ^ 32 := by
  have hsum : s.reach n codeOffset (s.order n) = s.reach n codeOffset (pieces n (s.lists n)) :=
    ((s.order_perm n).map _).sum_eq
  have htexts : ((List.range (n + 6)).map fun k => 4096 + s.size n codeOffset (.text k)).sum ≤ (n + 6) * 4174 := by
    have hitem : ∀ x ∈ (List.range (n + 6)).map fun k => 4096 + s.size n codeOffset (.text k), x ≤ 4174 := by
      intro x hx
      obtain ⟨k, -, rfl⟩ := List.mem_map.mp hx
      exact Nat.add_le_add_left (size_textItem_le hn k) 4096
    simpa using List.sum_le_card_nsmul _ _ hitem
  have hdata : ((List.range n).map fun i => 4096 + s.size n codeOffset (.classData i)).sum ≤ n * 5426 := by
    have hitem : ∀ x ∈ (List.range n).map fun i => 4096 + s.size n codeOffset (.classData i), x ≤ 5426 := by
      intro x hx
      obtain ⟨i, hi, rfl⟩ := List.mem_map.mp hx
      have hi := List.mem_range.mp hi
      exact Nat.add_le_add_left (size_classData_le hcode (by simp only [mostClasses] at hn; omega)) 4096
    simpa using List.sum_le_card_nsmul _ _ hitem
  have hlists := s.lists_le n
  rw [hsum, reach, pieces]
  simp only [mostClasses] at hn
  simp only [List.map_append, List.map_cons, List.map_map, List.map_nil, List.sum_append, List.sum_cons, List.sum_nil,
    Function.comp_def, size, headerSize] at htexts hdata ⊢
  simp only [List.map_const', List.sum_replicate, smul_eq_mul, List.length_range]
  omega

theorem codeOffset_lt (s : Design) (hn : n ≤ mostClasses) : s.codeOffset n < 2 ^ 32 := by
  have hmem : .code ∈ s.order n := mem_order_iff.mpr (by simp [pieces])
  obtain ⟨place, hplace⟩ := s.find?_placesFrom n 0 headerSize hmem
  have hreach := place_le_reach hplace
  have := s.reach_order_lt hn (show 0 < 2 ^ 32 by decide)
  rw [codeOffset, placeIn, hplace, Option.getD_some]
  omega

/-- Every place is behind the header and fits into a word. -/
theorem place_bounds (hn : n ≤ mostClasses) {p : Piece} (hp : p ∈ pieces n (s.lists n)) :
    headerSize ≤ s.place n p ∧ s.place n p < 2 ^ 32 := by
  obtain ⟨place, hplace⟩ := s.find?_placesFrom n (s.codeOffset n) headerSize (mem_order_iff.mpr hp)
  have hstart := start_le_place hplace
  have hreach := place_le_reach hplace
  have := s.reach_order_lt hn (s.codeOffset_lt hn)
  rw [Design.place, places, placeIn, hplace, Option.getD_some]
  omega

end Design

end Handset.Dex.Sample
