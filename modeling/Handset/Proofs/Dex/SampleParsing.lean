import Handset.Proofs.Dex.SampleLayout

/-!
# Reading sample images back

Each pass over a sample image finds the entries that were written, wherever the pieces stand. A table is read in
full if each of its entries is; the class pass sets the code offset of one method after the other.
-/
namespace Handset.Dex

open Bytes (Holds littleEndian)

variable {d : Bytes} {o : Nat}

theorem collectFrom_eq {α : Type} {read : Nat → Except Fault α} (l : List α) (index : Nat)
    (acc : Array α) (h : ∀ i a, l[i]? = some a → read (index + i) = .ok a) :
    collectFrom read l.length index acc = (acc ++ l.toArray, none) := by
  induction l generalizing index acc with
  | nil => simp [collectFrom]
  | cons a l ih =>
    have hfirst : read index = .ok a := h 0 a rfl
    have hrest : ∀ i b, l[i]? = some b → read (index + 1 + i) = .ok b := by
      intro i b hb
      rw [Nat.add_assoc, Nat.add_comm 1 i]
      exact h (i + 1) b hb
    rw [List.length_cons, collectFrom, hfirst]
    dsimp only
    rw [ih (index + 1) (acc.push a) hrest]
    simp

theorem collect_eq {α : Type} {read : Nat → Except Fault α} {l : List α} {count : Nat}
    (hcount : l.length = count) (h : ∀ i a, l[i]? = some a → read i = .ok a) :
    collect count read = (l.toArray, none) := by
  subst hcount
  rw [collect, collectFrom_eq l 0 #[] (by simpa using h), Array.empty_append]

theorem readAll_eq {α : Type} {read : Nat → Except Fault α} {l : List α} {count : Nat}
    (hcount : l.length = count) (h : ∀ i a, l[i]? = some a → read i = .ok a) :
    readAll count read = .ok l.toArray := by
  rw [readAll, collect_eq hcount h]

theorem readWords_eq {ws : List (HeaderWord × Nat)} {values : List Nat}
    (hlength : ws.length = values.length)
    (h : ∀ p ∈ ws.zip values, word d 4 p.1.2 = .ok p.2) (head : Header) :
    readWords d ws head =
      ({ head with words := head.words ++ (ws.map (·.1)).zip values }, none) := by
  induction ws generalizing values head with
  | nil => simp [readWords]
  | cons w ws ih =>
    cases values with
    | nil => cases hlength
    | cons v values =>
      have hfirst : word d 4 w.2 = .ok v := h (w, v) (by simp)
      have hrest : ∀ p ∈ ws.zip values, word d 4 p.1.2 = .ok p.2 := fun p hp => h p (by simp [hp])
      rw [readWords, hfirst]
      dsimp only
      rw [ih (by simpa using hlength) hrest]
      simp

theorem word_of_row {width : Nat} {values : List Nat} (h : Holds d o (Sample.row width values)) {k v : Nat}
    (hk : values[k]? = some v) (hv : v < 256 ^ width) : word d width (o + width * k : Nat) = .ok v := by
  refine word_of_holds (h.trans (Sample.holds_row (Sample.uniform_words width values) ?_)) hv
  rw [List.getElem?_map, hk, Option.map_some]

theorem entry_toArray {α : Type} {l : List α} {i : Nat} {a : α} (h : l[i]? = some a) :
    entry l.toArray i = .ok a := by
  rw [entry, List.getElem?_toArray, h]

theorem readMagic_of_holds {version : List UInt8} (hlength : version.length = 5)
    (hascii : ∀ b ∈ version, b.toNat < 128) (h : Holds d 0 (0x64 :: 0x65 :: 0x78 :: version).toArray) :
    readMagic d = .ok (String.ofList ('d' :: 'e' :: 'x' :: version.map fun b => Char.ofNat b.toNat)) := by
  have hslice : Bytes.slice d 0 8 = (0x64 :: 0x65 :: 0x78 :: version).toArray := by
    simpa [hlength] using h.slice
  have hnone : (0x64 :: 0x65 :: 0x78 :: version).findIdx? (128 ≤ ·.toNat) = none := by
    rw [List.findIdx?_eq_none_iff]
    intro b hb
    simp only [List.mem_cons] at hb
    rcases hb with rfl | rfl | rfl | hb
    · decide
    · decide
    · decide
    · simpa using hascii b hb
  rw [readMagic, hslice]
  dsimp only
  rw [hnone]
  exact if_pos ⟨rfl, by simp [hlength]⟩

theorem readTypeList_of_holds {types : Array String} {index : Nat} {t : String}
    (h : Holds d o (Sample.row 4 [1, index])) (ho : o ≠ 0) (hindex : index < 256 ^ 4)
    (ht : entry types index = .ok t) : readTypeList d types o = .ok #[t] := by
  have hcount : word d 4 o = .ok 1 := word_of_row h (k := 0) rfl (by decide)
  have hfirst : word d 4 (o + 4 : Nat) = .ok index := word_of_row h (k := 1) rfl hindex
  rw [readTypeList, if_neg ho, hcount]
  refine readAll_eq (l := [t]) rfl fun i a hi => ?_
  cases i with
  | zero =>
    cases hi
    exact (congrArg (· >>= entry types) hfirst).trans ht
  | succ i => cases hi

theorem read_of_numbers {m : Nat} {ms : List Nat}
    (h : Holds d o ((m :: ms).flatMap Leb128.encode).toArray) :
    Leb128.read d o = .ok (m, (Leb128.encode m).length) ∧
      Holds d (o + (Leb128.encode m).length) (ms.flatMap Leb128.encode).toArray := by
  rw [List.flatMap_cons, ← List.append_toArray] at h
  exact ⟨Leb128.read_of_holds h.left, by simpa using h.right⟩

/-- Fields are passed over; only the flags of the last one are kept. -/
theorem skipFields_of_numbers (fields : List Sample.FieldEntry) (scan : MemberScan) {ms : List Nat}
    (h : Holds d scan.position
      ((fields.flatMap (fun field => [field.difference, field.flags]) ++ ms).flatMap Leb128.encode).toArray) :
    ∃ position flags, Holds d position (ms.flatMap Leb128.encode).toArray ∧
      skipFields d fields.length scan = ({ scan with position, flags }, none) := by
  induction fields generalizing scan with
  | nil => exact ⟨scan.position, scan.flags, h, rfl⟩
  | cons field rest ih =>
    obtain ⟨hdifference, h⟩ := read_of_numbers h
    obtain ⟨hflags, h⟩ := read_of_numbers h
    obtain ⟨position, flags, hrest, hskip⟩ := ih { scan with position := _, flags := field.flags } h
    refine ⟨position, flags, hrest, ?_⟩
    simp only [List.length_cons, skipFields, hdifference, hflags, bind, Except.bind, pure, Except.pure]
    exact hskip

theorem readMembers_of_numbers (scan : MemberScan) {difference flags codeOffset : Nat} {ms : List Nat}
    (h : Holds d scan.position ((difference :: flags :: codeOffset :: ms).flatMap Leb128.encode).toArray)
    (hindex : scan.index + difference < scan.methods.size) :
    ∃ position, Holds d position (ms.flatMap Leb128.encode).toArray ∧
      readMembers d 1 scan =
        ({ position, index := scan.index + difference, flags
           methods := scan.methods.modify (scan.index + difference) fun m => { m with codeOffset }
           entries := scan.entries.push ⟨scan.index + difference, flags, codeOffset⟩ }, none) := by
  obtain ⟨hdifference, h⟩ := read_of_numbers h
  obtain ⟨hflags, h⟩ := read_of_numbers h
  obtain ⟨hcode, h⟩ := read_of_numbers h
  refine ⟨_, h, ?_⟩
  simp only [readMembers, hdifference, hflags, hcode, bind, Except.bind, pure, Except.pure,
    if_pos hindex]

theorem getElem?_map_range {α : Type} {f : Nat → α} {n i : Nat} {a : α}
    (h : ((List.range n).map f)[i]? = some a) : i < n ∧ a = f i := by
  obtain ⟨hlt, ha⟩ := List.getElem?_eq_some_iff.mp h
  simp only [List.length_map, List.length_range] at hlt
  exact ⟨hlt, by simpa using ha.symm⟩

theorem getElem?_map_range_of_lt {α : Type} (f : Nat → α) {n i : Nat} (hi : i < n) :
    ((List.range n).map f)[i]? = some (f i) := by
  rw [List.getElem?_map, List.getElem?_range hi, Option.map_some]

namespace Sample.Design

variable {s : Design} {n : Nat}

theorem place_lt (hn : n ≤ mostClasses) {p : Piece} (hp : p ∈ pieces n (s.lists n)) : s.place n p < 256 ^ 4 :=
  (place_bounds hn hp).2

theorem place_ne_zero (hn : n ≤ mostClasses) {p : Piece} (hp : p ∈ pieces n (s.lists n)) : s.place n p ≠ 0 :=
  Nat.ne_of_gt (Nat.lt_of_lt_of_le (by decide) (place_bounds hn hp).1)

theorem headerValues_lt (hn : n ≤ mostClasses) : ∀ v ∈ s.headerValues n (s.place n), v < 256 ^ 4 := by
  have hfile := s.spare_lt .fileSize n
  have hheader := s.spare_lt .headerSize n
  have hendian := s.spare_lt .endianTag n
  have hdata := s.spare_lt .dataOffset n
  have hstrings := place_lt (s := s) hn (p := .stringIds) (by simp [pieces])
  have htypes := place_lt (s := s) hn (p := .typeIds) (by simp [pieces])
  have hprotos := place_lt (s := s) hn (p := .protoIds) (by simp [pieces])
  have hfields := place_lt (s := s) hn (p := .fieldIds) (by simp [pieces])
  have hmethods := place_lt (s := s) hn (p := .methodIds) (by simp [pieces])
  have hclasses := place_lt (s := s) hn (p := .classDefs) (by simp [pieces])
  intro v hv
  simp only [headerValues, List.mem_cons, List.not_mem_nil, or_false] at hv
  simp only [mostClasses] at hn
  omega

/-- The header of an image of `n` classes. -/
def headerOf (s : Design) (n : Nat) : Header where
  magic := some (String.ofList ('d' :: 'e' :: 'x' :: s.version.map fun b => Char.ofNat b.toNat))
  signature := some s.signature
  words := (.checksum, s.spare .checksum n) :: (headerWords.map (·.1)).zip (s.headerValues n (s.place n))

theorem readHeader_of_placed (h : Placed d s n) (hn : n ≤ mostClasses) :
    readHeader d = (s.headerOf n, none) := by
  have hheader := h.header
  rw [header] at hheader
  have hmagic := readMagic_of_holds s.version_length s.version_ascii hheader.left.left.left
  have hchecksum : word d 4 (8 : Nat) = .ok (s.spare .checksum n) := by
    refine word_of_holds ?_ (s.spare_lt .checksum n)
    simpa [s.version_length] using hheader.left.left.right
  have hsignature : Bytes.slice d 12 32 = s.signature := by
    simpa [s.version_length, s.signature_size] using hheader.left.right.slice
  have hwords : Holds d 32 (row 4 (s.headerValues n (s.place n))) := by
    simpa [s.version_length, s.signature_size] using hheader.right
  have hplaces : ∀ k : Fin 16, headerWords[k].2 = 32 + 4 * k.val := by decide
  have hword : ∀ p ∈ headerWords.zip (s.headerValues n (s.place n)), word d 4 p.1.2 = .ok p.2 := by
    intro p hp
    obtain ⟨k, hk⟩ := List.mem_iff_getElem?.mp hp
    obtain ⟨hplace, hvalue⟩ := List.getElem?_zip_eq_some.mp hk
    obtain ⟨hlt, hplace⟩ := List.getElem?_eq_some_iff.mp hplace
    have hat : p.1.2 = 32 + 4 * k := hplace ▸ hplaces ⟨k, hlt⟩
    rw [hat]
    exact word_of_row hwords hvalue (headerValues_lt hn _ (List.mem_of_getElem? hvalue))
  have hfirst (head : Header) : readWords d [(.checksum, 8)] head =
      ({ head with words := head.words ++ [(.checksum, s.spare .checksum n)] }, none) := by
    rw [readWords, hchecksum]
    rfl
  rw [readHeader, hmagic]
  dsimp only
  rw [hfirst]
  dsimp only
  rw [readWords_eq rfl hword, hsignature]
  rfl

theorem readStringId_of_placed (h : Placed d s n) (hn : n ≤ mostClasses) {i : Nat} {t : String}
    (hi : (s.strings n)[i]? = some t) : readStringId d (s.place n .stringIds + 4 * i) = .ok t := by
  obtain ⟨hlt, -⟩ := List.getElem?_eq_some_iff.mp hi
  rw [length_strings] at hlt
  have hmem : .text i ∈ pieces n (s.lists n) := by simp [pieces, hlt]
  have htext := h.piece (.text i) hmem
  rw [block, textItem, List.getD_eq_getElem?_getD, hi, Option.getD_some] at htext
  have hrow := h.piece .stringIds (by simp [pieces])
  rw [readStringId, word_of_row hrow (getElem?_map_range_of_lt _ hlt) (place_lt hn hmem)]
  exact readString_of_holds htext.left

theorem readStrings_of_placed (h : Placed d s n) (hn : n ≤ mostClasses) :
    readStrings d { header := s.headerOf n } =
      ({ header := s.headerOf n, strings := (s.strings n).toArray }, none) := by
  have hcount : (s.strings n).length = (s.headerOf n).word .stringIdsSize := s.length_strings n
  simp only [readStrings]
  rw [collect_eq hcount]
  exact fun i t => readStringId_of_placed h hn

/-- The image once its names have been read: the types are the strings. -/
def named (s : Design) (n : Nat) : Image where
  header := s.headerOf n
  strings := (s.strings n).toArray
  types := (s.strings n).toArray

theorem readTypes_of_placed (h : Placed d s n) (hn : n ≤ mostClasses) :
    readTypes d { header := s.headerOf n, strings := (s.strings n).toArray } = (s.named n, none) := by
  have hcount : (s.strings n).length = (s.headerOf n).word .typeIdsSize := s.length_strings n
  simp only [readTypes]
  rw [collect_eq hcount]
  · rfl
  intro i t hi
  obtain ⟨hlt, -⟩ := List.getElem?_eq_some_iff.mp hi
  rw [length_strings] at hlt
  have hword : word d 4 (s.place n .typeIds + 4 * i : Nat) = .ok i := by
    refine word_of_row (h.piece .typeIds (by simp [pieces])) (List.getElem?_range hlt) ?_
    simp only [mostClasses] at hn
    omega
  exact (congrArg (· >>= entry (s.strings n).toArray) hword).trans (entry_toArray hi)

theorem indexOf_lt (s : Design) {t : String} (ht : t ∈ baseStrings) : s.indexOf t < 6 := by
  rw [← s.length_base]
  exact List.idxOf_lt_length_of_mem (s.base_perm.mem_iff.mpr ht)

theorem entry_base (s : Design) (n : Nat) {i : Nat} {t : String} (hi : s.base[i]? = some t) :
    entry (s.strings n).toArray i = .ok t := by
  refine entry_toArray ?_
  obtain ⟨hlt, -⟩ := List.getElem?_eq_some_iff.mp hi
  rw [strings, List.getElem?_append_left hlt, hi]

theorem entry_indexOf (s : Design) (n : Nat) {t : String} (ht : t ∈ baseStrings) :
    entry (s.strings n).toArray (s.indexOf t) = .ok t := by
  have hlt : s.base.idxOf t < s.base.length := List.idxOf_lt_length_of_mem (s.base_perm.mem_iff.mpr ht)
  exact s.entry_base n (List.getElem?_eq_some_iff.mpr ⟨hlt, List.getElem_idxOf hlt⟩)

theorem entry_classIndex (s : Design) {i : Nat} (hi : i < n) :
    entry (s.strings n).toArray (classIndex i) = .ok (className i) := by
  refine entry_toArray ?_
  rw [strings, List.getElem?_append_right (by simp [classIndex])]
  simp [classIndex, hi]

/-- The one signature: an array of texts, and no result. -/
def signatureOf : Proto where
  shorty := "VL"
  returnType := "V"
  parameters := #["[Ljava/lang/String;"]

theorem readProto_of_placed (h : Placed d s n) (hn : n ≤ mostClasses) :
    readProto d (s.named n) (s.place n .protoIds) = .ok signatureOf := by
  have hmem : .parameters ∈ pieces n (s.lists n) := by simp [pieces]
  have hrow := h.piece .protoIds (by simp [pieces])
  have hsmall {t : String} (ht : t ∈ baseStrings) : s.indexOf t < 256 ^ 4 := Nat.lt_trans (s.indexOf_lt ht) (by decide)
  have hshorty : word d 4 (s.place n .protoIds : Nat) = .ok (s.indexOf "VL") :=
    word_of_row hrow (k := 0) rfl (hsmall (by decide))
  have hreturn : word d 4 (s.place n .protoIds + 4 : Nat) = .ok (s.indexOf "V") :=
    word_of_row hrow (k := 1) rfl (hsmall (by decide))
  have hlist : word d 4 (s.place n .protoIds + 8 : Nat) = .ok (s.place n .parameters) :=
    word_of_row hrow (k := 2) rfl (place_lt hn hmem)
  have htypes : readTypeList d (s.strings n).toArray (s.place n .parameters) = .ok #["[Ljava/lang/String;"] :=
    readTypeList_of_holds (h.piece .parameters hmem) (place_ne_zero hn hmem) (hsmall (by decide))
      (s.entry_indexOf n (by decide))
  simp only [readProto, hshorty, hreturn, hlist, bind, Except.bind, named, htypes]
  rw [s.entry_indexOf n (by decide), s.entry_indexOf n (by decide)]
  rfl

theorem readProtos_of_placed (h : Placed d s n) (hn : n ≤ mostClasses) :
    readProtos d (s.named n) = ({ s.named n with protos := #[signatureOf] }, none) := by
  have hcount : [signatureOf].length = (s.named n).header.word .protoIdsSize := rfl
  simp only [readProtos]
  rw [collect_eq hcount]
  intro i a hi
  cases i with
  | zero =>
    cases hi
    exact readProto_of_placed h hn
  | succ i => cases hi

def fieldOf (s : Design) (i : Nat) : Field where
  classIndex := classIndex i
  className := className i
  typeIndex := s.fieldType
  typeName := s.base.getD s.fieldType ""
  nameIndex := s.indexOf "main"
  name := "main"

def methodOf (s : Design) (codeOffset i : Nat) : Method where
  classIndex := classIndex i
  className := className i
  protoIndex := 0
  nameIndex := s.indexOf "main"
  name := "main"
  proto := signatureOf
  codeOffset := codeOffset

theorem memberEntry_of_row {second i : Nat} (hn : n ≤ mostClasses) (hi : i < n) (hsecond : second < 256 ^ 2)
    (h : Holds d o (join ((List.range n).map (s.memberEntry second)))) :
    word d 2 (o + 8 * i : Nat) = .ok (classIndex i) ∧
      word d 2 (o + 8 * i + 2 : Nat) = .ok second ∧ word d 4 (o + 8 * i + 4 : Nat) = .ok (s.indexOf "main") := by
  have hrow := h.trans (holds_row (s.uniform_memberEntries second n) (getElem?_map_range_of_lt _ hi))
  have hclass : classIndex i < 256 ^ 2 := by
    simp only [mostClasses, classIndex] at *
    omega
  exact ⟨word_of_row hrow.left (k := 0) rfl hclass, word_of_row hrow.left (k := 1) rfl hsecond,
    word_of_holds hrow.right (Nat.lt_trans (s.indexOf_lt (by decide)) (by decide))⟩

theorem readField_of_placed (h : Placed d s n) (hn : n ≤ mostClasses) {i : Nat} (hi : i < n) :
    readField d { s.named n with protos := #[signatureOf] } (s.place n .fieldIds + 8 * i) = .ok (s.fieldOf i) := by
  have hsmall : s.fieldType < 256 ^ 2 := Nat.lt_trans s.fieldType_lt (by decide)
  obtain ⟨hclass, htype, hname⟩ := memberEntry_of_row hn hi hsmall (h.piece .fieldIds (by simp [pieces]))
  have htypeName : s.base[s.fieldType]? = some (s.base.getD s.fieldType "") := by
    have hlt : s.fieldType < s.base.length := s.length_base ▸ s.fieldType_lt
    rw [List.getD_eq_getElem?_getD, List.getElem?_eq_getElem hlt, Option.getD_some]
  simp only [readField, hclass, htype, hname, bind, Except.bind, named, s.entry_classIndex hi]
  rw [s.entry_base n htypeName, s.entry_indexOf n (by decide)]
  rfl

theorem readFields_of_placed (h : Placed d s n) (hn : n ≤ mostClasses) :
    readFields d { s.named n with protos := #[signatureOf] } =
      ({ s.named n with
          protos := #[signatureOf]
          fields := ((List.range n).map s.fieldOf).toArray }, none) := by
  have hcount : ((List.range n).map s.fieldOf).length = (s.named n).header.word .fieldIdsSize := by
    rw [List.length_map, List.length_range]
    rfl
  simp only [readFields]
  rw [collect_eq hcount]
  intro i a ha
  obtain ⟨hi, rfl⟩ := getElem?_map_range ha
  exact readField_of_placed h hn hi

/-- The definition of class `i`: it lists its method both as direct and as virtual. -/
def classOf (s : Design) (n i : Nat) : ClassDef where
  classIndex := classIndex i
  className := className i
  accessFlags := 1
  superclass := "V"
  interfaces := #["I"]
  sourceFile := some "Src.java"
  dataOffset := s.place n (.classData i)
  directMethods := #[⟨i, s.directFlags i, s.codeOffset n⟩]
  virtualMethods := #[⟨i, 1, s.codeOffset n⟩]

/-- The methods once the first `k` of them have got their code. -/
def methodsRead (s : Design) (n k : Nat) : Array Method :=
  ((List.range n).map fun i => s.methodOf (if i < k then s.codeOffset n else 0) i).toArray

/-- The image once the first `k` classes have been read. -/
def classesRead (s : Design) (n k : Nat) : Image where
  header := s.headerOf n
  strings := (s.strings n).toArray
  types := (s.strings n).toArray
  protos := #[signatureOf]
  fields := ((List.range n).map s.fieldOf).toArray
  methods := s.methodsRead n k
  classes := ((List.range k).map (s.classOf n)).toArray

theorem readMethod_of_placed (h : Placed d s n) (hn : n ≤ mostClasses) (fields : Array Field) {i : Nat}
    (hi : i < n) :
    readMethod d { s.named n with protos := #[signatureOf], fields } (s.place n .methodIds + 8 * i) =
      .ok (s.methodOf 0 i) := by
  obtain ⟨hclass, hproto, hname⟩ := memberEntry_of_row hn hi (by decide) (h.piece .methodIds (by simp [pieces]))
  simp only [readMethod, hclass, hproto, hname, bind, Except.bind, named, s.entry_classIndex hi]
  rw [s.entry_indexOf n (by decide)]
  rfl

theorem readMethods_of_placed (h : Placed d s n) (hn : n ≤ mostClasses) :
    readMethods d { s.named n with
        protos := #[signatureOf]
        fields := ((List.range n).map s.fieldOf).toArray } = (s.classesRead n 0, none) := by
  have hcount : ((List.range n).map (s.methodOf 0)).length = (s.named n).header.word .methodIdsSize := by
    rw [List.length_map, List.length_range]
    rfl
  simp only [readMethods]
  rw [collect_eq hcount]
  · simp [classesRead, methodsRead, named]
  intro i a ha
  obtain ⟨hi, rfl⟩ := getElem?_map_range ha
  exact readMethod_of_placed h hn _ hi

theorem readClassRecord_of_placed (h : Placed d s n) (hn : n ≤ mostClasses) (k : Nat) {i : Nat}
    (hi : i < n) :
    readClassRecord d (s.classesRead n k) (s.place n .classDefs + 32 * i) =
      .ok { classIndex := classIndex i, accessFlags := s.spare .classFlags i, superclass := "V"
            interfaces := #["I"], sourceFile := some "Src.java", dataOffset := s.place n (.classData i) } := by
  have hentry := (h.piece .classDefs (by simp [pieces])).trans
    (holds_row (s.uniform_classEntries n (s.place n)) (getElem?_map_range_of_lt _ hi))
  have hlistMem : .interfaces (s.listOf n i) ∈ pieces n (s.lists n) := by simp [pieces, s.listOf_lt n i hi]
  have hdataMem : .classData i ∈ pieces n (s.lists n) := by simp [pieces, hi]
  have hsmall {t : String} (ht : t ∈ baseStrings) : s.indexOf t < 256 ^ 4 := Nat.lt_trans (s.indexOf_lt ht) (by decide)
  have hpresent {t : String} (ht : t ∈ baseStrings) : s.indexOf t ≠ noIndex :=
    Nat.ne_of_lt (Nat.lt_trans (s.indexOf_lt ht) (by decide))
  generalize s.place n .classDefs + 32 * i = start at hentry
  have hclass : word d 4 (start : Nat) = .ok (classIndex i) := by
    refine word_of_row hentry (k := 0) rfl ?_
    simp only [mostClasses, classIndex] at *
    omega
  have hflags : word d 4 (start + 4 : Nat) = .ok (s.spare .classFlags i) :=
    word_of_row hentry (k := 1) rfl (s.spare_lt _ _)
  have hsuper : word d 4 (start + 8 : Nat) = .ok (s.indexOf "V") :=
    word_of_row hentry (k := 2) rfl (hsmall (by decide))
  have hlist : word d 4 (start + 12 : Nat) = .ok (s.place n (.interfaces (s.listOf n i))) :=
    word_of_row hentry (k := 3) rfl (place_lt hn hlistMem)
  have hsource : word d 4 (start + 16 : Nat) = .ok (s.indexOf "Src.java") :=
    word_of_row hentry (k := 4) rfl (hsmall (by decide))
  have hnotes : word d 4 (start + 20 : Nat) = .ok (s.spare .annotations i) :=
    word_of_row hentry (k := 5) rfl (s.spare_lt _ _)
  have hdata : word d 4 (start + 24 : Nat) = .ok (s.place n (.classData i)) :=
    word_of_row hentry (k := 6) rfl (place_lt hn hdataMem)
  have hvalues : word d 4 (start + 28 : Nat) = .ok (s.spare .staticValues i) :=
    word_of_row hentry (k := 7) rfl (s.spare_lt _ _)
  have htypes : readTypeList d (s.strings n).toArray (s.place n (.interfaces (s.listOf n i))) = .ok #["I"] :=
    readTypeList_of_holds (h.piece _ hlistMem) (place_ne_zero hn hlistMem) (hsmall (by decide))
      (s.entry_indexOf n (by decide))
  have hfile : entry (s.strings n).toArray (s.indexOf "Src.java") = .ok "Src.java" := s.entry_indexOf n (by decide)
  have hobject : entry (s.strings n).toArray (s.indexOf "V") = .ok "V" := s.entry_indexOf n (by decide)
  simp only [readClassRecord, hclass, hflags, hsuper, hlist, hsource, hnotes, hdata, hvalues, bind,
    Except.bind, classesRead, htypes, hfile, hobject, if_neg (hpresent (t := "Src.java") (by decide)),
    if_neg (hpresent (t := "V") (by decide))]
  rfl

theorem size_methodsRead (s : Design) (n k : Nat) : (s.methodsRead n k).size = n := by
  simp [methodsRead]

/-- Setting the code of method `i` once more changes nothing. -/
theorem modify_methodsRead {k i : Nat} (hk : k = i ∨ k = i + 1) :
    ((s.methodsRead n k).modify i fun m => { m with codeOffset := s.codeOffset n }) = s.methodsRead n (i + 1) := by
  refine Array.ext (by simp [methodsRead]) fun j hj hj' => ?_
  rw [Array.getElem_modify]
  simp only [methodsRead, List.getElem_toArray, List.getElem_map, List.getElem_range, methodOf]
  split
  next hij =>
    rw [if_pos (by omega)]
  next hij =>
    by_cases hlt : j < k
    · rw [if_pos hlt, if_pos (by omega)]
    · rw [if_neg hlt, if_neg (by omega)]

/-- The data of class `i` give method `i` its code. -/
theorem readClassData_of_placed (h : Placed d s n) (hn : n ≤ mostClasses) (flags : Nat) {i : Nat} (hi : i < n) :
    readClassData d (s.methodsRead n i) flags (s.place n (.classData i)) =
      ({ methods := s.methodsRead n (i + 1), flags := 1
         direct := #[⟨i, s.directFlags i, s.codeOffset n⟩], virtual := #[⟨i, 1, s.codeOffset n⟩] }, none) := by
  have hmem : .classData i ∈ pieces n (s.lists n) := by simp [pieces, hi]
  have hzero := place_ne_zero hn hmem
  have hdata := h.piece _ hmem
  rw [block, classData, classNumbers, place_code, List.append_assoc] at hdata
  generalize s.place n (.classData i) = start at hzero hdata
  obtain ⟨hstatics, hdata⟩ := read_of_numbers hdata
  obtain ⟨hinstances, hdata⟩ := read_of_numbers hdata
  obtain ⟨hdirects, hdata⟩ := read_of_numbers hdata
  obtain ⟨hvirtuals, hdata⟩ := read_of_numbers hdata
  generalize hposition : start + (Leb128.encode (s.statics i).length).length +
    (Leb128.encode (s.instances i).length).length + (Leb128.encode 1).length + (Leb128.encode 1).length = position
    at hdata
  obtain ⟨first, fieldFlags, hdata, hfields⟩ := skipFields_of_numbers (s.statics i ++ s.instances i)
    { position, index := 0, flags, methods := s.methodsRead n i, entries := #[] } hdata
  obtain ⟨middle, hdata, hdirect⟩ := readMembers_of_numbers
    { position := first, index := 0, flags := fieldFlags, methods := s.methodsRead n i, entries := #[] } hdata
    (by simpa [size_methodsRead] using hi)
  simp only [Nat.zero_add, modify_methodsRead (.inl rfl)] at hdirect
  obtain ⟨last, -, hvirtual⟩ := readMembers_of_numbers
    { position := middle, index := i, flags := s.directFlags i, methods := s.methodsRead n (i + 1), entries := #[] }
    hdata (by simpa [size_methodsRead] using hi)
  simp only [Nat.add_zero, modify_methodsRead (.inr rfl)] at hvirtual
  rw [List.length_append] at hfields
  simp only [readClassData, if_neg hzero, hstatics, hinstances, hdirects, hvirtuals, bind, Except.bind,
    pure, Except.pure, hposition, hfields, hdirect, hvirtual]
  rfl

theorem readClass_of_placed (h : Placed d s n) (hn : n ≤ mostClasses) {i : Nat} (hi : i < n) :
    readClass d (s.classesRead n i) (s.place n .classDefs + 32 * i) = (s.classesRead n (i + 1), none) := by
  have hdata : readClassData d (s.classesRead n i).methods _ (s.place n (.classData i)) = _ :=
    readClassData_of_placed h hn (s.spare .classFlags i) hi
  have hname : entry (s.classesRead n i).types (classIndex i) = .ok (className i) := s.entry_classIndex hi
  simp only [readClass, readClassRecord_of_placed h hn i hi, hdata, hname]
  simp [classesRead, List.range_succ, classOf]

theorem readClassesFrom_of_placed (h : Placed d s n) (hn : n ≤ mostClasses) {left i : Nat}
    (hleft : i + left = n) :
    readClassesFrom d left (s.place n .classDefs + 32 * i) (s.classesRead n i) = (s.classesRead n n, none) := by
  induction left generalizing i with
  | zero =>
    obtain rfl : i = n := hleft
    rfl
  | succ left ih =>
    have hrest := ih (i := i + 1) (by omega)
    rw [Nat.mul_succ, ← Nat.add_assoc] at hrest
    rw [readClassesFrom, readClass_of_placed h hn (by omega)]
    exact hrest

theorem readClasses_of_placed (h : Placed d s n) (hn : n ≤ mostClasses) :
    readClasses d (s.classesRead n 0) = (s.classesRead n n, none) :=
  readClassesFrom_of_placed h hn (i := 0) (Nat.zero_add n)

/-- The code that all methods share, at its offset: four instructions, the first two of them guarded. -/
def codeAt (offset : Nat) : CodeItem where
  registersSize := 8
  insSize := 1
  outsSize := 1
  triesSize := 1
  instructions := ((List.range 4).map fun i => ⟨0xF0, 0, (offset + 16 + 2 * i : Nat)⟩).toArray
  tries := #[⟨0, 2, 0⟩]

theorem readCodeItem_of_holds (h : Holds d o (s.codeItem n)) : readCodeItem d o = .ok (codeAt o) := by
  have hsizes := h.left.left.left.left
  have hcounts : Holds d (o + 8) (row 4 [s.spare .debugInfo n, 4]) := by simpa using h.left.left.left.right
  have hcode : Holds d (o + 16) (row 2 [0xF0, 0xF0, 0xF0, 0xF0]) := by simpa [Nat.add_assoc] using h.left.left.right
  have hstart : Holds d (o + 24) (littleEndian 4 0) := by simpa [Nat.add_assoc] using h.left.right
  have hrange : Holds d (o + 28) (row 2 [2, 0]) := by simpa [Nat.add_assoc] using h.right
  have hregisters : word d 2 (o : Nat) = .ok 8 := word_of_row hsizes (k := 0) rfl (by decide)
  have hins : word d 2 (o + 2 : Nat) = .ok 1 := word_of_row hsizes (k := 1) rfl (by decide)
  have houts : word d 2 (o + 4 : Nat) = .ok 1 := word_of_row hsizes (k := 2) rfl (by decide)
  have htries : word d 2 (o + 6 : Nat) = .ok 1 := word_of_row hsizes (k := 3) rfl (by decide)
  have hnotes : word d 4 (o + 8 : Nat) = .ok (s.spare .debugInfo n) :=
    word_of_row hcounts (k := 0) rfl (s.spare_lt _ _)
  have hcount : word d 4 (o + 12 : Nat) = .ok 4 := word_of_row hcounts (k := 1) rfl (by decide)
  have hinstructions : readAll 4 (fun i => readInstruction d (o + 16 + 2 * i)) =
      .ok (codeAt o).instructions := by
    refine readAll_eq (by simp) fun i a ha => ?_
    obtain ⟨hi, rfl⟩ := getElem?_map_range ha
    have hunit : [0xF0, 0xF0, 0xF0, 0xF0][i]? = some 0xF0 := by
      change (List.replicate 4 0xF0)[i]? = _
      rw [List.getElem?_replicate, if_pos hi]
    have hword : word d 2 (o + 16 + 2 * i : Nat) = .ok 0xF0 := word_of_row hcode hunit (by decide)
    rw [readInstruction, hword]
    rfl
  have hblock : readTryBlock d (o + 24) = .ok ⟨0, 2, 0⟩ := by
    have hfirst : word d 4 (o + 24 : Nat) = .ok 0 := word_of_holds hstart (by decide)
    have hlength : word d 2 (o + 28 : Nat) = .ok 2 := word_of_row hrange (k := 0) rfl (by decide)
    have hhandler : word d 2 (o + 30 : Nat) = .ok 0 := word_of_row hrange (k := 1) rfl (by decide)
    simp only [readTryBlock, hfirst, hlength, hhandler, bind, Except.bind]
    rfl
  have hblocks : readAll 1 (fun i => readTryBlock d (o + 16 + 2 * 4 + 8 * i)) = .ok (codeAt o).tries := by
    refine readAll_eq (l := [(⟨0, 2, 0⟩ : TryBlock)]) rfl fun i a ha => ?_
    cases i with
    | zero =>
      cases ha
      exact hblock
    | succ i => cases ha
  simp only [readCodeItem, hregisters, hins, houts, htries, hnotes, hcount, bind, Except.bind,
    hinstructions, hblocks]
  rfl

/-- Methods with one code item between them leave one entry in the table. -/
theorem readCodeOf_shared {item : CodeItem} (ho : o ≠ 0) (hitem : readCodeItem d o = .ok item)
    {ms : List Method} (hms : ∀ m ∈ ms, m.codeOffset = o) :
    readCodeOf d ms [] = (if ms = [] then [] else [(o, item)], none) := by
  have hput : ∀ ms : List Method, (∀ m ∈ ms, m.codeOffset = o) →
      readCodeOf d ms [(o, item)] = ([(o, item)], none) := by
    intro ms hms
    induction ms with
    | nil => rfl
    | cons m ms ih =>
      have hm := hms m List.mem_cons_self
      rw [readCodeOf, hm, if_neg ho, hitem]
      simpa [Table.put] using ih fun m hm => hms m (List.mem_cons_of_mem _ hm)
  cases ms with
  | nil => rfl
  | cons m ms =>
    have hm := hms m List.mem_cons_self
    rw [readCodeOf, hm, if_neg ho, hitem]
    exact hput ms fun m hm => hms m (List.mem_cons_of_mem _ hm)

theorem methodsRead_all (s : Design) (n : Nat) :
    s.methodsRead n n = ((List.range n).map (s.methodOf (s.codeOffset n))).toArray := by
  have hall : ∀ i ∈ List.range n,
      s.methodOf (if i < n then s.codeOffset n else 0) i = s.methodOf (s.codeOffset n) i := by
    intro i hi
    rw [if_pos (List.mem_range.mp hi)]
  rw [methodsRead, List.map_congr_left hall]

/-- The table of code of an image of `n` classes: no class, no code. -/
def codeTable (s : Design) (n : Nat) : Table Nat CodeItem :=
  if n = 0 then [] else [(s.codeOffset n, codeAt (s.codeOffset n))]

theorem readCode_of_placed (h : Placed d s n) (hn : n ≤ mostClasses) :
    readCode d (s.classesRead n n) = ({ s.classesRead n n with code := s.codeTable n }, none) := by
  have hmem : .code ∈ pieces n (s.lists n) := by simp [pieces]
  have hoffset := place_ne_zero hn hmem
  have hitem := readCodeItem_of_holds (h.piece .code hmem)
  rw [place_code] at hoffset hitem
  have hshared : ∀ m ∈ (s.classesRead n n).methods.toList, m.codeOffset = s.codeOffset n := by
    intro m hm
    have hm : m ∈ (s.methodsRead n n).toList := hm
    rw [methodsRead_all] at hm
    obtain ⟨i, -, rfl⟩ := List.mem_map.mp hm
    rfl
  have hempty : ((s.classesRead n n).methods.toList = []) = (n = 0) := by
    rw [← List.length_eq_zero_iff, Array.length_toList]
    exact congrArg (· = 0) (s.size_methodsRead n n)
  simp only [readCode, readCodeOf_shared hoffset hitem hshared, hempty, codeTable]

theorem parse_of_placed (h : Placed d s n) (hn : n ≤ mostClasses) :
    parse d = ({ s.classesRead n n with code := s.codeTable n }, none) := by
  simp only [parse, readHeader_of_placed h hn, Partial.andThen, readStrings_of_placed h hn,
    readTypes_of_placed h hn, readProtos_of_placed h hn, readFields_of_placed h hn,
    readMethods_of_placed h hn, readClasses_of_placed h hn, readCode_of_placed h hn]

end Sample.Design

end Handset.Dex
