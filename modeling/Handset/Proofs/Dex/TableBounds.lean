import Handset.Machine.Calls
import Handset.Proofs.Dex.ClassMembers
import Handset.Proofs.Dex.CodeLayout
import Handset.Proofs.Dex.ReferentialIntegrity

/-!
# How large an image can become

The counts of an image are numbers of its own choice, some of them of any size. Every round of a loop reads bytes
that no other round of that loop reads, or it is the last one; so what is collected is bounded by the size of the
data and not by the counts, whether the reading goes through or stops on the way.
-/
namespace Handset.Dex

open Step (exists_of_bind_eq_ok)

variable {d : Bytes} {image : Image} {n : Nat}

/-- The tables and lists of the image fit into so many bytes. -/
structure Image.Fits (size : Nat) (image : Image) : Prop where
  strings : image.strings.size ≤ size / 4
  types : image.types.size ≤ size / 4
  protos : image.protos.size ≤ size / 12
  fields : image.fields.size ≤ size / 8
  methods : image.methods.size ≤ size / 8
  classes : image.classes.size ≤ size / 32
  parameters : ∀ proto ∈ image.protos, proto.parameters.size ≤ size / 4
  interfaces : ∀ c ∈ image.classes, c.interfaces.size ≤ size / 4
  members : ∀ c ∈ image.classes, c.directMethods.size + c.virtualMethods.size ≤ size / 3
  instructions : ∀ entry ∈ image.code, entry.2.instructions.size ≤ size / 2
  tries : ∀ entry ∈ image.code, entry.2.tries.size ≤ size / 8

/-! ### Entries of one width -/

/-- Where the entry `j` ends behind `width * (j + 1)` bytes, there are not more entries than fit. -/
theorem Collected.size_le_div {α : Type} {read : Nat → Except Fault α} {count width : Nat}
    {p : Partial (Array α)} (h : Collected read count p) (hwidth : 0 < width)
    (hread : ∀ j a, read j = .ok a → width * (j + 1) ≤ n) : p.1.size ≤ n / width := by
  rw [Nat.le_div_iff_mul_le hwidth, Nat.mul_comm]
  cases hsize : p.1.size with
  | zero => exact Nat.zero_le _
  | succ k =>
    have hlast : p.1[k]? = some p.1[k] := Array.getElem?_eq_getElem (by omega)
    exact hread k _ (h.read_eq k _ hlast)

theorem size_le_of_readTypeList {types entries : Array String} {offset : Nat}
    (h : readTypeList d types offset = .ok entries) : entries.size ≤ d.size / 4 := by
  unfold readTypeList at h
  split at h
  next =>
    cases h
    exact Nat.zero_le _
  next =>
    obtain ⟨count, -, h⟩ := exists_of_bind_eq_ok h
    refine (collected_of_readAll h).size_le_div (by decide) fun j a hj => ?_
    obtain ⟨index, hindex, -⟩ := exists_of_bind_eq_ok hj
    have hle := le_of_word (by decide) hindex
    omega

theorem le_of_readStringId {start : Nat} {s : String} (h : readStringId d start = .ok s) :
    start + 4 ≤ d.size := by
  obtain ⟨offset, hoffset, -⟩ := exists_of_bind_eq_ok h
  exact le_of_word (by decide) hoffset

theorem le_of_readTypeId {start : Nat} {s : String} (h : readTypeId d image start = .ok s) :
    start + 4 ≤ d.size := by
  obtain ⟨index, hindex, -⟩ := exists_of_bind_eq_ok h
  exact le_of_word (by decide) hindex

theorem le_of_readProto {start : Nat} {proto : Proto} (h : readProto d image start = .ok proto) :
    start + 12 ≤ d.size ∧ proto.parameters.size ≤ d.size / 4 := by
  obtain ⟨shorty, -, h⟩ := exists_of_bind_eq_ok h
  obtain ⟨returnType, -, h⟩ := exists_of_bind_eq_ok h
  obtain ⟨parametersOffset, hoffset, h⟩ := exists_of_bind_eq_ok h
  obtain ⟨parameters, hparameters, h⟩ := exists_of_bind_eq_ok h
  obtain ⟨shortyName, -, h⟩ := exists_of_bind_eq_ok h
  obtain ⟨returnName, -, h⟩ := exists_of_bind_eq_ok h
  cases h
  have hle := le_of_word (by decide) hoffset
  exact ⟨by omega, size_le_of_readTypeList hparameters⟩

theorem le_of_readField {start : Nat} {f : Field} (h : readField d image start = .ok f) :
    start + 8 ≤ d.size := by
  obtain ⟨classIndex, -, h⟩ := exists_of_bind_eq_ok h
  obtain ⟨typeIndex, -, h⟩ := exists_of_bind_eq_ok h
  obtain ⟨nameIndex, hname, -⟩ := exists_of_bind_eq_ok h
  have hle := le_of_word (by decide) hname
  omega

theorem le_of_readMethod {start : Nat} {m : Method} (h : readMethod d image start = .ok m) :
    start + 8 ≤ d.size := by
  obtain ⟨classIndex, -, h⟩ := exists_of_bind_eq_ok h
  obtain ⟨protoIndex, -, h⟩ := exists_of_bind_eq_ok h
  obtain ⟨nameIndex, hname, -⟩ := exists_of_bind_eq_ok h
  have hle := le_of_word (by decide) hname
  omega

/-! ### The tables before the classes -/

theorem fits_readStrings (h : image.Fits d.size) : (readStrings d image).1.Fits d.size :=
  have hsize := (collected (image.header.word .stringIdsSize) _).size_le_div (by decide) fun j s hj => by
    have hle := le_of_readStringId hj
    omega
  { h with strings := hsize }

theorem fits_readTypes (h : image.Fits d.size) : (readTypes d image).1.Fits d.size :=
  have hsize := (collected (image.header.word .typeIdsSize) _).size_le_div (by decide) fun j s hj => by
    have hle := le_of_readTypeId hj
    omega
  { h with types := hsize }

theorem fits_readProtos (h : image.Fits d.size) : (readProtos d image).1.Fits d.size :=
  have hread := collected (image.header.word .protoIdsSize) _
  have hsize := hread.size_le_div (by decide) fun j proto hj => by
    have hle := (le_of_readProto hj).1
    omega
  have hparameters : ∀ proto ∈ (readProtos d image).1.protos, proto.parameters.size ≤ d.size / 4 := by
    intro proto hproto
    obtain ⟨j, hj⟩ := hread.exists_read hproto
    exact (le_of_readProto hj).2
  { h with protos := hsize, parameters := hparameters }

theorem fits_readFields (h : image.Fits d.size) : (readFields d image).1.Fits d.size :=
  have hsize := (collected (image.header.word .fieldIdsSize) _).size_le_div (by decide) fun j f hj => by
    have hle := le_of_readField hj
    omega
  { h with fields := hsize }

theorem fits_readMethods (h : image.Fits d.size) : (readMethods d image).1.Fits d.size :=
  have hsize := (collected (image.header.word .methodIdsSize) _).size_le_div (by decide) fun j m hj => by
    have hle := le_of_readMethod hj
    omega
  { h with methods := hsize }

/-! ### The classes -/

theorem Leb128.Spans.lt {p q : Nat} (h : Leb128.Spans d p n q) : p < q ∧ q ≤ d.size := by
  induction h with
  | last hbyte =>
    obtain ⟨hlt, -⟩ := Array.getElem?_eq_some_iff.mp hbyte
    exact ⟨Nat.lt_succ_self _, hlt⟩
  | more hbyte hhigh rest ih => exact ⟨Nat.lt_of_succ_lt ih.1, ih.2⟩

theorem Numbers.length_le {p q : Nat} {ns : List Nat} (h : Numbers d p ns q) :
    p + ns.length ≤ q ∧ (ns ≠ [] → q ≤ d.size) := by
  induction h with
  | nil p => exact ⟨Nat.le_refl _, fun hne => absurd rfl hne⟩
  | @cons p n q r ns head tail ih =>
    obtain ⟨hlt, hle⟩ := head.lt
    obtain ⟨hrest, hend⟩ := ih
    refine ⟨by rw [List.length_cons]; omega, fun _ => ?_⟩
    cases tail with
    | nil => exact hle
    | cons => exact hend (List.cons_ne_nil _ _)

theorem MethodEntry.length_numbers (es : List MethodEntry) :
    (es.flatMap MethodEntry.numbers).length = 3 * es.length := by
  induction es with
  | nil => rfl
  | cons e es ih =>
    rw [List.flatMap_cons, List.length_append, ih, List.length_cons]
    exact Nat.add_comm _ _

theorem MemberLists.StandsAt.length_le {l : MemberLists} {offset : Nat} (h : l.StandsAt d offset) :
    (l.directs ++ l.virtuals).length ≤ d.size / 3 := by
  unfold StandsAt at h
  split at h
  next =>
    subst h
    exact Nat.zero_le _
  next =>
    obtain ⟨stop, h⟩ := h
    obtain ⟨hlength, hend⟩ := h.length_le
    have hstop := hend (List.cons_ne_nil _ _)
    rw [numbers, List.length_append, List.length_append, MethodEntry.length_numbers] at hlength
    rw [Nat.le_div_iff_mul_le (by decide)]
    omega

theorem MethodEntry.length_listed_le (size : Nat) (es : List MethodEntry) :
    (listed size es).length ≤ es.length := by
  calc (listed size es).length ≤ (members es).length := List.length_filter_le _ _
    _ = es.length := List.length_mapIdx

theorem Image.Fits.withMethods {methods : Array Method} (h : image.Fits n)
    (hmethods : SameMethods image.methods methods) : ({ image with methods } : Image).Fits n :=
  { h with methods := Nat.le_trans (Nat.le_of_eq hmethods.size_eq) h.methods }

theorem Image.Fits.withClass {c : ClassDef} (h : image.Fits n) (hroom : 32 * (image.classes.size + 1) ≤ n)
    (hinterfaces : c.interfaces.size ≤ n / 4)
    (hmembers : c.directMethods.size + c.virtualMethods.size ≤ n / 3) :
    ({ image with classes := image.classes.push c } : Image).Fits n := by
  refine { h with classes := ?_, interfaces := fun c' hc' => ?_, members := fun c' hc' => ?_ }
  · rw [Array.size_push, Nat.le_div_iff_mul_le (by decide), Nat.mul_comm]
    exact hroom
  · rcases Array.mem_push.mp hc' with hc' | rfl
    · exact h.interfaces c' hc'
    · exact hinterfaces
  · rcases Array.mem_push.mp hc' with hc' | rfl
    · exact h.members c' hc'
    · exact hmembers

theorem fits_readClass {start : Nat} (h : image.Fits d.size) (hroom : 32 * image.classes.size ≤ start) :
    (readClass d image start).1.Fits d.size ∧
      ((readClass d image start).2 = none → 32 * (readClass d image start).1.classes.size ≤ start + 32) := by
  unfold readClass
  split
  next => exact ⟨h, nofun⟩
  next record hrecord =>
    obtain ⟨-, -, ⟨last, hlast⟩, ⟨place, hinterfaces⟩⟩ := readAt_of_readClassRecord hrecord
    have hle := le_of_word (by decide) hlast
    have hsame := (within_readClassData (d := d) image.methods record.accessFlags record.dataOffset).1
    split
    next data e hdata =>
      rw [hdata] at hsame
      exact ⟨h.withMethods hsame, nofun⟩
    next data hdata =>
      rw [hdata] at hsame
      obtain ⟨l, hstands, hfollows⟩ := follows_readClassData hdata
      have hmembers : data.direct.size + data.virtual.size ≤ d.size / 3 := by
        have hlength := congrArg List.length hfollows.members
        rw [List.length_append] at hlength
        have hlisted := MethodEntry.length_listed_le image.methods.size (l.directs ++ l.virtuals)
        exact Nat.le_trans (hlength ▸ hlisted) hstands.length_le
      dsimp only
      split
      next => exact ⟨h.withMethods hsame, nofun⟩
      next className hname =>
        refine ⟨(h.withMethods hsame).withClass (by dsimp only; omega)
          (size_le_of_readTypeList hinterfaces) hmembers, fun _ => ?_⟩
        rw [Array.size_push]
        omega

theorem fits_readClassesFrom {start : Nat} (left : Nat) (h : image.Fits d.size)
    (hroom : 32 * image.classes.size ≤ start) : (readClassesFrom d left start image).1.Fits d.size := by
  induction left generalizing image start with
  | zero => exact h
  | succ left ih =>
    have hclass := fits_readClass h hroom
    unfold readClassesFrom
    split
    next next e hread =>
      rw [hread] at hclass
      exact hclass.1
    next next hread =>
      rw [hread] at hclass
      exact ih hclass.1 (hclass.2 rfl)

/-! ### The code -/

theorem CodeItem.StandsAt.size_le {item : CodeItem} {offset : Nat} (h : item.StandsAt d offset) :
    item.instructions.size ≤ d.size / 2 ∧ item.tries.size ≤ d.size / 8 := by
  have hinstructions : Collected (readInstruction d <| offset + 16 + 2 * ·) item.instructions.size
      (item.instructions, none) :=
    ⟨fun j i hi => readInstruction_eq_ok_iff.mpr (h.instruction j i hi), Nat.le_refl _, fun _ => rfl⟩
  have htries : Collected (readTryBlock d <| offset + 16 + 2 * item.instructions.size + 8 * ·)
      item.tries.size (item.tries, none) :=
    ⟨fun k t ht => readTryBlock_eq_ok_iff.mpr (h.tryBlock k t ht), Nat.le_refl _, fun _ => rfl⟩
  constructor
  · refine hinstructions.size_le_div (by decide) fun j i hj => ?_
    obtain ⟨unit, hunit, -⟩ := exists_of_bind_eq_ok hj
    have hle := le_of_word (by decide) hunit
    omega
  · refine htries.size_le_div (by decide) fun k t hk => ?_
    obtain ⟨start, -, hk⟩ := exists_of_bind_eq_ok hk
    obtain ⟨count, -, hk⟩ := exists_of_bind_eq_ok hk
    obtain ⟨handler, hhandler, -⟩ := exists_of_bind_eq_ok hk
    have hle := le_of_word (by decide) hhandler
    omega

theorem mem_readCodeOf {methods : List Method} {code : Table Nat CodeItem} {entry : Nat × CodeItem}
    (h : entry ∈ (readCodeOf d methods code).1) :
    entry ∈ code ∨ ∃ offset, readCodeItem d offset = .ok entry.2 := by
  induction methods generalizing code with
  | nil => exact .inl h
  | cons m rest ih =>
    unfold readCodeOf at h
    split at h
    next => exact ih h
    next =>
      split at h
      next => exact .inl h
      next item hitem =>
        rcases ih h with hput | hread
        · rcases Table.eq_or_mem_of_mem_put hput with rfl | hmem
          · exact .inr ⟨m.codeOffset, hitem⟩
          · exact .inl hmem
        · exact .inr hread

theorem fits_readCode (h : image.Fits d.size) : (readCode d image).1.Fits d.size := by
  have hentry (entry : Nat × CodeItem) (hmem : entry ∈ (readCode d image).1.code) :
      entry.2.instructions.size ≤ d.size / 2 ∧ entry.2.tries.size ≤ d.size / 8 := by
    rcases mem_readCodeOf hmem with hnone | ⟨offset, hread⟩
    · cases hnone
    · exact (readCodeItem_eq_ok_iff.mp hread).size_le
  exact { h with
    instructions := fun entry hmem => (hentry entry hmem).1
    tries := fun entry hmem => (hentry entry hmem).2 }

/-! ### The whole image -/

/-- The image fits, and no class has been read, so that the first one has its room. -/
structure Image.Unclassed (size : Nat) (image : Image) : Prop where
  fits : image.Fits size
  empty : image.classes = #[]

theorem fits_readClasses (h : image.Unclassed d.size) : (readClasses d image).1.Fits d.size :=
  fits_readClassesFrom _ h.fits (by rw [h.empty]; exact Nat.zero_le _)

theorem fits_parse (d : Bytes) : (parse d).1.Fits d.size := by
  unfold parse
  rcases readHeader d with ⟨header, fault⟩
  have hstart : Image.Unclassed d.size (({ header } : Image), fault).1 := ⟨by constructor <;> simp, rfl⟩
  have hstrings := holds_andThen hstart (fun _ h => h) fun _ h => ⟨fits_readStrings h.fits, h.empty⟩
  have htypes := holds_andThen hstrings (fun _ h => h) fun _ h => ⟨fits_readTypes h.fits, h.empty⟩
  have hprotos := holds_andThen htypes (fun _ h => h) fun _ h => ⟨fits_readProtos h.fits, h.empty⟩
  have hfields := holds_andThen hprotos (fun _ h => h) fun _ h => ⟨fits_readFields h.fits, h.empty⟩
  have hmethods := holds_andThen hfields (fun _ h => h) fun _ h => ⟨fits_readMethods h.fits, h.empty⟩
  have hclasses := holds_andThen hmethods (fun _ h => h.fits) fun _ h => fits_readClasses h
  exact holds_andThen hclasses (fun _ h => h) fun _ h => fits_readCode h

end Handset.Dex

namespace Handset.Act

/-- Whatever the bytes are, reading them answers and changes nothing but the log. It tells whether it came to the
end; either way, what was collected fits into the bytes, however much the counts among them claim. -/
theorem reading_answers_and_fits (d : Bytes) (m : Machine) :
    (∃ log, (readImage d).on m = (.ok (Dex.parse d), { m with log })) ∧ (Dex.parse d).1.Fits d.size :=
  ⟨⟨_, rfl⟩, Dex.fits_parse d⟩

end Handset.Act
