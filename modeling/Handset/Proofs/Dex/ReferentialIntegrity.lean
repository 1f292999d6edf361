import Handset.Proofs.Dex.Passes
import Handset.Proofs.Steps

/-!
# Referential integrity of parsed images

Whatever the bytes are and wherever the reading stops, the names in an image are those that its indices
stand for, and the methods that a class lists are in the method table. Each pass checks its indices
against tables that are not changed any more, with one exception: the class pass writes code offsets
into the method table. It changes nothing else there, so what was checked before stays true.
-/
namespace Handset.Dex

open Step (exists_of_bind_eq_ok)

variable {d : Bytes} {image : Image}

/-- The names of a field are those that its indices stand for. -/
def Field.Resolved (image : Image) (f : Field) : Prop :=
  image.types[f.classIndex]? = some f.className ∧ image.types[f.typeIndex]? = some f.typeName ∧
    image.strings[f.nameIndex]? = some f.name

/-- The names and the signature of a method are those that its indices stand for. -/
def Method.Resolved (image : Image) (m : Method) : Prop :=
  image.types[m.classIndex]? = some m.className ∧ image.protos[m.protoIndex]? = some m.proto ∧
    image.strings[m.nameIndex]? = some m.name

/-- All methods that a class lists are in the method table. -/
def Member.Listed (methods : Array Method) (members : Array Member) : Prop :=
  ∀ e ∈ members, e.methodIndex < methods.size

/-- The name of a class is the one that its index stands for, and its methods are in the table. -/
def ClassDef.Resolved (image : Image) (c : ClassDef) : Prop :=
  image.types[c.classIndex]? = some c.className ∧ Member.Listed image.methods c.directMethods ∧
    Member.Listed image.methods c.virtualMethods

/-- All references of an image are right. -/
structure Image.Coherent (image : Image) : Prop where
  types : ∀ name ∈ image.types, name ∈ image.strings
  fields : ∀ f ∈ image.fields, f.Resolved image
  methods : ∀ m ∈ image.methods, m.Resolved image
  classes : ∀ c ∈ image.classes, c.Resolved image

/-! ### The tables of names and members -/

theorem entry_eq_ok {α : Type} {table : Array α} {index : Nat} {a : α} (h : entry table index = .ok a) :
    table[index]? = some a := by
  unfold entry at h
  split at h
  next hfound =>
    obtain rfl := Except.ok.inj h
    exact hfound
  next => cases h

theorem readTypeId_eq_ok {start : Nat} {name : String} (h : readTypeId d image start = .ok name) :
    name ∈ image.strings := by
  obtain ⟨index, -, h⟩ := exists_of_bind_eq_ok h
  exact Array.mem_of_getElem? (entry_eq_ok h)

theorem readField_eq_ok {start : Nat} {f : Field} (h : readField d image start = .ok f) :
    f.Resolved image := by
  obtain ⟨classIndex, -, h⟩ := exists_of_bind_eq_ok h
  obtain ⟨typeIndex, -, h⟩ := exists_of_bind_eq_ok h
  obtain ⟨nameIndex, -, h⟩ := exists_of_bind_eq_ok h
  obtain ⟨className, hclass, h⟩ := exists_of_bind_eq_ok h
  obtain ⟨typeName, htype, h⟩ := exists_of_bind_eq_ok h
  obtain ⟨name, hname, h⟩ := exists_of_bind_eq_ok h
  obtain rfl := Except.ok.inj h
  exact ⟨entry_eq_ok hclass, entry_eq_ok htype, entry_eq_ok hname⟩

theorem readMethod_eq_ok {start : Nat} {m : Method} (h : readMethod d image start = .ok m) :
    m.Resolved image := by
  obtain ⟨classIndex, -, h⟩ := exists_of_bind_eq_ok h
  obtain ⟨protoIndex, -, h⟩ := exists_of_bind_eq_ok h
  obtain ⟨nameIndex, -, h⟩ := exists_of_bind_eq_ok h
  obtain ⟨className, hclass, h⟩ := exists_of_bind_eq_ok h
  obtain ⟨name, hname, h⟩ := exists_of_bind_eq_ok h
  obtain ⟨proto, hproto, h⟩ := exists_of_bind_eq_ok h
  obtain rfl := Except.ok.inj h
  exact ⟨entry_eq_ok hclass, entry_eq_ok hproto, entry_eq_ok hname⟩

/-- What is known of an image when `n` tables have been read, or when the reading has stopped
earlier. -/
structure Sound (n : Nat) (p : Partial Image) : Prop where
  coherent : p.1.Coherent
  filled : p.1.FilledInOrder
  readUpTo : p.2 = none → p.1.ReadUpTo n

theorem Sound.andThen {n m : Nat} {p : Partial Image} {next : Image → Partial Image} (h : Sound n p)
    (hnext : ∀ image : Image, image.Coherent → image.ReadUpTo n → Sound m (next image)) :
    Sound m (p.andThen next) := by
  obtain ⟨image, fault⟩ := p
  cases fault with
  | none => exact hnext image h.coherent (h.readUpTo rfl)
  | some e => exact ⟨h.coherent, h.filled, nofun⟩

/-- A pass that fills one table, as far as the header says or less far. -/
theorem sound_of_resized {kind : TableKind} {next : Image} {size : Nat} {fault : Option Fault}
    (h : image.ReadUpTo kind.rank) (hnext : image.Resized next kind size) (hcoherent : next.Coherent)
    (hle : size ≤ image.header.word kind.counted)
    (hfull : fault = none → size = image.header.word kind.counted) :
    Sound (kind.rank + 1) (next, fault) :=
  ⟨hcoherent, h.filledInOrder hnext hle, fun hnone => h.succ hnext (hfull hnone)⟩

theorem sound_readStrings (h : image.ReadUpTo TableKind.strings.rank) :
    Sound 1 (readStrings d image) := by
  have hread := collected (image.header.word .stringIdsSize) fun i =>
    readStringId d (image.header.word .stringIdsOffset + 4 * i)
  have htypes : image.types = #[] := Array.eq_empty_of_size_eq_zero (h .types)
  have hfields : image.fields = #[] := Array.eq_empty_of_size_eq_zero (h .fields)
  have hmethods : image.methods = #[] := Array.eq_empty_of_size_eq_zero (h .methods)
  have hclasses : image.classes = #[] := Array.eq_empty_of_size_eq_zero (h .classes)
  refine sound_of_resized h ⟨rfl, fun k => by cases k <;> rfl⟩ ?_ hread.size_le hread.full
  constructor <;> simp [htypes, hfields, hmethods, hclasses]

theorem sound_readTypes (h : image.ReadUpTo TableKind.types.rank) : Sound 2 (readTypes d image) := by
  have hread := collected (image.header.word .typeIdsSize) fun i =>
    readTypeId d image (image.header.word .typeIdsOffset + 4 * i)
  have hfields : image.fields = #[] := Array.eq_empty_of_size_eq_zero (h .fields)
  have hmethods : image.methods = #[] := Array.eq_empty_of_size_eq_zero (h .methods)
  have hclasses : image.classes = #[] := Array.eq_empty_of_size_eq_zero (h .classes)
  refine sound_of_resized h ⟨rfl, fun k => by cases k <;> rfl⟩ ?_ hread.size_le hread.full
  refine ⟨fun name hname => ?_, by simp [hfields], by simp [hmethods], by simp [hclasses]⟩
  obtain ⟨i, hi⟩ := hread.exists_read hname
  exact readTypeId_eq_ok hi

theorem sound_readProtos (hc : image.Coherent) (h : image.ReadUpTo TableKind.protos.rank) :
    Sound 3 (readProtos d image) := by
  have hread := collected (image.header.word .protoIdsSize) fun i =>
    readProto d image (image.header.word .protoIdsOffset + 12 * i)
  have hmethods : image.methods = #[] := Array.eq_empty_of_size_eq_zero (h .methods)
  refine sound_of_resized h ⟨rfl, fun k => by cases k <;> rfl⟩ ?_ hread.size_le hread.full
  exact ⟨hc.types, hc.fields, by simp [hmethods], hc.classes⟩

theorem sound_readFields (hc : image.Coherent) (h : image.ReadUpTo TableKind.fields.rank) :
    Sound 4 (readFields d image) := by
  have hread := collected (image.header.word .fieldIdsSize) fun i =>
    readField d image (image.header.word .fieldIdsOffset + 8 * i)
  refine sound_of_resized h ⟨rfl, fun k => by cases k <;> rfl⟩ ?_ hread.size_le hread.full
  refine ⟨hc.types, fun f hf => ?_, hc.methods, hc.classes⟩
  obtain ⟨i, hi⟩ := hread.exists_read hf
  exact readField_eq_ok hi

theorem sound_readMethods (hc : image.Coherent) (h : image.ReadUpTo TableKind.methods.rank) :
    Sound 5 (readMethods d image) := by
  have hread := collected (image.header.word .methodIdsSize) fun i =>
    readMethod d image (image.header.word .methodIdsOffset + 8 * i)
  have hclasses : image.classes = #[] := Array.eq_empty_of_size_eq_zero (h .classes)
  refine sound_of_resized h ⟨rfl, fun k => by cases k <;> rfl⟩ ?_ hread.size_le hread.full
  refine ⟨hc.types, hc.fields, fun m hm => ?_, by simp [hclasses]⟩
  obtain ⟨i, hi⟩ := hread.exists_read hm
  exact readMethod_eq_ok hi

/-! ### The classes -/

/-- The tables have the same methods, whatever their code offsets are. -/
def SameMethods (methods methods' : Array Method) : Prop :=
  methods'.map (fun m => { m with codeOffset := 0 }) = methods.map fun m => { m with codeOffset := 0 }

theorem SameMethods.size_eq {methods methods' : Array Method} (h : SameMethods methods methods') :
    methods'.size = methods.size := by
  simpa using congrArg Array.size h

theorem SameMethods.trans {first second third : Array Method} (h : SameMethods first second)
    (h' : SameMethods second third) : SameMethods first third :=
  Eq.trans h' h

/-- The methods are resolved as before. -/
theorem SameMethods.resolved {methods methods' : Array Method} (h : SameMethods methods methods')
    (hr : ∀ m ∈ methods, m.Resolved image) : ∀ m ∈ methods', m.Resolved image := by
  intro m hm
  have hmem : { m with codeOffset := 0 } ∈ methods.map fun m => { m with codeOffset := 0 } :=
    h ▸ Array.mem_map_of_mem hm
  obtain ⟨n, hn, heq⟩ := Array.mem_map.mp hmem
  have hresolved : ({ n with codeOffset := 0 } : Method).Resolved image := hr n hn
  rw [heq] at hresolved
  exact hresolved

theorem sameMethods_modify (methods : Array Method) (index codeOffset : Nat) :
    SameMethods methods (methods.modify index fun m => { m with codeOffset }) := by
  apply Array.ext_getElem?
  intro i
  simp only [Array.getElem?_map, Array.getElem?_modify]
  split
  · cases methods[i]? <;> rfl
  · rfl

/-- What a scan of the methods of a class leaves: the same methods, and entries for methods that are
there. -/
def MemberScan.Within (methods : Array Method) (scan : MemberScan) : Prop :=
  SameMethods methods scan.methods ∧ Member.Listed methods scan.entries

theorem skipFields_keeps (left : Nat) (scan : MemberScan) :
    (skipFields d left scan).1.methods = scan.methods ∧
      (skipFields d left scan).1.entries = scan.entries := by
  induction left generalizing scan with
  | zero => exact ⟨rfl, rfl⟩
  | succ left ih =>
    unfold skipFields
    split
    · exact ⟨rfl, rfl⟩
    · exact ih _

theorem within_readMembers {methods : Array Method} (left : Nat) {scan : MemberScan}
    (h : scan.Within methods) : (readMembers d left scan).1.Within methods := by
  induction left generalizing scan with
  | zero => exact h
  | succ left ih =>
    obtain ⟨hsame, hlisted⟩ := h
    unfold readMembers
    split
    · exact ⟨hsame, hlisted⟩
    next difference flags codeOffset position _ =>
      dsimp only
      split
      next hlt =>
        refine ih ⟨hsame.trans (sameMethods_modify _ _ _), fun e he => ?_⟩
        rcases Array.mem_push.mp he with he | rfl
        · exact hlisted e he
        · exact hsame.size_eq ▸ hlt
      next => exact ih ⟨hsame, hlisted⟩

/-- The class data leave the same methods, and list only methods that are there. -/
def ClassData.Within (methods : Array Method) (data : ClassData) : Prop :=
  SameMethods methods data.methods ∧ Member.Listed methods data.direct ∧
    Member.Listed methods data.virtual

theorem within_readClassData (methods : Array Method) (flags offset : Nat) :
    (readClassData d methods flags offset).1.Within methods := by
  have hnone : Member.Listed methods #[] := by simp [Member.Listed]
  unfold readClassData
  dsimp only
  split
  · exact ⟨rfl, hnone, hnone⟩
  split
  · exact ⟨rfl, hnone, hnone⟩
  next fields directs virtuals position _ =>
    have hskip := skipFields_keeps (d := d) fields { position, index := 0, flags, methods, entries := #[] }
    split
    · exact ⟨rfl, hnone, hnone⟩
    next scan heq =>
      rw [heq] at hskip
      have hscan : scan.Within methods := by
        rw [MemberScan.Within, hskip.1, hskip.2]
        exact ⟨rfl, hnone⟩
      have hdirect := within_readMembers (d := d) directs hscan
      split
      next heq => exact ⟨(heq ▸ hdirect).1, hnone, hnone⟩
      next scan' heq' =>
        rw [heq'] at hdirect
        -- the virtual methods go on in the same table, with a list of their own
        have hrest : ({ scan' with entries := #[] } : MemberScan).Within methods := ⟨hdirect.1, hnone⟩
        have hvirtual := within_readMembers (d := d) virtuals hrest
        split
        next heq => exact ⟨(heq ▸ hvirtual).1, hnone, hnone⟩
        next last heq =>
          rw [heq] at hvirtual
          exact ⟨hvirtual.1, hdirect.2, hvirtual.2⟩

theorem Image.Coherent.withMethods {methods : Array Method} (hc : image.Coherent)
    (h : SameMethods image.methods methods) : ({ image with methods } : Image).Coherent := by
  refine ⟨hc.types, hc.fields, h.resolved hc.methods, fun c hmem => ?_⟩
  obtain ⟨hname, hdirect, hvirtual⟩ := hc.classes c hmem
  refine ⟨hname, fun e he => ?_, fun e he => ?_⟩
  · exact h.size_eq ▸ hdirect e he
  · exact h.size_eq ▸ hvirtual e he

theorem Image.Coherent.withClass {c : ClassDef} (hc : image.Coherent) (hr : c.Resolved image) :
    ({ image with classes := image.classes.push c } : Image).Coherent := by
  refine ⟨hc.types, hc.fields, hc.methods, fun c' hmem => ?_⟩
  rcases Array.mem_push.mp hmem with hmem | rfl
  · exact hc.classes c' hmem
  · exact hr

/-- At most so many classes were added, exactly so many unless there was a fault, and beside them only
code offsets were set. -/
structure Grown (image : Image) (added : Nat) (p : Partial Image) : Prop where
  coherent : p.1.Coherent
  rest : ∃ methods classes, p.1 = { image with methods, classes }
  methods : SameMethods image.methods p.1.methods
  size_le : p.1.classes.size ≤ image.classes.size + added
  full : p.2 = none → p.1.classes.size = image.classes.size + added

theorem grown_readClass (hc : image.Coherent) (start : Nat) : Grown image 1 (readClass d image start) := by
  unfold readClass
  split
  · exact ⟨hc, ⟨_, _, rfl⟩, rfl, Nat.le_add_right _ _, nofun⟩
  next record _ =>
    have hdata := within_readClassData (d := d) image.methods record.accessFlags record.dataOffset
    split
    next data e heq =>
      rw [heq] at hdata
      exact ⟨hc.withMethods hdata.1, ⟨_, _, rfl⟩, hdata.1, Nat.le_add_right _ _, nofun⟩
    next data heq =>
      rw [heq] at hdata
      obtain ⟨hsame, hdirect, hvirtual⟩ := hdata
      have hcoherent := hc.withMethods hsame
      dsimp only
      split
      · exact ⟨hcoherent, ⟨_, _, rfl⟩, hsame, Nat.le_add_right _ _, nofun⟩
      next className hname =>
        refine ⟨hcoherent.withClass ⟨entry_eq_ok hname, ?_, ?_⟩, ⟨_, _, rfl⟩, hsame, ?_, fun _ => ?_⟩
        · exact fun e he => hsame.size_eq ▸ hdirect e he
        · exact fun e he => hsame.size_eq ▸ hvirtual e he
        · exact Nat.le_of_eq (Array.size_push _)
        · exact Array.size_push _

theorem grown_readClassesFrom (hc : image.Coherent) (left start : Nat) :
    Grown image left (readClassesFrom d left start image) := by
  induction left generalizing image start with
  | zero => exact ⟨hc, ⟨_, _, rfl⟩, rfl, Nat.le_refl _, fun _ => rfl⟩
  | succ left ih =>
    have hfirst := grown_readClass (d := d) hc start
    unfold readClassesFrom
    split
    next next e heq =>
      rw [heq] at hfirst
      exact ⟨hfirst.coherent, hfirst.rest, hfirst.methods, by have := hfirst.size_le; omega, nofun⟩
    next next heq =>
      rw [heq] at hfirst
      -- the image with one class more is coherent again, so the rest of the pass starts from it
      have hcoherent : next.Coherent := hfirst.coherent
      have hadded : next.classes.size = image.classes.size + 1 := hfirst.full rfl
      have hrest := ih hcoherent (start + 32)
      refine ⟨hrest.coherent, ?_, hfirst.methods.trans hrest.methods, ?_, fun hnone => ?_⟩
      · obtain ⟨methods, classes, rfl⟩ : ∃ methods classes, next = { image with methods, classes } :=
          hfirst.rest
        exact hrest.rest
      · have := hrest.size_le
        omega
      · have := hrest.full hnone
        omega

theorem sound_readClasses (hc : image.Coherent) (h : image.ReadUpTo TableKind.classes.rank) :
    Sound 6 (readClasses d image) := by
  have hgrown := grown_readClassesFrom (d := d) hc (image.header.word .classDefsSize)
    (image.header.word .classDefsOffset)
  have hempty : image.classes.size = 0 := h .classes
  change Grown image _ (readClasses d image) at hgrown
  generalize readClasses d image = p at hgrown ⊢
  obtain ⟨next, fault⟩ := p
  have hle : next.classes.size ≤ image.classes.size + image.header.word .classDefsSize := hgrown.size_le
  have hsame : next.methods.size = image.methods.size := hgrown.methods.size_eq
  obtain ⟨methods, classes, rfl⟩ : ∃ methods classes, next = { image with methods, classes } := hgrown.rest
  have hnext : image.Resized { image with methods, classes } .classes classes.size := by
    refine ⟨rfl, fun k => ?_⟩
    cases k with
    | methods => exact hsame
    | _ => rfl
  rw [hempty, Nat.zero_add] at hle
  refine sound_of_resized h hnext hgrown.coherent hle fun hnone => ?_
  have hfull := hgrown.full hnone
  rwa [hempty, Nat.zero_add] at hfull

/-! ### The whole image -/

theorem sound_readCode (hc : image.Coherent) (h : image.ReadUpTo 6) : Sound 6 (readCode d image) := by
  have hfull (k : TableKind) : image.tableSize k = image.header.word k.counted := by
    rw [h k, if_pos k.rank_lt]
  have hsize (k : TableKind) : (readCode d image).1.tableSize k = image.tableSize k := by
    cases k <;> rfl
  refine ⟨⟨hc.types, hc.fields, hc.methods, hc.classes⟩, ⟨fun k => ?_, fun k l _ hshort => ?_⟩, fun _ k => ?_⟩
  · exact Nat.le_of_eq ((hsize k).trans (hfull k))
  · exact absurd ((hsize k).trans (hfull k)) (Nat.ne_of_lt hshort)
  · exact (hsize k).trans (h k)

theorem sound_parse (d : Bytes) : Sound 6 (parse d) := by
  unfold parse
  rcases readHeader d with ⟨header, fault⟩
  have hstart : Sound 0 (({ header } : Image), fault) := by
    have hempty (k : TableKind) : ({ header } : Image).tableSize k = 0 := by cases k <;> rfl
    refine ⟨by constructor <;> simp, ⟨fun k => ?_, fun _ l _ _ => hempty l⟩, fun _ k => ?_⟩
    · rw [hempty k]
      exact Nat.zero_le _
    · rw [hempty k, if_neg (Nat.not_lt_zero _)]
  have hstrings := hstart.andThen fun _ _ h => sound_readStrings (d := d) h
  have htypes := hstrings.andThen fun _ _ h => sound_readTypes (d := d) h
  have hprotos := htypes.andThen fun _ hc h => sound_readProtos (d := d) hc h
  have hfields := hprotos.andThen fun _ hc h => sound_readFields (d := d) hc h
  have hmethods := hfields.andThen fun _ hc h => sound_readMethods (d := d) hc h
  have hclasses := hmethods.andThen fun _ hc h => sound_readClasses (d := d) hc h
  exact hclasses.andThen fun _ hc h => sound_readCode hc h

/-- However the bytes are made and wherever the reading stops, all references of the image are right, no
table is longer than the header says, and behind one that is shorter all tables are empty. If the reading
goes through, all tables are as long as the header says. -/
theorem parse_coherent (d : Bytes) :
    (parse d).1.Coherent ∧ (parse d).1.FilledInOrder ∧
      ((parse d).2 = none → ∀ k : TableKind, (parse d).1.tableSize k = (parse d).1.header.word k.counted) := by
  have h := sound_parse d
  refine ⟨h.coherent, h.filled, fun hnone k => ?_⟩
  rw [h.readUpTo hnone k, if_pos k.rank_lt]

end Handset.Dex
