import Handset.Proofs.Dex.ClassData
import Handset.Proofs.Dex.Passes

/-!
# The members of the classes

When a reading goes through, each class lists the methods that its class data name, by running sums of the index
differences, and each method has the code offset that was named for it last. The flags of a class are another
matter: they are kept where the flags of its members are read to, so that a class with members has the flags of
the last one.
-/
namespace Handset.Dex

open MethodEntry (listed)
open Step (exists_of_bind_eq_ok)

variable {d : Bytes} {image next : Image} {start : Nat}

/-- The methods that a class lists, the direct ones first. -/
def ClassDef.members (c : ClassDef) : List Member := c.directMethods.toList ++ c.virtualMethods.toList

/-- The class is described by the definition at `start`, where these are its flags, and by these lists, beside a
table of `size` methods. -/
structure ClassDef.Described (d : Bytes) (size start : Nat) (c : ClassDef) (own : Nat) (l : MemberLists) :
    Prop where
  ownFlags : word d 4 (start + 4 : Nat) = .ok own
  dataOffset : word d 4 (start + 24 : Nat) = .ok c.dataOffset
  lists : ∀ l' : MemberLists, l'.StandsAt d c.dataOffset ↔ l' = l
  flags : c.accessFlags = l.flags.getLastD own
  direct : c.directMethods.toList = listed size l.directs
  members : c.members = listed size (l.directs ++ l.virtuals)

/-! ### One class -/

/-- What the fixed part of a class definition was read from. -/
structure ClassRecord.ReadAt (d : Bytes) (types : Array String) (start : Nat) (record : ClassRecord) : Prop where
  flags : word d 4 (start + 4 : Nat) = .ok record.accessFlags
  offset : word d 4 (start + 24 : Nat) = .ok record.dataOffset
  last : ∃ n, word d 4 (start + 28 : Nat) = .ok n
  interfaces : ∃ place, readTypeList d types place = .ok record.interfaces

theorem readAt_of_readClassRecord {record : ClassRecord} (h : readClassRecord d image start = .ok record) :
    record.ReadAt d image.types start := by
  obtain ⟨classIndex, -, h⟩ := exists_of_bind_eq_ok h
  obtain ⟨accessFlags, hflags, h⟩ := exists_of_bind_eq_ok h
  obtain ⟨superclassIndex, -, h⟩ := exists_of_bind_eq_ok h
  obtain ⟨interfacesOffset, -, h⟩ := exists_of_bind_eq_ok h
  obtain ⟨sourceIndex, -, h⟩ := exists_of_bind_eq_ok h
  obtain ⟨_, -, h⟩ := exists_of_bind_eq_ok h
  obtain ⟨dataOffset, hoffset, h⟩ := exists_of_bind_eq_ok h
  obtain ⟨last, hlast, h⟩ := exists_of_bind_eq_ok h
  obtain ⟨interfaces, hinterfaces, h⟩ := exists_of_bind_eq_ok h
  dsimp only at h
  -- the source file and the superclass are read in two ways each, with the same end
  split at h <;> obtain ⟨sourceFile, -, h⟩ := exists_of_bind_eq_ok h <;> split at h <;>
    obtain ⟨superclass, -, h⟩ := exists_of_bind_eq_ok h <;> cases h <;>
    exact ⟨hflags, hoffset, ⟨last, hlast⟩, ⟨interfacesOffset, hinterfaces⟩⟩

/-- A class that is read is added, and its members set the code offsets of their methods. -/
theorem described_readClass (h : readClass d image start = (next, none)) :
    ∃ c own l, ClassDef.Described d image.methods.size start c own l ∧
      next = { image with methods := setCodeOffsets image.methods c.members
                          classes := image.classes.push c } := by
  unfold readClass at h
  split at h
  next => cases h
  next record hrecord =>
    have hread := readAt_of_readClassRecord hrecord
    split at h
    next => cases h
    next data hdata =>
      obtain ⟨l, hstands, hfollows⟩ := follows_readClassData hdata
      dsimp only at h
      split at h
      next => cases h
      next className hname =>
        cases h
        have hnext (c : ClassDef) (hmembers : c.members = data.direct.toList ++ data.virtual.toList) :
            ({ image with methods := data.methods, classes := image.classes.push c } : Image) =
              { image with methods := setCodeOffsets image.methods c.members
                           classes := image.classes.push c } := by
          rw [hmembers, hfollows.methods]
        refine ⟨_, record.accessFlags, l, ?_, hnext _ rfl⟩
        exact ⟨hread.flags, hread.offset, hstands.iff_eq, hfollows.flags, hfollows.direct, hfollows.members⟩

/-! ### All classes -/

theorem described_readClassesFrom {left : Nat} (h : readClassesFrom d left start image = (next, none)) :
    ∃ classes : List ClassDef, classes.length = left ∧
      (∀ k c, classes[k]? = some c →
        ∃ own l, ClassDef.Described d image.methods.size (start + 32 * k) c own l) ∧
      next = { image with methods := setCodeOffsets image.methods (classes.flatMap ClassDef.members)
                          classes := image.classes ++ classes.toArray } := by
  induction left generalizing image start with
  | zero =>
    cases h
    exact ⟨[], rfl, nofun, by simp [setCodeOffsets]⟩
  | succ left ih =>
    unfold readClassesFrom at h
    split at h
    next => cases h
    next middle hread =>
      obtain ⟨c, own, l, hdescribed, rfl⟩ := described_readClass hread
      obtain ⟨classes, hlength, hrest, rfl⟩ := ih h
      refine ⟨c :: classes, congrArg Nat.succ hlength, fun k c' hk => ?_, ?_⟩
      · cases k with
        | zero =>
          cases hk
          exact ⟨own, l, hdescribed⟩
        | succ k =>
          obtain ⟨own', l', hdescribed'⟩ := hrest k c' hk
          rw [size_setCodeOffsets, show start + 32 + 32 * k = start + 32 * (k + 1) by omega] at hdescribed'
          exact ⟨own', l', hdescribed'⟩
      · simp [setCodeOffsets_append]

/-! ### The whole image -/

theorem codeOffset_readMethods (d : Bytes) (image : Image) :
    ∀ m ∈ (readMethods d image).1.methods, m.codeOffset = 0 := by
  intro m hm
  obtain ⟨i, h⟩ := (collected (image.header.word .methodIdsSize) _).exists_read hm
  obtain ⟨classIndex, -, h⟩ := exists_of_bind_eq_ok h
  obtain ⟨protoIndex, -, h⟩ := exists_of_bind_eq_ok h
  obtain ⟨nameIndex, -, h⟩ := exists_of_bind_eq_ok h
  obtain ⟨className, -, h⟩ := exists_of_bind_eq_ok h
  obtain ⟨name, -, h⟩ := exists_of_bind_eq_ok h
  obtain ⟨proto, -, h⟩ := exists_of_bind_eq_ok h
  cases h
  rfl

/-- A reading that goes through reads the classes onto an image without any, whose methods have no code. -/
theorem exists_before_classes (h : (parse d).2 = none) :
    ∃ before after : Image, before.classes = #[] ∧ (∀ m ∈ before.methods, m.codeOffset = 0) ∧
      readClasses d before = (after, none) ∧ (parse d).1 = { after with code := (parse d).1.code } := by
  unfold parse at h ⊢
  generalize readHeader d = p at h ⊢
  obtain ⟨header, fault⟩ := p
  have hstart : (({ header } : Image), fault).1.classes = #[] := rfl
  have hstrings := keeps_andThen Image.classes (readStrings d) hstart fun _ => rfl
  have htypes := keeps_andThen Image.classes (readTypes d) hstrings fun _ => rfl
  have hprotos := keeps_andThen Image.classes (readProtos d) htypes fun _ => rfl
  have hfields := keeps_andThen Image.classes (readFields d) hprotos fun _ => rfl
  have hmethods := keeps_andThen Image.classes (readMethods d) hfields fun _ => rfl
  obtain ⟨after, hafter, hcode⟩ := exists_of_andThen h
  obtain ⟨before, hbefore, hclasses⟩ := exists_of_andThen (congrArg Prod.snd hafter)
  obtain ⟨fields, -, hread⟩ := exists_of_andThen (congrArg Prod.snd hbefore)
  refine ⟨before, after, ?_, ?_, hclasses.symm.trans hafter, ?_⟩
  · rwa [hbefore] at hmethods
  · have hnone := codeOffset_readMethods d fields
    rwa [← hread, hbefore] at hnone
  · dsimp only
    rw [hcode]
    rfl

theorem described_parse (h : (parse d).2 = none) :
    (parse d).1.classes.size = (parse d).1.header.word .classDefsSize ∧
      (∀ i c, (parse d).1.classes[i]? = some c → ∃ own l, ClassDef.Described d (parse d).1.methods.size
        ((parse d).1.header.word .classDefsOffset + 32 * i) c own l) ∧
      ∀ i m, (parse d).1.methods[i]? = some m →
        m.codeOffset = lastOffset ((parse d).1.classes.toList.flatMap ClassDef.members) i 0 := by
  obtain ⟨before, after, hempty, hnone, hread, hafter⟩ := exists_before_classes h
  obtain ⟨classes, hlength, hdescribed, rfl⟩ := described_readClassesFrom hread
  rw [hafter]
  dsimp only
  rw [hempty, Array.empty_append, size_setCodeOffsets]
  refine ⟨hlength, fun i c hc => hdescribed i c (by simpa using hc), fun i m hm => ?_⟩
  rw [getElem?_setCodeOffsets] at hm
  obtain ⟨m', hm', rfl⟩ := Option.map_eq_some_iff.mp hm
  rw [hnone m' (Array.mem_of_getElem? hm')]

/-- Of every class of an image that was read to its end, the direct methods are those that the entries of its
class data name by running sums, and all its methods those of the sums that go on through the virtual entries;
an index beyond the method table is left out, but counts in the sums. The code offset of each method is that of
the last entry that names it, or zero. -/
theorem members_by_running_sums (d : Bytes) (h : (parse d).2 = none) :
    (∀ i c, (parse d).1.classes[i]? = some c → ∃ l : MemberLists,
      word d 4 ((parse d).1.header.word .classDefsOffset + 32 * i + 24 : Nat) = .ok c.dataOffset ∧
        (∀ l' : MemberLists, l'.StandsAt d c.dataOffset ↔ l' = l) ∧
        c.directMethods.toList = listed (parse d).1.methods.size l.directs ∧
        c.directMethods.toList ++ c.virtualMethods.toList =
          listed (parse d).1.methods.size (l.directs ++ l.virtuals)) ∧
      ∀ i m, (parse d).1.methods[i]? = some m →
        m.codeOffset = lastOffset ((parse d).1.classes.toList.flatMap ClassDef.members) i 0 := by
  obtain ⟨-, hdescribed, hoffsets⟩ := described_parse h
  refine ⟨fun i c hc => ?_, hoffsets⟩
  obtain ⟨own, l, hclass⟩ := hdescribed i c hc
  exact ⟨l, hclass.dataOffset, hclass.lists, hclass.direct, hclass.members⟩

/-- A class with the flag 1 beside a table of two methods. Its data name the second method directly and then
again as a virtual one, and after it a method that is not in the table. -/
def renamed : Bytes :=
  #[100, 101, 120, 10, 48, 51, 53, 0] ++ Array.replicate 36 0 ++
    #[96, 100, 104, 0, 116, 132, 0, 1, 1, 1, 0, 2, 1].flatMap (Bytes.littleEndian 4) ++
    #[177, 0, 0, 0, 0, 0, 0, 0, 0, 0, 1, noIndex, 0, noIndex, 0, 164, 0].flatMap (Bytes.littleEndian 4) ++
    #[0, 0, 1, 2] ++ #[1, 9, 12] ++ #[0, 4, 14] ++ #[4, 16, 0] ++ #[1, 86]

theorem parse_renamed :
    (parse renamed).2 = none ∧ (parse renamed).1.methods.map (·.codeOffset) = #[0, 14] ∧
      (parse renamed).1.header.word .classDefsSize = 1 ∧
      (word renamed 4 ((parse renamed).1.header.word .classDefsOffset + 32 * 0 + 4 : Nat)).toOption = some 1 ∧
      (parse renamed).1.classes[0]?.map (fun c => (c.accessFlags, c.dataOffset, c.members)) =
        some (16, 164, [⟨1, 9, 12⟩, ⟨1, 4, 14⟩]) := by
  decide +kernel

theorem members_of_renamed :
    (parse renamed).2 = none ∧ ∃ c, ∃ l : MemberLists, (parse renamed).1.classes[0]? = some c ∧
      l.StandsAt renamed c.dataOffset ∧ c.members = listed 2 (l.directs ++ l.virtuals) ∧
      c.members = [⟨1, 9, 12⟩, ⟨1, 4, 14⟩] ∧ (parse renamed).1.methods.map (·.codeOffset) = #[0, 14] := by
  obtain ⟨hnone, hoffsets, -, -, hclass⟩ := parse_renamed
  obtain ⟨c, hc, heq⟩ := Option.map_eq_some_iff.mp hclass
  have hsize : (parse renamed).1.methods.size = 2 := by simpa using congrArg Array.size hoffsets
  obtain ⟨l, -, hstands, -, hlisted⟩ := (members_by_running_sums renamed hnone).1 0 c hc
  rw [hsize] at hlisted
  exact ⟨hnone, c, l, hc, (hstands l).mpr rfl, hlisted, congrArg (·.2.2) heq, hoffsets⟩

/-- The flags of a class are those of the last member in its class data, a field or a method, listed or left out;
the flags of its own definition are kept only if there is no member, or if the last one has the same. -/
theorem class_flags_of_last_member (d : Bytes) (h : (parse d).2 = none) (i : Nat)
    (hi : i < (parse d).1.header.word .classDefsSize) :
    ∃ c own l, (parse d).1.classes[i]? = some c ∧
      word d 4 ((parse d).1.header.word .classDefsOffset + 32 * i + 4 : Nat) = .ok own ∧
      word d 4 ((parse d).1.header.word .classDefsOffset + 32 * i + 24 : Nat) = .ok c.dataOffset ∧
      (∀ l' : MemberLists, l'.StandsAt d c.dataOffset ↔ l' = l) ∧
      c.accessFlags = l.flags.getLastD own ∧
      (c.accessFlags = own ↔ ∀ flags ∈ l.flags.getLast?, flags = own) := by
  obtain ⟨hsize, hdescribed, -⟩ := described_parse h
  obtain ⟨c, hc⟩ : ∃ c, (parse d).1.classes[i]? = some c := ⟨_, Array.getElem?_eq_getElem (hsize ▸ hi)⟩
  obtain ⟨own, l, hclass⟩ := hdescribed i c hc
  refine ⟨c, own, l, hc, hclass.ownFlags, hclass.dataOffset, hclass.lists, hclass.flags, ?_⟩
  rw [hclass.flags, List.getLastD_eq_getLast?]
  cases l.flags.getLast? with
  | none => simp
  | some flags => simp

theorem class_flags_of_renamed :
    (parse renamed).2 = none ∧ 0 < (parse renamed).1.header.word .classDefsSize ∧
      ∃ c, ∃ l : MemberLists, (parse renamed).1.classes[0]? = some c ∧ l.StandsAt renamed c.dataOffset ∧
        c.accessFlags = l.flags.getLastD 1 ∧ c.accessFlags = 16 := by
  obtain ⟨hnone, -, hsize, hown, hclass⟩ := parse_renamed
  have hpos : 0 < (parse renamed).1.header.word .classDefsSize := by rw [hsize]; decide
  obtain ⟨c, own, l, hc, hown', -, hstands, hlast, -⟩ := class_flags_of_last_member renamed hnone 0 hpos
  obtain rfl : own = 1 := by
    rw [hown'] at hown
    exact Option.some.inj hown
  rw [hc] at hclass
  exact ⟨hnone, hpos, c, l, hc, (hstands l).mpr rfl, hlast, congrArg (·.1) (Option.some.inj hclass)⟩

/-- The class has the flags of a method that it does not even list, and not its own. -/
theorem own_class_flags_replaced :
    (parse renamed).2 = none ∧ (parse renamed).1.header.word .classDefsSize = 1 ∧
      word renamed 4 ((parse renamed).1.header.word .classDefsOffset + 32 * 0 + 4 : Nat) = .ok 1 ∧
      (parse renamed).1.classes[0]?.map (·.accessFlags) = some 16 := by
  obtain ⟨hnone, -, hsize, hown, hclass⟩ := parse_renamed
  obtain ⟨c, hc, heq⟩ := Option.map_eq_some_iff.mp hclass
  refine ⟨hnone, hsize, Step.eq_ok_of_toOption hown, ?_⟩
  rw [hc]
  exact congrArg (some ·.1) heq

end Handset.Dex
