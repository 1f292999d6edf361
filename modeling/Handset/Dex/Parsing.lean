import Handset.Dex.Image
import Handset.Dex.Leb128
import Handset.Log
import Handset.Text.Utf8

/-!
# Parsing DEX images

The tables are read one after the other, entry by entry. Reading stops at the first fault; the image
then holds everything that was read before it. A count in the file may claim any number of entries:
each entry needs bytes of its own, so a table never outgrows the data.
-/
namespace Handset.Dex

/-- What was read, and the fault that stopped the reading. -/
abbrev Partial (α : Type) := α × Option Fault

def word (d : Bytes) (width : Nat) (offset : Int) : Except Fault Nat :=
  let bytes := Bytes.slice d offset (offset + width)
  if bytes.size = width then .ok (Bytes.ofLittleEndian bytes) else .error (.shortRead width)

def signedWord (d : Bytes) (width : Nat) (offset : Int) : Except Fault Int :=
  (word d width offset).map (Bytes.signed width)

def entry {α : Type} (table : Array α) (index : Nat) : Except Fault α :=
  match table[index]? with
  | some a => .ok a
  | none => .error .itemOutOfRange

def collectFrom {α : Type} (read : Nat → Except Fault α) :
    (left index : Nat) → Array α → Partial (Array α)
  | 0, _, acc => (acc, none)
  | left + 1, index, acc =>
    match read index with
    | .error e => (acc, some e)
    | .ok a => collectFrom read left (index + 1) (acc.push a)

/-- Reads the entries `0 … count - 1`, up to the first that fails. -/
def collect {α : Type} (count : Nat) (read : Nat → Except Fault α) : Partial (Array α) :=
  collectFrom read count 0 #[]

/-- Reads `count` entries, all of them or none. -/
def readAll {α : Type} (count : Nat) (read : Nat → Except Fault α) : Except Fault (Array α) :=
  match collect count read with
  | (entries, none) => .ok entries
  | (_, some e) => .error e

/-- The text at `offset`: its length in bytes, then its bytes, clipped to the data. -/
def readString (d : Bytes) (offset : Int) : Except Fault String := do
  let (length, size) ← Leb128.read d offset
  pure (Text.Utf8.decode (Bytes.slice d (offset + size) (offset + size + length)))

def headerWords : List (HeaderWord × Nat) :=
  [(.fileSize, 32), (.headerSize, 36), (.endianTag, 40), (.stringIdsOffset, 44),
   (.typeIdsOffset, 48), (.protoIdsOffset, 52), (.fieldIdsOffset, 56), (.methodIdsOffset, 60),
   (.classDefsOffset, 64), (.dataOffset, 68), (.stringIdsSize, 72), (.typeIdsSize, 76),
   (.protoIdsSize, 80), (.fieldIdsSize, 84), (.methodIdsSize, 88), (.classDefsSize, 92)]

def readMagic (d : Bytes) : Except Fault String :=
  let bytes := (Bytes.slice d 0 8).toList
  match bytes.findIdx? (128 ≤ ·.toNat) with
  | some i => .error (.notAscii (bytes.getD i 0).toNat i)
  | none =>
    let chars := bytes.map fun b => Char.ofNat b.toNat
    if chars.take 3 = ['d', 'e', 'x'] ∧ chars.length = 8 then .ok (String.ofList chars)
    else .error .notDex

def readWords (d : Bytes) : List (HeaderWord × Nat) → Header → Partial Header
  | [], h => (h, none)
  | (w, place) :: rest, h =>
    match word d 4 place with
    | .error e => (h, some e)
    | .ok n => readWords d rest { h with words := h.words ++ [(w, n)] }

def readHeader (d : Bytes) : Partial Header :=
  match readMagic d with
  | .error e => ({}, some e)
  | .ok magic =>
    match readWords d [(.checksum, 8)] { magic := some magic } with
    | (h, some e) => (h, some e)
    | (h, none) => readWords d headerWords { h with signature := some (Bytes.slice d 12 32) }

def readStringId (d : Bytes) (start : Nat) : Except Fault String := do
  let offset ← word d 4 start
  readString d offset

def readStrings (d : Bytes) (image : Image) : Partial Image :=
  let start := image.header.word .stringIdsOffset
  let (entries, fault) := collect (image.header.word .stringIdsSize) fun i =>
    readStringId d (start + 4 * i)
  ({ image with strings := entries }, fault)

def readTypeId (d : Bytes) (image : Image) (start : Nat) : Except Fault String := do
  let index ← word d 4 start
  entry image.strings index

def readTypes (d : Bytes) (image : Image) : Partial Image :=
  let start := image.header.word .typeIdsOffset
  let (entries, fault) := collect (image.header.word .typeIdsSize) fun i =>
    readTypeId d image (start + 4 * i)
  ({ image with types := entries }, fault)

/-- A list of types: a count and type indices, at `offset`; the offset zero stands for no list. -/
def readTypeList (d : Bytes) (types : Array String) (offset : Nat) : Except Fault (Array String) :=
  if offset = 0 then .ok #[]
  else do
    let count ← word d 4 offset
    readAll count fun j => do
      let index ← word d 4 (offset + 4 + 4 * j : Nat)
      entry types index

def readProto (d : Bytes) (image : Image) (start : Nat) : Except Fault Proto := do
  let shorty ← word d 4 start
  let returnType ← word d 4 (start + 4 : Nat)
  let parametersOffset ← word d 4 (start + 8 : Nat)
  let parameters ← readTypeList d image.types parametersOffset
  pure { shorty := ← entry image.strings shorty
         returnType := ← entry image.types returnType
         parameters := parameters }

def readProtos (d : Bytes) (image : Image) : Partial Image :=
  let start := image.header.word .protoIdsOffset
  let (entries, fault) := collect (image.header.word .protoIdsSize) fun i =>
    readProto d image (start + 12 * i)
  ({ image with protos := entries }, fault)

def readField (d : Bytes) (image : Image) (start : Nat) : Except Fault Field := do
  let classIndex ← word d 2 start
  let typeIndex ← word d 2 (start + 2 : Nat)
  let nameIndex ← word d 4 (start + 4 : Nat)
  let className ← entry image.types classIndex
  let typeName ← entry image.types typeIndex
  let name ← entry image.strings nameIndex
  pure { classIndex, className, typeIndex, typeName, nameIndex, name }

def readFields (d : Bytes) (image : Image) : Partial Image :=
  let start := image.header.word .fieldIdsOffset
  let (entries, fault) := collect (image.header.word .fieldIdsSize) fun i =>
    readField d image (start + 8 * i)
  ({ image with fields := entries }, fault)

def readMethod (d : Bytes) (image : Image) (start : Nat) : Except Fault Method := do
  let classIndex ← word d 2 start
  let protoIndex ← word d 2 (start + 2 : Nat)
  let nameIndex ← word d 4 (start + 4 : Nat)
  let className ← entry image.types classIndex
  let name ← entry image.strings nameIndex
  let proto ← entry image.protos protoIndex
  pure { classIndex, className, protoIndex, nameIndex, name, proto, codeOffset := 0 }

def readMethods (d : Bytes) (image : Image) : Partial Image :=
  let start := image.header.word .methodIdsOffset
  let (entries, fault) := collect (image.header.word .methodIdsSize) fun i =>
    readMethod d image (start + 8 * i)
  ({ image with methods := entries }, fault)

structure MemberScan where
  position : Nat
  /-- the sum of the index differences so far -/
  index : Nat
  flags : Nat
  methods : Array Method
  entries : Array Member
deriving Inhabited

def skipFields (d : Bytes) : (left : Nat) → MemberScan → Partial MemberScan
  | 0, scan => (scan, none)
  | left + 1, scan =>
    match (do
      let (_, n) ← Leb128.read d scan.position
      let (flags, m) ← Leb128.read d (scan.position + n : Nat)
      pure (flags, scan.position + n + m)) with
    | .error e => (scan, some e)
    | .ok (flags, position) => skipFields d left { scan with flags, position }

/-- Reads `left` method entries: an index difference, flags and a code offset each. An entry whose
index is beyond the method table is dropped; any other sets the code offset of its method. -/
def readMembers (d : Bytes) : (left : Nat) → MemberScan → Partial MemberScan
  | 0, scan => (scan, none)
  | left + 1, scan =>
    match (do
      let (difference, n) ← Leb128.read d scan.position
      let (flags, m) ← Leb128.read d (scan.position + n : Nat)
      let (codeOffset, k) ← Leb128.read d (scan.position + n + m : Nat)
      pure (difference, flags, codeOffset, scan.position + n + m + k)) with
    | .error e => (scan, some e)
    | .ok (difference, flags, codeOffset, position) =>
      let index := scan.index + difference
      if index < scan.methods.size then
        readMembers d left
          { position, index, flags
            methods := scan.methods.modify index fun m => { m with codeOffset }
            entries := scan.entries.push ⟨index, flags, codeOffset⟩ }
      else readMembers d left { scan with position, index, flags }

structure ClassData where
  methods : Array Method
  flags : Nat
  direct : Array Member := #[]
  virtual : Array Member := #[]
deriving Inhabited

/-- Reads class data: four counts, then static and instance fields, direct and virtual methods. The
flags of the last member read replace the class's own. -/
def readClassData (d : Bytes) (methods : Array Method) (flags offset : Nat) : Partial ClassData :=
  let blank : ClassData := { methods, flags }
  if offset = 0 then (blank, none)
  else
    match (do
      let (statics, n₁) ← Leb128.read d offset
      let (instances, n₂) ← Leb128.read d (offset + n₁ : Nat)
      let (directs, n₃) ← Leb128.read d (offset + n₁ + n₂ : Nat)
      let (virtuals, n₄) ← Leb128.read d (offset + n₁ + n₂ + n₃ : Nat)
      pure (statics + instances, directs, virtuals, offset + n₁ + n₂ + n₃ + n₄)) with
    | .error e => (blank, some e)
    | .ok (fields, directs, virtuals, position) =>
      match skipFields d fields { position, index := 0, flags, methods, entries := #[] } with
      | (_, some e) => (blank, some e)
      | (scan, none) =>
        match readMembers d directs scan with
        | (scan, some e) => ({ blank with methods := scan.methods }, some e)
        | (scan, none) =>
          match readMembers d virtuals { scan with entries := #[] } with
          | (scan, some e) => ({ blank with methods := scan.methods }, some e)
          | (last, none) =>
            ({ methods := last.methods, flags := last.flags
               direct := scan.entries, virtual := last.entries }, none)

/-- The index that stands for an absent superclass or source file. -/
def noIndex : Nat := 0xFFFFFFFF

structure ClassRecord where
  classIndex : Nat
  accessFlags : Nat
  superclass : String
  interfaces : Array String
  sourceFile : Option String
  dataOffset : Nat
deriving Inhabited

def readClassRecord (d : Bytes) (image : Image) (start : Nat) : Except Fault ClassRecord := do
  let classIndex ← word d 4 start
  let accessFlags ← word d 4 (start + 4 : Nat)
  let superclassIndex ← word d 4 (start + 8 : Nat)
  let interfacesOffset ← word d 4 (start + 12 : Nat)
  let sourceIndex ← word d 4 (start + 16 : Nat)
  let _ ← word d 4 (start + 20 : Nat)
  let dataOffset ← word d 4 (start + 24 : Nat)
  let _ ← word d 4 (start + 28 : Nat)
  let interfaces ← readTypeList d image.types interfacesOffset
  let sourceFile ← if sourceIndex = noIndex then pure none
    else (entry image.strings sourceIndex).map some
  let superclass ← if superclassIndex = noIndex then pure "java/lang/Object"
    else entry image.types superclassIndex
  pure { classIndex, accessFlags, superclass, interfaces, sourceFile, dataOffset }

/-- Reads the class definition at `start`. Method entries take effect even if the class then
fails. -/
def readClass (d : Bytes) (image : Image) (start : Nat) : Partial Image :=
  match readClassRecord d image start with
  | .error e => (image, some e)
  | .ok record =>
    match readClassData d image.methods record.accessFlags record.dataOffset with
    | (data, some e) => ({ image with methods := data.methods }, some e)
    | (data, none) =>
      let image := { image with methods := data.methods }
      match entry image.types record.classIndex with
      | .error e => (image, some e)
      | .ok className =>
        let definition : ClassDef :=
          { classIndex := record.classIndex
            className
            accessFlags := data.flags
            superclass := record.superclass
            interfaces := record.interfaces
            sourceFile := record.sourceFile
            dataOffset := record.dataOffset
            directMethods := data.direct
            virtualMethods := data.virtual }
        ({ image with classes := image.classes.push definition }, none)

def readClassesFrom (d : Bytes) : (left start : Nat) → Image → Partial Image
  | 0, _, image => (image, none)
  | left + 1, start, image =>
    match readClass d image start with
    | (image, some e) => (image, some e)
    | (image, none) => readClassesFrom d left (start + 32) image

def readClasses (d : Bytes) (image : Image) : Partial Image :=
  readClassesFrom d (image.header.word .classDefsSize) (image.header.word .classDefsOffset) image

def readInstruction (d : Bytes) (offset : Nat) : Except Fault Instruction := do
  let unit ← word d 2 offset
  pure { opcode := unit % 256, registers := unit / 256, offset := offset }

def readTryBlock (d : Bytes) (offset : Nat) : Except Fault TryBlock := do
  let start ← word d 4 offset
  let count ← word d 2 (offset + 4 : Nat)
  let handler ← word d 2 (offset + 6 : Nat)
  pure { start := start, count := count, handler := handler }

def readCodeItem (d : Bytes) (offset : Nat) : Except Fault CodeItem := do
  let registersSize ← word d 2 offset
  let insSize ← word d 2 (offset + 2 : Nat)
  let outsSize ← word d 2 (offset + 4 : Nat)
  let triesSize ← word d 2 (offset + 6 : Nat)
  let _ ← word d 4 (offset + 8 : Nat)
  let count ← word d 4 (offset + 12 : Nat)
  let instructions ← readAll count fun i => readInstruction d (offset + 16 + 2 * i)
  let tries ← readAll triesSize fun i => readTryBlock d (offset + 16 + 2 * count + 8 * i)
  pure { registersSize, insSize, outsSize, triesSize, instructions, tries }

def readCodeOf (d : Bytes) : List Method → Table Nat CodeItem → Partial (Table Nat CodeItem)
  | [], code => (code, none)
  | m :: rest, code =>
    if m.codeOffset = 0 then readCodeOf d rest code
    else match readCodeItem d m.codeOffset with
      | .error e => (code, some e)
      | .ok item => readCodeOf d rest (Table.put code m.codeOffset item)

def readCode (d : Bytes) (image : Image) : Partial Image :=
  let (code, fault) := readCodeOf d image.methods.toList []
  ({ image with code }, fault)

/-- Goes on with the next stage, unless a fault has stopped the reading. -/
def Partial.andThen {α : Type} (p : Partial α) (next : α → Partial α) : Partial α :=
  match p with
  | (a, none) => next a
  | (a, some e) => (a, some e)

def parse (d : Bytes) : Partial Image :=
  let (header, fault) := readHeader d
  let start : Partial Image := ({ header }, fault)
  start
    |>.andThen (readStrings d)
    |>.andThen (readTypes d)
    |>.andThen (readProtos d)
    |>.andThen (readFields d)
    |>.andThen (readMethods d)
    |>.andThen (readClasses d)
    |>.andThen (readCode d)

def parseRecord (p : Partial Image) : LogRecord :=
  match p with
  | (image, none) =>
    ⟨.info, s!"DEX文件解析完成: {image.classes.size}个类, {image.methods.size}个方法"⟩
  | (_, some e) => ⟨.error, "解析DEX文件失败: " ++ e.message⟩

end Handset.Dex
