import Handset.Dex.Parsing

/-!
# Sample images

Well-formed images of any number of classes. Each class has one field and one method named `main`, which it
lists both as a direct and as a virtual method; all methods share one code item.

An image is written piece by piece behind its header. Where a piece starts depends on those before it, and the
tables hold the places of the pieces that they point to, so these are put in once all pieces have their place.
What reading does not depend on is left to a design: the order of the base strings and of the pieces, filler
between them, further members of the classes, and words that are not used.
-/
namespace Handset.Dex.Sample

open Bytes (littleEndian)

def baseStrings : List String :=
  ["VL", "V", "[Ljava/lang/String;", "main", "I", "Src.java"]

def className (i : Nat) : String :=
  "Lcom/bench/C" ++ toString i ++ ";"

def classIndex (i : Nat) : Nat := 6 + i

def stringItem (s : String) : Bytes :=
  let bytes := Text.Utf8.encode s
  (Leb128.encode bytes.size).toArray ++ bytes

def join (blocks : List Bytes) : Bytes :=
  blocks.foldl (· ++ ·) #[]

def row (width : Nat) (values : List Nat) : Bytes :=
  join (values.map (littleEndian width))

def headerSize : Nat := 96

/-- The pieces of an image behind its header. -/
inductive Piece where
  | stringIds
  | typeIds
  | protoIds
  | fieldIds
  | methodIds
  | classDefs
  | text (index : Nat)
  | parameters
  | interfaces (index : Nat)
  | code
  | classData (index : Nat)
deriving DecidableEq, Inhabited

/-- The pieces of an image of `n` classes with so many lists of interfaces. -/
def pieces (n lists : Nat) : List Piece :=
  [.stringIds, .typeIds, .protoIds, .fieldIds, .methodIds, .classDefs] ++ (List.range (n + 6)).map .text
    ++ .parameters :: (List.range lists).map .interfaces ++ .code :: (List.range n).map .classData

/-- The words of an image that reading does not use. -/
inductive SpareWord where
  | checksum
  | fileSize
  | headerSize
  | endianTag
  | dataOffset
  | debugInfo
  | classFlags
  | annotations
  | staticValues
deriving DecidableEq, Inhabited

/-- An entry of a field in the data of a class. -/
structure FieldEntry where
  difference : Nat
  flags : Nat
  difference_lt : difference < 0x100000000
  flags_lt : flags < 0x100000000

/-- What is left open in writing an image. -/
structure Design where
  base : List String
  base_perm : base.Perm baseStrings
  /-- how many lists of interfaces an image has, and which of them a class takes -/
  lists : Nat → Nat
  lists_le : ∀ n, lists n ≤ n + 1
  listOf : Nat → Nat → Nat
  listOf_lt : ∀ n i, i < n → listOf n i < lists n
  order : Nat → List Piece
  order_perm : ∀ n, (order n).Perm (pieces n (lists n))
  /-- the data of a class hold the offset of the code, which is known by then -/
  code_first : ∀ n i, .classData i ∉ (order n).takeWhile (· != .code)
  /-- filler before a piece that is reached at some offset -/
  gap : Nat → Piece → Bytes
  gap_le : ∀ offset p, (gap offset p).size ≤ 4096
  /-- what stands behind the last piece -/
  trailer : Nat → Bytes
  /-- the five characters behind `dex` -/
  version : List UInt8
  version_length : version.length = 5
  version_ascii : ∀ b ∈ version, b.toNat < 128
  signature : Bytes
  signature_size : signature.size = 20
  /-- the unused words of an image with so many classes, and of a class with some index -/
  spare : SpareWord → Nat → Nat
  spare_lt : ∀ word n, spare word n < 0x100000000
  fieldType : Nat
  fieldType_lt : fieldType < 6
  statics : Nat → List FieldEntry
  statics_le : ∀ i, (statics i).length ≤ 64
  instances : Nat → List FieldEntry
  instances_le : ∀ i, (instances i).length ≤ 64
  directFlags : Nat → Nat
  directFlags_lt : ∀ i, directFlags i < 0x100000000

namespace Design

variable (s : Design)

def strings (n : Nat) : List String :=
  s.base ++ (List.range n).map className

def indexOf (text : String) : Nat :=
  s.base.idxOf text

/-- The numbers in the data of a class: how many members it has of each kind, its fields, and its method once as
a direct and once as a virtual one. -/
def classNumbers (codeOffset i : Nat) : List Nat :=
  [(s.statics i).length, (s.instances i).length, 1, 1]
    ++ (s.statics i ++ s.instances i).flatMap (fun field => [field.difference, field.flags])
    ++ [i, s.directFlags i, codeOffset, 0, 1, codeOffset]

def classData (codeOffset i : Nat) : Bytes :=
  ((s.classNumbers codeOffset i).flatMap Leb128.encode).toArray

/-- A text behind its length, and a zero byte. -/
def textItem (n index : Nat) : Bytes :=
  stringItem ((s.strings n).getD index "") ++ #[0]

def size (n codeOffset : Nat) : Piece → Nat
  | .stringIds | .typeIds => 4 * (n + 6)
  | .protoIds => 12
  | .fieldIds | .methodIds => 8 * n
  | .classDefs => 32 * n
  | .text index => (s.textItem n index).size
  | .parameters | .interfaces _ => 8
  | .code => 32
  | .classData index => (s.classData codeOffset index).size

/-- The places of pieces that are written one after the other from an offset on. -/
def placesFrom (n codeOffset : Nat) : (start : Nat) → List Piece → Table Piece Nat
  | _, [] => []
  | start, p :: rest =>
    let place := start + (s.gap start p).size
    (p, place) :: placesFrom n codeOffset (place + s.size n codeOffset p) rest

def placeIn (places : Table Piece Nat) (p : Piece) : Nat :=
  (Table.find? places p).getD 0

/-- Where the code stands; the data of the classes, which come later, do not matter for that. -/
def codeOffset (n : Nat) : Nat :=
  placeIn (s.placesFrom n 0 headerSize (s.order n)) .code

def places (n : Nat) : Table Piece Nat :=
  s.placesFrom n (s.codeOffset n) headerSize (s.order n)

def place (n : Nat) (p : Piece) : Nat :=
  placeIn (s.places n) p

def memberEntry (second i : Nat) : Bytes :=
  row 2 [classIndex i, second] ++ littleEndian 4 (s.indexOf "main")

def classEntry (n : Nat) (place : Piece → Nat) (i : Nat) : Bytes :=
  row 4 [classIndex i, s.spare .classFlags i, s.indexOf "V", place (.interfaces (s.listOf n i)),
    s.indexOf "Src.java", s.spare .annotations i, place (.classData i), s.spare .staticValues i]

def codeItem (n : Nat) : Bytes :=
  row 2 [8, 1, 1, 1] ++ row 4 [s.spare .debugInfo n, 4] ++ row 2 [0xF0, 0xF0, 0xF0, 0xF0]
    ++ littleEndian 4 0 ++ row 2 [2, 0]

/-- What a piece holds, given where the pieces stand. -/
def block (n : Nat) (place : Piece → Nat) : Piece → Bytes
  | .stringIds => row 4 ((List.range (n + 6)).map fun k => place (.text k))
  | .typeIds => row 4 (List.range (n + 6))
  | .protoIds => row 4 [s.indexOf "VL", s.indexOf "V", place .parameters]
  | .fieldIds => join ((List.range n).map (s.memberEntry s.fieldType))
  | .methodIds => join ((List.range n).map (s.memberEntry 0))
  | .classDefs => join ((List.range n).map (s.classEntry n place))
  | .text index => s.textItem n index
  | .parameters => row 4 [1, s.indexOf "[Ljava/lang/String;"]
  | .interfaces _ => row 4 [1, s.indexOf "I"]
  | .code => s.codeItem n
  | .classData index => s.classData (place .code) index

def headerValues (n : Nat) (place : Piece → Nat) : List Nat :=
  [s.spare .fileSize n, s.spare .headerSize n, s.spare .endianTag n, place .stringIds, place .typeIds,
    place .protoIds, place .fieldIds, place .methodIds, place .classDefs, s.spare .dataOffset n, n + 6, n + 6, 1,
    n, n, n]

def header (n : Nat) (place : Piece → Nat) : Bytes :=
  (0x64 :: 0x65 :: 0x78 :: s.version).toArray ++ littleEndian 4 (s.spare .checksum n) ++ s.signature
    ++ row 4 (s.headerValues n place)

/-- The pieces, with filler before each of them. -/
def body (n : Nat) (place : Piece → Nat) : (start : Nat) → List Piece → Bytes
  | _, [] => s.trailer n
  | start, p :: rest =>
    let filler := s.gap start p
    filler ++ s.block n place p ++ body n place (start + filler.size + s.size n (place .code) p) rest

def image (n : Nat) : Bytes :=
  let places := s.places n
  s.header n (placeIn places) ++ s.body n (placeIn places) headerSize (s.order n)

end Design

/-- The pieces in the order in which the tables name them. -/
def plainOrder (n : Nat) : List Piece :=
  pieces n 1

theorem plain_code_first (n i : Nat) : .classData i ∉ (plainOrder n).takeWhile (· != .code) := by
  unfold plainOrder pieces
  simp

def plainWord : SpareWord → Nat
  | .headerSize => headerSize
  | .endianTag => 0x12345678
  | .classFlags => 1
  | _ => 0

theorem plainWord_lt (word : SpareWord) : plainWord word < 0x100000000 := by
  cases word <;> decide

def plainVersion : List UInt8 := [0x0A, 0x30, 0x33, 0x35, 0x00]

theorem plainVersion_ascii : ∀ b ∈ plainVersion, b.toNat < 128 := by
  decide +kernel

/-- Images without filler; each class has its field. -/
def plain : Design where
  base := baseStrings
  base_perm := .refl _
  lists _ := 1
  lists_le n := Nat.le_add_left 1 n
  listOf _ _ := 0
  listOf_lt _ _ _ := Nat.zero_lt_one
  order := plainOrder
  order_perm _ := .refl _
  code_first := plain_code_first
  gap _ _ := #[]
  gap_le _ _ := Nat.zero_le _
  trailer _ := #[]
  version := plainVersion
  version_length := rfl
  version_ascii := plainVersion_ascii
  signature := Array.replicate 20 0
  signature_size := Array.size_replicate
  spare word _ := plainWord word
  spare_lt word _ := plainWord_lt word
  fieldType := 4
  fieldType_lt := by decide
  statics i := [⟨i % 0x100000000, 1, Nat.mod_lt _ (by decide), by decide⟩]
  statics_le _ := (by decide : 1 ≤ 64)
  instances _ := []
  instances_le _ := Nat.zero_le _
  directFlags _ := 1
  directFlags_lt _ := by decide

end Handset.Dex.Sample
