import Handset.Bytes
import Handset.Table

/-!
# DEX images

The tables of a DEX file as the emulator keeps them: names are resolved, and the code of each method
stands under its offset.
-/
namespace Handset.Dex

inductive HeaderWord where
  | checksum
  | fileSize
  | headerSize
  | endianTag
  | stringIdsOffset
  | typeIdsOffset
  | protoIdsOffset
  | fieldIdsOffset
  | methodIdsOffset
  | classDefsOffset
  | dataOffset
  | stringIdsSize
  | typeIdsSize
  | protoIdsSize
  | fieldIdsSize
  | methodIdsSize
  | classDefsSize
deriving DecidableEq, Inhabited

def HeaderWord.name : HeaderWord → String
  | checksum => "checksum"
  | fileSize => "file_size"
  | headerSize => "header_size"
  | endianTag => "endian_tag"
  | stringIdsOffset => "string_ids_off"
  | typeIdsOffset => "type_ids_off"
  | protoIdsOffset => "proto_ids_off"
  | fieldIdsOffset => "field_ids_off"
  | methodIdsOffset => "method_ids_off"
  | classDefsOffset => "class_defs_off"
  | dataOffset => "data_off"
  | stringIdsSize => "string_ids_size"
  | typeIdsSize => "type_ids_size"
  | protoIdsSize => "proto_ids_size"
  | fieldIdsSize => "field_ids_size"
  | methodIdsSize => "method_ids_size"
  | classDefsSize => "class_defs_size"

structure Header where
  magic : Option String := none
  signature : Option Bytes := none
  words : List (HeaderWord × Nat) := []
deriving DecidableEq, Inhabited

def Header.word (h : Header) (w : HeaderWord) : Nat :=
  (Table.find? h.words w).getD 0

structure Proto where
  shorty : String
  returnType : String
  parameters : Array String
deriving DecidableEq, Inhabited

structure Field where
  classIndex : Nat
  className : String
  typeIndex : Nat
  typeName : String
  nameIndex : Nat
  name : String
deriving DecidableEq, Inhabited

/-- An entry of the method table; the code offset is zero for a method without code. -/
structure Method where
  classIndex : Nat
  className : String
  protoIndex : Nat
  nameIndex : Nat
  name : String
  proto : Proto
  codeOffset : Nat
deriving DecidableEq, Inhabited

structure Member where
  methodIndex : Nat
  accessFlags : Nat
  codeOffset : Nat
deriving DecidableEq, Inhabited

structure ClassDef where
  classIndex : Nat
  className : String
  accessFlags : Nat
  superclass : String
  interfaces : Array String
  sourceFile : Option String
  dataOffset : Nat
  directMethods : Array Member
  virtualMethods : Array Member
deriving DecidableEq, Inhabited

structure Instruction where
  opcode : Nat
  registers : Nat
  offset : Int
deriving DecidableEq, Inhabited

structure TryBlock where
  start : Int
  count : Int
  handler : Int
deriving DecidableEq, Inhabited

structure CodeItem where
  registersSize : Nat
  insSize : Nat
  outsSize : Nat
  triesSize : Nat
  instructions : Array Instruction
  tries : Array TryBlock
deriving DecidableEq, Inhabited

structure Image where
  header : Header := {}
  strings : Array String := #[]
  types : Array String := #[]
  protos : Array Proto := #[]
  fields : Array Field := #[]
  methods : Array Method := #[]
  classes : Array ClassDef := #[]
  code : Table Nat CodeItem := []
deriving DecidableEq, Inhabited

namespace Method

/-- Is this a program's entry: `main`, without result, from an array of texts? -/
def isMain (m : Method) : Bool :=
  m.name == "main" && m.proto.returnType == "V" && m.proto.parameters == #["[Ljava/lang/String;"]

end Method

namespace Image

def mainMethod? (image : Image) : Option Method :=
  image.methods.find? Method.isMain

def classNamed? (image : Image) (name : String) : Option ClassDef :=
  image.classes.find? (·.className == name)

end Image

end Handset.Dex
