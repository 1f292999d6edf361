import Handset.Value.Order

/-!
# The instruction set

The operations of the machine, grouped by what they do, with the table of their mnemonics and the
table of the opcodes under which instructions reach them.
-/
namespace Handset

/-- One register, or a pair of registers that hold the low and the high word of a number. -/
inductive Width where
  | single
  | wide
deriving DecidableEq, Inhabited

/-- Where a move finds its register numbers: both in the opcode, the source in the next word, or
both in the next two words. -/
inductive Addressing where
  | packed
  | sourceWord
  | bothWords
deriving DecidableEq, Inhabited

/-- How a typed access treats the value that it loads or stores. -/
inductive Kind where
  | plain
  | wide
  | boolean
  | byte
  | half
deriving DecidableEq, Inhabited

inductive Literal where
  | nibble
  | half
  | word
  | highHalf
  | wideHalf
  | wideWord
  | wideLong
  | wideHighHalf
  | string
  | farString
  | className
deriving DecidableEq, Inhabited

inductive BinaryOp where
  | add
  | sub
  | mul
  | floorDiv
  | trueDiv
  | rem
  | and
  | or
  | xor
  | shl
  | shr
  | ushr
deriving DecidableEq, Inhabited

inductive UnaryOp where
  | neg
  | not
deriving DecidableEq, Inhabited

inductive NumberKind where
  | integer
  | floating
deriving DecidableEq, Inhabited

inductive Operation where
  | nop
  | move (addressing : Addressing) (width : Width)
  | moveResult (width : Width)
  | load (literal : Literal)
  | monitorEnter
  | monitorExit
  | instanceGet (kind : Kind)
  | instancePut (kind : Kind)
  | staticGet (kind : Kind)
  | staticPut (kind : Kind)
  | arrayGet (kind : Kind)
  | arrayPut (kind : Kind)
  | invoke
  | returnVoid
  | returnValue (width : Width)
  | newInstance
  | newArray
  | filledNewArray
  | fillArrayData
  | throwValue
  | checkCast
  | instanceOf
  /-- `inverted` gives 1 to the smaller operand -/
  | compare (width : Width) (inverted : Bool)
  | branch (test : Value.Comparison)
  | branchZero (test : Value.Comparison)
  | jump (bytes : Nat)
  | packedSwitch
  | sparseSwitch
  | binary (width : Width) (op : BinaryOp)
  | unary (width : Width) (op : UnaryOp)
  /-- a single register into a pair with a zero high word -/
  | extend
  | convert (source : Width) (kind : NumberKind) (target : Width)
  | narrow (kind : Kind)
deriving DecidableEq, Inhabited

namespace Operation

def mnemonics : List (String × Operation) :=
  [("add_double", .binary .wide .add), ("add_float", .binary .single .add),
   ("add_int", .binary .single .add), ("add_long", .binary .wide .add),
   ("aget", .arrayGet .plain), ("aget_boolean", .arrayGet .boolean),
   ("aget_byte", .arrayGet .byte), ("aget_char", .arrayGet .half),
   ("aget_object", .arrayGet .plain), ("aget_short", .arrayGet .half),
   ("aget_wide", .arrayGet .wide),
   ("and_int", .binary .single .and), ("and_long", .binary .wide .and),
   ("aput", .arrayPut .plain), ("aput_boolean", .arrayPut .boolean),
   ("aput_byte", .arrayPut .byte), ("aput_char", .arrayPut .half),
   ("aput_object", .arrayPut .plain), ("aput_short", .arrayPut .half),
   ("aput_wide", .arrayPut .wide),
   ("check_cast", .checkCast),
   ("cmp_long", .compare .wide false), ("cmpg_double", .compare .wide false),
   ("cmpg_float", .compare .single false), ("cmpl_double", .compare .wide true),
   ("cmpl_float", .compare .single true),
   ("const", .load .word), ("const_16", .load .half), ("const_4", .load .nibble),
   ("const_class", .load .className), ("const_high16", .load .highHalf),
   ("const_string", .load .string), ("const_string_jumbo", .load .farString),
   ("const_wide", .load .wideLong), ("const_wide_16", .load .wideHalf),
   ("const_wide_32", .load .wideWord), ("const_wide_high16", .load .wideHighHalf),
   ("div_double", .binary .wide .trueDiv), ("div_float", .binary .single .trueDiv),
   ("div_int", .binary .single .floorDiv), ("div_long", .binary .wide .floorDiv),
   ("double_to_float", .convert .wide .floating .single),
   ("double_to_int", .convert .wide .integer .single),
   ("double_to_long", .convert .wide .integer .wide),
   ("fill_array_data", .fillArrayData),
   ("filled_new_array", .filledNewArray), ("filled_new_array_range", .filledNewArray),
   ("float_to_double", .convert .single .floating .wide),
   ("float_to_int", .convert .single .integer .single),
   ("float_to_long", .convert .single .integer .wide),
   ("goto", .jump 1), ("goto_16", .jump 2), ("goto_32", .jump 4),
   ("if_eg", .branch .eq), ("if_eq", .branch .eq), ("if_eqz", .branchZero .eq),
   ("if_ge", .branch .ge), ("if_gez", .branchZero .ge),
   ("if_gt", .branch .gt), ("if_gtz", .branchZero .gt),
   ("if_le", .branch .le), ("if_lez", .branchZero .le),
   ("if_lt", .branch .lt), ("if_ltz", .branchZero .lt),
   ("if_ne", .branch .ne), ("if_nez", .branchZero .ne),
   ("iget", .instanceGet .plain), ("iget_boolean", .instanceGet .boolean),
   ("iget_byte", .instanceGet .byte), ("iget_char", .instanceGet .half),
   ("iget_object", .instanceGet .plain), ("iget_short", .instanceGet .half),
   ("iget_wide", .instanceGet .wide),
   ("instance_of", .instanceOf),
   ("int_to_byte", .narrow .byte), ("int_to_char", .narrow .half),
   ("int_to_double", .convert .single .floating .wide),
   ("int_to_float", .convert .single .floating .single),
   ("int_to_long", .extend), ("int_to_short", .narrow .half),
   ("invoke_direct", .invoke), ("invoke_direct_range", .invoke),
   ("invoke_interface", .invoke), ("invoke_interface_range", .invoke),
   ("invoke_static", .invoke), ("invoke_static_range", .invoke),
   ("invoke_super", .invoke), ("invoke_super_range", .invoke),
   ("invoke_virtual", .invoke), ("invoke_virtual_range", .invoke),
   ("iput", .instancePut .plain), ("iput_boolean", .instancePut .boolean),
   ("iput_byte", .instancePut .byte), ("iput_char", .instancePut .half),
   ("iput_object", .instancePut .plain), ("iput_short", .instancePut .half),
   ("iput_wide", .instancePut .wide),
   ("long_to_double", .convert .wide .floating .wide),
   ("long_to_float", .convert .wide .floating .single),
   ("long_to_int", .convert .wide .integer .single),
   ("monitor_enter", .monitorEnter), ("monitor_exit", .monitorExit),
   ("move", .move .packed .single), ("move_16", .move .bothWords .single),
   ("move_exception", .moveResult .single), ("move_from16", .move .sourceWord .single),
   ("move_object", .move .packed .single), ("move_object_16", .move .bothWords .single),
   ("move_object_from16", .move .sourceWord .single),
   ("move_result", .moveResult .single), ("move_result_object", .moveResult .single),
   ("move_result_wide", .moveResult .wide),
   ("move_wide", .move .packed .wide), ("move_wide_16", .move .bothWords .wide),
   ("move_wide_from16", .move .sourceWord .wide),
   ("mul_double", .binary .wide .mul), ("mul_float", .binary .single .mul),
   ("mul_int", .binary .single .mul), ("mul_long", .binary .wide .mul),
   ("neg_double", .unary .wide .neg), ("neg_float", .unary .single .neg),
   ("neg_int", .unary .single .neg), ("neg_long", .unary .wide .neg),
   ("new_array", .newArray), ("new_instance", .newInstance),
   ("nop", .nop),
   ("not_int", .unary .single .not), ("not_long", .unary .wide .not),
   ("or_int", .binary .single .or), ("or_long", .binary .wide .or),
   ("packed_switch", .packedSwitch),
   ("rem_double", .binary .wide .rem), ("rem_float", .binary .single .rem),
   ("rem_int", .binary .single .rem), ("rem_long", .binary .wide .rem),
   ("return", .returnValue .single), ("return_object", .returnValue .single),
   ("return_void", .returnVoid), ("return_wide", .returnValue .wide),
   ("sget", .staticGet .plain), ("sget_boolean", .staticGet .boolean),
   ("sget_byte", .staticGet .byte), ("sget_char", .staticGet .half),
   ("sget_object", .staticGet .plain), ("sget_short", .staticGet .half),
   ("sget_wide", .staticGet .wide),
   ("shl_int", .binary .single .shl), ("shl_long", .binary .wide .shl),
   ("shr_int", .binary .single .shr), ("shr_long", .binary .wide .shr),
   ("sparse_switch", .sparseSwitch),
   ("sput", .staticPut .plain), ("sput_boolean", .staticPut .boolean),
   ("sput_byte", .staticPut .byte), ("sput_char", .staticPut .half),
   ("sput_object", .staticPut .plain), ("sput_short", .staticPut .half),
   ("sput_wide", .staticPut .wide),
   ("sub_double", .binary .wide .sub), ("sub_float", .binary .single .sub),
   ("sub_int", .binary .single .sub), ("sub_long", .binary .wide .sub),
   ("throw", .throwValue),
   ("ushr_int", .binary .single .ushr), ("ushr_long", .binary .wide .ushr),
   ("xor_int", .binary .single .xor), ("xor_long", .binary .wide .xor)]

def ofMnemonic? (name : String) : Option Operation :=
  (mnemonics.find? (·.1 == name)).map (·.2)

def ofOpcode? (opcode : Nat) : Option Operation :=
  match opcode with
  | 0x22 => some .newInstance
  | 0x23 => some .newArray
  | 0x24 | 0x25 => some .filledNewArray
  | 0x26 => some .fillArrayData
  | 0x27 => some .throwValue
  | 0x28 => some .checkCast
  | 0x29 => some .instanceOf
  | 0x2A => some (.compare .single true)
  | 0x2B => some (.compare .single false)
  | 0x2C => some (.compare .wide true)
  | 0x2D | 0x2E => some (.compare .wide false)
  | 0x2F => some (.branch .eq)
  | 0x30 => some (.branch .ne)
  | 0x31 => some (.branch .lt)
  | 0x32 => some (.branch .ge)
  | 0x33 => some (.branch .gt)
  | 0x34 => some (.branch .le)
  | 0x35 => some (.branchZero .eq)
  | 0x36 => some (.branchZero .ne)
  | 0x37 => some (.branchZero .lt)
  | 0x38 => some (.branchZero .ge)
  | 0x39 => some (.branchZero .gt)
  | 0x3A => some (.branchZero .le)
  | 0x3B => some (.jump 1)
  | 0x3C => some (.jump 2)
  | 0x3D => some (.jump 4)
  | 0x3E => some .packedSwitch
  | 0x3F => some .sparseSwitch
  | 0x44 | 0x46 => some (.arrayGet .plain)
  | 0x45 => some (.arrayGet .wide)
  | 0x47 => some (.arrayGet .boolean)
  | 0x48 => some (.arrayGet .byte)
  | 0x49 | 0x4A => some (.arrayGet .half)
  | 0x4B | 0x4D => some (.arrayPut .plain)
  | 0x4C => some (.arrayPut .wide)
  | 0x4E => some (.arrayPut .boolean)
  | 0x4F => some (.arrayPut .byte)
  | 0x50 | 0x51 => some (.arrayPut .half)
  | 0x70 | 0x71 | 0x72 | 0x74 | 0x75 | 0x76 | 0x77 | 0x78 => some .invoke
  | 0x79 => some .returnVoid
  | 0x7A | 0x7C => some (.returnValue .single)
  | 0x7B => some (.returnValue .wide)
  | 0x90 | 0xA6 => some (.binary .single .add)
  | 0x91 | 0xA7 => some (.binary .single .sub)
  | 0x92 | 0xA8 => some (.binary .single .mul)
  | 0x93 => some (.binary .single .floorDiv)
  | 0x94 | 0xAA => some (.binary .single .rem)
  | 0x95 => some (.binary .single .and)
  | 0x96 => some (.binary .single .or)
  | 0x97 => some (.binary .single .xor)
  | 0x98 => some (.binary .single .shl)
  | 0x99 => some (.binary .single .shr)
  | 0x9A => some (.binary .single .ushr)
  | 0x9B | 0xAB => some (.binary .wide .add)
  | 0x9C | 0xAC => some (.binary .wide .sub)
  | 0x9D | 0xAD => some (.binary .wide .mul)
  | 0x9E => some (.binary .wide .floorDiv)
  | 0x9F | 0xAF => some (.binary .wide .rem)
  | 0xA0 => some (.binary .wide .and)
  | 0xA1 => some (.binary .wide .or)
  | 0xA2 => some (.binary .wide .xor)
  | 0xA3 => some (.binary .wide .shl)
  | 0xA4 => some (.binary .wide .shr)
  | 0xA5 => some (.binary .wide .ushr)
  | 0xA9 => some (.binary .single .trueDiv)
  | 0xAE => some (.binary .wide .trueDiv)
  | 0xB0 | 0xB4 => some (.unary .single .neg)
  | 0xB1 => some (.unary .single .not)
  | 0xB2 | 0xB5 => some (.unary .wide .neg)
  | 0xB3 => some (.unary .wide .not)
  | 0xB6 => some .extend
  | 0xB7 => some (.convert .single .floating .single)
  | 0xB8 | 0xBE => some (.convert .single .floating .wide)
  | 0xB9 | 0xBF => some (.convert .wide .integer .single)
  | 0xBA | 0xC1 => some (.convert .wide .floating .single)
  | 0xBB => some (.convert .wide .floating .wide)
  | 0xBC => some (.convert .single .integer .single)
  | 0xBD => some (.convert .single .integer .wide)
  | 0xC0 => some (.convert .wide .integer .wide)
  | 0xC2 => some (.narrow .byte)
  | 0xC3 | 0xC4 => some (.narrow .half)
  | 0xF0 => some .nop
  | _ => none

end Operation

end Handset
