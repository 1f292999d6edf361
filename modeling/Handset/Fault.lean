/-!
# Faults

Every way in which a step of the handset can fail, as a cause. The wording of a cause, where it has
one, is given once, by `Fault.message`.
-/
namespace Handset

inductive Refusal where
  | emptyStack
  | noFrame
  | badLength
  | noArray
  | badIndex
  | noObject
  | noField
  | noStatic
  | notLocked
  | window
deriving DecidableEq, Inhabited

namespace Refusal

def message : Refusal → String
  | emptyStack => "empty stack"
  | noFrame => "no frame"
  | badLength => "bad length"
  | noArray => "no array"
  | badIndex => "bad index"
  | noObject => "no object"
  | noField => "no field"
  | noStatic => "no static"
  | notLocked => "not locked"
  | window => "window"

end Refusal

inductive Fault where
  | shortRead (need : Nat)
  | byteOutOfRange
  | itemOutOfRange
  | slotOutOfRange
  | nothingToPop
  | notDex
  | notAscii (byte : Nat) (position : Nat)
  | noMember (owner member : String)
  | refused (why : Refusal)
  | kindMismatch
  | badValue
  | missingKey
  | tooLarge
  | outOfMemory
  | nestedTooDeeply
  | divisionByZero
  | outOfSteps
  | badProgram
  | badIndentation
  | mixedIndentation
  | unknownName
  | endOfInput
  | interrupted
  | fileNotFound
  | fileExists
  | notADirectory
  | isADirectory
  | permissionDenied
  | systemRefused
  | badEncoding
  | badDocument
  | notEncodable
  | componentFailed
  | componentMissing
  | noSectionHeader
  | unreadableLine
  | duplicateSection
  | duplicateKey
  | noSection
  | noKey
  | danglingReference
  | malformedReference
  | referenceDepth
  | badArchive
  | badPicture
deriving DecidableEq, Inhabited

namespace Fault

private def hexPair (n : Nat) : String :=
  String.ofList [Nat.digitChar (n / 16 % 16), Nat.digitChar (n % 16)]

/-- The wording of a fault; causes without a wording of their own have the empty text. -/
def message : Fault → String
  | shortRead need => s!"unpack requires a buffer of {need} bytes"
  | byteOutOfRange => "index out of range"
  | itemOutOfRange => "list index out of range"
  | slotOutOfRange => "list assignment index out of range"
  | nothingToPop => "pop from empty list"
  | notDex => "无效的DEX文件格式"
  | notAscii byte position =>
    let pair := hexPair byte
    s!"'ascii' codec can't decode byte 0x{pair} in position {position}: ordinal not in range(128)"
  | noMember owner member => s!"'{owner}' object has no attribute '{member}'"
  | refused why => why.message
  | _ => ""

end Fault

end Handset
