import Handset.Storage.Volume
import Handset.Text.LetterCase

/-!
# Texts of the user interfaces

What the console and the desktop show of hardware, volumes and files. Sizes are given in a unit, with
two places.
-/
namespace Handset.Interface

def hardwareLine (part : String) (known : Value) : Except Fault String := do
  let name := Text.LetterCase.capitalize part
  let text ← known.written
  pure s!"{name}: {text}"

def inUnit (unit : Nat) (size : Value) : Except Fault String := do
  match ← size.trueDiv (.int unit) with
  | .double d => pure (d.fixed 2)
  | other => pure other.display

def volumeLines (info : VolumeInfo) : Except Fault (List String) := do
  let giga := 1024 * 1024 * 1024
  let capacity ← inUnit giga info.capacity
  let used ← inUnit giga info.used
  let free ← inUnit giga info.free
  let count := info.fileCount
  pure [s!"总容量: {capacity} GB", s!"已使用: {used} GB", s!"可用空间: {free} GB",
    s!"文件数量: {count}"]

def fileLine (name : String) (entry : Value) : Except Fault String := do
  match entry with
  | .object noted => match Table.find? noted "size" with
    | some size =>
      let amount ← inUnit 1024 size
      pure s!"{name} ({amount} KB)"
    | none => throw .missingKey
  | _ => throw .kindMismatch

def bytesOfMegabytes (size : Value) : Except Fault Value := do
  let kilo ← size.mul (.int 1024)
  let bytes ← kilo.mul (.int 1024)
  pure (.int (← bytes.toInt))

end Handset.Interface
