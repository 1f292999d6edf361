import Handset.Compression.Method
import Handset.Package.Checksum
import Handset.Text.CodePage437
import Handset.Text.Utf8

/-!
# Archives

An archive is a sequence of files with names, followed by a directory of the files and a closing
record. Writing makes an archive that holds the bytes of its files as they are; reading finds the
closing record from the end, goes through the directory and takes every file from where the directory
says it is, expanding it if it is packed. Files that are locked are refused.
-/
namespace Handset.Package

structure ArchiveFile where
  name : String
  content : Bytes
deriving DecidableEq, Inhabited

namespace Archive

def words (fields : List (Nat × Nat)) : Bytes :=
  fields.foldl (fun acc (width, value) => acc ++ Bytes.littleEndian width value) #[]

def fileSignature : Nat := 0x04034B50

def entrySignature : Nat := 0x02014B50

def endSignature : Nat := 0x06054B50

/-- The fields that a file and its entry in the directory share: version, flags (names are UTF-8),
no compression, no time, check, sizes, length of the name, no further fields. -/
def sharedFields (f : ArchiveFile) : List (Nat × Nat) :=
  [(2, 20), (2, 0x800), (2, 0), (2, 0), (2, 33), (4, (checksum f.content).toNat),
    (4, f.content.size), (4, f.content.size), (2, (Text.Utf8.encode f.name).size), (2, 0)]

def fileRecord (f : ArchiveFile) : Bytes :=
  words ((4, fileSignature) :: sharedFields f) ++ Text.Utf8.encode f.name ++ f.content

def entryRecord (f : ArchiveFile) (offset : Nat) : Bytes :=
  words ((4, entrySignature) :: (2, 20) :: sharedFields f
    ++ [(2, 0), (2, 0), (2, 0), (4, 0), (4, offset)]) ++ Text.Utf8.encode f.name

def records : List ArchiveFile → (offset : Nat) → Bytes × Bytes
  | [], _ => (#[], #[])
  | f :: rest, offset =>
    let record := fileRecord f
    let (files, entries) := records rest (offset + record.size)
    (record ++ files, entryRecord f offset ++ entries)

def encode (files : List ArchiveFile) : Bytes :=
  let (body, directory) := records files 0
  body ++ directory ++ words [(4, endSignature), (2, 0), (2, 0), (2, files.length),
    (2, files.length), (4, directory.size), (4, body.size), (2, 0)]

def word (b : Bytes) (width position : Nat) : Except Fault Nat :=
  if position + width ≤ b.size then .ok (Bytes.ofLittleEndian (b.extract position (position + width)))
  else .error .badArchive

def endSize : Nat := 22

def longestComment : Nat := 1 <<< 16

def startsWith (b : Bytes) (signature position : Nat) : Bool :=
  Bytes.ofLittleEndian (b.extract position (position + 4)) = signature

/-- The last of `count` positions from `first` on where the signature of the closing record stands. -/
def lastEnd? (b : Bytes) (first : Nat) : (count : Nat) → Option Nat
  | 0 => none
  | count + 1 =>
    if startsWith b endSignature (first + count) then some (first + count) else lastEnd? b first count

/-- Where the closing record starts. Without a comment it ends the archive; otherwise it is where its
signature stands last. -/
def closing? (b : Bytes) : Option Nat :=
  if b.size < endSize then none
  else
    let position := b.size - endSize
    if startsWith b endSignature position && b.extract (b.size - 2) b.size == #[0, 0] then some position
    else
      let first := position - longestComment
      (lastEnd? b first (b.size - first)).filter (· ≤ position)

/-- Where the directory of an archive is, and what the positions in it are counted from. -/
structure Extent where
  start : Nat
  size : Nat
  base : Int

/-- The extent of a directory of the given size that ends at a position and is said to start at
`offset`. -/
def Extent.ending (position size offset : Nat) : Except Fault Extent :=
  if position < size then .error .badArchive
  else .ok { start := position - size, size, base := (position : Int) - size - offset }

def pointerSignature : Nat := 0x07064B50

def wideEndSignature : Nat := 0x06064B50

def pointerSize : Nat := 20

def wideEndSize : Nat := 56

/-- Where a wide closing record starts, if one belongs to the closing record at a position. An archive
has to be in one part. -/
def wideEnd? (b : Bytes) (position : Nat) : Except Fault (Option Nat) := do
  if position < pointerSize ∨ !startsWith b pointerSignature (position - pointerSize) then return none
  let pointer := position - pointerSize
  let part ← word b 4 (pointer + 4)
  let parts ← word b 4 (pointer + 16)
  if part ≠ 0 ∨ 1 < parts ∨ pointer < wideEndSize then throw .badArchive
  return if startsWith b wideEndSignature (pointer - wideEndSize) then some (pointer - wideEndSize) else none

def extent (b : Bytes) : Except Fault Extent := do
  match closing? b with
  | none => throw .badArchive
  | some position =>
    match ← wideEnd? b position with
    | some wide => Extent.ending wide (← word b 8 (wide + 40)) (← word b 8 (wide + 48))
    | none => Extent.ending position (← word b 4 (position + 12)) (← word b 4 (position + 16))

structure Entry where
  name : String
  flags : Nat
  method : Nat
  check : Nat
  packed : Nat
  size : Nat
  offset : Int
deriving Inhabited

def lockedFlag : Nat := 0x1

/-- The flags of files that are packed in ways no one knows. -/
def foreignFlags : Nat := 0x60

def utf8Flag : Nat := 0x800

def nameOf (flags : Nat) (name : Bytes) : Except Fault String :=
  if flags &&& utf8Flag = 0 then .ok (Text.CodePage437.decode name)
  else match Text.Utf8.decode? name with
    | some text => .ok text
    | none => .error .badEncoding

/-- The name under which a file is unpacked: up to a null character. -/
def Entry.text (e : Entry) : String :=
  String.ofList (e.name.toList.takeWhile (·.toNat ≠ 0))

/-- What a field of four bytes holds if its value is in a wide field. -/
def elsewhere : Nat := 0xFFFFFFFF

/-- The value of a field: the given one, or the first of the wide fields; and the wide fields left. -/
def wideValue (marks : List Nat) (value : Nat) (fields : Bytes) : Except Fault (Nat × Bytes) :=
  if marks.contains value then do
    pure (← word fields 8 0, fields.extract 8 fields.size)
  else .ok (value, fields)

def Entry.widen (e : Entry) (fields : Bytes) : Except Fault Entry := do
  let (size, fields) ← wideValue [elsewhere, 0xFFFFFFFFFFFFFFFF] e.size fields
  let (packed, fields) ← wideValue [elsewhere] e.packed fields
  let (offset, _) ← wideValue [elsewhere] e.offset.toNat fields
  pure { e with size, packed, offset }

def wideType : Nat := 1

def Entry.withExtra : (fuel : Nat) → Entry → (extra : Bytes) → Except Fault Entry
  | 0, e, _ => .ok e
  | fuel + 1, e, extra => do
    if extra.size < 4 then return e
    let type ← word extra 2 0
    let stop := 4 + (← word extra 2 2)
    if extra.size < stop then throw .badArchive
    let e ← if type = wideType then e.widen (extra.extract 4 stop) else pure e
    withExtra fuel e (extra.extract stop extra.size)

def entrySize : Nat := 46

def latestVersion : Nat := 63

def entryAt (d : Bytes) (position : Nat) : Except Fault (Entry × Nat) := do
  if d.size < position + entrySize then throw .badArchive
  if !startsWith d entrySignature position then throw .badArchive
  if latestVersion < (← word d 1 (position + 6)) then throw .badArchive
  let flags ← word d 2 (position + 8)
  let nameStop := position + entrySize + (← word d 2 (position + 28))
  let extraStop := nameStop + (← word d 2 (position + 30))
  let name ← nameOf flags (d.extract (position + entrySize) nameStop)
  let extra := d.extract nameStop extraStop
  let offset ← word d 4 (position + 42)
  let narrow : Entry :=
    { name, flags, method := ← word d 2 (position + 10), check := ← word d 4 (position + 16)
      packed := ← word d 4 (position + 20), size := ← word d 4 (position + 24), offset }
  return (← narrow.withExtra extra.size extra, extraStop + (← word d 2 (position + 32)))

def entries (d : Bytes) : (fuel position : Nat) → Except Fault (List Entry)
  | 0, _ => .ok []
  | fuel + 1, position => do
    if d.size ≤ position then return []
    let (entry, next) ← entryAt d position
    return entry :: (← entries d fuel next)

def directory (b : Bytes) : Except Fault (List Entry) := do
  let extent ← extent b
  let d := b.extract extent.start (extent.start + extent.size)
  return (← entries d (d.size + 1) 0).map fun e => { e with offset := e.offset + extent.base }

def lastNamed? (entries : List Entry) (name : String) : Option Entry :=
  entries.reverse.find? (·.text = name)

def headerSize : Nat := 30

/-- A file that was found: where its packed bytes start, and how they are packed. -/
structure Found where
  start : Nat
  method : Compression.Method

def locate (b : Bytes) (e : Entry) : Except Fault Found := do
  let position := e.offset.toNat
  if e.offset < 0 ∨ b.size < position + headerSize then throw .badArchive
  if !startsWith b fileSignature position then throw .badArchive
  let flags ← word b 2 (position + 6)
  let nameStop := position + headerSize + (← word b 2 (position + 26))
  let start := nameStop + (← word b 2 (position + 28))
  if e.flags &&& foreignFlags ≠ 0 then throw .badArchive
  if (← nameOf flags (b.extract (position + headerSize) nameStop)) ≠ e.name then throw .badArchive
  if e.flags &&& lockedFlag ≠ 0 then throw .badArchive
  match Compression.Method.ofNumber? e.method with
  | some method => pure { start, method }
  | none => throw .badArchive

/-- The bytes of a file that was found. They are as many as the directory says, or as there are packed
ones, and have to pass the check. -/
def contentOf (b : Bytes) (e : Entry) (found : Found) : Except Fault Bytes := do
  let packed := b.extract found.start (found.start + e.packed)
  if e.packed ≠ 0 ∧ packed.isEmpty then throw .badArchive
  let expansion ← found.method.expand packed e.size
  let content := expansion.output.extract 0 e.size
  if !(expansion.ended || packed.size = e.packed || content.size = e.size) then throw .badArchive
  if (checksum content).toNat ≠ e.check then throw .badArchive
  pure content

def decode (b : Bytes) : Except Fault (List ArchiveFile) := do
  (← directory b).mapM fun e => do pure { name := e.text, content := ← contentOf b e (← locate b e) }

end Archive

end Handset.Package
