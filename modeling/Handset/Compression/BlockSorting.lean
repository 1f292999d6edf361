import Handset.Compression.PrefixCode
import Handset.Compression.Scrambling

/-!
# Block-sorted streams

A block-sorted stream is a sequence of blocks. The bytes of a block have their runs shortened, are
sorted by what follows them, written by how recently each was seen last, and put into several prefix
codes that take turns. Every block has a check, and so has the stream.
-/
namespace Handset.Compression.BlockSorting

open Expanding

def expect (width value : Nat) : Expanding Unit := do
  if (← high width) ≠ value then throw .malformed

def checkBit (sum : UInt32) : UInt32 :=
  if sum &&& 0x80000000 = 0 then sum <<< 1 else (sum <<< 1) ^^^ 0x04C11DB7

def checkByte (sum : UInt32) (byte : UInt8) : UInt32 :=
  (List.range 8).foldl (fun s _ => checkBit s) (sum ^^^ (byte.toUInt32 <<< 24))

def check (block : Bytes) : UInt32 :=
  block.foldl checkByte 0xFFFFFFFF ^^^ 0xFFFFFFFF

def combine (sum block : UInt32) : UInt32 :=
  ((sum <<< 1) ||| (sum >>> 31)) ^^^ block

def alphabet : Expanding (List UInt8) := do
  let groups ← take 16
  let found ← groups.zipIdx.mapM fun (occurs, group) => do
    if occurs then
      let members ← take 16
      pure (members.zipIdx.filterMap fun (occurs, i) =>
        if occurs then some (UInt8.ofNat (16 * group + i)) else none)
    else pure []
  pure found.flatten

/-- Takes ones up to a zero, and answers how many there were; there have to be fewer than `limit`. -/
def ones : (limit : Nat) → Expanding Nat
  | 0 => throw .malformed
  | limit + 1 => do
    if ← bit then return 1 + (← ones limit)
    else pure 0

def moveToFront {α : Type} (items : List α) (place : Nat) : Option (α × List α) :=
  items[place]?.map fun item => (item, item :: items.eraseIdx place)

/-- What places stand for if every item is moved to the front once it is used. -/
def unrank {α : Type} : (items : List α) → (places : List Nat) → Option (List α)
  | _, [] => some []
  | items, place :: places => do
    let (item, items) ← moveToFront items place
    return item :: (← unrank items places)

def mostGroups : Nat := 18002

def turns (codeCount : Nat) : Expanding (List Nat) := do
  let count ← high 15
  if count = 0 then throw .malformed
  let places ← (List.range count).mapM fun _ => ones codeCount
  match unrank (List.range codeCount) (places.take mostGroups) with
  | some order => pure order
  | none => throw .malformed

def longestWord : Nat := 20

/-- Takes the length of a word by its difference to the one before. -/
def wordLength : (fuel length : Nat) → Expanding Nat
  | 0, _ => throw .starved
  | fuel + 1, length => do
    if length < 1 ∨ longestWord < length then throw .malformed
    if ← bit then wordLength fuel (if ← bit then length - 1 else length + 1)
    else pure length

def wordLengths : (count length : Nat) → Expanding (List Nat)
  | 0, _ => pure []
  | count + 1, length => do
    let length ← wordLength ((← get).bits.length + 1) length
    return length :: (← wordLengths count length)

def code (symbolCount : Nat) : Expanding PrefixCode := do
  let start ← high 5
  return .ofLengths longestWord (← wordLengths symbolCount start)

def turnLength : Nat := 50

/-- Takes symbols up to the one that ends a block. `left` symbols are to be taken with the code whose
turn it is; those known come last first. -/
def symbols (codes : Array PrefixCode) (last : Nat) :
    (fuel left : Nat) → PrefixCode → (turns known : List Nat) → Expanding (List Nat)
  | 0, _, _, _, _ => throw .starved
  | fuel + 1, 0, _, turns, known =>
    match turns with
    | [] => throw .malformed
    | turn :: turns => symbols codes last fuel turnLength (codes.getD turn default) turns known
  | fuel + 1, left + 1, code, turns, known => do
    let symbol ← code.read
    if symbol = last then pure known.reverse
    else symbols codes last fuel left code turns (symbol :: known)

structure Column where
  /-- the bytes that occur, the one seen last first -/
  recent : List UInt8
  bytes : Bytes := #[]
  run : Nat := 0
  weight : Nat := 1

namespace Column

def flush (c : Column) (room : Nat) : Option Column :=
  if room < c.bytes.size + c.run then none
  else some { c with bytes := c.bytes ++ Array.replicate c.run (c.recent.headD 0), run := 0, weight := 1 }

def mostWeight : Nat := 1 <<< 21

/-- The block with a symbol more. The first two symbols are digits of the length of a run, worth one
and two; the others are places of bytes. -/
def add (room : Nat) (c : Column) (symbol : Nat) : Option Column :=
  if symbol < 2 then
    if mostWeight ≤ c.weight then none
    else some { c with run := c.run + (symbol + 1) * c.weight, weight := 2 * c.weight }
  else do
    let c ← c.flush room
    let (byte, recent) ← moveToFront c.recent (symbol - 1)
    if room ≤ c.bytes.size then none
    else some { c with recent, bytes := c.bytes.push byte }

end Column

def column (room : Nat) (occurring : List UInt8) (symbols : List Nat) : Option Bytes := do
  let c ← symbols.foldlM (Column.add room) { recent := occurring }
  return (← c.flush room).bytes

def sortedPlaces (block : Bytes) : Array Nat :=
  let buckets := block.toList.zipIdx.foldr
    (fun (byte, place) buckets => buckets.modify byte.toNat (place :: ·)) (Array.replicate 256 [])
  (buckets.toList.flatten).toArray

def follow (block : Bytes) (next : Array Nat) : (count place : Nat) → Bytes → Bytes
  | 0, _, met => met
  | count + 1, place, met =>
    follow block next count (next.getD place 0) (met.push (block.getD place 0))

/-- The bytes that were sorted, from the last column of the sorted rotations and the place of the one
that is not rotated. -/
def unsort (block : Bytes) (start : Nat) : Bytes :=
  let next := sortedPlaces block
  follow block next block.size (next.getD start 0) #[]

structure Runs where
  bytes : Bytes := #[]
  /-- the byte that came last, and how often it came in a row -/
  last : UInt8 := 0
  count : Nat := 0

/-- Takes a byte. After four that are equal, a byte says how many more of them there are. -/
def Runs.add (r : Runs) (byte : UInt8) : Runs :=
  if r.count = 4 then { bytes := r.bytes ++ Array.replicate byte.toNat r.last }
  else if r.count ≠ 0 ∧ r.last = byte then { r with bytes := r.bytes.push byte, count := r.count + 1 }
  else { bytes := r.bytes.push byte, last := byte, count := 1 }

/-- The bytes of a block with their runs restored; four equal bytes need a number after them. -/
def lengthen (block : Bytes) : Option Bytes :=
  let r := block.foldl Runs.add {}
  if r.count = 4 then none else some r.bytes

def need {α : Type} : Option α → Expanding α
  | some a => pure a
  | none => throw .malformed

/-- Takes a block after its first byte; `room` is how long it may be. Answers its check. -/
def block (room : Nat) : Expanding UInt32 := do
  [0x41, 0x59, 0x26, 0x53, 0x59].forM (expect 8)
  let given ← high 32
  let scrambled ← bit
  let start ← high 24
  if 10 + room < start then throw .malformed
  let occurring ← alphabet
  if occurring.isEmpty then throw .malformed
  let codeCount ← high 3
  if codeCount < 2 ∨ 6 < codeCount then throw .malformed
  let order ← turns codeCount
  let symbolCount := occurring.length + 2
  let codes ← (List.range codeCount).mapM fun _ => code symbolCount
  let fuel := 2 * (← get).bits.length + 2
  let taken ← symbols codes.toArray (symbolCount - 1) fuel 0 default order []
  let sorted ← need (column room occurring taken)
  if sorted.size ≤ start then throw .malformed
  let shortened := unsort sorted start
  let bytes ← need (lengthen (if scrambled then Scrambling.apply shortened else shortened))
  if (check bytes).toNat ≠ given then throw .malformed
  modify fun s => { s with output := s.output ++ bytes }
  pure (check bytes)

def blocks (room : Nat) : (fuel : Nat) → (sum : UInt32) → Expanding Unit
  | 0, _ => throw .starved
  | fuel + 1, sum => do
    match ← high 8 with
    | 0x31 => blocks room fuel (combine sum (← block room))
    | 0x17 =>
      [0x72, 0x45, 0x38, 0x50, 0x90].forM (expect 8)
      expect 32 sum.toNat
    | _ => throw .malformed

/-- Takes a stream: its signature, the length of its blocks and the blocks. -/
def stream : Expanding Unit := do
  [0x42, 0x5A, 0x68].forM (expect 8)
  let level ← high 8
  if level < 0x31 ∨ 0x39 < level then throw .malformed
  blocks (100000 * (level - 0x30)) ((← get).bits.length + 1) 0

def expand (b : Bytes) : Except Fault Expansion :=
  Expanding.run stream (highFirst b)

end Handset.Compression.BlockSorting
