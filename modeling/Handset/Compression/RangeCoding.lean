import Handset.Compression.Expansion
import Std.Data.HashMap

/-!
# Range-coded streams

A range-coded stream is a number, read byte by byte, that answers questions. Each question is asked in a
context, and each context has odds that follow the answers given in it. The answers make literals and
references to bytes before: new ones, and ones that use one of the last four distances again.
-/
namespace Handset.Compression.RangeCoding

inductive Reach where
  | new
  | old
deriving DecidableEq, Hashable, Inhabited

/-- What a question is about. Positions are counted from the start, as far as the stream minds them. -/
inductive Context where
  /-- is there a reference, rather than a literal? -/
  | refers (state position : Nat)
  /-- does the reference use an old distance? -/
  | old (state : Nat)
  | notLast (state : Nat)
  /-- is it longer than one byte? -/
  | long (state position : Nat)
  | notSecond (state : Nat)
  | notThird (state : Nat)
  | literal (place node : Nat)
  | beyondShort (reach : Reach)
  | beyondMiddle (reach : Reach)
  | short (reach : Reach) (position node : Nat)
  | middle (reach : Reach) (position node : Nat)
  | great (reach : Reach) (node : Nat)
  /-- the bits of the class of a distance, after a length of this sort -/
  | distanceClass (sort node : Nat)
  /-- the lower bits of a distance of a class -/
  | distance (cls node : Nat)
  | lowest (node : Nat)
deriving DecidableEq, Hashable, Inhabited

structure Layout where
  /-- how many bits of the byte before a literal count -/
  literalBits : Nat
  /-- how many bits of its position count for a literal -/
  literalPositionBits : Nat
  /-- how many bits of its position count elsewhere -/
  positionBits : Nat
  /-- how far references reach -/
  window : Nat
deriving DecidableEq, Inhabited

/-- The layout that five bytes describe. A window is at least 4096 bytes, in steps of sixteen. -/
def Layout.ofBytes? (b : Bytes) : Option Layout :=
  match b.toList with
  | first :: window =>
    let bits := first.toNat
    let layout : Layout :=
      { literalBits := bits % 9
        literalPositionBits := bits / 9 % 5
        positionBits := bits / 45
        window := (max 4096 (Bytes.ofLittleEndian window.toArray) + 15) / 16 * 16 }
    if window.length = 4 ∧ layout.positionBits ≤ 4 ∧ layout.literalBits + layout.literalPositionBits ≤ 4
    then some layout else none
  | [] => none

structure Decoder where
  layout : Layout
  input : List UInt8
  range : UInt32 := 0xFFFFFFFF
  code : UInt32 := 0
  /-- the odds of "no" in each context, out of 2048 -/
  odds : Std.HashMap Context UInt32 := {}
  /-- what the last symbols were -/
  state : Nat := 0
  /-- the last four distances, less one, the last one first -/
  distances : Nat × Nat × Nat × Nat := (0, 0, 0, 0)
  output : Bytes := #[]
deriving Inhabited

abbrev Decoding := ExceptT Halt (StateM Decoder)

namespace Decoding

def byte : Decoding UInt8 := do
  match (← get).input with
  | [] => throw .starved
  | b :: rest =>
    modify fun d => { d with input := rest }
    pure b

/-- Takes a byte into the code if the range has become too small. -/
def normalize : Decoding Unit := do
  if (← get).range < 0x1000000 then
    let b ← byte
    modify fun d => { d with range := d.range <<< 8, code := (d.code <<< 8) ||| b.toUInt32 }

def answer (c : Context) : Decoding Bool := do
  normalize
  let d ← get
  let odds := d.odds.getD c 1024
  let bound := (d.range >>> 11) * odds
  if d.code < bound then
    set { d with range := bound, odds := d.odds.insert c (odds + ((2048 - odds) >>> 5)) }
    pure false
  else
    set { d with range := d.range - bound, code := d.code - bound
                 odds := d.odds.insert c (odds - (odds >>> 5)) }
    pure true

def evenAnswer : Decoding Bool := do
  normalize
  let d ← get
  let range := d.range >>> 1
  let isOne := (d.code - range) >>> 31 = 0
  set { d with range, code := if isOne then d.code - range else d.code }
  pure isOne

/-- Takes bits, highest first. Each is asked for in a context that knows those before it, as the binary
digits of a number after a leading one. -/
def bits (context : Nat → Context) : (count : Nat) → (node : Nat) → Decoding Nat
  | 0, node => pure node
  | count + 1, node => do bits context count (2 * node + (← answer (context node)).toNat)

def number (context : Nat → Context) (width : Nat) : Decoding Nat :=
  return (← bits context width 1) - (1 <<< width)

/-- Takes a number of the given width, lowest bit first. -/
def lowNumber (context : Nat → Context) : (width node : Nat) → Decoding Nat
  | 0, _ => pure 0
  | width + 1, node => do
    let bit := (← answer (context node)).toNat
    return bit + 2 * (← lowNumber context width (2 * node + bit))

def evenNumber : (width value : Nat) → Decoding Nat
  | 0, value => pure value
  | width + 1, value => do evenNumber width (2 * value + (← evenAnswer).toNat)

/-- The byte a distance back, which is given less one. -/
def earlier (distance : Nat) : Decoding UInt8 := do
  let output := (← get).output
  pure (if distance < output.size then output.getD (output.size - 1 - distance) 0 else 0)

def position : Decoding Nat := do
  let d ← get
  pure (d.output.size % (1 <<< d.layout.positionBits))

/-- What is before a literal, as far as its bits depend on that. -/
def literalPlace : Decoding Nat := do
  let d ← get
  let before ← earlier 0
  let width := d.layout.literalBits
  let position := d.output.size % (1 <<< d.layout.literalPositionBits)
  pure ((position <<< width) + (before.toNat >>> (8 - width)))

/-- Takes the bits of a literal that follows a reference. As long as they agree with those of the byte
that would come next there, this byte counts as well. -/
def matchedBits (place : Nat) : (count : Nat) → (expected : List Bool) → (node : Nat) → Decoding Nat
  | count + 1, e :: expected, node => do
    let bit ← answer (.literal place ((if e then 0x200 else 0x100) + node))
    let node := 2 * node + bit.toNat
    if bit = e then matchedBits place count expected node
    else bits (Context.literal place) count node
  | count, _, node => bits (Context.literal place) count node

def literal : Decoding Unit := do
  let d ← get
  let place ← literalPlace
  let node ←
    if d.state < 7 then bits (Context.literal place) 8 1
    else
      let expected ← earlier d.distances.1
      matchedBits place 8 ((List.range 8).reverse.map expected.toNat.testBit) 1
  let state := if d.state < 4 then 0 else if d.state < 10 then d.state - 3 else d.state - 6
  modify fun d => { d with state, output := d.output.push (UInt8.ofNat (node - 0x100)) }

def length (reach : Reach) : Decoding Nat := do
  let position ← position
  if ← answer (.beyondShort reach) then
    if ← answer (.beyondMiddle reach) then return 18 + (← number (Context.great reach) 8)
    else return 10 + (← number (Context.middle reach position) 3)
  else return 2 + (← number (Context.short reach position) 3)

def endMark : Nat := 0xFFFFFFFF

/-- Takes a distance, less one, for a reference of the given length. -/
def distance (length : Nat) : Decoding Nat := do
  let cls ← number (Context.distanceClass (min (length - 2) 3)) 6
  if cls < 4 then pure cls
  else
    let width := cls / 2 - 1
    let top := (2 + cls % 2) <<< width
    if cls < 14 then return top + (← lowNumber (Context.distance cls) width 1)
    else
      let middle ← evenNumber (width - 4) 0
      return top + middle * 16 + (← lowNumber Context.lowest 4 1)

def refer (count : Nat) : Decoding Unit :=
  modify fun d => { d with output := copyBack (d.distances.1 + 1) count d.output }

def reaches (distance : Nat) : Decoding Bool := do
  let d ← get
  pure (distance < min d.output.size d.layout.window)

/-- Takes the end of the stream: nothing may be left of the code. -/
def finish : Decoding Unit := do
  normalize
  if (← get).code ≠ 0 then throw .malformed

/-- Takes a reference with a new distance; false if it ends the stream. -/
def newReference : Decoding Bool := do
  let length ← length .new
  let distance ← distance length
  modify fun d =>
    let (first, second, third, _) := d.distances
    { d with state := if d.state < 7 then 7 else 10, distances := (distance, first, second, third) }
  if distance = endMark then
    finish
    pure false
  else
    if !(← reaches distance) then throw .malformed
    refer length
    pure true

def oldDistance (state : Nat) : Decoding Unit := do
  let (first, second, third, fourth) := (← get).distances
  let distances ←
    if ← answer (.notSecond state) then
      if ← answer (.notThird state) then pure (fourth, first, second, third)
      else pure (third, first, second, fourth)
    else pure (second, first, third, fourth)
  modify fun d => { d with distances }

def longReference : Decoding Unit := do
  let length ← length .old
  modify fun d => { d with state := if d.state < 7 then 8 else 11 }
  refer length

def oldReference : Decoding Unit := do
  if !(← reaches 0) then throw .malformed
  let state := (← get).state
  if ← answer (.notLast state) then
    oldDistance state
    longReference
  else if ← answer (.long state (← position)) then longReference
  else
    modify fun d => { d with state := if d.state < 7 then 9 else 11 }
    refer 1

def symbols : (fuel : Nat) → Decoding Unit
  | 0 => throw .starved
  | fuel + 1 => do
    let state := (← get).state
    if ← answer (.refers state (← position)) then
      if ← answer (.old state) then
        oldReference
        symbols fuel
      else if ← newReference then symbols fuel
    else
      literal
      symbols fuel

/-- The most symbols per byte: an answer narrows the range to at most 2017 of 2048 parts. -/
def symbolsPerByte : Nat := 400

/-- Takes a stream. It starts with a zero byte and four bytes of code. -/
def stream : Decoding Unit := do
  if (← byte) ≠ 0 then throw .malformed
  for _ in List.range 4 do
    let b ← byte
    modify fun d => { d with code := (d.code <<< 8) ||| b.toUInt32 }
  symbols (symbolsPerByte * ((← get).input.length + 1))

end Decoding

def expandWith (layout : Layout) (input : List UInt8) : Except Fault Expansion :=
  let (outcome, d) := StateT.run (ExceptT.run Decoding.stream) { layout, input }
  Expansion.ofOutcome outcome d.output

/-- Expands a range-coded stream after a header: two bytes of version, two for the length of the
description of its layout, and that description. Of an incomplete header comes nothing. -/
def expand (b : Bytes) : Except Fault Expansion :=
  let start := 4 + Bytes.ofLittleEndian (b.extract 2 4)
  if b.size ≤ 4 ∨ b.size ≤ start then .ok { output := #[], ended := false }
  else match Layout.ofBytes? (b.extract 4 start) with
    | some layout => expandWith layout (b.extract start b.size).toList
    | none => .error .badArchive

end Handset.Compression.RangeCoding
