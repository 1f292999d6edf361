import Handset.Compression.PrefixCode

/-!
# Deflated streams

A deflated stream is a sequence of blocks, the last of which is marked. The bytes of a block are stored
as they are, or written as literals and as references to bytes before them, in two prefix codes that
are fixed or described at the start of the block.
-/
namespace Handset.Compression.Deflate

open Expanding

/-- The lengths of references: the least of each symbol, and how many bits are added to it. -/
def lengths : Array (Nat × Nat) :=
  #[(3, 0), (4, 0), (5, 0), (6, 0), (7, 0), (8, 0), (9, 0), (10, 0), (11, 1), (13, 1), (15, 1),
    (17, 1), (19, 2), (23, 2), (27, 2), (31, 2), (35, 3), (43, 3), (51, 3), (59, 3), (67, 4), (83, 4),
    (99, 4), (115, 4), (131, 5), (163, 5), (195, 5), (227, 5), (258, 0)]

def distances : Array (Nat × Nat) :=
  #[(1, 0), (2, 0), (3, 0), (4, 0), (5, 1), (7, 1), (9, 2), (13, 2), (17, 3), (25, 3), (33, 4),
    (49, 4), (65, 5), (97, 5), (129, 6), (193, 6), (257, 7), (385, 7), (513, 8), (769, 8), (1025, 9),
    (1537, 9), (2049, 10), (3073, 10), (4097, 11), (6145, 11), (8193, 12), (12289, 12), (16385, 13),
    (24577, 13)]

def longestWord : Nat := 15

def amount (table : Array (Nat × Nat)) (symbol : Nat) : Expanding Nat := do
  match table[symbol]? with
  | some (least, width) => return least + (← low width)
  | none => throw .malformed

def refer (distance count : Nat) : Expanding Unit := do
  if (← get).output.size < distance then throw .malformed
  modify fun s => { s with output := copyBack distance count s.output }

structure Codes where
  literals : PrefixCode
  distances : PrefixCode

def fixedCodes : Codes :=
  { literals := .ofLengths longestWord (List.replicate 144 8 ++ List.replicate 112 9
      ++ List.replicate 24 7 ++ List.replicate 8 8)
    distances := .ofLengths longestWord (List.replicate 32 5) }

def endOfBlock : Nat := 256

def symbols (codes : Codes) (limit : Nat) : (fuel : Nat) → Expanding Unit
  | 0 => throw .starved
  | fuel + 1 => do
    if limit ≤ (← get).output.size then throw .full
    let symbol ← codes.literals.read
    if symbol = endOfBlock then pure ()
    else
      if symbol < endOfBlock then put (UInt8.ofNat symbol)
      else
        let count ← amount lengths (symbol - (endOfBlock + 1))
        let distance ← amount distances (← codes.distances.read)
        refer distance count
      symbols codes limit fuel

def stored (limit : Nat) : (count : Nat) → Expanding Unit
  | 0 => pure ()
  | count + 1 => do
    if limit ≤ (← get).output.size then throw .full
    put (UInt8.ofNat (← low 8))
    stored limit count

def storedBlock (limit : Nat) : Expanding Unit := do
  modify fun s => { s with bits := s.bits.drop (s.bits.length % 8) }
  let count ← low 16
  let complement ← low 16
  if count + complement ≠ 0xFFFF then throw .malformed
  stored limit count

/-- The order in which the lengths of the words for lengths of words are given. -/
def lengthOrder : List Nat :=
  [16, 17, 18, 0, 8, 7, 9, 6, 10, 5, 11, 4, 12, 3, 13, 2, 14, 1, 15]

def repetition (symbol : Nat) (known : List Nat) : Expanding (Nat × Nat) := do
  if symbol = 16 then
    let count ← low 2
    match known with
    | last :: _ => pure (last, 3 + count)
    | [] => throw .malformed
  else if symbol = 17 then return (0, 3 + (← low 3))
  else return (0, 11 + (← low 7))

/-- Takes the lengths of words, of which `left` are missing; those known come last first. -/
def wordLengths (code : PrefixCode) : (fuel left : Nat) → (known : List Nat) → Expanding (List Nat)
  | _, 0, known => pure known.reverse
  | 0, _, _ => throw .malformed
  | fuel + 1, left, known => do
    let symbol ← code.read
    if symbol < 16 then wordLengths code fuel (left - 1) (symbol :: known)
    else
      let (length, count) ← repetition symbol known
      if left < count then throw .malformed
      wordLengths code fuel (left - count) (List.replicate count length ++ known)

/-- A code of a block: complete, without words, or with a single word of one bit. -/
def blockCode (lengths : List Nat) : Expanding PrefixCode := do
  let code := PrefixCode.ofLengths longestWord lengths
  if code.isComplete || code.isEmpty || code.isSingle then pure code else throw .malformed

def describedCodes : Expanding Codes := do
  let literals := 257 + (← low 5)
  let distances := 1 + (← low 5)
  let given := 4 + (← low 4)
  if 286 < literals ∨ 30 < distances then throw .malformed
  let sizes ← (List.range given).mapM fun _ => low 3
  let sizeOf (symbol : Nat) : Nat := sizes.getD (lengthOrder.idxOf symbol) 0
  let code := PrefixCode.ofLengths 7 ((List.range 19).map sizeOf)
  if !code.isComplete then throw .malformed
  let total := literals + distances
  let words ← wordLengths code total total []
  if words.getD endOfBlock 0 = 0 then throw .malformed
  return { literals := ← blockCode (words.take literals), distances := ← blockCode (words.drop literals) }

def block (limit type : Nat) : Expanding Unit := do
  let fuel := (← get).bits.length + 1
  match type with
  | 0 => storedBlock limit
  | 1 => symbols fixedCodes limit fuel
  | 2 => symbols (← describedCodes) limit fuel
  | _ => throw .malformed

def blocks (limit : Nat) : (fuel : Nat) → Expanding Unit
  | 0 => throw .starved
  | fuel + 1 => do
    let last ← bit
    block limit (← low 2)
    if !last then blocks limit fuel

/-- Expands a deflated stream; it stops once there are `limit` bytes. -/
def expand (b : Bytes) (limit : Nat) : Except Fault Expansion :=
  let bits := lowFirst b
  Expanding.run (blocks limit (bits.length + 1)) bits

end Handset.Compression.Deflate
