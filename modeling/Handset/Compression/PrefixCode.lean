import Handset.Compression.Expansion

/-!
# Prefix codes

A prefix code is given by the lengths of its code words. Shorter words come before longer ones, and
words of one length are numbered upwards in the order of their symbols.
-/
namespace Handset.Compression

structure PrefixCode where
  /-- how many words there are of each length, from length 1 on -/
  counts : List Nat
  symbols : Array Nat
deriving DecidableEq, Inhabited

namespace PrefixCode

/-- The code in which each symbol has a word of the given length; a symbol of length 0 has none. -/
def ofLengths (longest : Nat) (lengths : List Nat) : PrefixCode :=
  let sizes := (List.range longest).map (· + 1)
  { counts := sizes.map lengths.count
    symbols := (sizes.flatMap fun size => lengths.zipIdx.filterMap fun (length, symbol) =>
      if length = size then some symbol else none).toArray }

/-- The share of all words of the greatest length that the code uses up. -/
def used (c : PrefixCode) : Nat :=
  c.counts.foldl (fun sum count => 2 * sum + count) 0

/-- Is every sequence of bits the start of words or of a word? -/
def isComplete (c : PrefixCode) : Bool :=
  c.used = 1 <<< c.counts.length

def isEmpty (c : PrefixCode) : Bool :=
  c.symbols.isEmpty

def isSingle (c : PrefixCode) : Bool :=
  c.symbols.size = 1 && c.counts.head? = some 1

/-- Takes a word and answers its place among all words. `value` is what was taken so far, `first` the
first word of that length, and `shorter` the number of words that are shorter. -/
def place : (counts : List Nat) → (value first shorter : Nat) → Expanding Nat
  | [], _, _, _ => throw .malformed
  | count :: counts, value, first, shorter => do
    let value := 2 * value + (← Expanding.bit).toNat
    let first := 2 * first
    if value < first + count then pure (shorter + (value - first))
    else place counts value (first + count) (shorter + count)

def read (c : PrefixCode) : Expanding Nat := do
  match c.symbols[← place c.counts 0 0 0]? with
  | some symbol => pure symbol
  | none => throw .malformed

end PrefixCode

end Handset.Compression
