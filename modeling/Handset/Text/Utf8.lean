import Handset.Bytes

/-!
# UTF-8

Decoding works through the bytes one part at a time: a part is either the encoding of one character
or a maximal ill-formed run, the longest start of some encoding that its next byte breaks off.
Readers differ only in what they make of the ill-formed parts.
-/
namespace Handset.Text.Utf8

/-- The bytes that may follow a first byte, as the number of further bytes and the range of the
second one; `none` if no encoding of more than one byte starts so. -/
def lead (b : UInt8) : Option (Nat × Nat × Nat) :=
  let n := b.toNat
  if 0xC2 ≤ n ∧ n ≤ 0xDF then some (1, 0x80, 0xBF)
  else if n = 0xE0 then some (2, 0xA0, 0xBF)
  else if n = 0xED then some (2, 0x80, 0x9F)
  else if 0xE1 ≤ n ∧ n ≤ 0xEF then some (2, 0x80, 0xBF)
  else if n = 0xF0 then some (3, 0x90, 0xBF)
  else if 0xF1 ≤ n ∧ n ≤ 0xF3 then some (3, 0x80, 0xBF)
  else if n = 0xF4 then some (3, 0x80, 0x8F)
  else none

def leadBits (b : UInt8) (count : Nat) : Nat :=
  b.toNat % (1 <<< (6 - count))

/-- Takes `count` continuation bytes, the first of them from `low … high`, onto `acc`. The result is
`none` if they do not all come, with the rest after those that did. -/
def continuation : (count low high acc : Nat) → List UInt8 → Option Nat × List UInt8
  | 0, _, _, acc, rest => (some acc, rest)
  | _ + 1, _, _, _, [] => (none, [])
  | count + 1, low, high, acc, b :: rest =>
    if low ≤ b.toNat ∧ b.toNat ≤ high then
      continuation count 0x80 0xBF (acc * 64 + b.toNat % 64) rest
    else (none, b :: rest)

theorem continuation_length_le (count low high acc : Nat) (bytes : List UInt8) :
    (continuation count low high acc bytes).2.length ≤ bytes.length := by
  induction bytes generalizing count low high acc with
  | nil => cases count <;> simp [continuation]
  | cons b rest ih =>
    cases count with
    | zero => simp [continuation]
    | succ count =>
      simp only [continuation]
      split
      · exact Nat.le_succ_of_le (ih _ _ _ _)
      · simp

def part (first : UInt8) (rest : List UInt8) : Option Char × List UInt8 :=
  if first.toNat < 0x80 then (some (Char.ofNat first.toNat), rest)
  else match lead first with
    | none => (none, rest)
    | some (count, low, high) =>
      let taken := continuation count low high (leadBits first count) rest
      (taken.1.map Char.ofNat, taken.2)

theorem part_length_le (first : UInt8) (rest : List UInt8) :
    (part first rest).2.length ≤ rest.length := by
  unfold part
  split
  · simp
  · split
    · simp
    · exact continuation_length_le _ _ _ _ _

/-- The parts of a byte string, oldest first: a character, or `none` for an ill-formed run. -/
def parts : List UInt8 → List (Option Char)
  | [] => []
  | first :: rest => (part first rest).1 :: parts (part first rest).2
termination_by bytes => bytes.length
decreasing_by
  have := part_length_le first rest
  simp only [List.length_cons]
  omega

def decode (b : Bytes) : String :=
  String.ofList ((parts b.toList).map (·.getD (Char.ofNat 0xFFFD)))

def decodeLossy (b : Bytes) : String :=
  String.ofList ((parts b.toList).filterMap id)

def decode? (b : Bytes) : Option String :=
  ((parts b.toList).mapM id).map String.ofList

def encode (s : String) : Bytes :=
  s.toUTF8.data

end Handset.Text.Utf8
