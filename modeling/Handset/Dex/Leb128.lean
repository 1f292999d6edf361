import Handset.Bytes
import Handset.Fault

/-!
# LEB128

Unsigned numbers of variable length: seven bits a byte, lowest first, the high bit set in every byte
but the last. Reading accepts over-long encodings; the encoder writes the shortest one.
-/
namespace Handset.Dex.Leb128

def encode (n : Nat) : List UInt8 :=
  if n < 128 then [UInt8.ofNat n]
  else UInt8.ofNat (n % 128 + 128) :: encode (n / 128)
termination_by n
decreasing_by omega

/-- Reads a number when `left` bytes stand between its first byte and the end of the data. The
position is counted from the end, so it may start before the first byte and wrap around. -/
def readLast (b : Bytes) : (left : Nat) → Option (Nat × Nat)
  | 0 => none
  | left + 1 =>
    match Bytes.at? b ((b.size : Int) - (left + 1 : Nat)) with
    | none => none
    | some byte =>
      if byte.toNat < 128 then some (byte.toNat, 1)
      else match readLast b left with
        | none => none
        | some (value, count) => some (byte.toNat - 128 + 128 * value, count + 1)

def read (b : Bytes) (offset : Int) : Except Fault (Nat × Nat) :=
  match readLast b ((b.size : Int) - offset).toNat with
  | some r => .ok r
  | none => .error .byteOutOfRange

end Handset.Dex.Leb128
