/-!
# Bits of integers

Bitwise operations on unbounded integers in two's complement: a negative number has infinitely many
leading ones.
-/
namespace Handset.Bitwise

def without (m n : Nat) : Nat :=
  m ^^^ (m &&& n)

def both : Int → Int → Int
  | .ofNat m, .ofNat n => ((m &&& n : Nat) : Int)
  | .ofNat m, .negSucc n => (without m n : Int)
  | .negSucc m, .ofNat n => (without n m : Int)
  | .negSucc m, .negSucc n => .negSucc (m ||| n)

def either : Int → Int → Int
  | .ofNat m, .ofNat n => ((m ||| n : Nat) : Int)
  | .ofNat m, .negSucc n => .negSucc (without n m)
  | .negSucc m, .ofNat n => .negSucc (without m n)
  | .negSucc m, .negSucc n => .negSucc (m &&& n)

def oneOf : Int → Int → Int
  | .ofNat m, .ofNat n => ((m ^^^ n : Nat) : Int)
  | .ofNat m, .negSucc n => .negSucc (m ^^^ n)
  | .negSucc m, .ofNat n => .negSucc (m ^^^ n)
  | .negSucc m, .negSucc n => ((m ^^^ n : Nat) : Int)

def flip (i : Int) : Int :=
  -i - 1

def up : Int → Nat → Int
  | .ofNat m, count => ((m <<< count : Nat) : Int)
  | .negSucc m, count => -(((m + 1) <<< count : Nat) : Int)

def down (i : Int) (count : Nat) : Int :=
  i >>> count

theorem up_eq_mul (i : Int) (count : Nat) : up i count = i * (1 <<< count : Nat) := by
  cases i with
  | ofNat m =>
    rw [up, Nat.shiftLeft_eq, Nat.one_shiftLeft, Int.natCast_mul]
    rfl
  | negSucc m =>
    rw [up, Nat.shiftLeft_eq, Nat.one_shiftLeft, Int.natCast_mul, Int.negSucc_eq, Int.neg_mul]
    rfl

end Handset.Bitwise
