/-!
# Character classes

The blanks and digits of Unicode, as tables of ranges.
-/
namespace Handset.Text.Character

def inRanges (ranges : List (Nat × Nat)) (c : Char) : Bool :=
  ranges.any fun r => r.1 ≤ c.toNat && c.toNat ≤ r.2

/-- Reads ranges of code points in hexadecimal with blanks between. A range is written as the distance of its
first code point from the last one before it and, if it has more, the distance of its last one from the first.
`last` is the last code point before the range at hand, `first` its own first one once that has been read, and
`n` what has been read of the other number. -/
def readRanges : (last : Nat) → (first : Option Nat) → (n : Nat) → List Char → List (Nat × Nat)
  | last, first, n, [] => [(first.getD (last + n), first.getD last + n)]
  | last, _, n, '-' :: rest => readRanges last (some (last + n)) 0 rest
  | last, first, n, ' ' :: rest =>
    (first.getD (last + n), first.getD last + n) :: readRanges (first.getD last + n) none 0 rest
  | last, first, n, c :: rest =>
    readRanges last first (16 * n + (if c.isDigit then c.toNat - '0'.toNat else c.toNat - 'A'.toNat + 10)) rest

/-- The ranges that are listed in some lines; each line starts from zero. -/
def listed (lines : List String) : List (Nat × Nat) :=
  lines.flatMap fun line => readRanges 0 none 0 line.toList

/-- The blanks: characters of class space, and those that separate lines or fields. -/
def blankRanges : List (Nat × Nat) :=
  [(0x09, 0x0D), (0x1C, 0x20), (0x85, 0x85), (0xA0, 0xA0), (0x1680, 0x1680), (0x2000, 0x200A),
   (0x2028, 0x2029), (0x202F, 0x202F), (0x205F, 0x205F), (0x3000, 0x3000)]

def isBlank (c : Char) : Bool :=
  inRanges blankRanges c

def isAsciiBlank (c : Char) : Bool :=
  c == ' ' || (0x09 ≤ c.toNat && c.toNat ≤ 0x0D)

/-- The code points of the digit zero in the scripts with decimal digits; nine more digits follow
each. -/
def zeros : List Nat :=
  [0x30, 0x660, 0x6F0, 0x7C0, 0x966, 0x9E6, 0xA66, 0xAE6, 0xB66, 0xBE6, 0xC66, 0xCE6, 0xD66, 0xDE6,
   0xE50, 0xED0, 0xF20, 0x1040, 0x1090, 0x17E0, 0x1810, 0x1946, 0x19D0, 0x1A80, 0x1A90, 0x1B50,
   0x1BB0, 0x1C40, 0x1C50, 0xA620, 0xA8D0, 0xA900, 0xA9D0, 0xA9F0, 0xAA50, 0xABF0, 0xFF10, 0x104A0,
   0x10D30, 0x11066, 0x110F0, 0x11136, 0x111D0, 0x112F0, 0x11450, 0x114D0, 0x11650, 0x116C0,
   0x11730, 0x118E0, 0x11950, 0x11C50, 0x11D50, 0x11DA0, 0x16A60, 0x16AC0, 0x16B50, 0x1D7CE,
   0x1D7D8, 0x1D7E2, 0x1D7EC, 0x1D7F6, 0x1E140, 0x1E2F0, 0x1E950, 0x1FBF0]

def decimalValue? (c : Char) : Option Nat :=
  (zeros.find? fun start => start ≤ c.toNat && c.toNat < start + 10).map (c.toNat - ·)

/-- The digits that are no decimal digits: raised, lowered, circled and the like. -/
def otherDigitRanges : List (Nat × Nat) :=
  [(0xB2, 0xB3), (0xB9, 0xB9), (0x1369, 0x1371), (0x19DA, 0x19DA), (0x2070, 0x2070),
   (0x2074, 0x2079), (0x2080, 0x2089), (0x2460, 0x2468), (0x2474, 0x247C), (0x2488, 0x2490),
   (0x24EA, 0x24EA), (0x24F5, 0x24FD), (0x24FF, 0x24FF), (0x2776, 0x277E), (0x2780, 0x2788),
   (0x278A, 0x2792), (0x10A40, 0x10A43), (0x10E60, 0x10E68), (0x11052, 0x1105A),
   (0x1F100, 0x1F10A)]

def isDigit (c : Char) : Bool :=
  (decimalValue? c).isSome || inRanges otherDigitRanges c

def trimBlanks (blank : Char → Bool) (cs : List Char) : List Char :=
  ((cs.dropWhile blank).reverse.dropWhile blank).reverse

/-- What is dropped at the end of characters for being one character is a run of it. -/
theorem exists_eq_trimmed_append (c : Char) (cs : List Char) :
    ∃ k, cs = (cs.reverse.dropWhile (· == c)).reverse ++ List.replicate k c := by
  refine ⟨(cs.reverse.takeWhile (· == c)).length, ?_⟩
  have hrun : (cs.reverse.takeWhile (· == c)).reverse =
      List.replicate (cs.reverse.takeWhile (· == c)).length c := by
    rw [List.eq_replicate_iff]
    refine ⟨List.length_reverse, fun d hd => ?_⟩
    exact eq_of_beq (List.all_eq_true.mp List.all_takeWhile d (List.mem_reverse.mp hd))
  rw [← hrun, ← List.reverse_append, List.takeWhile_append_dropWhile, List.reverse_reverse]

def trim (s : String) : String :=
  String.ofList (trimBlanks isBlank s.toList)

end Handset.Text.Character
