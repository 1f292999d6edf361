import Handset.Text.Cased

/-!
# Letter case

The case mappings of Unicode: a letter becomes its lower-case or upper-case form, which may be more
than one character; at the start of a word some letters have a third form. A capital sigma has two
lower-case forms, one of them for the end of a word. Ranges are given by their first and last code
point, the step between the letters of the range, and the distance to the mapped letter.
-/
namespace Handset.Text.LetterCase

/-- A range of letters with a common distance to their other form. -/
abbrev Range := Nat × Nat × Nat × Int

/-- Capital letters that stand alone, each with the distance to its small letter. -/
def singles : List (Nat × Int) :=
  [(0x178, -121), (0x181, 210), (0x186, 206), (0x187, 1), (0x18B, 1), (0x18E, 79), (0x18F, 202),
   (0x190, 203), (0x191, 1), (0x193, 205), (0x194, 207), (0x196, 211), (0x197, 209), (0x198, 1),
   (0x19C, 211), (0x19D, 213), (0x19F, 214), (0x1A6, 218), (0x1A7, 1), (0x1A9, 218), (0x1AC, 1),
   (0x1AE, 218), (0x1AF, 1), (0x1B7, 219), (0x1B8, 1), (0x1BC, 1), (0x1C4, 2), (0x1C5, 1),
   (0x1C7, 2), (0x1C8, 1), (0x1CA, 2), (0x1F1, 2), (0x1F6, -97), (0x1F7, -56), (0x220, -130),
   (0x23A, 10795), (0x23B, 1), (0x23D, -163), (0x23E, 10792), (0x241, 1), (0x243, -195),
   (0x244, 69), (0x245, 71), (0x376, 1), (0x37F, 116), (0x386, 38), (0x38C, 64), (0x3CF, 8),
   (0x3F4, -60), (0x3F7, 1), (0x3F9, -7), (0x3FA, 1), (0x4C0, 15), (0x10C7, 7264), (0x10CD, 7264),
   (0x1E9E, -7615), (0x1FBC, -9), (0x1FCC, -9), (0x1FEC, -7), (0x1FFC, -9), (0x2126, -7517),
   (0x212A, -8383), (0x212B, -8262), (0x2132, 28), (0x2183, 1), (0x2C60, 1), (0x2C62, -10743),
   (0x2C63, -3814), (0x2C64, -10727), (0x2C6D, -10780), (0x2C6E, -10749), (0x2C6F, -10783),
   (0x2C70, -10782), (0x2C72, 1), (0x2C75, 1), (0x2CF2, 1), (0xA77D, -35332), (0xA78B, 1),
   (0xA78D, -42280), (0xA7AA, -42308), (0xA7AB, -42319), (0xA7AC, -42315), (0xA7AD, -42305),
   (0xA7AE, -42308), (0xA7B0, -42258), (0xA7B1, -42282), (0xA7B2, -42261), (0xA7B3, 928),
   (0xA7C4, -48), (0xA7C5, -42307), (0xA7C6, -35384), (0xA7D0, 1), (0xA7F5, 1), (0x10595, 39)]

/-- Rows in which every other letter is a capital one, followed by its small letter. -/
def pairs : List (Nat × Nat) :=
  [(0x100, 0x12E), (0x132, 0x136), (0x139, 0x147), (0x14A, 0x176), (0x179, 0x17D), (0x182, 0x184),
   (0x1A0, 0x1A4), (0x1B3, 0x1B5), (0x1CB, 0x1DB), (0x1DE, 0x1EE), (0x1F2, 0x1F4), (0x1F8, 0x21E),
   (0x222, 0x232), (0x246, 0x24E), (0x370, 0x372), (0x3D8, 0x3EE), (0x460, 0x480), (0x48A, 0x4BE),
   (0x4C1, 0x4CD), (0x4D0, 0x52E), (0x1E00, 0x1E94), (0x1EA0, 0x1EFE), (0x2C67, 0x2C6B),
   (0x2C80, 0x2CE2), (0x2CEB, 0x2CED), (0xA640, 0xA66C), (0xA680, 0xA69A), (0xA722, 0xA72E),
   (0xA732, 0xA76E), (0xA779, 0xA77B), (0xA77E, 0xA786), (0xA790, 0xA792), (0xA796, 0xA7A8),
   (0xA7B4, 0xA7C2), (0xA7C7, 0xA7C9), (0xA7D6, 0xA7D8)]

/-- Where capital letters have the same small letter, the first of them stands first. -/
def lowerRanges : List Range :=
  [(0x41, 0x5A, 1, 32), (0xC0, 0xD6, 1, 32), (0xD8, 0xDE, 1, 32), (0x189, 0x18A, 1, 205),
   (0x1B1, 0x1B2, 1, 217), (0x388, 0x38A, 1, 37), (0x38E, 0x38F, 1, 63), (0x391, 0x3A1, 1, 32),
   (0x3A3, 0x3AB, 1, 32), (0x3FD, 0x3FF, 1, -130), (0x400, 0x40F, 1, 80), (0x410, 0x42F, 1, 32),
   (0x531, 0x556, 1, 48), (0x10A0, 0x10C5, 1, 7264), (0x13A0, 0x13EF, 1, 38864),
   (0x13F0, 0x13F5, 1, 8), (0x1C90, 0x1CBA, 1, -3008), (0x1CBD, 0x1CBF, 1, -3008),
   (0x1F08, 0x1F0F, 1, -8), (0x1F18, 0x1F1D, 1, -8), (0x1F28, 0x1F2F, 1, -8),
   (0x1F38, 0x1F3F, 1, -8), (0x1F48, 0x1F4D, 1, -8), (0x1F59, 0x1F5F, 2, -8),
   (0x1F68, 0x1F6F, 1, -8), (0x1F88, 0x1F8F, 1, -8), (0x1F98, 0x1F9F, 1, -8),
   (0x1FA8, 0x1FAF, 1, -8), (0x1FB8, 0x1FB9, 1, -8), (0x1FBA, 0x1FBB, 1, -74),
   (0x1FC8, 0x1FCB, 1, -86), (0x1FD8, 0x1FD9, 1, -8), (0x1FDA, 0x1FDB, 1, -100),
   (0x1FE8, 0x1FE9, 1, -8), (0x1FEA, 0x1FEB, 1, -112), (0x1FF8, 0x1FF9, 1, -128),
   (0x1FFA, 0x1FFB, 1, -126), (0x2160, 0x216F, 1, 16), (0x24B6, 0x24CF, 1, 26),
   (0x2C00, 0x2C2F, 1, 48), (0x2C7E, 0x2C7F, 1, -10815), (0xFF21, 0xFF3A, 1, 32),
   (0x10400, 0x10427, 1, 40), (0x104B0, 0x104D3, 1, 40), (0x10570, 0x10594, 2, 39),
   (0x10571, 0x10579, 2, 39), (0x1057D, 0x10589, 2, 39), (0x1058D, 0x10591, 2, 39),
   (0x10C80, 0x10CB2, 1, 64), (0x118A0, 0x118BF, 1, 32), (0x16E40, 0x16E5F, 1, 32),
   (0x1E900, 0x1E921, 1, 34)]
    ++ (singles.map fun (letter, distance) => (letter, letter, 1, distance))
    ++ pairs.map fun (first, last) => (first, last, 2, (1 : Int))

def lowerExpansions : List (Nat × List Nat) :=
  [(0x130, [0x69, 0x307])]

/-- Letters with a single upper-case letter that has another lower-case letter. -/
def otherUppers : List (Nat × Nat) :=
  [(0xB5, 0x39C), (0x131, 0x49), (0x17F, 0x53), (0x1C5, 0x1C4), (0x1C8, 0x1C7), (0x1CB, 0x1CA),
   (0x1F2, 0x1F1), (0x345, 0x399), (0x3C2, 0x3A3), (0x3D0, 0x392), (0x3D1, 0x398), (0x3D5, 0x3A6),
   (0x3D6, 0x3A0), (0x3F0, 0x39A), (0x3F1, 0x3A1), (0x3F5, 0x395), (0x1C80, 0x412),
   (0x1C81, 0x414), (0x1C82, 0x41E), (0x1C83, 0x421), (0x1C84, 0x422), (0x1C85, 0x422),
   (0x1C86, 0x42A), (0x1C87, 0x462), (0x1C88, 0xA64A), (0x1E9B, 0x1E60), (0x1FBE, 0x399)]

/-- Letters with a single upper-case letter: those above, and all that are a lower-case letter. -/
def upperRanges : List Range :=
  (otherUppers.map fun (letter, upper) => (letter, letter, 1, (upper : Int) - letter))
    ++ lowerRanges.map fun (first, last, step, distance) =>
      (((first : Int) + distance).toNat, ((last : Int) + distance).toNat, step, -distance)

def upperExpansions : List (Nat × List Nat) :=
  [(0xDF, [0x53, 0x53]), (0x149, [0x2BC, 0x4E]), (0x1F0, [0x4A, 0x30C]),
   (0x390, [0x399, 0x308, 0x301]), (0x3B0, [0x3A5, 0x308, 0x301]), (0x587, [0x535, 0x552]),
   (0x1E96, [0x48, 0x331]), (0x1E97, [0x54, 0x308]), (0x1E98, [0x57, 0x30A]),
   (0x1E99, [0x59, 0x30A]), (0x1E9A, [0x41, 0x2BE]), (0x1F50, [0x3A5, 0x313]),
   (0x1F52, [0x3A5, 0x313, 0x300]), (0x1F54, [0x3A5, 0x313, 0x301]),
   (0x1F56, [0x3A5, 0x313, 0x342]), (0x1FD2, [0x399, 0x308, 0x300]),
   (0x1FD3, [0x399, 0x308, 0x301]), (0x1FD6, [0x399, 0x342]), (0x1FD7, [0x399, 0x308, 0x342]),
   (0x1FE2, [0x3A5, 0x308, 0x300]), (0x1FE3, [0x3A5, 0x308, 0x301]), (0x1FE4, [0x3A1, 0x313]),
   (0x1FE6, [0x3A5, 0x342]), (0x1FE7, [0x3A5, 0x308, 0x342]), (0xFB00, [0x46, 0x46]),
   (0xFB01, [0x46, 0x49]), (0xFB02, [0x46, 0x4C]), (0xFB03, [0x46, 0x46, 0x49]),
   (0xFB04, [0x46, 0x46, 0x4C]), (0xFB05, [0x53, 0x54]), (0xFB06, [0x53, 0x54]),
   (0xFB13, [0x544, 0x546]), (0xFB14, [0x544, 0x535]), (0xFB15, [0x544, 0x53B]),
   (0xFB16, [0x54E, 0x546]), (0xFB17, [0x544, 0x53D])]
    ++ ([(0x1FB0, 0x391, 0x386, 0x1FBA), (0x1FC0, 0x397, 0x389, 0x1FCA),
      (0x1FF0, 0x3A9, 0x38F, 0x1FFA)].flatMap fun (row, capital, acute, grave) =>
        [(row + 2, [grave, 0x399]), (row + 3, [capital, 0x399]), (row + 4, [acute, 0x399]),
         (row + 6, [capital, 0x342]), (row + 7, [capital, 0x342, 0x399]), (row + 12, [capital, 0x399])])
    ++ [(0x1F80, 0x1F08), (0x1F90, 0x1F28), (0x1FA0, 0x1F68)].flatMap fun (first, upper) =>
      (List.range 16).map fun i => (first + i, [upper + i % 8, 0x399])

/-- Letters with a single form for the start of a word that is not their upper-case form. -/
def titleRanges : List Range :=
  [(1, "1C4 3 3 27"), (0, "1C5 3 3 27 EDE-2A 3-2 E89-7 9-7 9-7 D 10 30"), (-1, "1C6 3 3 27"),
   (8, "1F80-7 9-7 9-7"), (9, "1FB3 10 30")].flatMap fun (distance, line) =>
    (Character.listed [line]).map fun (first, last) => (first, last, 1, distance)

/-- Letters whose form for the start of a word has several characters and is not their upper-case
form: all but the first are small. -/
def titleExpansions : List (Nat × List Nat) :=
  (upperExpansions.filter fun (n, _) => inTitle.contains n).map fun (n, form) =>
    (n, form.take 1 ++ (form.drop 1).map small)
where
  inTitle : List Nat :=
    [0xDF, 0x587, 0x1FB2, 0x1FB4, 0x1FB7, 0x1FC2, 0x1FC4, 0x1FC7, 0x1FF2, 0x1FF4, 0x1FF7, 0xFB00,
     0xFB01, 0xFB02, 0xFB03, 0xFB04, 0xFB05, 0xFB06, 0xFB13, 0xFB14, 0xFB15, 0xFB16, 0xFB17]
  small (n : Nat) : Nat :=
    if n = 0x399 then 0x345 else if n < 0x80 then n + 0x20 else if 0x531 ≤ n then n + 0x30 else n

def mapped? (ranges : List Range) (expansions : List (Nat × List Nat)) (c : Char) :
    Option (List Char) :=
  let n := c.toNat
  match expansions.find? (·.1 == n) with
  | some (_, form) => some (form.map Char.ofNat)
  | none =>
    match ranges.find? fun (first, last, step, _) =>
        first ≤ n && n ≤ last && (n - first) % step == 0 with
    | some (_, _, _, distance) => some [Char.ofNat ((n : Int) + distance).toNat]
    | none => none

def lowerChar (c : Char) : List Char :=
  if c.toNat < 128 then [c.toLower] else (mapped? lowerRanges lowerExpansions c).getD [c]

def upperChar (c : Char) : List Char :=
  if c.toNat < 128 then [c.toUpper] else (mapped? upperRanges upperExpansions c).getD [c]

def titleChar (c : Char) : List Char :=
  if c.toNat < 128 then [c.toUpper] else (mapped? titleRanges titleExpansions c).getD (upperChar c)

/-- The lower-case form of a capital sigma between what stands before it, last character first, and
what follows it. -/
def lowerSigma (before after : List Char) : Char :=
  if Character.startsCased before && !Character.startsCased after then 'ς' else 'σ'

/-- The lower-case forms of characters, given those before them, last character first. -/
def lowerFrom (before : List Char) : List Char → List Char
  | [] => []
  | c :: rest =>
    (if c = 'Σ' then [lowerSigma before rest] else lowerChar c) ++ lowerFrom (c :: before) rest

def lower (s : String) : String :=
  String.ofList (lowerFrom [] s.toList)

def upper (s : String) : String :=
  String.ofList (s.toList.flatMap upperChar)

/-- A text whose first character has the form for the start of a word and all others the lower-case
form. -/
def capitalize (s : String) : String :=
  match s.toList with
  | [] => ""
  | c :: rest => String.ofList (titleChar c ++ lowerFrom [c] rest)

end Handset.Text.LetterCase
