import Handset.Text.Normalization

/-!
# Names in program text

A name starts with a letter or an underscore and goes on with letters, marks, digits and connecting
punctuation. Words that the language of the program keeps for itself are no names.
-/
namespace Handset.Text.Identifier

open Character (inRanges listed)

def startRanges : List (Nat × Nat) :=
  listed [
    "41-19 5 2-19 30 B 5 6-16 2-1E 2-1C9 5-B F-4 8 2 82-4 2-1 4-2 2 7 2-2 2 2-13 2-52 2-8A 9-A5",
    "531-25 3 7-28 48-1A 5-3 2E-2A 24-1 2-62 2 10-1 8-1 B-2 3 11 2-1D 1E-58 C 19-20 A-1 5 6-15",
    "81A A 4 18-18 8-A 6-17 2-5 12-29 3B-35 4 13 8-9 10-F 5-7 3-1 3-15 2-6 2 4-3 4 11 E-1 2-2",
    "9F0-1 B 9-5 5-1 3-15 2-6 2-1 2-1 2-1 20-3 2 14-2 11-8 2-2 2-15 2-6 2-1 2-4 4 13 10-1 18",
    "B05-7 3-1 3-15 2-6 2-1 2-4 4 1F-1 2-2 10 12 2-5 4-2 2-3 4-1 2 2-1 4-1 4-2 4-B 17 35-7 2-2",
    "C12-16 2-F 4 1B-2 3 3-1 1F 5-7 2-2 2-16 2-9 2-4 4 20-1 2-1 10-1 12-8 2-2 2-28 3 11 6-2 9-2",
    "D7A-5 6-11 4-17 2-8 2 3-6 3B-2F 2 E-6 3B-1 2 2-4 2-17 2 2-9 2 B 3-4 2 16-3 21 40-7 2-23",
    "F88-4 74-2A 15 11-5 5-3 4 4-1 8-2 5-C D 12-25 2 6 3-2A 2-14C 2-3 3-6 2 2-3 3-28 2-3 3-20",
    "12B2-3 3-6 2 2-3 3-E 2-38 2-3 3-42 26-F 11-55 3-5 4-26B 3-10 2-19 6-4A 4-A 8-11 E-12 F-11",
    "1760-C 2-2 10-33 24 5 44-58 8-28 2 6-45 B-1E 32-1D 3-4 C-2B 5-19 37-16 A-34 53 5E-2E 12-7",
    "1B83-1D E-1 B-2B 1B-23 2A-2 B-23 3-8 8-2A 3-2 2A-3 2-5 2-1 4 6-BF 41-115 3-5 3-25 3-5 3-7",
    "1F59 2 2 2-1E 3-34 2-6 2 4-2 2-6 4-3 3-5 5-C 6-2 2-6 75 E 11-C 66 5 3-9 2 3-5 7 2 2 2-F",
    "213C-3 6-4 5 12-28 A78-E4 7-3 4-1 D-25 2 6 3-37 8 11-16 A-6 2-6 2-6 2-6 2-6 2-6 2-6 2-6",
    "3005-2 1A-8 8-4 3-4 5-55 7-2 2-59 2-3 6-2A 2-5D 12-1F 31-F 201-19BF 41-568C 44-2D 3-10C",
    "A610-F B-1 15-2E 11-1E 3-4F 28-8 3-66 3-3F 6-1 2 2-4 19-F 2-2 2-3 2-16 1E-33 F-31 3F-5 4",
    "A8FD-1 C-1B B-16 1A-1C 8-2E 1D 11-4 2-9 B-4 2-28 18-2 2-7 15-16 4 4-31 2 4-1 3-4 3 2 19-2",
    "AAE0-A 8-2 D-5 3-5 3-5 A-6 2-6 2-2A 2-D 7-72 1E-2BA3 D-16 5-30 2105-16D 3-69 27-6 D-4 6",
    "FB1F-9 2-C 2-4 2 2-1 2-1 2-6B 22-8A 7-D9 13-3F 3-35 29-9 78 2 4 2 2 2 2-7D 25-19 7-19 C-37",
    "FFA0-1E 4-5 3-5 3-5 3-2 24-B 2-19 2-12 2-1 2-E 3-D 23-7A 46-34 10C-1C 4-30 30-1F E-1D 6-25",
    "10380-1D 3-23 5-7 2-4 2B-9D 13-23 5-23 5-27 9-33 D-A 2-E 2-6 2-1 2-A 2-E 2-6 2-1 44-136",
    "10740-15 B-7 19-5 2-29 2-8 46-5 3 2-2B 2-1 4 3-16 B-16 A-1E 42-12 2-1 B-15 B-19 47-37 7-1",
    "10A00 10-3 2-2 2-1C 2B-1C 4-1C 24-7 2-1B 1C-35 B-15 B-12 E-11 6F-48 38-32 E-32 E-23 15D-29",
    "10EB0-1 4F-1C B 9-15 2B-11 2F-14 1C-16 D-34 3A-1 3 E-2C 21-18 1B-23 1E 3 9-22 4 D-2F F-3",
    "111DA 2 24-11 2-18 55-6 2 2-3 2-E 2-9 8-2E 27-7 3-1 3-15 2-6 2-1 2-4 4 13 D-4 9F-34 13-3",
    "1145F-2 1F-2F 15-1 2 B9-2E 2A-3 25-2F 15 3C-2A E 48-1A 26-6 BA-2B 75-3F 20-7 3 3-7 2-1",
    "11918-17 10 2 5F-7 3-26 11 2 1D B-27 8 16 C-2D 14 13-48 108-8 2-24 12 32-1D 71-6 2-1 2-25",
    "11D46 1A-5 2-1 2-1F F 148-12 BE 50-399 67-6E 12-C3 A4D-60 10-42E FD2-246 21BA-238 8-1E",
    "16A70-4E 12-1D 13-2F 11-3 20-14 6-12 2B1-3F 81-4A 6 43-C 41-1 2 1D-17F7 9-4D5 2B-8 22E8-3",
    "1AFF5-6 2-1 2-122 2E-2 12-3 9-18B 905-6A 6-C 4-8 8-9 1767-54 2-46 2-1 3 3-1 3-3 2-B 2 2-6",
    "1D4C5-40 2-3 3-7 2-6 2-1B 2-3 2-4 2 4-6 2-153 3-18 2-18 2-1E 2-18 2-1E 2-18 2-1E 2-18 2-1E",
    "1D7AA-18 2-7 735-1E 1E2-2C B-6 11 142-1D 13-2B 4F5-6 2-3 2-1 2-E 2-C4 3C-43 8 4B5-3 2-1A",
    "1EE21-1 2 3 2-9 2-3 2 2 7 5 2 2 2-2 2-1 2 3 2 2 2 2 2-1 2 3-3 2-6 2-3 2-3 2 2-9 2-10 6-2",
    "1EEA5-4 2-10 1145-A6DF 21-1038 8-DD 3-1681 F-1D30 C20-21D 5E3-134A"]

def laterRanges : List (Nat × Nat) :=
  listed [
    "30-9 7E 249-6F 18 FC-4 10A-2C 2 2-1 2-1 2 49-A 31-1E 7 66-6 3-5 3-1 2-3 3-9 18 1F-1A 5C-A",
    "7C0-9 22-8 A 19-3 2-8 2-2 2-4 2C-2 3D-7 2B-17 2-20 37-2 2-11 2-6 B-1 3-9 12-2 39 2-6 3-1",
    "9CB-2 A B-1 3-9 F 3-2 39 2-4 5-1 3-2 4 15-B 4 C-2 39 2-7 2-2 2-2 15-1 3-9 B-5 2-2 39 2-6",
    "B47-1 3-2 8-2 B-1 3-9 13 3C-4 4-2 2-3 A F-9 11-4 38 2-6 2-2 2-3 8-1 C-1 3-9 12-2 39 2-6",
    "CC6-2 2-3 8-1 C-1 3-9 11-3 38-1 2-6 2-2 2-3 A B-1 3-9 12-2 47 5-5 2 2-7 7-9 3-1 3E 2-7 D-7",
    "E50-9 58 2-9 C-5 3-9 3F-1 7-9 C 2 2 5-1 32-13 2-1 6-A 2-23 A 65-13 2-9 D-3 5-2 2-2 3-6 4-3",
    "1082-B 2-E 2C0-2 A-8 3A1-3 1D-2 1E-1 1F-1 41-1F A 3-9 22-2 2-A 90 77-B 5-B B-9 81-A 3D-4",
    "1A55-9 2-1C 3-A 7-9 17-D 2-F 32-4 30-10 C-9 12-8 D-2 1F-C 3-9 2D-D 31-13 9-9 7-9 77-2 2-14",
    "1CED 7 3-2 C7-3F 240-1 14 7C-C 5 4-B BFF-2 8E 61-1F 22B-5 6A-1 7586-9 46 5-9 21-1 51-1 111",
    "A806 5 18-4 5 54-1 33-11 B-9 7-11 E-A 1D-7 1A-C 2D-3 30-D 10-9 C B-9 30-D D 9-1 3-9 22-2",
    "AAB0 2-2 3-1 6-1 2 2A-4 6-1 ED-7 2-1 3-9 4F25 2E2-F 11-F 4-1 19-2 C1-9 26 5F-1 25E E3 96-4",
    "104A0-9 558-2 2-1 6-3 29-2 5 A6-1 23E-3 9-9 172-1 9A-A 32-3 7B-2 36-E 20-A 3-1 B-3 2E-A 8",
    "110F0-9 7-2 25-D 2-9 6-1 2D D-2 31-D 9-3 2-B 53-B 7 A1-B 6-9 7-3 38-1 2-6 3-1 3-2 A B-1",
    "11366-6 4-4 C1-11 A-9 5 52-13 D-9 D6-6 3-8 1C-1 53-10 10-9 52-C 9-9 54-E 5-9 F3-E A6-9",
    "11930-5 2-1 3-3 2 2-1 D-9 78-6 3-6 4 1D-9 29-6 2-3 9 A-A 2F-F 196-7 2-7 11-9 39-15 2-D",
    "11D31-5 4 2-1 2-6 2 9-9 31-4 2-1 2-4 9-9 14A-3 4B6A-9 57-9 27-4 3C-6 1A-9 3F6 2-36 8-3 52",
    "16FF0-1 4CAC-1 1262-2D 3-16 21F-4 4-5 9-7 3-6 1F-3 95-2 58A-31 201-36 5-31 9 F 17-4 2-E",
    "1E000-6 2-10 3-6 2-1 2-4 106-6 A-9 165 3E-D 5D7-6 6E-6 6-9 1297-9 C0507-EF"]

def isStart (c : Char) : Bool :=
  if c.toNat < 0x80 then c.isAlpha || c == '_' else inRanges startRanges c

def isPart (c : Char) : Bool :=
  if c.toNat < 0x80 then c.isAlphanum || c == '_'
  else inRanges startRanges c || inRanges laterRanges c

def isWord (cs : List Char) : Bool :=
  match cs with
  | [] => false
  | c :: rest => isStart c && rest.all isPart

def keywords : List String :=
  ["False", "None", "True", "and", "as", "assert", "async", "await", "break", "class", "continue",
   "def", "del", "elif", "else", "except", "finally", "for", "from", "global", "if", "import", "in",
   "is", "lambda", "nonlocal", "not", "or", "pass", "raise", "return", "try", "while", "with",
   "yield"]

/-- The name that is spelt so, in its normal form. -/
def name? (spelling : String) : Option String :=
  if isWord spelling.toList && !keywords.contains spelling then
    some (Normalization.normalize spelling)
  else none

end Handset.Text.Identifier
