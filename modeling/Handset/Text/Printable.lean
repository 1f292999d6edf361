import Handset.Text.Character

/-!
# Characters that can be shown

A character is shown as it is unless it is a control, a format character, a separator other than the
space, private or unassigned.
-/
namespace Handset.Text.Character

def hiddenRanges : List (Nat × Nat) :=
  listed [
    "0-1F 60-21 D 2CB-1 7-3 8 2 15 18E 27-1 33-1 4 38-7 1C-3 7-10 17 C1 31-1 3C-1 66-D 3C-1",
    "82E-1 10 1D-1 2 C-4 20-8 4B A2 9-1 3-1 17 8 2-2 5-1 A-1 3-1 5-7 2-3 3 6-1 1A-1 4 7-3 3-1",
    "A29 8 3 3 3-1 2 6-3 3-1 4-2 2-6 5 2-6 12-9 4 A 4 17 8 3 6-1 B 4 4-1 2-E 5-1 D-6 8 4 9-1",
    "B11-1 17 8 3 6-1 A-1 3-1 4-6 4-3 3 6-1 13-9 3 7-2 4 5-2 3 2 3-2 3-2 4-2 D-3 6-2 4 5-1 2-5",
    "BD8-D 16-4 E 4 18 11-1 A 4 5-6 3 4-1 2-1 5-1 B-6 17 4 18 B 6-1 A 4 5-6 3-5 3 5-1 B 3-C E 4",
    "D45 4 7-3 11-1 1B 4 13-2 19 A 2-1 8-2 2-3 7 2 9-5 B-1 4-B 3B-3 1E-24 3 2 6 19 2 18-1 6 2",
    "ECE-1 B-1 5-1F 49 25-3 28 25 10 E-24 C7 2-4 2-1 17A 5-1 8 2 5-1 2A 5-1 22 5-1 8 2 5-1 10",
    "1311 5-1 44-1 21-2 1B-5 57-1 7-1 281 1D-2 5A-6 17-8 19-8 15-B E 4 3-B 5F-1 B-5 B-5 F C-5",
    "1879-6 2C-4 47-9 20 D-3 D-3 2-2 2B-1 6-A 2D-3 1B-5 C-2 3F-1 42 1E-1 C-5 B-5 F-1 20-30 4E-2",
    "1B7F 75-7 3D-2 10-2 3D-6 2C-1 C-7 2C-4 217-1 7-1 27-1 7-1 9 2 2 2 20-1 36 10 F-1 7 14-1 4",
    "1FFF-10 19-7 30-10 3-1 1C E-2 22-E 22-E 8D-3 298-18 C-14 715-1 21 15E-4 2E 2-4 2-1 39-6",
    "2D71-D 19-8 8 8 8 8 8 8 8 8 7F-21 1B 5A-B D7-19 D-4 40 57-1 68-4 2C 5F 55-B 30 726E-2 38-8",
    "A62C-13 B9-7 CC-4 3 2 6-17 3C-2 B-5 39-7 47-7 D-5 75-A 1F-2 4F C-3 22 38-8 F-1 B-1 68-17",
    "AAF7-9 7-1 7-1 7-8 8 8 3D-3 7F-1 B-5 2BA5-B 18-3 32-2103 16F-1 6B-25 8-B 6-4 1B 6 2 3 3",
    "FBC3-F 1BE-1 37-6 2-1F 2B-5 34 14 5-3 6 88-3 BF-2 7-1 7-1 7-1 4-2 8 8-C 3-1 D 1B 14 3 10-1",
    "1005E-21 7C-4 4-3 2E-2 59 E-2 2-2E 2F-81 1E-2 32-E 1D-3 25-8 1F-4 2C-4 1F 26-3 F-29 9F-1",
    "104AA-5 25-3 25-3 29-7 35-A D 10 8 3 C 10 8 3-42 138-8 17-9 9-17 7 2B A-44 7-1 2 2D 3-2",
    "1083D-1 18 49-7 A-2F 14 3-4 22-2 1C-4 2-3F 39-3 15-1 33 3-4 9 4 1E-1 4-3 B-6 A-6 41-1F",
    "10AE7-3 D-8 37-2 1E-1 1C-4 1B-6 5-B 8-4F 4A-36 34-C 34-6 2F-7 B-125 20 2B 4-1 3-4D 29-7",
    "10F5A-15 1B-25 1D-13 18-8 4F-3 25-8 3F 6-C 1A-6 B-5 36 13-7 28-8 61 15-A 13 2D-40 8 2 5 10",
    "112AA-5 3C-4 B-5 5 9-1 3-1 17 8 3 6 B-1 3-1 4-1 2-5 2-4 8-1 8-2 6-8A 5D 6-1D 49-7 B-A5",
    "115B6-1 27-21 46-A B-5 E-12 3B-5 B-35 1C-1 10-3 18-B8 3D-63 54-B 9-1 2-1 9 3 1F 3-1 D-8",
    "1195A-45 9-1 2F-1 C-1A 49-7 54-C 4A-106 A 2E F-9 1E-2 21-1 17 F-48 8 3 2D-2 2 3 A-7 B-5 7",
    "11D69 26 3 7-6 B-135 1A-B6 2-E 33-C 39C-65 70 6-A C5-A4B 64-C 430-FD0 248-21B8 23A-6 20",
    "16A6A-3 52 B-5 1F-1 7-9 47-9 B 8 16-4 14-2AF 5C-64 4C-3 3A-6 12-3F 6-A 3-D 17F9-7 4D7-29",
    "18D09-22E6 5 8 3 124-2C 4-10 5-7 18D-903 6C-4 E-2 A-6 B-1 5-125F 2F-1 18-8 75-3B F7-9 28-1",
    "1D173-7 71-14 47-99 15-B 58-8 1A-86 56 48 3-1 2-1 3-1 5 D 2 8 42 5-1 9 8 1D 5 6 2-2 8",
    "1D6A6-1 125-1 2BF-E 6 10-44F 20-E0 8 12-1 8 3 6-D4 2E-2 F-1 B-3 3-13F 20-10 3B-4 2-4DF 8 5",
    "1E7EF 10 C6-1 11-28 4D-3 B-3 3-310 45-4B 3E-C1 5 1C 3 2-1 2 B 5 2 2-5 2-3 2 2 2 4 3 2-1 2",
    "1EE5A 2 2 2 3 2-1 5 8 5 5 2 B 12-4 4 6 12-33 3-10D 2D-3 65-B 10-1 10 10 26-9 AF-37 1E-C",
    "1F23C-3 A-6 3-D 7-99 3D9-4 11-2 E-2 75-B 5A-6 D-3 2-E D-3 39-7 B-5 29-7 1F-1 3-4D 155-B",
    "1FA6E-1 6-2 6-2 8-8 1E-2 C-4 7-9 B-5 9-7 8-8 94 38-24 B-405 A6E1-1F 103A-6 DF-1 1683-D",
    "2EBE1-C1E 21F-5E1 134C-AEDB4 F1-2FE0F"]

def isShown (c : Char) : Bool :=
  if c.toNat < 0x7F then 0x20 ≤ c.toNat else !inRanges hiddenRanges c

end Handset.Text.Character
