import Handset.Text.Character

/-!
# Cased characters

Two classes of characters that decide which lower-case form a capital sigma takes: those that have
case, and those that are passed over when looking for one.
-/
namespace Handset.Text.Character

/-- Characters that have case and are not passed over. -/
def casedRanges : List (Nat × Nat) :=
  listed [
    "41-19 7-19 30 B 5 6-16 2-1E 2-C2 2-3 5-CF 2-1A C1-3 3-1 4-2 2 7 2-2 2 2-13 2-52 2-8A 9-A5",
    "531-25 A-28 B18-25 2 6 3-2A 3-2 2A1-55 3-5 883-8 8-2A 3-2 41-2B 40-C 2-21 66-115 3-5 3-25",
    "1F48-5 3-7 2 2 2 2-1E 3-34 2-6 2 4-2 2-6 4-3 3-5 5-C 6-2 2-6 106 5 3-9 2 4-4 7 2 2 2-3 2-5",
    "2139 3-3 6-4 5 12-1F 4-1 332-33 717-7B 3-66 7-3 4-1 D-25 2 6 7913-2D 13-1B 87-4D 2-16 4-3",
    "A790-3A 6-1 2 2-4 1C-1 4 336-2A 6-8 8-4F 4F41-6 D-4 40A-19 7-19 4A6-4F 61-23 5-23 75-A 2-E",
    "1058C-6 2-1 2-A 2-E 2-6 2-1 6C4-32 E-32 BAE-3F 5561-3F 6581-54 2-46 2-1 3 3-1 3-3 2-B 2",
    "1D4BD-6 2-40 2-3 3-7 2-6 2-1B 2-3 2-4 2 4-6 2-153 3-18 2-18 2-1E 2-18 2-1E 2-18 2-1E 2-18",
    "1D78A-1E 2-18 2-7 735-9 2-13 9E2-43 7ED-19 7-19 7-19"]

/-- Characters that are passed over when looking for one that has case. -/
def passedOverRanges : List (Nat × Nat) :=
  listed [
    "27 7 C 24 2 48 5 2 5 3-1 1F8-BF 5-1 5 A-1 2 FC-6 D0 6 32-2C 2 2-1 2-1 2 2D C-5 B-A 2 24",
    "64B-14 11 66-7 2-9 2-3 22 2 1F-1A 5C-A 3B-A 5 3 19-17 2C-2 2D 8-1 7-7 2A-39 38 2 5-7 5 4-6",
    "962-1 E 10 3B 5-3 9 15-1 1B 3-1 3A 5-1 5-1 3-2 4 1F-1 4 C-1 3A 5-4 2-1 5 15-1 17-5 2 3B 3",
    "B41-3 9 8-1 C-1 1F 3E D 33 4 38 2-2 6-2 2-3 8-1 C-1 1E 3B 3 7 6-1 15-1 1D-1 3A-1 5-3 9",
    "D62-1 1E 49 8-2 2 5B 3-6 C-8 63 3-8 A 2-5 4B-1 1C 2 2 38-D 2-4 2-1 6-A 2-23 A 67-3 2-5 2-1",
    "103D-1 1A-1 5-2 11-3 E 3-1 7 10 5F 261-2 3B3-2 1E-1 1F-1 1F-1 41-1 2-6 9 3-A 4 6 2E-4 34",
    "1885-1 23 77-2 5-1 A 7-2 DC-1 3 3B 2-6 2 2 3-7 7-9 3 28 9-1E 32-3 31 2-4 2 6 29-8 D-1 21-3",
    "1BA8-1 2-2 39 2-1 4 2-2 3B-7 3-1 41-5 53-2 2-C 2-6 5 7 4-1 33-3E E 23-64 1BE 2-2 C-2 E-2",
    "1FED-2 E-1 D-4 9-1 B 3 3-4 32-4 2-9 2 E 11-C 34-20 B8C-1 72-2 7E 10 61-1F 30 1D6 25-3 4-4",
    "303B 5E-5 5E-2 6F17 4E3-5 10F 63-3 2-9 2 1D-3 51-1 F-21 4F 18-2 68-2 4-1 9 4 5 1A-1 6 98-1",
    "A8E0-11 E 27-7 1A-A 2F-2 31 3-3 3-1 12 16-1 43-5 3-1 3-1 D 9 24 C 34 2-2 3-1 6-1 2 1C F-1",
    "AAF3-1 2 65-4 A-2 7A 3 5 4F31 94-10 23E-F 4 D-F 23 3 AA 8 7 C 24 2 30 2E-1 44 16-2 202 E3",
    "10376-4 406-5 2-29 2-8 247-2 2-1 6-3 29-2 5 A6-1 23E-3 184-1 9A-A 32-3 7C 37-E 2A 3-1 B-2",
    "110B3-3 3-1 3 5 B 33-2 25-4 2-7 3F D-1 35-8 B-3 3 60-2 3 2-1 7 A1 4-7 16-1 3A-1 4 26-6 4-4",
    "11438-7 3-2 2 18 55-5 2 5-1 2-1 EF-3 7-1 2-1 1C-1 56-7 3 2-1 6B 2 3-5 2 66-2 3-3 2-4 104-8",
    "11839-1 101-1 2 5 91-3 3-1 5 21-9 29-5 3-3 9 A-5 3-2 2F-C 2-1 197-6 2-5 2 53-15 3-6 2-1",
    "11CB5-1 7B-5 4 2-1 2-6 2 49-1 4 2 15C-1 153C-8 36B8-4 3C-6 A-3 40C 40-10 41-1 2-1 400C-3",
    "1AFF5-6 2-1 C9F-1 2-3 125D-2D 3-16 221-2 A-F 3-6 1F-3 95-2 7BC-36 5-31 9 F 17-4 2-E 551-6",
    "1E008-10 3-6 2-1 2-4 106-D 171 3E-3 5E1-6 6E-7 AB0-4 C0C02 1F-5F 81-EF"]

def isCased (c : Char) : Bool :=
  inRanges casedRanges c

def isPassedOver (c : Char) : Bool :=
  inRanges passedOverRanges c

/-- Is the first character of a list that is not passed over one that has case? -/
def startsCased (cs : List Char) : Bool :=
  match cs.dropWhile isPassedOver with
  | c :: _ => isCased c
  | [] => false

end Handset.Text.Character
