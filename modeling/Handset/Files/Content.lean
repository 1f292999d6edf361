import Handset.Bytes

/-!
# The content of files

A file may be much longer than what was ever written into it, so its content is kept as runs of bytes
and runs of zeros. Main statement: writing over a content gives the bytes before the position, padded
with zeros, the written bytes, and the bytes behind them.
-/
namespace Handset

inductive Run where
  | zeros (count : Nat)
  | bytes (b : Bytes)
deriving DecidableEq, Inhabited

namespace Run

def size : Run → Nat
  | zeros count => count
  | bytes b => b.size

def toList : Run → List UInt8
  | zeros count => List.replicate count 0
  | bytes b => b.toList

def take (n : Nat) : Run → Run
  | zeros count => zeros (min n count)
  | bytes b => bytes (b.extract 0 n)

def drop (n : Nat) : Run → Run
  | zeros count => zeros (count - n)
  | bytes b => bytes (b.extract n b.size)

@[simp] theorem length_toList (r : Run) : r.toList.length = r.size := by
  cases r <;> simp [toList, size]

@[simp] theorem toList_take (n : Nat) (r : Run) : (r.take n).toList = r.toList.take n := by
  cases r <;> simp [toList, take]

@[simp] theorem toList_drop (n : Nat) (r : Run) : (r.drop n).toList = r.toList.drop n := by
  cases r with
  | zeros count => simp [toList, drop]
  | bytes b =>
    simp only [toList, drop, Array.toList_extract, List.extract_eq_take_drop]
    rw [List.take_of_length_le (by simp)]

end Run

structure Content where
  runs : List Run := []
deriving DecidableEq, Inhabited

namespace Content

def ofBytes (b : Bytes) : Content := ⟨[.bytes b]⟩

def blank (count : Nat) : Content := ⟨[.zeros count]⟩

def size (c : Content) : Nat :=
  c.runs.foldr (fun r total => r.size + total) 0

def toList (c : Content) : List UInt8 :=
  c.runs.flatMap Run.toList

def toBytes (c : Content) : Bytes :=
  c.runs.foldl (fun all r => all ++ r.toList.toArray) #[]

def takeRuns : (n : Nat) → List Run → List Run
  | _, [] => []
  | n, r :: rest => r.take n :: takeRuns (n - r.size) rest

def dropRuns : (n : Nat) → List Run → List Run
  | _, [] => []
  | n, r :: rest => if r.size ≤ n then dropRuns (n - r.size) rest else r.drop n :: rest

def take (n : Nat) (c : Content) : Content := ⟨takeRuns n c.runs⟩

def drop (n : Nat) (c : Content) : Content := ⟨dropRuns n c.runs⟩

/-- The content with `data` written over it from a position on; a gap before the position is filled
with zero bytes, and writing nothing changes nothing. -/
def splice (c : Content) (position : Nat) (data : Bytes) : Content :=
  if data.isEmpty then c
  else
    ⟨(c.take position).runs ++ .zeros (position - c.size) :: .bytes data
      :: (c.drop (position + data.size)).runs⟩

@[simp] theorem toList_ofBytes (b : Bytes) : (ofBytes b).toList = b.toList := by
  simp [ofBytes, toList, Run.toList]

@[simp] theorem toList_blank (count : Nat) : (blank count).toList = List.replicate count 0 := by
  simp [blank, toList, Run.toList]

@[simp] theorem length_toList (c : Content) : c.toList.length = c.size := by
  rw [toList, size]
  induction c.runs with
  | nil => rfl
  | cons r rest ih => rw [List.flatMap_cons, List.length_append, ih, Run.length_toList, List.foldr_cons]

theorem toBytes_toList (c : Content) : c.toBytes.toList = c.toList := by
  have go : ∀ (runs : List Run) (all : Bytes),
      (runs.foldl (fun all r => all ++ r.toList.toArray) all).toList = all.toList ++ runs.flatMap Run.toList := by
    intro runs
    induction runs with
    | nil => simp
    | cons r rest ih => intro all; simp [ih]
  simpa [toBytes, toList] using go c.runs #[]

theorem toBytes_ofBytes (b : Bytes) : (ofBytes b).toBytes = b := by
  apply Array.toList_inj.mp
  rw [toBytes_toList, toList_ofBytes]

theorem flatMap_takeRuns (n : Nat) (runs : List Run) :
    (takeRuns n runs).flatMap Run.toList = (runs.flatMap Run.toList).take n := by
  induction runs generalizing n with
  | nil => simp [takeRuns]
  | cons r rest ih => simp [takeRuns, ih, List.take_append]

theorem flatMap_dropRuns (n : Nat) (runs : List Run) :
    (dropRuns n runs).flatMap Run.toList = (runs.flatMap Run.toList).drop n := by
  induction runs generalizing n with
  | nil => simp [dropRuns]
  | cons r rest ih =>
    by_cases h : r.size ≤ n
    · have first : r.toList.drop n = [] := List.drop_eq_nil_of_le (by simpa using h)
      rw [dropRuns, if_pos h, ih, List.flatMap_cons, List.drop_append, first]
      simp
    · rw [dropRuns, if_neg h, List.flatMap_cons, List.flatMap_cons, List.drop_append]
      rw [show n - r.toList.length = 0 by rw [Run.length_toList]; omega]
      simp

@[simp] theorem toList_take (n : Nat) (c : Content) : (c.take n).toList = c.toList.take n :=
  flatMap_takeRuns n c.runs

@[simp] theorem toList_drop (n : Nat) (c : Content) : (c.drop n).toList = c.toList.drop n :=
  flatMap_dropRuns n c.runs

/-- Writing over a content: what comes before, padded with zeros, the data, and what comes behind. -/
theorem toList_splice (c : Content) (position : Nat) (data : Bytes) (h : data.isEmpty = false) :
    (c.splice position data).toList =
      c.toList.take position ++ List.replicate (position - c.size) 0 ++ data.toList
        ++ c.toList.drop (position + data.size) := by
  have before := toList_take position c
  have behind := toList_drop (position + data.size) c
  simp only [toList] at before behind
  simp [splice, h, toList, before, behind, Run.toList]

end Content

end Handset
