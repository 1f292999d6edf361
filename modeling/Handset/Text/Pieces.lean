import Handset.Text.Character

/-!
# Pieces of a text

Finding one text in another and cutting a text at separators, blanks or line ends.
-/
namespace Handset.Text

def occurs (part : List Char) : List Char → Bool
  | [] => part.isEmpty
  | c :: rest => part.isPrefixOf (c :: rest) || occurs part rest

def holds (s part : String) : Bool :=
  occurs part.toList s.toList

/-- The characters before and after the first place where the non-empty separator stands. -/
def cutAt? (separator : List Char) : List Char → Option (List Char × List Char)
  | [] => none
  | c :: rest =>
    if separator.isPrefixOf (c :: rest) then some ([], (c :: rest).drop separator.length)
    else (cutAt? separator rest).map fun r => (c :: r.1, r.2)

/-- The text before the first place where the separator stands; all of it if it stands nowhere. -/
def before (separator s : String) : String :=
  match cutAt? separator.toList s.toList with
  | some (head, _) => String.ofList head
  | none => s

/-- The pieces between the characters that `isEnd` picks. -/
def cutAll (isEnd : Char → Bool) : List Char → List (List Char)
  | [] => [[]]
  | c :: rest =>
    if isEnd c then [] :: cutAll isEnd rest
    else match cutAll isEnd rest with
      | [] => [[c]]
      | p :: more => (c :: p) :: more

def splitAt (separator : Char) (s : String) : List String :=
  (cutAll (· == separator) s.toList).map String.ofList

def words (s : String) : List String :=
  ((cutAll Character.isBlank s.toList).filter (!·.isEmpty)).map String.ofList

def isLineEnd (c : Char) : Bool :=
  (0x0A ≤ c.toNat && c.toNat ≤ 0x0D) || (0x1C ≤ c.toNat && c.toNat ≤ 0x1E) || c.toNat == 0x85
    || c.toNat == 0x2028 || c.toNat == 0x2029

/-- The characters with every carriage return, alone or before a line feed, made a line feed. -/
def unifyEnds : List Char → List Char
  | [] => []
  | '\r' :: '\n' :: rest => '\n' :: unifyEnds rest
  | '\r' :: rest => '\n' :: unifyEnds rest
  | c :: rest => c :: unifyEnds rest

def unifyLines (s : String) : String :=
  String.ofList (unifyEnds s.toList)

def lines (s : String) : List String :=
  let pieces := cutAll isLineEnd (unifyEnds s.toList)
  let pieces := if pieces.getLast? == some [] then pieces.dropLast else pieces
  pieces.map String.ofList

end Handset.Text
