import Handset.Settings.Document

/-!
# References in settings values

A value may refer to other keys: `%(key)s` stands for the value of the key, which may hold references
itself, and `%%` stands for a percent sign. No other use of the percent sign is allowed. In a document that
is read it shows when the value is asked for; a value that is set is checked at once.
-/
namespace Handset.Settings

def maxDepth : Nat := 10

def splitReference? (cs : List Char) : Option (List Char × List Char) :=
  match cs.dropWhile (· != ')') with
  | ')' :: 's' :: rest =>
    if (cs.takeWhile (· != ')')).isEmpty then none else some (cs.takeWhile (· != ')'), rest)
  | _ => none

theorem splitReference?_length {cs key rest : List Char}
    (h : splitReference? cs = some (key, rest)) : rest.length < cs.length := by
  have hlen : (cs.dropWhile (· != ')')).length ≤ cs.length :=
    (List.dropWhile_sublist _).length_le
  unfold splitReference? at h
  split at h
  · rename_i after heq
    rw [heq] at hlen
    split at h
    · simp at h
    · simp only [Option.some.injEq, Prod.mk.injEq] at h
      rw [h.2] at hlen
      simp only [List.length_cons] at hlen
      omega
  · simp at h

/-- Replaces the references of a value, `levels` being how deep they may still nest. -/
def expand (lookup : String → Option String) : (levels : Nat) → List Char → Except Fault (List Char)
  | 0, _ => .error .referenceDepth
  | _ + 1, [] => .ok []
  | levels + 1, '%' :: '%' :: rest =>
    match expand lookup (levels + 1) rest with
    | .error e => .error e
    | .ok cs => .ok ('%' :: cs)
  | levels + 1, '%' :: '(' :: rest =>
    match _split : splitReference? rest with
    | none => .error .malformedReference
    | some (key, after) =>
      match lookup (Text.LetterCase.lower (String.ofList key)) with
      | none => .error .danglingReference
      | some value =>
        let inner :=
          if value.toList.contains '%' then expand lookup levels value.toList else .ok value.toList
        match inner with
        | .error e => .error e
        | .ok cs =>
          match expand lookup (levels + 1) after with
          | .error e => .error e
          | .ok ds => .ok (cs ++ ds)
  | _ + 1, '%' :: _ => .error .malformedReference
  | levels + 1, c :: rest =>
    match expand lookup (levels + 1) rest with
    | .error e => .error e
    | .ok cs => .ok (c :: cs)
termination_by levels cs => (levels, cs.length)
decreasing_by
  all_goals first
    | exact Prod.Lex.left _ _ (Nat.lt_succ_self _)
    | exact Prod.Lex.right _ (by
        have := splitReference?_length _split
        simp only [List.length_cons]
        omega)
    | exact Prod.Lex.right _ (by simp only [List.length_cons]; omega)

def withoutPairs : List Char → List Char
  | [] => []
  | '%' :: '%' :: rest => withoutPairs rest
  | c :: rest => c :: withoutPairs rest

def withoutReferences : List Char → List Char
  | [] => []
  | '%' :: '(' :: rest =>
    match _split : splitReference? rest with
    | none => '%' :: '(' :: withoutReferences rest
    | some (_, after) => withoutReferences after
  | c :: rest => c :: withoutReferences rest
termination_by cs => cs.length
decreasing_by
  · simp only [List.length_cons]
    omega
  · have hlength := splitReference?_length _split
    simp only [List.length_cons]
    omega
  · simp only [List.length_cons]
    omega

/-- Does every percent sign belong to a pair or to a reference? -/
def isWellFormed (value : String) : Bool :=
  !(withoutReferences (withoutPairs value.toList)).contains '%'

namespace Document

/-- The value of a key of a section with its references replaced; `none` if there is no such key. -/
def get? (d : Document) (name key : String) : Except Fault (Option String) :=
  match d.raw? name key with
  | none => .ok none
  | some value => do
    let cs ← expand (d.raw? name) maxDepth value.toList
    pure (some (String.ofList cs))

def getD (d : Document) (name key fallback : String) : Except Fault String := do
  pure ((← d.get? name key).getD fallback)

def items (d : Document) (name : String) : Except Fault Entries :=
  let entries := d.entriesOf name
  entries.mapM fun (key, value) => do
    let cs ← expand (Table.find? entries) maxDepth value.toList
    pure (key, String.ofList cs)

end Document

end Handset.Settings
