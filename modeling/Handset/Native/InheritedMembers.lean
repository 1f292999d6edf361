import Handset.Table
import Handset.Value.Text

/-!
# Inherited members

What every class has without defining it: comparisons, which answer that they do not know how to compare,
and operations on instances and on the class itself. Each takes a fixed number of operands; with any
other number it fails.
-/
namespace Handset.Native

inductive Operand where
  | fresh
  | value (v : Value)
deriving Inhabited

namespace InheritedMember

/-- Something that is known by its kind only. -/
def ofKind (kind : String) : Value :=
  .object [("object", .text kind)]

def unanswered : Value := ofKind "NotImplementedType"

def comparisons : List String :=
  ["__eq__", "__ne__", "__lt__", "__le__", "__gt__", "__ge__"]

/-- The operations whose answer depends on where an instance lies in memory, or that always fail. -/
def unavailable : List String :=
  ["__delattr__", "__dir__", "__format__", "__getattribute__", "__hash__", "__new__", "__repr__",
   "__subclasscheck__"]

def instanceSize : Int := 24

/-- How an instance is made again: a function and what it is called with. -/
def recipe : Value :=
  .list [ofKind "function", .list [ofKind "type", ofKind "type", .none]]

/-- How an instance is made again, in a form that leaves room for state. -/
def fullRecipe : Value :=
  .list [ofKind "function", .list [ofKind "type"], .none, .none, .none]

/-- The answer of an operation of the class to these operands, if it takes them. -/
def answer? (className name : String) (operands : List Operand) : Option Value :=
  match name, operands with
  | "__setattr__", [.fresh, .value (.text _), .value _] => some .none
  | "__init__", [_, _] => some .none
  | "__getstate__", [_] => some .none
  | "__sizeof__", [.fresh] => some (.int instanceSize)
  | "__str__", [.value v] => some (.text v.shown)
  | "__reduce__", [.fresh] => some recipe
  | "__reduce_ex__", [.fresh, .value v] =>
    v.int?.map fun level => if level < 2 then recipe else fullRecipe
  | "__instancecheck__", [.fresh] => some (.bool true)
  | "__instancecheck__", [.value _] => some (.bool false)
  | "__call__", [_] => some (ofKind className)
  | "__class__", [_] => some (ofKind "type")
  | "__base__", [] => some (ofKind "object")
  | "__or__", [_] | "__ror__", [_] => some unanswered
  | "__subclasshook__", _ => some unanswered
  | "__prepare__", _ => some (.object [])
  | "__init_subclass__", [] => some .none
  | "__subclasses__", [] => some (.list [])
  | "mro", [] => some (.list [ofKind "type", ofKind "type"])
  | name, [_, _] => if comparisons.contains name then some unanswered else none
  | _, _ => none

def names : List String :=
  comparisons ++ unavailable ++
    ["__setattr__", "__init__", "__getstate__", "__sizeof__", "__str__", "__reduce__",
     "__reduce_ex__", "__instancecheck__", "__call__", "__class__", "__base__", "__or__",
     "__ror__", "__subclasshook__", "__prepare__", "__init_subclass__", "__subclasses__", "mro"]

def call (className name : String) (operands : List Operand) : Except Fault Value :=
  match answer? className name operands with
  | some v => .ok v
  | none => .error .kindMismatch

end InheritedMember

end Handset.Native
