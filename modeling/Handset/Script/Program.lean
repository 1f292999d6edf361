import Handset.Script.Statement

/-!
# Programs

A program is a script that follows the grammar and has no flaws. Running it makes what it defines known;
that fails if it uses a name on the way that is not known.
-/
namespace Handset.Script

def builtinNames : List String :=
  ["ArithmeticError", "AssertionError", "AttributeError", "BaseException", "BaseExceptionGroup",
   "BlockingIOError", "BrokenPipeError", "BufferError", "BytesWarning", "ChildProcessError",
   "ConnectionAbortedError", "ConnectionError", "ConnectionRefusedError", "ConnectionResetError",
   "DeprecationWarning", "EOFError", "Ellipsis", "EncodingWarning", "EnvironmentError",
   "Exception", "ExceptionGroup", "False", "FileExistsError", "FileNotFoundError",
   "FloatingPointError", "FutureWarning", "GeneratorExit", "IOError", "ImportError",
   "ImportWarning", "IndentationError", "IndexError", "InterruptedError", "IsADirectoryError",
   "KeyError", "KeyboardInterrupt", "LookupError", "MemoryError", "ModuleNotFoundError",
   "NameError", "None", "NotADirectoryError", "NotImplemented", "NotImplementedError", "OSError",
   "OverflowError", "PendingDeprecationWarning", "PermissionError", "ProcessLookupError",
   "RecursionError", "ReferenceError", "ResourceWarning", "RuntimeError", "RuntimeWarning",
   "StopAsyncIteration", "StopIteration", "SyntaxError", "SyntaxWarning", "SystemError",
   "SystemExit", "TabError", "TimeoutError", "True", "TypeError", "UnboundLocalError",
   "UnicodeDecodeError", "UnicodeEncodeError", "UnicodeError", "UnicodeTranslateError",
   "UnicodeWarning", "UserWarning", "ValueError", "Warning", "ZeroDivisionError",
   "__build_class__", "__debug__", "__doc__", "__import__", "__loader__", "__name__",
   "__package__", "__spec__", "abs", "aiter", "all", "anext", "any", "ascii", "bin", "bool",
   "breakpoint", "bytearray", "bytes", "callable", "chr", "classmethod", "compile", "complex",
   "delattr", "dict", "dir", "divmod", "enumerate", "eval", "exec", "filter", "float", "format",
   "frozenset", "getattr", "globals", "hasattr", "hash", "hex", "id", "input", "int",
   "isinstance", "issubclass", "iter", "len", "list", "locals", "map", "max", "memoryview", "min",
   "next", "object", "oct", "open", "ord", "pow", "print", "property", "range", "repr",
   "reversed", "round", "set", "setattr", "slice", "sorted", "staticmethod", "str", "sum",
   "super", "tuple", "type", "vars", "zip", "exit", "help", "quit"]

structure Program where
  lacksName : Bool
deriving DecidableEq, Inhabited

namespace Program

def script (fuel : Nat) : Reading Unit := do
  if !(← Reading.accept .finish) then statements fuel .finish

/-- How many steps a token takes at most: one for each kind of expression that it may be all of. -/
def stepsPerToken : Nat := 32

/-- The program of a text; `given` are the names that are known besides those that always are. -/
def read (given : List String) (text : String) : Except Fault Program := do
  if text.toList.contains '\x00' then throw .badValue
  let found := tokens text
  let start : Reader := { tokens := found.toList, known := given ++ builtinNames }
  let (_, r) ← (script (stepsPerToken * (found.size + 2))).run start
  if r.isFlawed then throw .badProgram
  pure { lacksName := r.lacksName }

def run (p : Program) : Except Fault Unit :=
  if p.lacksName then .error .unknownName else .ok ()

end Program

end Handset.Script
