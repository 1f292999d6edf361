/-!
# Log records

What the parts of the handset report while they work, in the order in which they report it.
-/
namespace Handset

inductive Level where
  | debug
  | info
  | warning
  | error
deriving DecidableEq, Inhabited

structure LogRecord where
  level : Level
  text : String
deriving DecidableEq, Inhabited

/-- The records of a run, oldest first. -/
abbrev Log := Array LogRecord

namespace Log

def add (log : Log) (level : Level) (text : String) : Log :=
  log.push ⟨level, text⟩

end Log

end Handset
