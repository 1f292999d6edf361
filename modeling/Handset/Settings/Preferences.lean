import Handset.Number.Reading
import Handset.Path
import Handset.Settings.Reference
import Handset.Value

/-!
# Preferences

The handset's preferences: a settings document with defaults for what it does not say, and the
questions that the handset asks of it. The brief edition knows where things are stored; the full one
also has logging, network and window preferences, completes a document that leaves some of them out,
and can be saved.
-/
namespace Handset.Settings

inductive Edition where
  | brief
  | full
deriving DecidableEq, Inhabited

structure Surroundings where
  system : String := "Linux"
  home : String
  temp : Option String := none
  program : String
deriving Inhabited

structure Preferences where
  edition : Edition
  surroundings : Surroundings
  document : Document
deriving Inhabited

def defaultSections (e : Edition) (s : Surroundings) : Table String Entries :=
  let drive := Path.join s.home "virtual_phone_drive"
  match e with
  | .brief =>
    [("storage", [("root_path", ""), ("windows_drive_letter", "A"), ("linux_mount_point", drive),
        ("macos_mount_point", drive)]),
     ("logging", [("level", "INFO")])]
  | .full =>
    [("storage", [("root_path", ""), ("windows_drive_letter", "G"), ("linux_mount_point", drive),
        ("macos_mount_point", drive)]),
     ("logging", [("level", "INFO"),
        ("log_file", Path.join (Path.join s.program "..") "virtual_phone.log")]),
     ("hardware", [("enable_network_emulation", "True"), ("packet_loss_rate", "0.1"),
        ("latency_ms", "50")]),
     ("ui", [("theme", "light"), ("window_width", "800"), ("window_height", "600")])]

namespace Document

def addSection (d : Document) (name : String) : Document :=
  if d.hasSection name then d else { d with sections := Table.put d.sections name [] }

/-- Sets a key of a section, unless it has or inherits one. -/
def supply (name : String) (d : Document) (entry : String × String) : Except Fault Document :=
  if (d.raw? name entry.1).isSome then .ok d
  else if isWellFormed entry.2 then .ok (d.set name entry.1 entry.2)
  else .error .badValue

def completeSection (d : Document) (part : String × Entries) : Except Fault Document :=
  part.2.foldlM (supply part.1) (d.addSection part.1)

def complete (d : Document) (sections : Table String Entries) : Except Fault Document :=
  sections.foldlM completeSection d

end Document

namespace Preferences

/-- The preferences from a settings text, or the defaults if there is none. -/
def load (e : Edition) (s : Surroundings) (text : Option String) : Except Fault Preferences := do
  let defaults := defaultSections e s
  let document ← match text with
    | none => Document.complete {} defaults
    | some t => do
      let d ← Document.parse t
      match e with
      | .brief => pure d
      | .full => d.complete defaults
  pure ⟨e, s, document⟩

/-- Where things are stored: as set, or the usual place of the system. -/
def storagePath (p : Preferences) : Except Fault String := do
  let set ← p.document.getD "storage" "root_path" ""
  if !set.isEmpty then pure set
  else
    let s := p.surroundings
    if s.system = "Windows" then
      match s.temp, p.edition with
      | some temp, _ => pure (Path.join temp "virtual_phone_storage")
      | none, .full => pure (Path.join "/tmp" "virtual_phone_storage")
      | none, .brief => throw .missingKey
    else if s.system = "Linux" then pure (Path.join s.home ".virtual_phone_storage")
    else pure (Path.join s.home "Library/Application Support/virtual_phone_storage")

def driveLetter (p : Preferences) : Except Fault String :=
  p.document.getD "storage" "windows_drive_letter" "G"

def logLevel (p : Preferences) : Except Fault String := do
  pure (Text.LetterCase.upper (← p.document.getD "logging" "level" "INFO"))

def logFile (p : Preferences) : Except Fault String :=
  p.document.getD "logging" "log_file" "virtual_phone.log"

def truthWords : List (String × Bool) :=
  [("1", true), ("yes", true), ("true", true), ("on", true), ("0", false), ("no", false),
   ("false", false), ("off", false)]

def readTruth (s : String) : Except Fault Bool :=
  match (truthWords.find? (·.1 == Text.LetterCase.lower s)).map (·.2) with
  | some b => .ok b
  | none => .error .badValue

def readInteger (s : String) : Except Fault Int :=
  match Number.readInt? s with
  | some i => .ok i
  | none => .error .badValue

def readDouble (s : String) : Except Fault Double :=
  match Number.readDouble? s with
  | some d => .ok d
  | none => .error .badValue

/-- A key read by `read`, or `fallback` if there is none. -/
def typed {α : Type} (p : Preferences) (name key : String) (read : String → Except Fault α)
    (fallback : α) : Except Fault α := do
  match ← p.document.get? name key with
  | none => pure fallback
  | some s => read s

def networkEmulation (p : Preferences) : Except Fault Bool :=
  typed p "hardware" "enable_network_emulation" readTruth true

def packetLossRate (p : Preferences) : Except Fault Double :=
  typed p "hardware" "packet_loss_rate" readDouble ⟨0x3FB999999999999A⟩

def latency (p : Preferences) : Except Fault Int :=
  typed p "hardware" "latency_ms" readInteger 50

def theme (p : Preferences) : Except Fault String :=
  p.document.getD "ui" "theme" "light"

def windowSize (p : Preferences) : Except Fault (Int × Int) := do
  let width ← typed p "ui" "window_width" readInteger 800
  let height ← typed p "ui" "window_height" readInteger 600
  pure (width, height)

def withoutDot : List Char → List Char
  | [] => []
  | '.' :: rest => rest
  | c :: rest => c :: withoutDot rest

/-- The value of a text: words for true and false, and digits with at most one dot, are read. -/
def interpret (s : String) : Except Fault Value :=
  let lower := Text.LetterCase.lower s
  let digits := withoutDot s.toList
  if lower = "true" then .ok (.bool true)
  else if lower = "false" then .ok (.bool false)
  else if !digits.isEmpty && digits.all Text.Character.isDigit then
    match Number.readInt? s with
    | some i => .ok (.int i)
    | none => (readDouble s).map .double
  else .ok (.text s)

/-- All sections with their keys. The full edition reads the values. -/
def toTable (p : Preferences) : Except Fault (Table String (Table String Value)) :=
  (Table.keys p.document.sections).mapM fun name => do
    let items ← p.document.items name
    let values ← items.mapM fun (key, s) => do
      let v ← match p.edition with
        | .brief => pure (Value.text s)
        | .full => interpret s
      pure (key, v)
    pure (name, values)

def save (p : Preferences) : String :=
  p.document.render

end Preferences

end Handset.Settings
