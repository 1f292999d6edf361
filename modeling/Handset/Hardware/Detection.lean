import Handset.Number.Decimal
import Handset.Number.Reading
import Handset.Step
import Handset.Table
import Handset.Text.Gbk
import Handset.Text.Pieces
import Handset.Text.Utf8
import Handset.Value

/-!
# Hardware detection

What the computer under a handset consists of, read off the answers of system commands, two system
files and the directory of devices. Every operating system is asked in its own way; a probe that fails
is logged and its part of the hardware is unknown.
-/
namespace Handset.Hardware

inductive Probe where
  | processor
  | memory
  | disk
  | display
  | camera
  | audio
  | network
deriving DecidableEq, Inhabited

inductive ProbeAnswer where
  | output (bytes : Bytes)
  | failure (bytes : Bytes)
deriving DecidableEq, Inhabited

/-- What a system file holds, which need not be a text. -/
structure SystemFile where
  bytes : Bytes
deriving DecidableEq, Inhabited

instance : Coe String SystemFile :=
  ⟨fun text => ⟨Text.Utf8.encode text⟩⟩

/-- The computer as the probes see it. A command, a file or a directory without an entry is not there,
and a directory that is there may refuse to be listed. -/
structure Host where
  system : String
  answers : Table Probe ProbeAnswer := []
  files : Table String SystemFile := []
  directories : Table String (Except Fault (List String)) := [("/dev/", .ok ["null"])]
deriving Inhabited

structure Detection where
  log : Log := #[]
  host : Host
  found : Table String Value := []
deriving Inhabited

instance : Journal Detection where
  log := (·.log)
  setLog d log := { d with log }

abbrev Detecting := Step Detection

namespace Detecting

open Step

def unknown : Value := .text "未知"

def note (part : String) (v : Value) : Detecting Unit :=
  modify fun d => { d with found := d.found.put part v }

/-- Runs a probe of a part; a failure is logged and noted as `otherwise`. -/
def guarded (part label : String) (otherwise : Value) (probe : Detecting Unit) : Detecting Unit :=
  tryCatch probe fun fault => do
    let reason := fault.message
    report .error s!"{label}: {reason}"
    note part otherwise

def output (probe : Probe) : Detecting Bytes := do
  match (← get).host.answers.find? probe with
  | some (.output bytes) => pure bytes
  | some (.failure _) => throw .componentFailed
  | none => throw .fileNotFound

def outputText (probe : Probe) : Detecting String := do
  match Text.Utf8.decode? (← output probe) with
  | some s => pure (Text.Character.trim s)
  | none => throw .badEncoding

def fileLines (path : String) : Detecting (List String) := do
  match (← get).host.files.find? path with
  | some file =>
    match Text.Utf8.decode? file.bytes with
    | some s => pure (Text.splitAt '\n' s)
    | none => throw .badEncoding
  | none => throw .fileNotFound

/-- The names in a directory; none if it is not there. -/
def listing (path : String) : Detecting (List String) := do
  match (← get).host.directories.find? path with
  | some names => lift names
  | none => pure []

def wholeNumber (s : String) : Detecting Int :=
  match Number.readInt? s with
  | some n => pure n
  | none => throw .badValue

def piece (pieces : List String) (index : Nat) : Detecting String :=
  match pieces[index]? with
  | some s => pure s
  | none => throw .itemOutOfRange

/-- An amount in gigabytes with two places, where `unit` makes one gigabyte. -/
def gigabytes (amount unit : Int) : Detecting Value := do
  match Double.ofQuotient? amount unit with
  | some d => pure (.text (d.fixed 2 ++ " GB"))
  | none => throw .tooLarge

inductive System where
  | windows
  | linux
  | darwin
  | other
deriving DecidableEq

def system : Detecting System := do
  let name := (← get).host.system
  pure (if name = "Windows" then .windows
    else if name = "Linux" then .linux
    else if name = "Darwin" then .darwin
    else .other)

def detectProcessor : Detecting Unit :=
  guarded "cpu" "检测CPU失败" unknown do
    match ← system with
    | .windows | .darwin => note "cpu" (.text (← outputText .processor))
    | .linux =>
      match (← fileLines "/proc/cpuinfo").find? (Text.holds · "model name") with
      | some line =>
        note "cpu" (.text (Text.Character.trim (← piece (Text.splitAt ':' line) 1)))
      | none => pure ()
    | .other => pure ()

def detectMemory : Detecting Unit :=
  guarded "memory" "检测内存失败" unknown do
    match ← system with
    | .windows =>
      let kilobytes ← wholeNumber (← outputText .memory)
      note "memory" (← gigabytes kilobytes 0x100000)
    | .linux =>
      match (← fileLines "/proc/meminfo").find? (Text.holds · "MemTotal") with
      | some line =>
        let kilobytes ← wholeNumber (← piece (Text.words line) 1)
        note "memory" (← gigabytes kilobytes 0x100000)
      | none => pure ()
    | .darwin =>
      let bytes ← wholeNumber (← outputText .memory)
      note "memory" (← gigabytes bytes 0x40000000)
    | .other => pure ()

/-- One drive of a table with a name, the free and the whole size on each line. -/
def drive (line : String) : Detecting Value := do
  let pieces := Text.words line
  let device ← piece pieces 0
  let size ← gigabytes (← wholeNumber (← piece pieces.reverse 0)) 0x40000000
  let free ← gigabytes (← wholeNumber (← piece pieces.reverse 1)) 0x40000000
  pure (.object [("device", .text device), ("size", size), ("free", free)])

def detectStorage : Detecting Unit :=
  guarded "storage" "检测存储失败" unknown do
    match ← system with
    | .windows =>
      let lines := Text.splitAt '\n' (← outputText .disk)
      let drives ← (lines.filter fun line => !(Text.words line).isEmpty).mapM drive
      note "storage" (.list drives)
    | .linux | .darwin =>
      match (Text.splitAt '\n' (← outputText .disk)).tail with
      | line :: _ =>
        let pieces := Text.words line
        let device ← piece pieces 0
        let size ← piece pieces 1
        let used ← piece pieces 2
        let free ← piece pieces 3
        note "storage" (.object [("device", .text device), ("size", .text size),
          ("used", .text used), ("free", .text free)])
      | [] => pure ()
    | .other => pure ()

def detectDisplay : Detecting Unit :=
  guarded "display" "检测显示设备失败" unknown do
    match ← system with
    | .windows | .linux | .darwin => note "display" (.text (← outputText .display))
    | .other => pure ()

def detectCamera : Detecting Unit :=
  guarded "camera" "检测摄像头失败" (.bool false) do
    match ← system with
    | .windows => note "camera" (.bool ((← outputText .camera) != ""))
    | .linux => note "camera" (.bool !(← listing "/dev/").isEmpty)
    | .darwin => note "camera" (.bool true)
    | .other => pure ()

def firstLine? (s : String) : Option String :=
  ((Text.lines s).map Text.Character.trim).find? (· != "")

def detectAudioLine : Detecting Unit := do
  match (← get).host.answers.find? .audio with
  | some (.output bytes) =>
    note "audio" (match firstLine? (Text.Gbk.decodeLossy bytes) with
      | some line => .text line
      | none => unknown)
  | some (.failure bytes) =>
    let reason := Text.Gbk.decodeLossy bytes
    report .error s!"检测音频设备失败: {reason}"
    note "audio" unknown
  | none =>
    let reason := Fault.message .fileNotFound
    report .error s!"检测音频设备时发生未知错误: {reason}"
    note "audio" unknown

def detectAudio : Detecting Unit :=
  guarded "audio" "检测音频设备失败" unknown do
    match ← system with
    | .windows => detectAudioLine
    | .linux =>
      let found := Text.Character.trim (Text.Utf8.decodeLossy (← output .audio))
      note "audio" (if found = "" then unknown else .text "存在")
    | .darwin =>
      note "audio" (.text (Text.Character.trim (Text.Utf8.decodeLossy (← output .audio))))
    | .other => pure ()

def detectNetwork : Detecting Unit :=
  guarded "network" "检测网络失败" unknown do
    let bytes ← output .network
    let text := match ← system with
      | .windows => Text.Gbk.decodeLossy bytes
      | _ => Text.Utf8.decodeLossy bytes
    note "network" (.text (Text.Character.trim text))

def detectAll : Detecting Unit := do
  detectProcessor
  detectMemory
  detectStorage
  detectNetwork
  detectDisplay
  detectCamera
  detectAudio

end Detecting

end Handset.Hardware
