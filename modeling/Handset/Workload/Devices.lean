import Handset.Graphics.Compositor
import Handset.Hardware.Detection
import Handset.Native.ClassLoader
import Handset.Settings.Preferences
import Handset.Storage.Drive
import Handset.Storage.Volume
import Handset.Workload.Repeated

/-!
# Work around the machine

Files on a volume and on a drive, preferences with many sections, surfaces, class names and the
detection of hardware.
-/
namespace Handset.Workload

open Hardware Graphics Native

def filePaths (files : Nat) : List String :=
  (List.range files).map fun i => "/data/f" ++ toString i ++ ".bin"

/-- Creates files on an empty volume, writes and reads the first one and deletes it. The summary: how
many bytes were read, how many files are left, the bytes in use, and whether the file was deleted.
There has to be a first file. -/
def volumeFiles (files : Nat) : Workload String where
  start := match filePaths files with
    | [] => .error .itemOutOfRange
    | first :: _ => .ok first
  run := do
    let first ← get
    let work : Storing Value := do
      Storing.openAt "/volume" (.int 1)
      for path in filePaths files do
        let _ ← Storing.create (.text path) (.int 32)
      let _ ← Storing.write (.text first) (.bytes (Array.replicate 24 0x61)) (.int 0)
      let content ← Storing.read (.text first) (.int 24) (.int 0)
      let deleted ← Storing.delete (.text first)
      let info ← Step.lift (← get).info
      pure (.list [.int (content.getD #[]).size, .int info.fileCount, info.used, .bool deleted])
    Step.lift (work.on { root := "/volume" }).1

/-- Creates files on an empty drive, reads them and deletes them. The summary: how many of them could
not be read, how many were created, how many are left, and how many were deleted. -/
def driveFiles (files : Nat) : Workload Unit :=
  let names := (List.range files).map fun i => "f" ++ toString i ++ ".txt"
  let work : Driving Value := do
    Driving.openAt (some "/drive") "G"
    let created ← names.mapM fun name => Driving.create (.text name) (.text name)
    let contents ← names.mapM fun name => Driving.read (.text name)
    let deleted ← names.mapM fun name => Driving.delete (.text name)
    let left ← Driving.list (.text "")
    pure (.list [.int (contents.countP Option.isNone), .int (created.countP id), .int left.length,
      .int (deleted.countP id)])
  afresh (work.on { host := { home := "/home", temp := "/temp" } }).1

def settingsText (sections : Nat) : String :=
  String.join ((List.range sections).map fun i =>
    let name := toString i
    s!"[sect{name}]\nflag = true\ncount = 2\n")

/-- Loads preferences from a settings text. The summary: how many sections there are, the first three
of them by name, and two values of the first section of the text. -/
def preferenceLoading (sections : Nat) : Workload Unit :=
  afresh do
    let text := settingsText sections
    let preferences ← Settings.Preferences.load .full { home := "/home", program := "/program" } (some text)
    let table ← preferences.toTable
    let names := (Table.keys table).mergeSort fun a b => decide (a ≤ b)
    let value (key : String) : Value :=
      Value.ofOption ((Table.find? table "sect0").bind (Table.find? · key))
    pure (.list [.int table.length, .list ((names.take 3).map .text), value "flag", value "count"])

/-- Creates surfaces and shows each of them twice. The summary: how many surfaces there are, how often
one was shown, and the size of the one shown last. -/
def surfaceShowing (surfaces : Nat) : Workload Unit :=
  let work : Composing Value := do
    for i in List.range surfaces do
      let name := Value.text ("s" ++ toString i)
      let _ ← Composing.create name (.int 4) (.int 4)
      Composing.clear name none
      Composing.setDisplay name
      Composing.composite
      Composing.composite
    let c ← get
    let size := c.lastShown?.map fun s => Value.list [.int s.width, .int s.height]
    pure (.list [.int c.names.length, .int c.shown.size, Value.ofOption size])
  afresh (work.on {}).1

/-- The class names of the `i`-th group: four of the system and one of an application. -/
def classGroup (i : Nat) : List String :=
  ["android.os.Build", "android.graphics.Canvas", "android.app.Activity", "android.hardware.Sensor",
   "com.example.Foo"].map (· ++ toString i)

/-- Finds the modules of groups of classes. The summary: how many there are, how many of them belong
to the system, and the first and the last module. There have to be some. -/
def classFinding (groups : Nat) : Workload Unit :=
  afresh do
    let paths ← ((List.range groups).flatMap classGroup).mapM ClassLoader.modulePath
    match paths.head?, paths.getLast? with
    | some first, some last =>
      let system := paths.countP (·.startsWith "android_libs")
      pure (.list [.int paths.length, .int system, .text first, .text last])
    | _, _ => throw .itemOutOfRange

def computers : Array Host :=
  let answer (s : String) : ProbeAnswer := .output (Text.Utf8.encode s)
  let disk := answer "Filesystem Size Used Avail\n/dev/disk1 500G 200G 300G\n"
  let rest := [(.display, answer "Display\n"), (.audio, answer "Built-in\n"), (.network, answer "en0\n")]
  #[{ system := "Windows"
      answers := (.processor, answer "Intel(R) Core(TM) i7\n") :: (.memory, answer "16777216\n")
        :: (.disk, answer "C: 300 500\n") :: rest },
    { system := "Darwin"
      answers := (.processor, answer "Apple M1\n") :: (.memory, answer "17179869184\n")
        :: (.disk, disk) :: rest },
    { system := "Linux"
      answers := (.disk, disk) :: rest
      files := [("/proc/cpuinfo", "model name : Intel(R) Xeon(R) Processor\n"),
        ("/proc/meminfo", "MemTotal: 16777216 kB\n")] }]

/-- Detects the hardware of the three computers in turn. The summary: how many parts were found in all,
the names of those of the last computer, and its processor. -/
def hardwareDetecting (rounds : Nat) : Workload Unit :=
  let detect (i : Nat) : Table String Value :=
    match computers[i % computers.size]? with
    | some host => (Detecting.detectAll.on { host }).2.found
    | none => []
  let detections := (List.range rounds).map detect
  let last := detections.getLastD []
  let names := (Table.keys last).mergeSort fun a b => decide (a ≤ b)
  afresh (.ok (.list [.int detections.flatten.length, .list (names.map .text),
    Value.ofOption (Table.find? last "cpu")]))

end Handset.Workload
