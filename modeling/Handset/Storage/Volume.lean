import Handset.Files.Tree
import Handset.Json.Printing
import Handset.Json.Reading
import Handset.Step
import Handset.Text.Pieces
import Handset.Text.Utf8
import Handset.Value.Arithmetic
import Handset.Value.Key

/-!
# Volumes

A volume is a storage of limited capacity whose files lie below a directory of a file tree. It keeps
a catalogue of its files and the number of bytes in use, and saves both in a state file after every
change. Since the state file may hold anything, the catalogue and the number in use are values of
any kind.
-/
namespace Handset

structure Volume where
  tree : FileTree := {}
  log : Log := #[]
  root : String
  /-- the directory that relative paths of the catalogue start from -/
  workingDir : String := "/"
  capacity : Value := .int 0
  used : Value := .int 0
  files : Value := .object []
  /-- the time that the catalogue notes -/
  clock : Double := Double.zero false
deriving Inhabited

instance : Journal Volume where
  log := (·.log)
  setLog v log := { v with log }

abbrev Storing := Step Volume

structure VolumeInfo where
  capacity : Value
  used : Value
  free : Value
  fileCount : Nat
deriving Inhabited

def VolumeInfo.toValue (i : VolumeInfo) : Value :=
  .object [("total_size", i.capacity), ("used_size", i.used), ("free_size", i.free),
    ("file_count", .int i.fileCount)]

namespace Volume

def stateFile (v : Volume) : String :=
  Path.join v.root ".storage_state.json"

/-- The text of a path; nothing else has a leading slash to be dropped. -/
def pathText : Value → Except Fault String
  | .text s => .ok s
  | .bytes _ => .error .kindMismatch
  | v => .error (.noMember v.kindName "startswith")

/-- The path of a file as it is joined to the directory: one leading slash is dropped and backslashes are slashes. -/
def below (path : String) : String :=
  let cs := match path.toList with
    | '/' :: rest => rest
    | cs => cs
  String.ofList (cs.map fun c => if c = '\\' then '/' else c)

/-- Where a file of the catalogue lies. -/
def physicalPath (v : Volume) (path : String) : String :=
  Path.join v.root (below path)

/-- The text of the state file. It breaks off before a number of bytes that cannot be written. -/
def stateText (v : Volume) : String :=
  if v.used.isWritable then Json.print (.object [("used_size", v.used), ("files", v.files)])
  else "\x7b\"used_size\": "

def savedState (v : Volume) : Except Fault Value := do
  let content ← v.tree.read v.stateFile
  match Text.Utf8.decode? content with
  | none => throw .badEncoding
  | some text => Json.parse text

def recorded (v : Volume) (path : Value) : Except Fault Bool :=
  match v.files, path with
  | .object fields, .text p => .ok (Table.has fields p)
  | .object _, path => path.key.map fun _ => false
  | .list items, path => .ok (items.any (Value.same path))
  | .text s, .text p => .ok (Text.holds s p)
  | _, _ => .error .kindMismatch

def entry (v : Volume) (path : String) : Except Fault Value :=
  match v.files with
  | .object fields => match Table.find? fields path with
    | some entry => .ok entry
    | none => .error .missingKey
  | _ => .error .kindMismatch

def withEntry (v : Volume) (path : String) (entry : Value) : Except Fault Volume :=
  match v.files with
  | .object fields => .ok { v with files := .object (Table.put fields path entry) }
  | _ => .error .kindMismatch

def withoutEntry (v : Volume) (path : String) : Except Fault Volume :=
  match v.files with
  | .object fields => .ok { v with files := .object (Table.remove fields path) }
  | _ => .error .kindMismatch

def fileCount (v : Volume) : Except Fault Nat :=
  match v.files with
  | .object fields => .ok fields.length
  | .list items => .ok items.length
  | .text s => .ok s.length
  | _ => .error .kindMismatch

def info (v : Volume) : Except Fault VolumeInfo := do
  let free ← v.capacity.sub v.used
  let fileCount ← v.fileCount
  pure { capacity := v.capacity, used := v.used, free, fileCount }

/-- The name under which a path of the catalogue is listed in a directory: the path has to start with
the directory's text, and to lie directly in it. -/
def listedName? (v : Volume) (directory path : String) : Option String :=
  if path.startsWith directory && path != directory then
    match Path.split (Path.relative v.workingDir path directory) with
    | [name] => some name
    | _ => none
  else none

def list (v : Volume) (directory : Value) : Except Fault (Table String Value) :=
  match v.files, directory with
  | .object [], _ => .ok []
  | .object fields, .text directory => .ok (fields.foldl (fun found (path, entry) =>
      match v.listedName? directory path with
      | some name => Table.put found name entry
      | none => found) [])
  | .object _, _ => .error .kindMismatch
  | other, _ => .error (.noMember other.kindName "items")

def memoryLimit : Nat := 31 <<< 30

def contentLimit : Nat := (1 <<< 44) - (1 <<< 12)

def word (v : Value) : Except Fault Int :=
  match v.int? with
  | none => .error .kindMismatch
  | some n => if -0x8000000000000000 ≤ n ∧ n < 0x8000000000000000 then .ok n else .error .tooLarge

def blank (size : Value) : Except Fault Content := do
  let n ← word size
  if memoryLimit < n.toNat then throw .outOfMemory
  pure (.blank n.toNat)

def position (offset : Value) : Except Fault Nat := do
  let n ← word offset
  if n < 0 then throw .badValue
  if contentLimit < n then throw .systemRefused
  pure n.toNat

/-- How many bytes are to be read, out of those that are left. -/
def amount (size : Value) (left : Nat) : Except Fault Nat := do
  if size.isNone || size.same (.int (-1)) then
    if memoryLimit < left then throw .outOfMemory
    pure left
  else
    let n ← word size
    if n < 0 then throw .badValue
    if memoryLimit < n then throw .outOfMemory
    pure (min n.toNat left)

def writable : Value → Except Fault Bytes
  | .bytes b => .ok b
  | _ => .error .kindMismatch

/-- The part of the bytes that ends within the largest size of a file. -/
def fitting (position : Nat) (bytes : Bytes) : Bytes :=
  bytes.extract 0 (contentLimit - position)

end Volume

namespace Storing

open Step

def setTree (tree : FileTree) : Storing Unit :=
  modify fun v => { v with tree }

def makeDirectories (path : String) : Storing Unit := do
  let v ← get
  if !v.tree.pathExists path then
    let (tree, fault) := v.tree.makeDirectories false path
    setTree tree
    match fault with
    | some fault => throw fault
    | none => pure ()

def save : Storing Unit :=
  attempt "保存存储状态失败" () do
    let v ← get
    let tree ← lift (v.tree.write v.stateFile (Text.Utf8.encode v.stateText))
    setTree tree
    if !v.used.isWritable then throw .badValue
    report .debug "保存虚拟存储状态"

def load : Storing Unit := do
  let v ← get
  if v.tree.pathExists v.stateFile then
    attempt "加载存储状态失败" () do
      match ← lift v.savedState with
      | .object fields =>
        let used := (Table.find? fields "used_size").getD (.int 0)
        modify fun v => { v with used, files := (Table.find? fields "files").getD (.object []) }
        let amount ← lift used.written
        report .info s!"加载虚拟存储状态: {amount} 字节已使用"
      | other => throw (.noMember other.kindName "get")

def openAt (root : String) (gigabytes : Value) : Storing Unit := do
  let kilo : Value := .int 1024
  let mega ← lift (gigabytes.mul kilo)
  let giga ← lift (mega.mul kilo)
  let capacity ← lift (giga.mul kilo)
  if !(← get).tree.pathExists root then
    makeDirectories root
    report .info s!"创建虚拟存储目录: {root}"
  modify fun v => { v with root, capacity, used := .int 0, files := .object [] }
  load

/-- Creates a file of zero bytes and records it. It is refused if the bytes in use would pass the
capacity. Creating a recorded path once more counts its bytes once more. -/
def create (path size : Value) : Storing Bool := do
  let v ← get
  let total ← lift (v.used.add size)
  if ← lift (Value.compare .gt total v.capacity) then
    let shown ← lift path.written
    report .warning s!"存储已满，无法创建文件: {shown}"
    return false
  let name ← lift (Volume.pathText path)
  let target := v.physicalPath name
  makeDirectories (Path.dirName target)
  attempt "创建文件失败" false do
    setTree (← lift ((← get).tree.setContent target {}))
    setTree (← lift ((← get).tree.setContent target (← lift (Volume.blank size))))
    let time := Value.double v.clock
    let noted := Value.object [("size", size), ("created_at", time), ("modified_at", time)]
    set (← lift ((← get).withEntry name noted))
    let used ← lift (v.used.add size)
    modify fun v => { v with used }
    save
    let amount ← lift size.written
    report .info s!"创建虚拟文件: {name}, 大小: {amount} 字节"
    pure true

/-- Runs a step for a recorded path; any other path is answered with `otherwise`. -/
def onRecorded {α : Type} (path : Value) (otherwise : α) (step : String → Storing α) : Storing α := do
  if ← lift ((← get).recorded path) then step (← lift (Volume.pathText path))
  else
    let shown ← lift path.written
    report .warning s!"文件不存在: {shown}"
    pure otherwise

def touch (path : String) : Storing Unit := do
  let v ← get
  match ← lift (v.entry path) with
  | .object noted =>
    let entry := Value.object (Table.put noted "modified_at" (.double v.clock))
    set (← lift (v.withEntry path entry))
  | _ => throw .kindMismatch

/-- Writes over a recorded file from an offset on. Bytes past the largest size of a file are refused after those
before it have been written. -/
def write (path data offset : Value) : Storing Bool :=
  onRecorded path false fun path => do
    attempt "写入文件失败" false do
      let v ← get
      let (place, content) ← lift (v.tree.fileAt (v.physicalPath path))
      let position ← lift (Volume.position offset)
      let bytes ← lift (Volume.writable data)
      let stored := Volume.fitting position bytes
      setTree (v.tree.put place (.file (content.splice position stored)))
      if stored.size < bytes.size then throw .systemRefused
      touch path
      save
      let amount := bytes.size
      report .debug s!"写入 {amount} 字节到文件: {path}"
      pure true

/-- Reads at most `size` bytes of a recorded file from an offset on, all of them if `size` is -1 or
none. -/
def read (path size offset : Value) : Storing (Option Bytes) :=
  onRecorded path none fun path => do
    attempt "读取文件失败" none do
      let v ← get
      let (_, content) ← lift (v.tree.fileAt (v.physicalPath path))
      let position ← lift (Volume.position offset)
      let rest := content.drop position
      let count ← lift (Volume.amount size rest.size)
      pure (some (rest.take count).toBytes)

def delete (path : Value) : Storing Bool :=
  onRecorded path false fun path => do
    attempt "删除文件失败" false do
      let v ← get
      setTree (← lift (v.tree.remove (v.physicalPath path)))
      let size ← lift ((← lift (v.entry path)).part "size")
      let used ← lift (v.used.sub size)
      modify fun v => { v with used }
      set (← lift ((← get).withoutEntry path))
      save
      report .info s!"删除虚拟文件: {path}"
      pure true

end Storing

end Handset
