import Handset.Files.Tree
import Handset.Step
import Handset.Text.LetterCase
import Handset.Text.Pieces
import Handset.Text.Utf8
import Handset.Value.Text

/-!
# Drives

A drive is a directory of text files that can be mounted: as a drive letter on Windows, by a link in
the home directory elsewhere. Text is stored as UTF-8; reading it makes every line end a line feed.
-/
namespace Handset

structure DriveHost where
  system : String := "Linux"
  home : String
  temp : String
  letterTaken : Bool := false
  mappingWorks : Bool := true
  mayRemove : Bool := true
deriving Inhabited

structure Drive where
  tree : FileTree := {}
  log : Log := #[]
  host : DriveHost
  root : String := ""
  letter : String := ""
deriving Inhabited

instance : Journal Drive where
  log := (·.log)
  setLog d log := { d with log }

abbrev Driving := Step Drive

namespace Drive

def defaultRoot (host : DriveHost) : String :=
  if host.system = "Windows" then Path.join host.temp "virtual_phone_storage"
  else if host.system = "Linux" then Path.join host.home ".virtual_phone_storage"
  else Path.join host.home "Library/Application Support/virtual_phone_storage"

def fullPath (d : Drive) (path : String) : String :=
  Path.join d.root path

/-- Where a path that is given as a value lies; only a text is a path. -/
def locate (d : Drive) : Value → Except Fault String
  | .text path => .ok (d.fullPath path)
  | _ => .error .kindMismatch

def linkPath (d : Drive) : String :=
  Path.join d.host.home "virtual_phone_drive"

def hasLetter (d : Drive) : Bool :=
  d.host.system = "Windows"

end Drive

namespace Driving

open Step

def setTree (tree : FileTree) : Driving Unit :=
  modify fun d => { d with tree }

def remove (path : String) : Driving Unit := do
  let d ← get
  if !d.host.mayRemove then throw .permissionDenied
  setTree (← lift (d.tree.remove path))

def makeDirectories (path : String) : Driving Unit := do
  let (tree, fault) := (← get).tree.makeDirectories true path
  setTree tree
  match fault with
  | some fault => throw fault
  | none => pure ()

def mapLetter : Driving Unit := do
  if !(← get).host.mappingWorks then throw .systemRefused

def mount : Driving Bool := do
  let d ← get
  let root := d.root
  let letter := d.letter
  if d.hasLetter then
    attempt "挂载盘符失败" false do
      if d.host.letterTaken then
        report .warning s!"盘符 {letter}: 已被使用，无法挂载"
        return false
      mapLetter
      report .info s!"成功将 {root} 挂载为 {letter}:"
      pure true
  else
    attempt "创建符号链接失败" false do
      let link := d.linkPath
      if d.tree.pathExists link then
        if !d.tree.isLink link then
          report .warning s!"{link} 已存在且不是符号链接"
          return false
        remove link
      setTree (← lift ((← get).tree.makeLink link root))
      report .info s!"已在 {link} 创建指向 {root} 的符号链接"
      pure true

def unmount : Driving Bool := do
  let d ← get
  if d.hasLetter then
    attempt "卸载盘符失败" false do
      mapLetter
      let letter := d.letter
      report .info s!"成功卸载盘符 {letter}:"
      pure true
  else
    attempt "删除符号链接失败" false do
      let link := d.linkPath
      if d.tree.isLink link then
        remove link
        report .info s!"已删除符号链接 {link}"
      pure true

/-- Opens a drive; where letters are used it is mounted at once. -/
def openAt (root : Option String) (letter : String) : Driving Unit := do
  let host := (← get).host
  let root := match root with
    | some path => if path.isEmpty then Drive.defaultRoot host else path
    | none => Drive.defaultRoot host
  modify fun d => { d with root, letter := Text.LetterCase.upper letter }
  makeDirectories root
  report .info s!"物理存储路径: {root}"
  if host.system = "Windows" then
    let _ ← mount

/-- Does something with a path; a failure is reported together with the path. -/
def attemptAt {α : Type} (failure : String) (path : Value) (otherwise : α) (step : Driving α) :
    Driving α :=
  tryCatch step fun fault => do
    let shown ← lift path.written
    let reason := fault.message
    report .error s!"{failure} {shown}: {reason}"
    pure otherwise

/-- Creates a text file; content that is no text leaves it empty. -/
def create (path content : Value) : Driving Bool :=
  attemptAt "创建文件失败" path false do
    let full ← lift ((← get).locate path)
    makeDirectories (Path.dirName full)
    setTree (← lift ((← get).tree.write full #[]))
    match content with
    | .text s =>
      setTree (← lift ((← get).tree.write full (Text.Utf8.encode s)))
      report .info s!"文件创建成功: {full}"
      pure true
    | _ => throw .kindMismatch

def read (path : Value) : Driving (Option String) :=
  attemptAt "读取文件失败" path none do
    let d ← get
    let content ← lift (d.tree.read (← lift (d.locate path)))
    match Text.Utf8.decode? content with
    | some s => pure (some (Text.unifyLines s))
    | none => throw .badEncoding

def list (directory : Value) : Driving (List String) :=
  attempt "列出文件失败" [] do
    let d ← get
    let full ← lift (d.locate directory)
    if d.tree.pathExists full then lift (d.tree.list full) else pure []

def delete (path : Value) : Driving Bool :=
  attemptAt "删除文件失败" path false do
    let d ← get
    let full ← lift (d.locate path)
    if d.tree.isFile full then
      remove full
      report .info s!"文件删除成功: {full}"
      pure true
    else
      report .warning s!"文件不存在: {full}"
      pure false

end Driving

end Handset
