import Handset.Files.Tree
import Handset.Graphics.Rendering
import Handset.Package.Archive

/-!
# Application packages

An application package is an archive with the program of an application. Loading it unpacks the archive
beside itself and takes the program; running it hands the program to the runtime and then shows the
picture of the package.
-/
namespace Handset.Package

structure Application where
  tree : FileTree := {}
  log : Log := #[]
  path : String
  unpackedTo : Option String := none
  program : Option Bytes := none
  canRun : Bool := false
  ran : Array Bytes := #[]
  picture : Graphics.Picture := .missing
deriving Inhabited

instance : Journal Application where
  log := (·.log)
  setLog a log := { a with log }

abbrev Installing := Step Application

namespace Installing

open Step

def setTree (tree : FileTree) : Installing Unit :=
  modify fun a => { a with tree }

def makeDirectories (existing : Bool) (path : String) : Installing Unit := do
  let (tree, fault) := (← get).tree.makeDirectories existing path
  setTree tree
  match fault with
  | some fault => throw fault
  | none => pure ()

/-- Where a file of the archive is unpacked: the pieces of its name that lead nowhere are dropped. -/
def target (directory name : String) : String :=
  let pieces := (Path.split name).filter fun p => p != "" && p != "." && p != ".."
  Path.normalize (Path.join directory (String.intercalate "/" pieces))

/-- Unpacks a file or a directory of an archive. The file is made before its bytes are read. -/
def unpackFile (bytes : Bytes) (directory : String) (e : Archive.Entry) : Installing Unit := do
  let place := target directory e.text
  let above := Path.dirName place
  if !(← get).tree.pathExists above then makeDirectories false above
  if e.text.endsWith "/" then
    if !(← get).tree.isDirectory place then setTree (← lift ((← get).tree.makeDirectory place))
  else
    let found ← lift (Archive.locate bytes e)
    setTree (← lift ((← get).tree.write place #[]))
    let content ← lift (Archive.contentOf bytes e found)
    setTree (← lift ((← get).tree.write place content))

/-- Unpacks an archive into a directory. Each name stands for the last file that has it. -/
def unpack (bytes : Bytes) (directory : String) : Installing Unit := do
  let entries ← lift (Archive.directory bytes)
  entries.forM fun e => unpackFile bytes directory ((Archive.lastNamed? entries e.text).getD e)

def load : Installing Bool :=
  attempt "加载APK失败" false do
    let path := (← get).path
    report .info s!"正在加载APK: {path}"
    if !(← get).tree.pathExists path then
      report .error s!"APK文件不存在: {path}"
      return false
    let directory := Path.join (Path.dirName path) "temp_apk"
    modify fun a => { a with unpackedTo := some directory }
    makeDirectories true directory
    unpack (← lift ((← get).tree.read path)) directory
    report .info s!"APK已解压到: {directory}"
    let place := Path.join directory "classes.dex"
    if !(← get).tree.pathExists place then
      report .error "未找到classes.dex文件"
      return false
    let program ← lift ((← get).tree.read place)
    modify fun a => { a with program := some program }
    let size := program.size
    report .info s!"找到DEX文件，大小: {size} 字节"
    pure true

def run : Installing Unit := do
  match (← get).program with
  | none => report .error "DEX文件未加载，请先调用load()方法"
  | some program =>
    report .info "开始执行APK..."
    if !(← get).canRun then throw (.noMember "AndroidRuntime" "load_and_execute_dex")
    modify fun a => { a with ran := a.ran.push program }
    let (_, records) := (← get).picture.render
    modify fun a => { a with log := a.log ++ records }
    report .info "APK执行完成"

def cleanup : Installing Unit := do
  let a ← get
  match a.unpackedTo with
  | none => pure ()
  | some directory =>
    if a.tree.pathExists directory then
      setTree (← lift (a.tree.removeTree directory))
      report .info s!"已清理临时目录: {directory}"

end Installing

end Handset.Package
