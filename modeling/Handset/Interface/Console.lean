import Handset.Interface.Wording
import Handset.Phone

/-!
# The console

The console prints lines and asks for lines. What the user enters is given in advance: a line, an
interrupt, or nothing any more, which ends the input. Every turn of a menu asks at least once, so the
number of entries bounds the number of turns.
-/
namespace Handset.Interface

inductive Entry where
  | line (text : String)
  | interrupt
deriving DecidableEq, Inhabited

structure Console where
  phone : Phone
  entries : List Entry := []
  printed : String := ""
deriving Inhabited

instance : Journal Console where
  log c := c.phone.log
  setLog c log := { c with phone := { c.phone with log } }

abbrev Consoling := Step Console

namespace Consoling

open Step

def onPhone {α : Type} (step : Phoning α) : Consoling α :=
  within Console.phone (fun c phone => { c with phone }) step

def onVolume {α : Type} (operation : String) (step : Storing α) : Consoling α :=
  onPhone (Phoning.onVolume operation step)

def print (line : String) : Consoling Unit :=
  modify fun c => { c with printed := c.printed ++ line ++ "\n" }

def printAll (lines : List String) : Consoling Unit :=
  lines.forM print

def ask (question : String) : Consoling String := do
  print question
  match (← get).entries with
  | [] => throw .endOfInput
  | entry :: rest =>
    modify fun c => { c with entries := rest }
    match entry with
    | .line text => pure text
    | .interrupt => throw .interrupted

/-- Takes turns until one of them says that it was the last. -/
def turns : Nat → Consoling Bool → Consoling Unit
  | 0, _ => throw .endOfInput
  | n + 1, turn => do
    if !(← turn) then turns n turn

def takeTurns (turn : Consoling Bool) : Consoling Unit := do
  turns ((← get).entries.length + 1) turn

def showMenu : Consoling Unit :=
  printAll ["\n--- 主菜单 ---", "1. 运行APK文件", "2. 查看硬件信息", "3. 退出"]

def showHardware : Consoling Unit := do
  print "\n--- 检测到的硬件信息 ---"
  (← get).phone.hardware.forM fun (part, known) => do
    print (← lift (hardwareLine part known))

/-- A path as the phone gets it: one that holds a blank is quoted, unless it starts with a quote. -/
def quotedPath (path : String) : String :=
  if !path.startsWith "\"" && path.toList.contains ' ' then s!"\"{path}\"" else path

def runPackage : Consoling Unit := do
  let path := Text.Character.trim (← ask "请输入APK文件路径 (或拖放文件到窗口): ")
  if path.isEmpty then print "路径不能为空"
  else
    let path := quotedPath path
    print s!"正在运行APK: {path}"
    onPhone (Phoning.run (.text path))

def mainTurn : Consoling Bool := do
  showMenu
  match ← ask "请选择操作 (1-4): " with
  | "1" =>
    runPackage
    pure false
  | "2" =>
    showHardware
    pure false
  | "3" =>
    print "正在退出..."
    pure true
  | _ =>
    print "无效选择，请重试"
    pure false

/-- Starts the phone and serves the main menu. However that ends, the phone is stopped; an interrupt is
an end like any other. -/
def serve : Consoling Unit := do
  print "===== 虚拟手机模拟器 ====="
  let session : Consoling Unit := do
    onPhone Phoning.start
    showHardware
    takeTurns mainTurn
  let (outcome, c) := session.on (← get)
  set c
  if let .error .interrupted := outcome then print "\n用户中断，正在退出..."
  onPhone Phoning.stop
  print "虚拟手机已关闭"
  match outcome with
  | .error .interrupted => pure ()
  | outcome => lift outcome

def listFiles : Consoling Unit := do
  let entered ← ask "请输入目录路径 (默认为/): "
  let directory := if entered.isEmpty then "/" else entered
  let files ← onVolume "list_files" (do lift ((← get).list (.text directory)))
  if files.isEmpty then print "目录为空"
  else
    print s!"目录 {directory} 下的文件:"
    files.forM fun (name, entry) => do
      let line ← lift (fileLine name entry)
      print s!"- {line}"

def createFile : Consoling Unit := do
  let path ← ask "请输入文件路径: "
  match Number.readDouble? (← ask "请输入文件大小 (MB): ") with
  | none => throw .badValue
  | some size =>
    let bytes ← lift (bytesOfMegabytes (.double size))
    if ← onVolume "create_file" (Storing.create (.text path) bytes) then print s!"文件 {path} 创建成功"
    else print "创建文件失败"

def deleteFile : Consoling Unit := do
  let path ← ask "请输入要删除的文件路径: "
  if ← onVolume "delete_file" (Storing.delete (.text path)) then print s!"文件 {path} 已删除"
  else print "删除文件失败"

def storageTurn : Consoling Bool := do
  print "\n--- 虚拟存储管理 ---"
  let info ← onVolume "get_info" (do lift (← get).info)
  printAll (← lift (volumeLines info))
  printAll ["\n1. 列出文件", "2. 创建文件", "3. 删除文件", "4. 返回"]
  match ← ask "请选择操作 (1-4): " with
  | "1" =>
    listFiles
    pure false
  | "2" =>
    createFile
    pure false
  | "3" =>
    deleteFile
    pure false
  | "4" => pure true
  | _ =>
    print "无效选择，请重试"
    pure false

def manageStorage : Consoling Unit := do
  match (← get).phone.volume with
  | none => print "虚拟存储不可用"
  | some _ => takeTurns storageTurn

end Consoling

end Handset.Interface
