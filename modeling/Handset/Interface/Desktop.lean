import Handset.Interface.Wording
import Handset.Phone

/-!
# The desktop

The windows of the graphical interface as records, and what its buttons do. The answers that the user
gives to dialogs are given in advance. What the desktop itself reports is written to its log area too,
which scrolls to its last line each time.
-/
namespace Handset.Interface

structure LogArea where
  text : String := ""
  lineCount : Nat := 0
  scroll : Nat := 0
deriving DecidableEq, Inhabited

namespace LogArea

def append (a : LogArea) (message : String) : LogArea :=
  let text := message ++ "\n"
  let lineCount := a.lineCount + text.toList.count '\n'
  { text := a.text ++ text, lineCount, scroll := lineCount }

def clear (a : LogArea) : LogArea :=
  { text := "", lineCount := 0, scroll := a.scroll }

end LogArea

structure Desktop where
  phone : Phone
  /-- the answers to the dialogs that are still to come -/
  answers : List Value := []
  asked : Array (List String) := #[]
  status : String := ""
  hardwareText : String := ""
  volumeText : String := ""
  packagesEnabled : Bool := false
  fileItems : List String := []
  selection : Option String := none
  logArea : LogArea := {}
deriving Inhabited

instance : Journal Desktop where
  log d := d.phone.log
  setLog d log := { d with phone := { d.phone with log } }

abbrev Serving := Step Desktop

def Desktop.selected? (d : Desktop) : Option String :=
  d.selection.filter (d.fileItems.contains ·)

namespace Serving

open Step

def onPhone {α : Type} (step : Phoning α) : Serving α :=
  within Desktop.phone (fun d phone => { d with phone }) step

def onVolume {α : Type} (operation : String) (step : Storing α) : Serving α :=
  onPhone (Phoning.onVolume operation step)

def announce (level : Level) (text : String) : Serving Unit := do
  report level text
  modify fun d => { d with logArea := d.logArea.append text }

def ask (texts : List String) : Serving Value := do
  let d ← get
  let asked := d.asked.push texts
  match d.answers with
  | [] =>
    set { d with asked }
    throw .nothingToPop
  | answer :: rest =>
    set { d with asked, answers := rest }
    pure answer

def askPair (texts : List String) : Serving (Value × Value) := do
  match ← lift (← ask texts).walk with
  | [a, b] => pure (a, b)
  | _ => throw .badValue

def complainStopped : Serving Unit :=
  announce .error "虚拟手机未启动，请先启动虚拟手机"

def showHardware : Serving Unit := do
  let lines ← (← get).phone.hardware.mapM fun (part, known) => lift (hardwareLine part known)
  let hardwareText := String.join (lines.map (· ++ "\n"))
  modify fun d => { d with hardwareText }

def startPhone : Serving Unit := do
  onPhone Phoning.start
  modify fun d => { d with status := "虚拟手机已启动", packagesEnabled := true }
  showHardware
  announce .info "虚拟手机启动成功"

def start : Serving Unit := do
  modify fun d => { d with logArea := d.logArea.clear }
  announce .info "正在启动虚拟手机..."
  tryCatch startPhone fun fault => do
    let reason := fault.message
    announce .error s!"启动虚拟手机失败: {reason}"

def manageStorage : Serving Unit := do
  let phone := (← get).phone
  if !phone.running then complainStopped
  else if phone.volume.isNone then announce .error "虚拟存储不可用"
  else throw (.refused .window)

def refreshFiles : Serving Unit := do
  modify fun d => { d with fileItems := [] }
  let files ← onVolume "list_files" (do lift ((← get).list (.text "/")))
  files.forM fun (name, entry) => do
    let item ← lift (fileLine name entry)
    modify fun d => { d with fileItems := d.fileItems ++ [item] }

def showVolume : Serving Unit := do
  let info ← onVolume "get_info" (do lift (← get).info)
  let lines ← lift (volumeLines info)
  let indent := "\n        "
  let volumeText := String.join (lines.map (indent ++ ·)) ++ indent
  modify fun d => { d with volumeText }

def showStorage : Serving Unit := do
  refreshFiles
  showVolume

def createFile : Serving Unit := do
  let (path, confirmed) ← askPair ["创建文件", "文件路径:"]
  if confirmed.truthy && path.truthy then
    let (size, confirmed) ← askPair ["创建文件", "文件大小 (MB):"]
    if confirmed.truthy then
      let bytes ← lift (bytesOfMegabytes size)
      if ← onVolume "create_file" (Storing.create path bytes) then
        let shown ← lift path.written
        announce .info s!"文件 {shown} 创建成功"
        showStorage
      else announce .error "创建文件失败"

/-- Asks whether to delete the selected file, and deletes it. Its path is what the item says before
the size. -/
def deleteFile : Serving Unit := do
  match (← get).selected? with
  | none => announce .warning "请先选择要删除的文件"
  | some item =>
    let path := Text.before " (" item
    if (← ask ["确认删除", s!"确定要删除文件 '{path}' 吗?"]).truthy then
      if ← onVolume "delete_file" (Storing.delete (.text path)) then
        announce .info s!"文件 {path} 已删除"
        showStorage
      else announce .error "删除文件失败"

def runPackage : Serving Unit := do
  if !(← get).phone.running then complainStopped
  else
    let (path, _) ← askPair ["选择APK文件", "", "APK Files (*.apk);;All Files (*)"]
    if path.truthy then
      let shown ← lift path.written
      announce .info s!"正在运行APK: {shown}"
      onPhone (Phoning.run path)

end Serving

end Handset.Interface
