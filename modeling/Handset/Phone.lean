import Handset.Hardware.Detection
import Handset.Storage.Drive
import Handset.Storage.Volume

/-!
# The phone

A phone knows the hardware that was detected, is started and stopped, and runs application packages
through an executor. It may have a volume for files.
-/
namespace Handset

structure Executor where
  badInit : Bool := false
  loadAnswer : Value := .bool true
  badRun : Bool := false
  cleans : Bool := true
deriving Inhabited

inductive ExecutorCall where
  | init
  | load
  | run
  | cleanup
deriving DecidableEq, Inhabited

structure Phone where
  log : Log := #[]
  hardware : Table String Value := []
  running : Bool := false
  executor : Option Executor := none
  prepared : Bool := false
  calls : Array ExecutorCall := #[]
  volume : Option Volume := none
  badDevices : Bool := false
deriving Inhabited

instance : Journal Phone where
  log := (·.log)
  setLog p log := { p with log }

abbrev Phoning := Step Phone

namespace Phoning

open Step

def setUp (host : Hardware.Host) (drive : Drive) : Phoning Unit := do
  within (fun _ => ({ host } : Hardware.Detection)) (fun p d => { p with hardware := d.found })
    Hardware.Detecting.detectAll
  within (fun _ => drive) (fun p _ => p) (Driving.openAt none "G")

def openVolume (volume : Volume) (gigabytes : Value) : Phoning Unit :=
  within (fun _ => volume) (fun p v => { p with volume := some v })
    (Storing.openAt volume.root gigabytes)

/-- A step on the volume; without a volume, there is nothing that has the operation. -/
def onVolume {α : Type} (operation : String) (step : Storing α) : Phoning α := do
  match (← get).volume with
  | none => throw (.noMember Value.none.kindName operation)
  | some volume => within (fun _ => volume) (fun p v => { p with volume := some v }) step

def start : Phoning Unit := do
  report .info "正在启动虚拟手机..."
  if (← get).badDevices then throw .componentFailed
  modify fun p => { p with running := true }
  report .info "虚拟手机已启动"

def noteCall (call : ExecutorCall) : Phoning Unit :=
  modify fun p => { p with calls := p.calls.push call }

def complainStopped : Phoning Unit :=
  report .error "虚拟手机未启动，请先调用start方法"

/-- Installs a package; the answer is what the executor says to it. Without an executor there is only
one that cannot be set up. -/
def install (path : Value) : Phoning Value := do
  let p ← get
  if !p.running then
    complainStopped
    return .bool false
  let shown ← lift path.written
  report .info s!"正在安装APK: {shown}"
  match p.executor with
  | none =>
    report .info "使用纯Python APK执行器（功能有限）"
    throw .kindMismatch
  | some executor =>
    report .info "使用C++/Java APK执行器"
    noteCall .init
    if executor.badInit then throw .componentFailed
    modify fun p => { p with prepared := true }
    noteCall .load
    pure executor.loadAnswer

def run (path : Value) : Phoning Unit := do
  if !(← get).running then complainStopped
  else
    let answer ← install path
    let shown ← lift path.written
    if answer.truthy then
      report .info s!"正在运行APK: {shown}"
      noteCall .run
      if ((← get).executor.map (·.badRun)).getD false then throw .componentFailed
    else report .error s!"无法运行APK: {shown}"

def stop : Phoning Unit := do
  let p ← get
  if p.running then
    report .info "正在停止虚拟手机..."
    if p.prepared && (p.executor.map (·.cleans)).getD false then noteCall .cleanup
    modify fun p => { p with running := false }
    report .info "虚拟手机已停止"

end Phoning

end Handset
