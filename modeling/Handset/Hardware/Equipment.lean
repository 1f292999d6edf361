import Handset.Storage.Drive
import Handset.Storage.Volume

/-!
# The storage equipment of a handset

A handset has a drive from the start, and may get a volume in the home directory. Both lie in one file
tree and write to one log, which are the drive's.
-/
namespace Handset.Hardware

structure Equipment where
  drive : Drive
  volume : Option Volume := none
deriving Inhabited

instance : Journal Equipment where
  log e := e.drive.log
  setLog e log := { e with drive := { e.drive with log } }

abbrev Equipping := Step Equipment

namespace Equipping

open Step

def onDrive {α : Type} (step : Driving α) : Equipping α :=
  within Equipment.drive (fun e drive => { e with drive }) step

def start : Equipping Unit :=
  onDrive (Driving.openAt none "G")

def gigabytes : Double := ⟨0x4030000000000000⟩

def openVolume (root : String) (capacity : Value) : Equipping Unit := do
  let drive := (← get).drive
  let blank : Volume := { root, tree := drive.tree, log := drive.log }
  let (outcome, volume) := (Storing.openAt root capacity).on blank
  let drive := { drive with tree := volume.tree, log := volume.log }
  modify fun e => { e with drive }
  lift outcome
  modify fun e => { e with volume := some volume }

def startVolume : Equipping Unit :=
  tryCatch (do
    let root := Path.join (← get).drive.host.home ".virtual_phone/g_drive"
    onDrive (Driving.makeDirectories root)
    openVolume root (.double gigabytes)
    report .info s!"虚拟G盘已初始化: {root}")
  fun fault => do
    let reason := fault.message
    report .error s!"初始化虚拟存储失败: {reason}"
    modify fun e => { e with volume := none }

end Equipping

end Handset.Hardware
