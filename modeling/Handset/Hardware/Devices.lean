import Handset.Step
import Handset.Value.Arithmetic

/-!
# Simulated devices

A position that drifts and a network that loses packets, both driven by a cyclic source of random
draws. Each has a loop of its own that ends at a given number of naps, or as soon as a draw fails.
Camera and microphone have no library behind them and always fail to start.
-/
namespace Handset.Hardware

structure Position where
  latitude : Value
  longitude : Value
  altitude : Value
  speed : Value
  heading : Value
deriving Inhabited

namespace Position

def toValue (p : Position) : Value :=
  .object [("latitude", p.latitude), ("longitude", p.longitude), ("altitude", p.altitude),
    ("speed", p.speed), ("heading", p.heading)]

end Position

structure Devices where
  log : Log := #[]
  gps : Option Position := none
  network : Bool := false
  draws : Array Value
  taken : Nat := 0
  /-- the nap of a loop that ends it -/
  ticks : Nat := 3
  socketWorks : Bool := true
  /-- one entry per nap: the position at that time for a nap of one second, else its length -/
  naps : Array Value := #[]
deriving Inhabited

instance : Journal Devices where
  log := (·.log)
  setLog d log := { d with log }

abbrev Running := Step Devices

namespace Running

open Step

def draw : Running Value := do
  let d ← get
  set { d with taken := d.taken + 1 }
  match d.draws[d.taken % d.draws.size]? with
  | some .none => throw .badValue
  | some v => pure v
  | none => throw .badValue

def uniform (low high : Value) : Running Value := do
  let u ← draw
  let width ← lift (high.sub low)
  lift (low.add (← lift (width.mul u)))

def nap (time : Value) : Running Unit :=
  modify fun d =>
    let shown := match d.gps with
      | some p => if Value.same time (.int 1) then p.toValue else time
      | none => time
    { d with naps := d.naps.push shown }

def whole (low high : Int) : Running Value :=
  uniform (.int low) (.int high)

/-- One ten-thousandth of a degree. -/
def drift : Double := ⟨0x3F1A36E2EB1C432D⟩

def setPosition (f : Position → Position) : Running Unit :=
  modify fun d => { d with gps := d.gps.map f }

def position : Running Position := do
  match (← get).gps with
  | some p => pure p
  | none => throw .kindMismatch

/-- A value that is not below zero: itself if it is above, else the whole number zero. -/
def notNegative (v : Value) : Except Fault Value := do
  if ← Value.compare .gt v (.int 0) then pure v else pure (.int 0)

def move : Running Unit := do
  let small := uniform (.double drift.neg) (.double drift)
  let p ← position
  let latitude ← lift (p.latitude.add (← small))
  setPosition fun p => { p with latitude }
  let longitude ← lift (p.longitude.add (← small))
  setPosition fun p => { p with longitude }
  let altitude ← lift (p.altitude.add (← whole (-1) 1))
  setPosition fun p => { p with altitude }
  let speed ← lift (p.speed.add (← whole (-1) 1))
  setPosition fun p => { p with speed }
  let heading ← lift (p.heading.add (← whole (-1) 1))
  setPosition fun p => { p with heading }
  let speed ← lift (notNegative speed)
  setPosition fun p => { p with speed }
  let altitude ← lift (notNegative altitude)
  setPosition fun p => { p with altitude }
  let heading ← lift (heading.floorMod (.int 360))
  setPosition fun p => { p with heading }
  let shown ← lift (← position).toValue.written
  report .info s!"虚拟 GPS 已更新，坐标: {shown}"

def positionLoop : (ticks : Nat) → Running Unit
  | 0 => pure ()
  | ticks + 1 => do
    move
    nap (.int 1)
    positionLoop ticks

def lossRate : Double := ⟨0x3FB999999999999A⟩

def networkLoop : (ticks : Nat) → Running Unit
  | 0 => pure ()
  | ticks + 1 => do
    nap (← whole 0 1)
    if ticks = 0 then return
    if ← lift (Value.compare .lt (← draw) (.double lossRate)) then
      report .warning "模拟网络丢包"
    else
      report .info "网络数据包正常传输"
    networkLoop ticks

/-- Runs a loop to its end; a failure in it just ends it. -/
def spawn (loop : Nat → Running Unit) : Running Unit := do
  let ticks := max 1 (← get).ticks
  tryCatch (loop ticks) fun _ => pure ()

def startGps : Running Unit :=
  tryCatch (do
    let latitude ← whole (-90) 90
    let longitude ← whole (-180) 180
    let altitude ← whole 0 1000
    let speed ← whole 0 100
    let heading ← whole 0 360
    modify fun d => { d with gps := some { latitude, longitude, altitude, speed, heading } }
    spawn positionLoop
    let shown ← lift (← position).toValue.written
    report .info s!"虚拟 GPS 已初始化，坐标: {shown}")
  fun fault => do
    let reason := fault.message
    report .error s!"初始化虚拟 GPS 失败: {reason}"
    modify fun d => { d with gps := none }

def startNetwork : Running Unit :=
  tryCatch (do
    if !(← get).socketWorks then throw .systemRefused
    modify fun d => { d with network := true }
    spawn networkLoop
    report .info "虚拟网络已初始化")
  fun fault => do
    let reason := fault.message
    report .error s!"初始化虚拟网络失败: {reason}"
    modify fun d => { d with network := false }

def startCamera : Running Unit :=
  report .error "未找到 OpenCV 库，请安装 OpenCV 以使用虚拟相机功能"

def startMicrophone : Running Unit :=
  attempt "初始化虚拟麦克风失败" () (throw .componentMissing)

def startAll : Running Unit := do
  startCamera
  startMicrophone
  startGps
  startNetwork

end Running

end Handset.Hardware
