import GazeboRcll.Mps.Station

/-!
# Command handlers of the stations

`process_command_in` of `Mps` and of its subclasses, with everything they call, as
programs of the worker thread, and the message handlers of the transport threads as
functions on the station.
-/

namespace GazeboRcll

open StationM

variable {Pose : Type}

/-! ## Durations, in milliseconds -/

def moveDuration : ℕ := 2500
def dispenseDuration : ℕ := 2500
def capOpDuration : ℕ := 3500
def deliverDuration : ℕ := 3500
def ringOpDuration : ℕ := 3500

/-! ## `Mps` -/

namespace Mps

/-- What `move_conveyor` does with the workpiece in `src` once the switch on the side has
set the slot to take it from and the slot `dst` to bring it to. Workpieces at the middle
are not announced as ready. -/
def carry (M : Machine Pose) (src dst : Slot) : StationM Pose Unit := do
  match ← getSlot src with
  -- the command stays in the registers and the busy flag stays raised
  | none => log (.noWorkpiece src)
  | some wp =>
    -- from here on the source uses a local copy of the pointer
    setWorldPose wp (M.center dst)
    setValue .actionIdIn 0
    setValue .payload1In 0
    setSlot src none
    setSlot dst (some wp)
    if dst = .middle then setBusy false
    else do
      setReady true
      setBusy false

/-- `Mps::move_conveyor`. -/
def moveConveyor (M : Machine Pose) (side : MachineSide) : StationM Pose Unit := do
  -- the flag is raised before the side and the slot are looked at
  setBusy true
  sleepFor moveDuration
  match side with
  | .INPUT => carry M .middle .input
  | .MIDDLE => carry M .input .middle
  | .OUTPUT => carry M .middle .output
  | .other v => log (.unexpectedSide (.other v))

/-- `Mps::process_command_in`. -/
def processCommandIn (M : Machine Pose) (station : Station) : StationM Pose Unit := do
  let value ← getValue .actionIdIn
  if value = 0 then return
  if calculateStationTypeFromCommand value ≠ station.code then return
  -- `Operation(value - station_)` would wrap below the code of the station
  if value.toNat < station.code then return
  if value.toNat - station.code = OPERATION_MOVE_CONVEYOR then
    let side ← getValue .payload1In
    moveConveyor M (MachineSide.ofValue side)
  else return

/-- `Mps::on_puck_msg`. -/
def onPuckMsg (M : Machine Pose) (msg : PoseMsg Pose) (m : Mps Pose) : Mps Pose :=
  -- the other slots are not asked whether they hold the workpiece
  if m.wpIn .input = none ∧ M.puckIn .input msg.position = true then
    m.assign .input (m.world.modelByName msg.name)
  else if m.wpIn .input = some msg.name ∧ M.puckIn .input msg.position = false then
    { m.assign .input none with statusReadyIn := false }
  else if m.wpIn .output = some msg.name ∧ M.puckIn .output msg.position = false then
    { m.assign .output none with statusReadyIn := false }
  else m

/-- `Mps::on_new_puck`. -/
def onNewPuck (msg : NewPuck) (m : Mps Pose) : Mps Pose :=
  { m with puckSubs := m.puckSubs ++ [msg.gpsTopic] }

/-- The colour values and the colour name that `spawn_puck` puts into the template. -/
def baseColorText : Color → Option (String × String)
  | .RED => some ("1.0 0.0 0.0 1", "RED")
  | .BLACK => some ("0.2 0.2 0.2 1", "BLACK")
  | .SILVER => some ("0.8 0.8 0.8 1", "SILVER")
  | _ => none

/-- The name `spawn_puck` gives to a workpiece for the random number `r`. -/
def puckName (r : ℕ) : String := "puck_" ++ toString (r % 1000000)

/-- `Mps::spawn_puck`. Returns the empty string where no workpiece is requested. -/
def spawnPuck (M : Machine Pose) (spawnPose : Pose) (baseColor : Color) :
    StationM Pose String := do
  let newName := puckName (← rand)
  match baseColorText baseColor with
  | none => return ""
  | some (newColor, colorString) =>
    match M.sdf newName newColor colorString with
    | none => return ""
    | some sdf =>
      -- the workpiece can announce itself before the caller has recorded its name
      publishFactory { sdf := sdf, cloneModelName := newName, pose := spawnPose }
      return newName

/-- How the `process_command_in` of each subclass begins: the handler of `Mps` runs, the
register is read again, and `k` goes on with the operation if the command is for a
station of this class. -/
def ownOperation (M : Machine Pose) (station : Station) (k : ℕ → StationM Pose Unit) :
    StationM Pose Unit := do
  processCommandIn M station
  let value ← getValue .actionIdIn
  if value = 0 then return
  if calculateStationTypeFromCommand value ≠ station.code then return
  k (value.toNat - station.code)

end Mps

/-! ## `BaseStation` -/

namespace BaseStation

/-- The switch of `dispense_base`: an unknown colour leaves `spawn_clr` as it is. -/
def selectColor (color : UInt16) : StationM Pose Unit :=
  if color = 1 then setSpawnClr .RED
  else if color = 2 then setSpawnClr .SILVER
  else if color = 3 then setSpawnClr .BLACK
  else return

/-- `BaseStation::dispense_base`. -/
def dispenseBase (M : Machine Pose) (color : UInt16) : StationM Pose Unit := do
  setBusy true
  selectColor color
  sleepFor dispenseDuration
  let spawnClr ← getSpawnClr
  let name ← Mps.spawnPuck M M.spawnPose spawnClr
  setSpawning name

/-- The operations of `BaseStation::process_command_in`. -/
def operate (M : Machine Pose) (oper : ℕ) : StationM Pose Unit := do
  if oper ≠ OPERATION_GET_BASE then return
  let color ← getValue .payload1In
  dispenseBase M color
  setValue .actionIdIn 0
  setValue .payload1In 0

/-- `BaseStation::process_command_in`. -/
def processCommandIn (M : Machine Pose) : StationM Pose Unit :=
  Mps.ownOperation M .base (operate M)

/-- `BaseStation::on_new_puck`. -/
def onNewPuck (M : Machine Pose) (msg : NewPuck) (m : Mps Pose) : Mps Pose :=
  if m.spawning = "" then m
  else
    let m := m.onNewPuck msg
    let m := match m.world.modelByName msg.puckName with
      | none => m
      | some newWp =>
        if m.spawning = newWp ∧ M.puckIn .middle (m.world.pose newWp) = true then
          { m.assign .middle (some newWp) with spawning := "" }
        else m
    -- for every announcement, whether or not it was the awaited one
    { m with statusBusyIn := false }

end BaseStation

/-! ## `CapStation` -/

namespace CapStation

/-- The part of `mount_cap` that hands the stored cap over. -/
def mountStoredCap : StationM Pose Unit := do
  let stored ← getStoredCapColor
  if stored ≠ .NONE then
    let wp ← deref .middle
    let color ← getStoredCapColor
    publish { command := .ADD_CAP, color := [color], puckName := wp }
    setStoredCapColor .NONE
  -- `mount_cap` goes on to clear the registers
  else log .noCapLoaded

/-- `CapStation::mount_cap`. -/
def mountCap (M : Machine Pose) : StationM Pose Unit := do
  match ← getSlot .middle with
  | none => log .cannotMountCap
  | some _ =>
    let wp ← deref .middle
    let pose ← worldPose wp
    if M.puckIn .middle pose = false then
      let wp ← deref .middle
      log (.capNotInMiddle wp)
    else
      setBusy true
      mountStoredCap
      setValue .actionIdIn 0
      setValue .payload1In 0
      sleepFor capOpDuration
      setBusy false

/-- `CapStation::retrieve_cap`. -/
def retrieveCap : StationM Pose Unit := do
  match ← getSlot .middle with
  | none => log .cannotRetrieveCap
  | some _ =>
    setBusy true
    let wp ← deref .middle
    publish { command := .REMOVE_CAP, puckName := wp }
    setValue .actionIdIn 0
    setValue .payload1In 0
    sleepFor capOpDuration
    setBusy false

/-- The operations of `CapStation::process_command_in`. -/
def operate (M : Machine Pose) (oper : ℕ) : StationM Pose Unit := do
  if oper ≠ OPERATION_CAP_ACTION then return
  let op ← getValue .payload1In
  if op.toNat = OPERATION_CAP_RETRIEVE then retrieveCap
  else if op.toNat = OPERATION_CAP_MOUNT then mountCap M
  else log (.unexpectedCapOp op)

/-- `CapStation::process_command_in`. -/
def processCommandIn (M : Machine Pose) : StationM Pose Unit :=
  Mps.ownOperation M .cap (operate M)

/-- `CapStation::on_puck_result`. -/
def onPuckResult (result : WorkpieceResult) (m : Mps Pose) : Mps Pose :=
  -- a cap that is already stored is overwritten
  if m.wpIn .middle = some result.puckName ∧ result.color ≠ .NONE then
    { m with storedCapColor := result.color }
  else m

end CapStation

/-! ## `RingStation` -/

namespace RingStation

/-- The colour for the second payload of a MOUNT_RING command. A value outside 1..4 is
logged and leaves the local variable uninitialised. -/
def ringColor (M : Machine Pose) (payload2 : UInt16) : StationM Pose Color :=
  if payload2 = 1 then return .BLUE
  else if payload2 = 2 then return .GREEN
  else if payload2 = 3 then return .ORANGE
  else if payload2 = 4 then return .YELLOW
  else do
    log .unexpectedRingColor
    return M.garbage

/-- `RingStation::mount_ring`. -/
def mountRing (M : Machine Pose) (color : Color) : StationM Pose Unit := do
  match ← getSlot .middle with
  | none => log .cannotMountRing
  | some _ =>
    let wp ← deref .middle
    let pose ← worldPose wp
    if M.puckIn .middle pose = false then
      let wp ← deref .middle
      log (.ringNotInMiddle wp)
    else
      setBusy true
      let wp ← deref .middle
      publish { command := .ADD_RING, color := [color], puckName := wp }
      sleepFor ringOpDuration
      setBusy false

/-- The operations of `RingStation::process_command_in`. -/
def operate (M : Machine Pose) (oper : ℕ) : StationM Pose Unit := do
  if oper ≠ OPERATION_MOUNT_RING then return
  let feeder ← getValue .payload1In
  let payload2 ← getValue .payload2In
  -- unlike in the other classes, before anything is checked
  setValue .actionIdIn 0
  setValue .payload1In 0
  setValue .payload2In 0
  let color ← ringColor M payload2
  if feeder ≠ 1 ∧ feeder ≠ 2 then log (.unexpectedFeeder feeder)
  else mountRing M color

/-- `RingStation::process_command_in`. -/
def processCommandIn (M : Machine Pose) : StationM Pose Unit :=
  Mps.ownOperation M .ring (operate M)

end RingStation

/-! ## `DeliveryStation` -/

/-- The team that `deliver` reads off the first letter of the station's name. -/
def Machine.teamColor (M : Machine Pose) : Option Team :=
  match M.name.toList with
  | 'C' :: _ => some .CYAN
  | 'M' :: _ => some .MAGENTA
  | _ => none

namespace DeliveryStation

/-- `DeliveryStation::deliver`. The slot is read again for each use of `wp_in_input_`, the
second time for the debug message. -/
def deliver (M : Machine Pose) : StationM Pose Unit := do
  let slot ← getValue .payload1In
  if slot ≠ 1 ∧ slot ≠ 2 ∧ slot ≠ 3 then log (.unexpectedSlot slot)
  else
    match ← getSlot .input with
    | none => log .nothingToDeliver
    | some _ =>
      setBusy true
      setValue .actionIdIn 0
      setValue .payload1In 0
      -- pose messages are handled meanwhile
      sleepFor deliverDuration
      let wp ← deref .input
      setWorldPose wp M.gate
      let _ ← deref .input
      let wp ← deref .input
      publish { command := .DELIVER, puckName := wp, teamColor := M.teamColor }
      setSlot .input none
      setBusy false

/-- The operations of `DeliveryStation::process_command_in`. -/
def operate (M : Machine Pose) (oper : ℕ) : StationM Pose Unit :=
  if oper = OPERATION_DELIVER then deliver M else return

/-- `DeliveryStation::process_command_in`. -/
def processCommandIn (M : Machine Pose) : StationM Pose Unit :=
  Mps.ownOperation M .delivery (operate M)

end DeliveryStation

/-! ## All classes -/

/-- The `process_command_in` that virtual dispatch selects. `StorageStation` overrides it
with an empty body. -/
def processCommandIn (M : Machine Pose) : Station → StationM Pose Unit
  | .base => BaseStation.processCommandIn M
  | .ring => RingStation.processCommandIn M
  | .cap => CapStation.processCommandIn M
  | .delivery => DeliveryStation.processCommandIn M
  | .storage => return

end GazeboRcll
