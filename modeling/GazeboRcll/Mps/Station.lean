import GazeboRcll.Library.Prog
import GazeboRcll.Messages
import Mathlib.Data.Nat.Notation
import Mathlib.Logic.Function.Basic

/-!
# The state of a station and what its threads do to it

An MPS object is shared by three parties: its worker thread, which executes commands, the
transport threads of Gazebo, which call the message handlers, and the OPC UA client, which
writes the registers. `Mps` is everything they share. The worker's code is a program over
`Instr`, one instruction for every access of the source to a register, a slot, the world
or a publisher, so that the other parties can act between any two of them. Handlers of
the transport threads are atomic and are plain functions on `Mps`.
-/

namespace GazeboRcll

/-! ## Enumerations of the OPC UA interface -/

/-- `enum Station`, the class of a station. -/
inductive Station where
  | base | ring | cap | delivery | storage
deriving DecidableEq, Repr

/-- The enumerators of `enum Station`. -/
def Station.code : Station → ℕ
  | .base => 100
  | .ring => 200
  | .cap => 300
  | .delivery => 400
  | .storage => 500

/-! The enumerators of `enum Operation`; several share a value. -/

def OPERATION_GET_BASE : ℕ := 1
def OPERATION_MOUNT_RING : ℕ := 3
def OPERATION_CAP_ACTION : ℕ := 1
def OPERATION_CAP_RETRIEVE : ℕ := 1
def OPERATION_CAP_MOUNT : ℕ := 2
def OPERATION_DELIVER : ℕ := 1
def OPERATION_MOVE_CONVEYOR : ℕ := 2

/-- `Mps::calculate_station_type_from_command`. -/
def calculateStationTypeFromCommand (value : UInt16) : ℕ :=
  value.toNat - value.toNat % 100

/-- The 16-bit registers the commands use. -/
inductive Reg where
  | actionIdIn | payload1In | payload2In | actionIdBasic
deriving DecidableEq, Repr

/-- The registers with a data change subscription (`sub_in` and `sub_base`). -/
def Reg.subscribed : Reg → Bool
  | .actionIdIn | .actionIdBasic => true
  | .payload1In | .payload2In => false

/-- The three places where a station holds a workpiece. -/
inductive Slot where
  | input | middle | output
deriving DecidableEq, Repr

/-- A `MachineSide` cast from a register: one of the three enumerators, or a value that
is none of them. -/
inductive MachineSide where
  | INPUT | MIDDLE | OUTPUT
  | other (v : UInt16)
deriving DecidableEq, Repr

def MachineSide.ofValue (v : UInt16) : MachineSide :=
  if v = 1 then .INPUT else if v = 2 then .MIDDLE else if v = 3 then .OUTPUT else .other v

/-! ## State -/

/-- What is fixed for a station: its name, the poses it computes from its configuration and
its place in the world, and what it does not control. -/
structure Machine (Pose : Type) where
  name : String
  /-- `Mps::input()`, `Mps::middle()` and `Mps::output()`. -/
  center : Slot → Pose
  /-- `Mps::puck_in_input`, `Mps::puck_in_middle` and `Mps::puck_in_output`. -/
  puckIn : Slot → Pose → Bool
  /-- Where a delivered workpiece is put. -/
  gate : Pose
  /-- Where a dispensed base is put. -/
  spawnPose : Pose
  /-- The SDF text for a new workpiece, from its name, the colour values and the name of
  the colour; `none` where the template cannot be used. -/
  sdf : String → String → String → Option String
  /-- What an uninitialised local of type `Color` happens to hold. -/
  garbage : Color

/-- The detection areas of a station contain their centres and are pairwise disjoint. -/
structure Machine.Separated {Pose : Type} (M : Machine Pose) : Prop where
  center : ∀ s, M.puckIn s (M.center s) = true
  disjoint : ∀ s t p, M.puckIn s p = true → M.puckIn t p = true → s = t

/-- The part of Gazebo's world that a station looks at. -/
structure World (Pose : Type) where
  models : String → Bool
  pose : String → Pose

/-- `ModelByName`. A model is identified by its name; `none` is the null pointer. -/
def World.modelByName {Pose : Type} (w : World Pose) (name : String) : Option String :=
  if w.models name then some name else none

/-- The members of a station, the OPC UA server it runs and its publishers. The members of
the subclasses stand beside those of `Mps`. -/
structure Mps (Pose : Type) where
  reg : Reg → UInt16
  /-- DataChange callbacks that the OPC UA server still has to run. -/
  changes : ℕ
  statusBusyIn : Bool
  statusReadyIn : Bool
  /-- `wp_in_input_`, `wp_in_middle_` and `wp_in_output_`. -/
  wpIn : Slot → Option String
  /-- The topics subscribed to in `puck_subs_`. -/
  puckSubs : List String
  /-- Commands published on `puck_cmd_pub_`, oldest first. -/
  puckCmdPub : List WorkpieceCommand
  /-- Requests published on `factoryPub`, oldest first. -/
  factoryPub : List (Factory Pose)
  /-- `CapStation::stored_cap_color_`. -/
  storedCapColor : Color
  /-- `BaseStation::spawning`. -/
  spawning : String
  /-- `BaseStation::spawn_clr`. -/
  spawnClr : Color
  world : World Pose
  /-- The values that the next calls of `rand()` return. -/
  rolls : ℕ → ℕ

namespace Mps

variable {Pose : Type}

/-- `SetValue` on a register. A changed value of a subscribed register leaves a DataChange
callback to be run. -/
def write (m : Mps Pose) (r : Reg) (v : UInt16) : Mps Pose :=
  { m with
    reg := Function.update m.reg r v
    changes := if r.subscribed = true ∧ m.reg r ≠ v then m.changes + 1 else m.changes }

/-- A register holds what was written. -/
@[simp] theorem write_reg_self (m : Mps Pose) (r : Reg) (v : UInt16) :
    (m.write r v).reg r = v := Function.update_self ..

/-- The other registers are left. -/
theorem write_reg_of_ne (m : Mps Pose) {r r' : Reg} (h : r' ≠ r) (v : UInt16) :
    (m.write r v).reg r' = m.reg r' := Function.update_of_ne h ..

/-- Assignment to one of the three slot pointers. -/
def assign (m : Mps Pose) (s : Slot) (wp : Option String) : Mps Pose :=
  { m with wpIn := Function.update m.wpIn s wp }

/-- A slot has what was assigned. -/
@[simp] theorem assign_wpIn_self (m : Mps Pose) (s : Slot) (wp : Option String) :
    (m.assign s wp).wpIn s = wp := Function.update_self ..

/-- `SetWorldPose` of a model. -/
def teleport (m : Mps Pose) (wp : String) (p : Pose) : Mps Pose :=
  { m with world := { m.world with pose := Function.update m.world.pose wp p } }

/-- A station as its constructor leaves it: registers zero, no workpiece, nothing
published. -/
def fresh (w : World Pose) (clr : Color) (rolls : ℕ → ℕ) : Mps Pose where
  reg _ := 0
  changes := 0
  statusBusyIn := false
  statusReadyIn := false
  wpIn _ := none
  puckSubs := []
  puckCmdPub := []
  factoryPub := []
  storedCapColor := .NONE
  spawning := ""
  spawnClr := clr
  world := w
  rolls := rolls

end Mps

/-! ## Instructions -/

/-- What the worker writes to the log when it turns a command down. -/
inductive Log where
  /-- "No workpiece in machine's ..." of `move_conveyor`. -/
  | noWorkpiece (s : Slot)
  | unexpectedSide (side : MachineSide)
  | cannotMountCap
  | cannotRetrieveCap
  | capNotInMiddle (wp : String)
  | noCapLoaded
  | unexpectedCapOp (op : UInt16)
  | cannotMountRing
  | ringNotInMiddle (wp : String)
  | unexpectedRingColor
  | unexpectedFeeder (feeder : UInt16)
  | unexpectedSlot (slot : UInt16)
  /-- "No workpiece in machine's input" of `deliver`. -/
  | nothingToDeliver
deriving DecidableEq, Repr

/-- The atomic accesses of the worker's code. -/
inductive Instr (Pose : Type) where
  | getValue (r : Reg)
  | setValue (r : Reg) (v : UInt16)
  | setBusy (b : Bool)
  | setReady (b : Bool)
  /-- `std::this_thread::sleep_for`, in milliseconds. -/
  | sleepFor (ms : ℕ)
  /-- Reads a slot pointer. -/
  | getSlot (s : Slot)
  /-- Reads a slot pointer and dereferences it. -/
  | deref (s : Slot)
  | setSlot (s : Slot) (wp : Option String)
  | worldPose (wp : String)
  | setWorldPose (wp : String) (p : Pose)
  | publish (cmd : WorkpieceCommand)
  | publishFactory (msg : Factory Pose)
  | getStoredCapColor
  | setStoredCapColor (c : Color)
  | getSpawnClr
  | setSpawnClr (c : Color)
  | setSpawning (name : String)
  | rand
  | log (l : Log)

/-- The type of an instruction's response. -/
@[reducible] def Instr.Resp {Pose : Type} : Instr Pose → Type
  | .getValue _ => UInt16
  | .getSlot _ => Option String
  | .deref _ => String
  | .worldPose _ => Pose
  | .getStoredCapColor => Color
  | .getSpawnClr => Color
  | .rand => ℕ
  | _ => Unit

/-- Code of a station's worker thread. -/
abbrev StationM (Pose : Type) : Type → Type := Prog (Instr Pose) Instr.Resp

variable {Pose : Type}

/-- The program that executes one instruction. -/
def Instr.perform (i : Instr Pose) : StationM Pose i.Resp := Prog.instr i

/-- An instruction followed by the rest is one operation. -/
@[simp] theorem Instr.perform_bind {α : Type} (i : Instr Pose) (f : i.Resp → StationM Pose α) :
    @Bind.bind (StationM Pose) _ (no_index i.Resp) α i.perform f = Prog.op i f := rfl

/-- The meaning of the instructions. Dereferencing a null slot is undefined. -/
def handle : Prog.Handler (Instr Pose) Instr.Resp (Mps Pose)
  | .getValue r, m => some (m, m.reg r)
  | .setValue r v, m => some (m.write r v, ())
  | .setBusy b, m => some ({ m with statusBusyIn := b }, ())
  | .setReady b, m => some ({ m with statusReadyIn := b }, ())
  | .sleepFor _, m => some (m, ())
  | .getSlot s, m => some (m, m.wpIn s)
  -- a null pointer has no name and no pose
  | .deref s, m => (m.wpIn s).map fun wp => (m, wp)
  | .setSlot s wp, m => some (m.assign s wp, ())
  | .worldPose wp, m => some (m, m.world.pose wp)
  | .setWorldPose wp p, m => some (m.teleport wp p, ())
  | .publish cmd, m => some ({ m with puckCmdPub := m.puckCmdPub ++ [cmd] }, ())
  | .publishFactory msg, m => some ({ m with factoryPub := m.factoryPub ++ [msg] }, ())
  | .getStoredCapColor, m => some (m, m.storedCapColor)
  | .setStoredCapColor c, m => some ({ m with storedCapColor := c }, ())
  | .getSpawnClr, m => some (m, m.spawnClr)
  | .setSpawnClr c, m => some ({ m with spawnClr := c }, ())
  | .setSpawning name, m => some ({ m with spawning := name }, ())
  | .rand, m => some ({ m with rolls := fun n => m.rolls (n + 1) }, m.rolls 0)
  | .log _, m => some (m, ())

/-- A dereference leaves the station as it is. -/
theorem eq_of_handle_deref {s : Slot} {wp : String} {m m' : Mps Pose}
    (h : handle (.deref s) m = some (m', wp)) : m' = m := by
  rw [handle, Option.map_eq_some_iff] at h
  obtain ⟨_, _, heq⟩ := h
  exact (Prod.mk.inj heq).1.symm

namespace StationM

abbrev getValue (r : Reg) : StationM Pose UInt16 := (Instr.getValue r).perform
abbrev setValue (r : Reg) (v : UInt16) : StationM Pose Unit := (Instr.setValue r v).perform
abbrev setBusy (b : Bool) : StationM Pose Unit := (Instr.setBusy b).perform
abbrev setReady (b : Bool) : StationM Pose Unit := (Instr.setReady b).perform
abbrev sleepFor (ms : ℕ) : StationM Pose Unit := (Instr.sleepFor ms).perform
abbrev getSlot (s : Slot) : StationM Pose (Option String) := (Instr.getSlot s).perform
abbrev deref (s : Slot) : StationM Pose String := (Instr.deref s).perform
abbrev setSlot (s : Slot) (wp : Option String) : StationM Pose Unit :=
  (Instr.setSlot s wp).perform
abbrev worldPose (wp : String) : StationM Pose Pose := (Instr.worldPose wp).perform
abbrev setWorldPose (wp : String) (p : Pose) : StationM Pose Unit :=
  (Instr.setWorldPose wp p).perform
abbrev publish (cmd : WorkpieceCommand) : StationM Pose Unit := (Instr.publish cmd).perform
abbrev publishFactory (msg : Factory Pose) : StationM Pose Unit :=
  (Instr.publishFactory msg).perform
abbrev getStoredCapColor : StationM Pose Color := Instr.getStoredCapColor.perform
abbrev setStoredCapColor (c : Color) : StationM Pose Unit := (Instr.setStoredCapColor c).perform
abbrev getSpawnClr : StationM Pose Color := Instr.getSpawnClr.perform
abbrev setSpawnClr (c : Color) : StationM Pose Unit := (Instr.setSpawnClr c).perform
abbrev setSpawning (name : String) : StationM Pose Unit := (Instr.setSpawning name).perform
abbrev rand : StationM Pose ℕ := Instr.rand.perform
abbrev log (l : Log) : StationM Pose Unit := (Instr.log l).perform

end StationM

end GazeboRcll
