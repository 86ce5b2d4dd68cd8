import Mathlib.Data.Int.Notation
import Mathlib.Data.Nat.Notation
import Mathlib.Logic.Basic

/-!
# Messages

The protobuf messages that stations, workpieces and Gazebo exchange, with the fields that
the modelled handlers read or fill. `repeated` fields are lists, `optional` fields are
`Option`s.
-/

namespace GazeboRcll

/-! ## `gazsim_msgs/WorkpieceCommand.proto` -/

/-- `gazsim_msgs::Color`. -/
inductive Color where
  | RED | GREEN | BLUE | GREY | BLACK | YELLOW | ORANGE | SILVER | NONE
deriving DecidableEq, Repr

/-- `gazsim_msgs::Command`. -/
inductive Command where
  | ADD_RING | ADD_CAP | REMOVE_CAP | DELIVER
deriving DecidableEq, Repr

/-- `gazsim_msgs::Team`. -/
inductive Team where
  | CYAN | MAGENTA
deriving DecidableEq, Repr

structure WorkpieceCommand where
  command : Command
  color : List Color := []
  puckName : String
  teamColor : Option Team := none
deriving DecidableEq, Repr

structure WorkpieceResult where
  color : Color
  puckName : String
deriving DecidableEq, Repr

/-! ## Announcements, poses and the factory -/

/-- `gazsim_msgs::NewPuck`, sent once by every workpiece. -/
structure NewPuck where
  puckName : String
  gpsTopic : String
deriving DecidableEq, Repr

/-- `msgs::Pose` as the GPS of a workpiece sends it: the name of the model and its position. -/
structure PoseMsg (Pose : Type) where
  name : String
  position : Pose
deriving DecidableEq, Repr

/-- `msgs::Factory`: the request to insert a model into the world. -/
structure Factory (Pose : Type) where
  sdf : String
  cloneModelName : String
  pose : Pose
deriving DecidableEq, Repr

/-! ## `llsf_msgs/MachineInstructions.proto` -/

/-- `llsf_msgs::LightState`. -/
inductive LightState where
  | OFF | ON | BLINK
deriving DecidableEq, Repr

/-- `llsf_msgs::SetSignalLight`. The defaults are those of an unset message. -/
structure SetSignalLight where
  red : LightState := .OFF
  yellow : LightState := .OFF
  green : LightState := .OFF
deriving DecidableEq, Repr

/-- `llsf_msgs::InstructMachineSet`. -/
inductive InstructMachineSet where
  | SIGNAL_LIGHT | MOVE_CONVEYOR | STOP_CONVEYOR | WAIT_FOR_PICKUP
  | BS | SS | RS | CS | DS | PULL_MSGS_FROM_MPS | RESET
deriving DecidableEq, Repr

/-- `llsf_msgs::InstructMachine`, the parameters of the other instructions left out. -/
structure InstructMachine where
  machine : String
  set : InstructMachineSet
  lightState : Option SetSignalLight := none
deriving DecidableEq, Repr

/-! ## `llsf_msgs/Zone.proto`, `MachineInfo.proto` and `GameState.proto` -/

/-- `llsf_msgs::Zone`: the zones C_Z11 to C_Z78 and M_Z11 to M_Z78, of which x1 is missing
for x from 5 on. -/
structure Zone where
  team : Team
  x : ℕ
  y : ℕ
  valid : 1 ≤ x ∧ x ≤ 7 ∧ 1 ≤ y ∧ y ≤ 8 ∧ (y = 1 → x ≤ 4)
deriving DecidableEq, Repr

/-- `llsf_msgs::Machine`. -/
structure MachineMsg where
  name : Option String
  zone : Option Zone := none
  rotation : ℕ := 0
deriving DecidableEq, Repr

/-- `llsf_msgs::MachineInfo`. -/
structure MachineInfo where
  machines : List MachineMsg
deriving DecidableEq, Repr

/-- `llsf_msgs::GameState::Phase`. -/
inductive GamePhase where
  | PRE_GAME | SETUP | EXPLORATION | PRODUCTION | POST_GAME
deriving DecidableEq, Repr

/-- `llsf_msgs::GameState`. -/
structure GameState where
  phase : GamePhase
deriving DecidableEq, Repr

/-! ## What is relayed to the refbox -/

/-- `llsf_msgs::MachineReplySet`. -/
inductive MachineReplySet where
  | FINISHED | FINISHED_WITH_PAYLOAD
deriving DecidableEq, Repr

/-- `llsf_msgs::MachineReply`. -/
structure MachineReply where
  id : ℕ
  machine : String
  set : MachineReplySet
deriving DecidableEq, Repr

/-- `gazsim_msgs::SimTime`; the factor is a `float`, of which only the bits are copied. -/
structure SimTime where
  simTimeSec : ℤ
  simTimeNsec : ℤ
  realTimeFactor : UInt32
  paused : Bool
deriving DecidableEq, Repr

/-- `llsf_msgs::Time`. -/
structure Time where
  sec : ℤ
  nsec : ℤ
deriving DecidableEq, Repr

/-- `llsf_msgs::SimTimeSync`. -/
structure SimTimeSync where
  simTime : Time
  realTimeFactor : UInt32
  paused : Bool
deriving DecidableEq, Repr

/-- `llsf_msgs::GameState::State`. -/
inductive RunState where
  | INIT | WAIT_START | RUNNING | PAUSED
deriving DecidableEq, Repr

/-- `llsf_msgs::SetGameState`. -/
structure SetGameState where
  state : RunState
deriving DecidableEq, Repr

/-- `llsf_msgs::SetGamePhase`. -/
structure SetGamePhase where
  phase : GamePhase
deriving DecidableEq, Repr

/-- `llsf_msgs::SetTeamName`. -/
structure SetTeamName where
  teamName : String
  teamColor : Team
deriving DecidableEq, Repr

/-- `llsf_msgs::MachineState`. -/
inductive MachineState where
  | IDLE | AVAILABLE | PROCESSED | DELIVERED | RETRIEVED | RESET
deriving DecidableEq, Repr

/-- `llsf_msgs::SetMachineState`. -/
structure SetMachineState where
  machineName : String
  state : MachineState
deriving DecidableEq, Repr

/-- `llsf_msgs::MachineAddBase`. -/
structure MachineAddBase where
  machineName : String
deriving DecidableEq, Repr

end GazeboRcll
