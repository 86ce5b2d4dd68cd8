import GazeboRcll.Messages
import Mathlib.Algebra.Field.Rat
import Mathlib.Data.Nat.Notation
import Mathlib.Tactic.Common

/-!
# The workpiece plugin

`Puck` announces its workpiece once, and keeps the rings and the cap that the commands on
`~/pucks/cmd` put on it. A handler returns the new state together with the messages it
publishes, oldest first. The heights of the parts are configuration values.
-/

namespace GazeboRcll

/-! ## Messages to the refbox and to Gazebo -/

/-- `llsf_msgs::BaseColor`. -/
inductive BaseColor where
  | BASE_RED | BASE_BLACK | BASE_SILVER
deriving DecidableEq, Repr

/-- `llsf_msgs::RingColor`. -/
inductive RingColor where
  | RING_BLUE | RING_GREEN | RING_ORANGE | RING_YELLOW
deriving DecidableEq, Repr

/-- `llsf_msgs::CapColor`. -/
inductive CapColor where
  | CAP_BLACK | CAP_GREY
deriving DecidableEq, Repr

/-- `llsf_msgs::SetOrderDeliveredByColor`. -/
structure SetOrderDeliveredByColor where
  teamColor : Option Team := none
  baseColor : Option BaseColor := none
  ringColors : List RingColor := []
  capColor : Option CapColor := none
deriving DecidableEq, Repr

/-- `msgs::Visual` for a cylinder: its length, the height of its middle, and the colour
its material is chosen for. -/
structure Visual (K : Type) where
  parentName : String
  name : String
  length : K
  z : K
  color : Color
  visible : Bool := true
deriving DecidableEq, Repr

/-- What a workpiece publishes. -/
inductive PuckMsg (K : Type) where
  | newPuck (msg : NewPuck)
  | visual (msg : Visual K)
  | result (msg : WorkpieceResult)
  | delivery (msg : SetOrderDeliveredByColor)
deriving DecidableEq, Repr

/-- The configuration values of `plugins/puck`. -/
structure PuckConfig (K : Type) where
  ringHeight : K
  capHeight : K
  workpieceHeight : K

/-- The values of `cfg/config.yaml`. -/
def shippedPuck : PuckConfig ℚ where
  ringHeight := 8 / 1000
  capHeight := 4 / 1000
  workpieceHeight := 225 / 10000

/-! ## State -/

structure Puck where
  name : String
  announced : Bool
  ringCount : ℕ
  ringColors : List Color
  haveCap : Bool
  capColor : Color
  baseColor : Color
deriving DecidableEq, Repr

namespace Puck

/-- The switch over the `baseColor` element of the SDF; RED without the element or with an
unknown text. -/
def baseColorOf : Option String → Color
  | some "BLACK" => .BLACK
  | some "SILVER" => .SILVER
  | _ => .RED

/-- `Puck::Load`. The colour of the cap is left as it happens to be. -/
def load (name : String) (baseColor : Option String) (garbage : Color) : Puck where
  name := name
  announced := false
  ringCount := 0
  ringColors := []
  haveCap := false
  capColor := garbage
  baseColor := baseColorOf baseColor

variable {K : Type}

/-! ## Announcing once -/

def announcement (name : String) : NewPuck where
  puckName := name
  gpsTopic := "~/" ++ name ++ "/gazsim/gps/"

/-- `Puck::OnUpdate`. -/
def onUpdate (p : Puck) : Puck × List (PuckMsg K) :=
  if p.announced then (p, [])
  else ({ p with announced := true }, [.newPuck (announcement p.name)])

/-- What a workpiece publishes in `n` world updates. -/
def updates : ℕ → Puck → List (PuckMsg K)
  | 0, _ => []
  | n + 1, p =>
    let (p, msgs) : Puck × List (PuckMsg K) := onUpdate p
    msgs ++ updates n p

theorem updates_of_announced (n : ℕ) {p : Puck} (h : p.announced = true) :
    (updates n p : List (PuckMsg K)) = [] := by
  induction n with
  | zero => rfl
  | succ n ih =>
    have hidle : (onUpdate p : Puck × List (PuckMsg K)) = (p, []) := if_pos h
    rw [updates, hidle]
    exact ih

/-- A new workpiece announces itself once, however many updates there are. -/
theorem updates_load (n : ℕ) (name : String) (baseColor : Option String) (garbage : Color) :
    (updates (n + 1) (load name baseColor garbage) : List (PuckMsg K))
      = [.newPuck (announcement name)] := by
  -- the first update sets the mark that silences the others
  have hfirst : (onUpdate (load name baseColor garbage) : Puck × List (PuckMsg K))
      = ({ load name baseColor garbage with announced := true },
        [.newPuck (announcement name)]) := rfl
  rw [updates, hfirst]
  exact congrArg _ (updates_of_announced n rfl)

/-! ## Commands -/

variable [Field K]

/-- `Puck::create_visual_msg`. -/
def createVisualMsg (cfg : PuckConfig K) (p : Puck) (elementName : String) (elementHeight : K)
    (clr : Color) : Visual K where
  parentName := p.name ++ "::cylinder"
  name := p.name ++ "::cylinder::" ++ elementName
  length := elementHeight
  z := cfg.workpieceHeight / (2 : ℕ) + p.ringCount * cfg.ringHeight + elementHeight / (2 : ℕ)
  color := clr

/-- `Puck::add_ring`. -/
def addRing (cfg : PuckConfig K) (clr : Color) (p : Puck) : Puck × List (PuckMsg K) :=
  ({ p with ringColors := p.ringColors ++ [clr], ringCount := p.ringCount + 1 },
    [.visual (createVisualMsg cfg p ("ring_" ++ toString p.ringCount) cfg.ringHeight clr)])

/-- The loop over the colours of an ADD_RING command. -/
def addRings (cfg : PuckConfig K) : List Color → Puck → Puck × List (PuckMsg K)
  | [], p => (p, [])
  | clr :: clrs, p =>
    let (p, msgs) := addRing cfg clr p
    let (p, rest) := addRings cfg clrs p
    (p, msgs ++ rest)

/-- `Puck::add_cap`. -/
def addCap (cfg : PuckConfig K) (clr : Color) (p : Puck) : Puck × List (PuckMsg K) :=
  ({ p with haveCap := true, capColor := clr },
    [.visual (createVisualMsg cfg p "cap" cfg.capHeight clr)])

/-- `Puck::remove_cap`. -/
def removeCap (cfg : PuckConfig K) (p : Puck) : Puck × List (PuckMsg K) :=
  ({ p with haveCap := false },
    [.visual { createVisualMsg cfg p "cap" cfg.capHeight .RED with visible := false },
      .result { puckName := p.name, color := p.capColor }])

def toBaseColor : Color → Option BaseColor
  | .RED => some .BASE_RED
  | .BLACK => some .BASE_BLACK
  | .SILVER => some .BASE_SILVER
  | _ => none

def toRingColor : Color → Option RingColor
  | .GREEN => some .RING_GREEN
  | .BLUE => some .RING_BLUE
  | .YELLOW => some .RING_YELLOW
  | .ORANGE => some .RING_ORANGE
  | _ => none

def toCapColor : Color → Option CapColor
  | .GREY => some .CAP_GREY
  | .BLACK => some .CAP_BLACK
  | _ => none

/-- `Puck::deliver`. -/
def deliver (team : Team) (p : Puck) : Puck × List (PuckMsg K) :=
  (p, [.delivery {
    teamColor := some team
    baseColor := toBaseColor p.baseColor
    ringColors := (p.ringColors.take p.ringCount).filterMap toRingColor
    capColor := if p.haveCap then toCapColor p.capColor else none }])

/-- `Puck::on_command_msg`, `none` where an ADD_CAP command has no colour to read. A
command without a team reads as one for CYAN, the first enumerator. -/
def onCommandMsg (cfg : PuckConfig K) (cmd : WorkpieceCommand) (p : Puck) :
    Option (Puck × List (PuckMsg K)) :=
  if cmd.puckName ≠ p.name then some (p, [])
  else match cmd.command with
    | .ADD_RING => some (addRings cfg cmd.color p)
    -- no look at `have_cap`: a cap that is already there is overwritten
    | .ADD_CAP => cmd.color.head?.map fun clr => addCap cfg clr p
    | .REMOVE_CAP =>
      if p.haveCap then some (removeCap cfg p)
      else some (p, [.result { puckName := p.name, color := .NONE }])
    | .DELIVER => some (deliver (cmd.teamColor.getD .CYAN) p)

/-! ## What commands leave as it is -/

@[simp] theorem addRings_name (cfg : PuckConfig K) (clrs : List Color) (p : Puck) :
    (addRings cfg clrs p).1.name = p.name := by
  induction clrs generalizing p with
  | nil => rfl
  | cons clr clrs ih => exact ih (addRing cfg clr p).1

theorem onCommandMsg_name (cfg : PuckConfig K) (cmd : WorkpieceCommand) (p : Puck) :
    ∀ t ∈ onCommandMsg cfg cmd p, t.1.name = p.name := by
  intro t ht
  unfold onCommandMsg at ht
  by_cases hne : cmd.puckName ≠ p.name
  · rw [if_pos hne] at ht
    cases ht
    rfl
  · rw [if_neg hne] at ht
    cases hc : cmd.command with
    | ADD_RING =>
      rw [hc] at ht
      rw [← Option.some.inj ht]
      exact addRings_name cfg cmd.color p
    | ADD_CAP =>
      rw [hc, Option.mem_def, Option.map_eq_some_iff] at ht
      obtain ⟨clr, -, rfl⟩ := ht
      rfl
    | REMOVE_CAP =>
      rw [hc] at ht
      dsimp only at ht
      split_ifs at ht <;>
      · cases ht
        rfl
    | DELIVER =>
      rw [hc] at ht
      cases ht
      rfl

end Puck

end GazeboRcll
