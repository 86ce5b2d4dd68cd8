import GazeboRcll.Mps.Station
import Mathlib.Algebra.Order.Field.Basic
import Mathlib.Algebra.Order.Field.Rat
import Mathlib.Tactic.Linarith
import Mathlib.Tactic.Ring

/-!
# Geometry of a station

The places of the belt that a station computes from its configuration and its pose, in
exact arithmetic over an ordered field. The yaw of the station enters through its cosine
and sine. A distance `d` is below a tolerance `t` when `0 < t` and `d ^ 2 < t ^ 2`, which
spares the square root.
-/

namespace GazeboRcll

/-- A position in the world. -/
@[ext] structure Vec (K : Type) where
  x : K
  y : K
  z : K
deriving DecidableEq, Repr

/-- The configuration values of `plugins/mps` that the belt's places depend on. -/
structure MpsConfig (K : Type) where
  beltOffsetSide : K
  detectTolerance : K
  puckSize : K
  puckHeight : K
  beltLength : K
  beltHeight : K

/-- Where a station stands: its position on the field, and cosine and sine of its yaw. -/
structure Placement (K : Type) where
  x : K
  y : K
  cosOri : K
  sinOri : K

variable {K : Type} [Field K]

/-- The squared distance of two positions. -/
def Vec.distSq (a b : Vec K) : K := (a.x - b.x) ^ 2 + (a.y - b.y) ^ 2 + (a.z - b.z) ^ 2

/-- A place is at no distance from itself. -/
@[simp] theorem Vec.distSq_self (a : Vec K) : a.distSq a = 0 := by
  simp [distSq]

/-- The squared length of a difference is below the squared tolerance. -/
def Vec.within [LinearOrder K] (tolerance : K) (a b : Vec K) : Bool :=
  decide (0 < tolerance ∧ a.distSq b < tolerance ^ 2)

section

variable [LinearOrder K] [IsStrictOrderedRing K]

/-- A position near two others puts them near each other. -/
theorem Vec.distSq_le (a b c : Vec K) : b.distSq c ≤ 2 * a.distSq b + 2 * a.distSq c := by
  unfold distSq
  nlinarith [sq_nonneg (2 * a.x - b.x - c.x), sq_nonneg (2 * a.y - b.y - c.y),
    sq_nonneg (2 * a.z - b.z - c.z)]

/-- Two places within the tolerance of a third are less than twice the tolerance apart. -/
theorem Vec.distSq_lt_of_within {tolerance : K} {a b c : Vec K}
    (hb : within tolerance a b = true) (hc : within tolerance a c = true) :
    b.distSq c < (2 * tolerance) ^ 2 := by
  obtain ⟨-, hb⟩ := of_decide_eq_true hb
  obtain ⟨-, hc⟩ := of_decide_eq_true hc
  calc b.distSq c ≤ 2 * a.distSq b + 2 * a.distSq c := distSq_le a b c
    _ < 2 * tolerance ^ 2 + 2 * tolerance ^ 2 := by linarith
    _ = (2 * tolerance) ^ 2 := by ring

end

namespace MpsConfig

variable (cfg : MpsConfig K) (p : Placement K)

def outputX : K :=
  p.x + cfg.beltOffsetSide * p.cosOri + (cfg.beltLength / 2 - cfg.puckSize) * p.sinOri

def outputY : K :=
  p.y + cfg.beltOffsetSide * p.sinOri - (cfg.beltLength / 2 - cfg.puckSize) * p.cosOri

def inputX : K :=
  p.x + cfg.beltOffsetSide * p.cosOri - (cfg.beltLength / 2 - cfg.puckSize) * p.sinOri

def inputY : K :=
  p.y + cfg.beltOffsetSide * p.sinOri + (cfg.beltLength / 2 - cfg.puckSize) * p.cosOri

/-- `Mps::input`, `Mps::middle` and `Mps::output`. -/
def center : Slot → Vec K
  | .input => ⟨cfg.inputX p, cfg.inputY p, cfg.beltHeight⟩
  | .middle => ⟨(cfg.inputX p + cfg.outputX p) / 2, (cfg.inputY p + cfg.outputY p) / 2,
      cfg.beltHeight⟩
  | .output => ⟨cfg.outputX p, cfg.outputY p, cfg.beltHeight⟩

/-- `Mps::get_puck_world_pose`. -/
def getPuckWorldPose (longSide shortSide height : K) : Vec K where
  x := p.x + (cfg.beltOffsetSide + longSide) * p.cosOri
    - ((cfg.beltLength + shortSide) / 2 - cfg.puckSize) * p.sinOri
  y := p.y + (cfg.beltOffsetSide + longSide) * p.sinOri
    + ((cfg.beltLength + shortSide) / 2 - cfg.puckSize) * p.cosOri
  z := height

/-- `get_puck_world_pose` takes the height -1 for the belt's. -/
def heightOrBelt [LinearOrder K] (height : K) : K :=
  if height = -1 then cfg.beltHeight else height

/-- The station of a given name, configuration and place. -/
def machine [LinearOrder K] (name : String) (sdf : String → String → String → Option String)
    (garbage : Color) : Machine (Vec K) where
  name := name
  center := cfg.center p
  puckIn s pose := Vec.within cfg.detectTolerance pose (cfg.center p s)
  gate := cfg.getPuckWorldPose p (3 / 10) (-2 / 10) cfg.beltHeight
  spawnPose := ⟨(cfg.inputX p + cfg.outputX p) / 2, (cfg.inputY p + cfg.outputY p) / 2,
    cfg.beltHeight + cfg.puckHeight / 2⟩
  sdf := sdf
  garbage := garbage

/-- A puck on the centre of a slot is in it. -/
theorem machine_puckIn_center [LinearOrder K] [IsStrictOrderedRing K] (name : String)
    (sdf : String → String → String → Option String) (garbage : Color)
    (h : 0 < cfg.detectTolerance) (s : Slot) :
    (cfg.machine p name sdf garbage).puckIn s ((cfg.machine p name sdf garbage).center s)
      = true := by
  simp only [machine, Vec.within, Vec.distSq_self, decide_eq_true_eq]
  exact ⟨h, pow_pos h 2⟩

/-- Centres at least two tolerances apart have disjoint detection areas. -/
theorem machine_separated [LinearOrder K] [IsStrictOrderedRing K] (name : String)
    (sdf : String → String → String → Option String) (garbage : Color)
    (h : 0 < cfg.detectTolerance)
    (hdist : ∀ s t, s ≠ t →
      (2 * cfg.detectTolerance) ^ 2 ≤ (cfg.center p s).distSq (cfg.center p t)) :
    (cfg.machine p name sdf garbage).Separated := by
  refine ⟨cfg.machine_puckIn_center p name sdf garbage h, fun s t pose hs ht => ?_⟩
  by_contra hne
  exact absurd (Vec.distSq_lt_of_within hs ht) (not_lt.mpr (hdist s t hne))

end MpsConfig

/-- One half of a length. -/
def half (x : K) : K := x / 2

/-- The values of `cfg/config.yaml`. -/
def shippedConfig : MpsConfig ℚ where
  beltOffsetSide := 25 / 1000
  detectTolerance := 3 / 100
  puckSize := 2 / 100
  puckHeight := 225 / 10000
  beltLength := 35 / 100
  beltHeight := 92 / 100

/-- A station with the shipped configuration at the origin of the field, facing along the
x axis. Its template for new workpieces is reduced to their name. -/
def shipped (name : String) : Machine (Vec ℚ) :=
  shippedConfig.machine ⟨0, 0, 1, 0⟩ name (fun newName _ _ => some newName) .RED

/-- The shipped areas are far enough apart. -/
theorem shipped_separated (name : String) : (shipped name).Separated := by
  refine MpsConfig.machine_separated _ _ name _ _ (by decide +kernel) fun s t hne => ?_
  cases s <;> cases t <;> first | exact absurd rfl hne | decide +kernel

/-- A world in which every model exists and stands at `p`. -/
def World.allAt {Pose : Type} (p : Pose) : World Pose := ⟨fun _ => true, fun _ => p⟩

/-- Such a station after its construction, with all workpieces in its middle. -/
def shippedMps (name : String) : Mps (Vec ℚ) :=
  .fresh (.allAt ((shipped name).center .middle)) .RED id

end GazeboRcll
