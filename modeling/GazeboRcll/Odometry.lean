import GazeboRcll.Library.LTS
import GazeboRcll.Mps.Geometry
import Mathlib.Analysis.SpecialFunctions.Trigonometric.Basic
import Mathlib.Tactic.NormNum

/-!
# Odometry

`Odometry` integrates the velocities of a robot. The heading is brought back to the interval
from -π to π after every step, from above by subtracting a whole turn, but from below by
subtracting the heading from a whole turn. It stays in the interval as long as no step goes
below it (`heading_iff`).

Numbers are exact, in an ordered field; π, the cosine and the sine are parameters.
-/

namespace GazeboRcll

/-- What is used of the mathematical library. -/
structure Libm (K : Type) where
  M_PI : K
  cos : K → K
  sin : K → K

/-- `2 * M_PI`. -/
def Libm.turn {K : Type} [Field K] (libm : Libm K) : K := 2 • libm.M_PI

theorem Libm.turn_eq {K : Type} [Field K] (libm : Libm K) : libm.turn = 2 * libm.M_PI := by
  rw [turn, two_nsmul, two_mul]

/-- The part of Gazebo that the plugin asks. -/
structure OdometryWorld (K : Type) where
  simTime : K
  /-- The velocities relative to the robot. -/
  linearVelX : K
  linearVelY : K
  angularVelZ : K
  /-- What the next call of `rand` gives. -/
  roll : ℕ
  /-- `odometry_pub_->HasConnections()`. -/
  hasConnections : Bool

/-- The members of the plugin, and what it published, oldest first. -/
structure Odometry (K : Type) where
  estimateX : K
  estimateY : K
  estimateOmega : K
  lastSentTime : K
  odometryPub : List (Vec K)

namespace Odometry

variable {K : Type} [Field K]

/-- `Odometry::Load`. -/
def load (w : OdometryWorld K) : Odometry K where
  estimateX := 0
  estimateY := 0
  estimateOmega := 0
  lastSentTime := w.simTime
  odometryPub := []

/-- The simulated error of a time. -/
def simulatedError (roll : ℕ) : ℚ := (((roll % 2001 : ℕ) : ℚ) - 1000) / 1000 * (1 / 10)

/-- `elapsedSeconds`. -/
def elapsedSeconds (w : OdometryWorld K) (p : Odometry K) : K :=
  w.simTime - p.lastSentTime + simulatedError w.roll

/-- The change of the heading. -/
def increment (w : OdometryWorld K) (p : Odometry K) : K := w.angularVelZ * p.elapsedSeconds w

/-- `Odometry::on_set_odometry_msg`. -/
def onSetOdometryMsg (msg : Vec K) (simTime : K) (p : Odometry K) : Odometry K :=
  { p with
    estimateX := msg.x
    estimateY := msg.y
    estimateOmega := msg.z
    lastSentTime := simTime }

variable [LinearOrder K]

/-- The heading is brought back to the interval. -/
def wrap (libm : Libm K) (omega : K) : K :=
  if omega < -libm.M_PI then libm.turn - omega
  else if omega > libm.M_PI then -libm.turn + omega
  else omega

/-- `Odometry::send_position`. -/
def sendPosition (libm : Libm K) (w : OdometryWorld K) (p : Odometry K) : Odometry K :=
  let cs := libm.cos p.estimateOmega
  let sn := libm.sin p.estimateOmega
  let tx := w.linearVelX * cs - w.linearVelY * sn
  let ty := w.linearVelX * sn + w.linearVelY * cs
  let x := p.estimateX + tx * p.elapsedSeconds w
  let y := p.estimateY + ty * p.elapsedSeconds w
  let omega := wrap libm (p.estimateOmega + w.angularVelZ * p.elapsedSeconds w)
  { p with
    estimateX := x
    estimateY := y
    estimateOmega := omega
    odometryPub := if w.hasConnections then p.odometryPub ++ [⟨x, y, omega⟩] else p.odometryPub }

/-- `Odometry::OnUpdate`. -/
def onUpdate (libm : Libm K) (w : OdometryWorld K) (p : Odometry K) : Odometry K :=
  if w.simTime - p.lastSentTime > (1 / 10 : ℚ) then
    { p.sendPosition libm w with lastSentTime := w.simTime }
  else p

end Odometry

/-- What happens to the plugin; an update that sends is the first two, one after the other. -/
inductive OdometryEvent (K : Type) where
  | sendPosition (w : OdometryWorld K)
  /-- The time of the last step is set. -/
  | sent (time : K)
  | setOdometry (msg : Vec K) (simTime : K)

section

variable {K : Type} [Field K] [LinearOrder K]

/-- The plugin from its loading on. -/
def odometrySystem (libm : Libm K) : LTS (Odometry K) (OdometryEvent K) where
  init p := ∃ w, p = .load w
  next p
    | .sendPosition w => some (p.sendPosition libm w)
    | .sent time => some { p with lastSentTime := time }
    | .setOdometry msg simTime => some (p.onSetOdometryMsg msg simTime)

/-- An update runs in the system. -/
theorem exec_onUpdate (libm : Libm K) (w : OdometryWorld K) (p : Odometry K) :
    ∃ l, (odometrySystem libm).exec p l = some (p.onUpdate libm w) := by
  unfold Odometry.onUpdate
  split_ifs
  · exact ⟨[.sendPosition w, .sent w.simTime], rfl⟩
  · exact ⟨[], rfl⟩

/-- What holds in every state of a run holds before and after every update, too. -/
theorem reachable_onUpdate {libm : Libm K} {p : Odometry K}
    (h : (odometrySystem libm).Reachable p) (w : OdometryWorld K) :
    (odometrySystem libm).Reachable (p.onUpdate libm w) := by
  obtain ⟨l, hl⟩ := exec_onUpdate libm w p
  exact h.exec (LTS.meets_of_forall (fun _ _ _ => trivial) p) hl

/-! ## The heading -/

namespace Odometry

/-- The heading is between -π and π. -/
def Normalised (libm : Libm K) (p : Odometry K) : Prop :=
  -libm.M_PI ≤ p.estimateOmega ∧ p.estimateOmega ≤ libm.M_PI

/-- Headings are set within the interval, and change by less than a whole turn. -/
def Admissible (libm : Libm K) (p : Odometry K) : OdometryEvent K → Prop
  | .sendPosition w => |p.increment w| < libm.turn
  | .sent _ => True
  | .setOdometry msg _ => -libm.M_PI ≤ msg.z ∧ msg.z ≤ libm.M_PI

/-- The step does not take the heading below the interval. -/
def NotBelow (libm : Libm K) (p : Odometry K) : OdometryEvent K → Prop
  | .sendPosition w => -libm.M_PI ≤ p.estimateOmega + p.increment w
  | _ => True

variable [IsStrictOrderedRing K] {libm : Libm K}

/-- From above the heading is brought back by a whole turn. -/
theorem wrap_of_le {omega : K} (hlow : -libm.M_PI ≤ omega) (hhigh : omega < 3 * libm.M_PI) :
    (-libm.M_PI ≤ wrap libm omega ∧ wrap libm omega ≤ libm.M_PI) ∧
      ∃ k : ℤ, wrap libm omega - omega = k * (2 * libm.M_PI) := by
  unfold wrap
  rw [if_neg (not_lt.mpr hlow), libm.turn_eq]
  split_ifs with h
  · refine ⟨⟨by linarith, by linarith⟩, -1, ?_⟩
    push_cast
    ring
  · exact ⟨⟨hlow, not_lt.mp h⟩, 0, by simp⟩

/-- From below it is put above the interval. -/
theorem lt_wrap_of_lt (hpi : 0 < libm.M_PI) {omega : K} (h : omega < -libm.M_PI) :
    libm.M_PI < wrap libm omega := by
  unfold wrap
  rw [if_pos h, libm.turn_eq]
  linarith

/-- One step. -/
theorem sendPosition_iff (hpi : 0 < libm.M_PI) {p : Odometry K} (hp : p.Normalised libm)
    {w : OdometryWorld K} (hw : |p.increment w| < 2 * libm.M_PI) :
    ((p.sendPosition libm w).Normalised libm ∧
        ∃ k : ℤ, (p.sendPosition libm w).estimateOmega - (p.estimateOmega + p.increment w) =
          k * (2 * libm.M_PI)) ↔
      -libm.M_PI ≤ p.estimateOmega + p.increment w := by
  have homega : (p.sendPosition libm w).estimateOmega =
      wrap libm (p.estimateOmega + p.increment w) := rfl
  unfold Normalised
  rw [homega]
  constructor
  · rintro ⟨⟨-, hle⟩, -⟩
    by_contra hlow
    exact absurd hle (not_le.mpr (lt_wrap_of_lt hpi (not_le.mp hlow)))
  · intro hlow
    have hhigh : p.estimateOmega + p.increment w < 3 * libm.M_PI := by
      linarith [hp.2, (abs_lt.mp hw).2]
    exact wrap_of_le hlow hhigh

end Odometry

variable [IsStrictOrderedRing K]

/-- As long as no step takes the heading below the interval, it stays in it, and changes by
the increment up to whole turns; a step that takes it below leaves it outside. -/
theorem heading_iff {libm : Libm K} (hpi : 0 < libm.M_PI) {p : Odometry K}
    (h : (odometrySystem libm).Reach
      (fun p l => p.Admissible libm l ∧ p.NotBelow libm l) p) :
    p.Normalised libm ∧ ∀ w, |p.increment w| < 2 * libm.M_PI →
      (((p.sendPosition libm w).Normalised libm ∧
          ∃ k : ℤ, (p.sendPosition libm w).estimateOmega - (p.estimateOmega + p.increment w) =
            k * (2 * libm.M_PI)) ↔
        -libm.M_PI ≤ p.estimateOmega + p.increment w) := by
  have hp : p.Normalised libm := by
    refine LTS.Reach.invariant (P := Odometry.Normalised libm) ?_ ?_ h
    · rintro _ ⟨w, rfl⟩
      exact ⟨neg_nonpos.mpr hpi.le, hpi.le⟩
    · intro p l p' hp hl hstep
      cases l with
      | sendPosition w =>
        cases hstep
        have hw : |p.increment w| < 2 * libm.M_PI := libm.turn_eq ▸ hl.1
        exact ((Odometry.sendPosition_iff hpi hp hw).mpr hl.2).1
      | sent time =>
        cases hstep
        exact hp
      | setOdometry msg simTime =>
        cases hstep
        exact hl.1
  exact ⟨hp, fun w hw => Odometry.sendPosition_iff hpi hp hw⟩

end

/-! ## Over the real numbers -/

/-- The mathematical library, without rounding. -/
noncomputable def realLibm : Libm ℝ := ⟨Real.pi, Real.cos, Real.sin⟩

/-- A robot that turns on the spot, at the given time. -/
def turning (simTime angularVelZ : ℝ) : OdometryWorld ℝ where
  simTime := simTime
  linearVelX := 0
  linearVelY := 0
  angularVelZ := angularVelZ
  roll := 1000
  hasConnections := true

/-- One second after the loading. -/
theorem increment_turning (v : ℝ) :
    (Odometry.load (turning 0 0)).increment (turning 1 v) = v := by
  have herror : Odometry.simulatedError 1000 = 0 := by
    decide +kernel
  simp [Odometry.increment, Odometry.elapsedSeconds, turning, Odometry.load, herror]

/-- Three quarters of a turn to the left. -/
theorem heading_iff_left :
    ∃ p, (odometrySystem realLibm).Reach
        (fun p l => p.Admissible realLibm l ∧ p.NotBelow realLibm l) p ∧
      p.odometryPub ≠ [] ∧ p.Normalised realLibm := by
  have hpi := Real.pi_pos
  have hinc := increment_turning (3 / 2 * Real.pi)
  have hreach : (odometrySystem realLibm).Reach
      (fun p l => p.Admissible realLibm l ∧ p.NotBelow realLibm l)
      ((Odometry.load (turning 0 0)).sendPosition realLibm (turning 1 (3 / 2 * Real.pi))) := by
    refine .step (l := .sendPosition _) (.init ⟨turning 0 0, rfl⟩) ⟨?_, ?_⟩ rfl
    · show |_| < realLibm.turn
      rw [realLibm.turn_eq, hinc, abs_of_pos (by linarith)]
      show 3 / 2 * Real.pi < 2 * Real.pi
      linarith
    · show -Real.pi ≤ 0 + Odometry.increment _ _
      rw [hinc]
      linarith
  exact ⟨_, hreach, List.cons_ne_nil _ _, (heading_iff hpi hreach).1⟩

/-- Three quarters of a turn to the right. -/
theorem right_turn_leaves_interval :
    ¬ ∀ p, (odometrySystem realLibm).Reach (fun p l => p.Admissible realLibm l) p →
      p.Normalised realLibm := by
  intro h
  have hpi := Real.pi_pos
  have hinc := increment_turning (-(3 / 2 * Real.pi))
  have hreach : (odometrySystem realLibm).Reach (fun p l => p.Admissible realLibm l)
      ((Odometry.load (turning 0 0)).sendPosition realLibm (turning 1 (-(3 / 2 * Real.pi)))) := by
    refine .step (l := .sendPosition _) (.init ⟨turning 0 0, rfl⟩) ?_ rfl
    show |_| < realLibm.turn
    rw [realLibm.turn_eq, hinc, abs_neg, abs_of_pos (by linarith)]
    show 3 / 2 * Real.pi < 2 * Real.pi
    linarith
  have hle : Odometry.wrap realLibm (0 + Odometry.increment (turning 1 (-(3 / 2 * Real.pi)))
      (Odometry.load (turning 0 0))) ≤ Real.pi := (h _ hreach).2
  have hlow : (0 : ℝ) + Odometry.increment (turning 1 (-(3 / 2 * Real.pi)))
      (Odometry.load (turning 0 0)) < -realLibm.M_PI := by
    rw [hinc]
    show 0 + -(3 / 2 * Real.pi) < -Real.pi
    linarith
  exact absurd hle (not_le.mpr (Odometry.lt_wrap_of_lt hpi hlow))

end GazeboRcll
