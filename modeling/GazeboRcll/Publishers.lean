import GazeboRcll.Library.Throttle
import GazeboRcll.Mps.Geometry
import Mathlib.Algebra.Order.Floor.Defs
import Mathlib.Data.Rat.Floor

/-!
# Plugins that publish in intervals

`Gps`, `Gyro` and `TimesyncPlugin` send at an update that is later than the last sending by an
interval. They keep the time of the last sending when the world is reset and the simulation
time starts at zero again, so that they send nothing for as long as the time before the reset
has lasted (`publishers_prompt_iff`).

Numbers are exact, in an ordered field.
-/

namespace GazeboRcll

/-- A quaternion. -/
structure Orientation (K : Type) where
  x : K
  y : K
  z : K
  w : K
deriving DecidableEq, Repr

/-! ## `Gps` -/

/-- What the plugin asks of Gazebo. -/
structure GpsWorld (K : Type) where
  simTime : K
  /-- The pose of the model. -/
  position : Vec K
  orientation : Orientation K
  /-- `HasConnections` of the two publishers. -/
  gpsConnected : Bool
  gpsWorldConnected : Bool

/-- The message `Pose`. -/
structure GpsMsg (K : Type) where
  name : String
  position : Vec K
  orientation : Orientation K

/-- The members of `Gps` apart from the time, and what it published, oldest first. -/
structure GpsMembers (K : Type) where
  name : String
  publishWorldNode : Bool
  gpsPub : List (GpsMsg K)
  gpsWorldPub : List (GpsMsg K)

namespace Gps

variable {K : Type}

/-- `Gps::Load`. -/
def load (name : String) (publishWorldNode : Bool) (w : GpsWorld K) :
    Throttle K (GpsMembers K) where
  last := w.simTime
  rest := ⟨name, publishWorldNode, [], []⟩

/-- `Gps::send_position`. -/
def sendPosition (w : GpsWorld K) (gps : GpsMembers K) : GpsMembers K :=
  let posMsg := ⟨gps.name, w.position, w.orientation⟩
  { gps with
    gpsPub := if w.gpsConnected then gps.gpsPub ++ [posMsg] else gps.gpsPub
    gpsWorldPub := if gps.publishWorldNode && w.gpsWorldConnected then gps.gpsWorldPub ++ [posMsg]
      else gps.gpsWorldPub }

/-- `Gps::Reset`. -/
def reset (p : Throttle K (GpsMembers K)) : Throttle K (GpsMembers K) := p

variable [Field K] [LinearOrder K]

/-- `Gps::OnUpdate`. -/
def onUpdate (w : GpsWorld K) (p : Throttle K (GpsMembers K)) : Throttle K (GpsMembers K) :=
  p.update (1 / 10 : ℚ) w.simTime (sendPosition w)

/-- The plugin from its loading on. -/
def system (name : String) (publishWorldNode : Bool) :
    LTS (Throttle K (GpsMembers K)) (Throttle.Event (GpsWorld K)) where
  init p := ∃ w, p = load name publishWorldNode w
  next p
    | .update w => some (onUpdate w p)
    | .restart => some (reset p)

end Gps

/-! ## `Gyro` -/

/-- What the plugin asks of Gazebo. -/
structure GyroWorld (K : Type) where
  simTime : K
  /-- The rotation of the model. -/
  roll : K
  pitch : K
  yaw : K
  /-- `gyro_pub_->HasConnections()`. -/
  hasConnections : Bool

/-- The members of `Gyro` apart from the times: what it published, oldest first. -/
structure GyroMembers (K : Type) where
  gyroPub : List (Vec K)

namespace Gyro

variable {K : Type}

/-- `Gyro::Load`. -/
def load (w : GyroWorld K) : Throttle K (GyroMembers K) where
  last := w.simTime
  rest := ⟨[]⟩

/-- `send_interval_`. -/
def sendInterval : ℚ := 5 / 100

/-- `Gyro::send_gyro`. -/
def sendGyro (w : GyroWorld K) (gyro : GyroMembers K) : GyroMembers K :=
  if w.hasConnections then { gyroPub := gyro.gyroPub ++ [⟨w.roll, w.pitch, w.yaw⟩] } else gyro

/-- `Gyro::Reset`. -/
def reset (p : Throttle K (GyroMembers K)) : Throttle K (GyroMembers K) := p

variable [Field K] [LinearOrder K]

/-- `Gyro::OnUpdate`. -/
def onUpdate (w : GyroWorld K) (p : Throttle K (GyroMembers K)) : Throttle K (GyroMembers K) :=
  p.update sendInterval w.simTime (sendGyro w)

/-- The plugin from its loading on. -/
def system : LTS (Throttle K (GyroMembers K)) (Throttle.Event (GyroWorld K)) where
  init p := ∃ w, p = load w
  next p
    | .update w => some (onUpdate w p)
    | .restart => some (reset p)

end Gyro

/-! ## `TimesyncPlugin` -/

/-- What the plugin asks of Gazebo. -/
structure TimesyncWorld (K : Type) where
  simTime : K
  realTime : K
  running : Bool

/-- The message `SimTime`. -/
structure SimTimeMsg (K : Type) where
  simTimeSec : ℤ
  simTimeNsec : ℤ
  realTimeFactor : K
  paused : Bool

/-- The members of `TimesyncPlugin` apart from the time of the last sending, and what it
published, oldest first. -/
structure TimesyncMembers (K : Type) where
  lastRealTime : K
  lastSimTime : K
  timeSyncPub : List (SimTimeMsg K)

namespace TimesyncPlugin

variable {K : Type}

/-- `time_sync_frequency_`. -/
def timeSyncFrequency : ℚ := 4

variable [Field K]

/-- The constructor and `TimesyncPlugin::Load`. -/
def load (w : TimesyncWorld K) : Throttle K (TimesyncMembers K) where
  last := w.simTime
  rest := ⟨0, 0, []⟩

variable [LinearOrder K] [FloorRing K]

/-- The conversion to an integer. -/
def truncate (x : K) : ℤ := if 0 ≤ x then ⌊x⌋ else ⌈x⌉

/-- `TimesyncPlugin::send_time_sync`. A quotient by zero, which is no number in the source, is
zero. -/
def sendTimeSync (w : TimesyncWorld K) (timesync : TimesyncMembers K) : TimesyncMembers K where
  lastRealTime := w.realTime
  lastSimTime := w.simTime
  timeSyncPub := timesync.timeSyncPub ++
    [{ simTimeSec := truncate w.simTime
       simTimeNsec := truncate ((w.simTime - truncate w.simTime) * (1000000000 : ℚ))
       realTimeFactor :=
         (w.simTime - timesync.lastSimTime) / (w.realTime - timesync.lastRealTime)
       paused := !w.running }]

/-- `TimesyncPlugin::Update`. -/
def update (w : TimesyncWorld K) (p : Throttle K (TimesyncMembers K)) :
    Throttle K (TimesyncMembers K) :=
  p.update (1 / timeSyncFrequency : ℚ) w.simTime (sendTimeSync w)

/-- The plugin from its loading on. It does not override `Reset`. -/
def system : LTS (Throttle K (TimesyncMembers K)) (Throttle.Event (TimesyncWorld K)) where
  init p := ∃ w, p = load w
  next p
    | .update w => some (update w p)
    | .restart => some p

end TimesyncPlugin

/-! ## Runs with resets -/

section

variable {K : Type} [Field K] [LinearOrder K]

theorem Gps.throttles (name : String) (publishWorldNode : Bool) :
    Throttle.Throttles (Gps.system (K := K) name publishWorldNode) (1 / 10 : ℚ)
      GpsWorld.simTime where
  update _ w _ h := ⟨sendPosition w, (Option.some.inj h).symm⟩
  restart _ _ h := congrArg Throttle.last (Option.some.inj h).symm

theorem Gyro.throttles :
    Throttle.Throttles (Gyro.system (K := K)) sendInterval GyroWorld.simTime where
  update _ w _ h := ⟨sendGyro w, (Option.some.inj h).symm⟩
  restart _ _ h := congrArg Throttle.last (Option.some.inj h).symm

theorem TimesyncPlugin.throttles [FloorRing K] :
    Throttle.Throttles (TimesyncPlugin.system (K := K)) (1 / timeSyncFrequency : ℚ)
      TimesyncWorld.simTime where
  update _ w _ h := ⟨sendTimeSync w, (Option.some.inj h).symm⟩
  restart _ _ h := congrArg Throttle.last (Option.some.inj h).symm

/-- With all three plugins, runs of timely updates send whatever is due, and one more event
leaves this so exactly if it is timely. -/
theorem publishers_prompt_iff [FloorRing K] :
    (∀ name publishWorldNode, Throttle.PromptIffTimely
        (Gps.system (K := K) name publishWorldNode) (1 / 10 : ℚ) GpsWorld.simTime) ∧
      Throttle.PromptIffTimely (Gyro.system (K := K)) (5 / 100 : ℚ) GyroWorld.simTime ∧
      Throttle.PromptIffTimely (TimesyncPlugin.system (K := K)) (1 / 4 : ℚ)
        TimesyncWorld.simTime := by
  refine ⟨fun name publishWorldNode => ?_, ?_, ?_⟩
  · exact Throttle.prompt_iff_timely (Gps.throttles name publishWorldNode)
  · exact Throttle.prompt_iff_timely Gyro.throttles
  · exact Throttle.prompt_iff_timely TimesyncPlugin.throttles

end

/-! ## A reset -/

/-- A robot at the origin of the field. -/
def gpsWorld (time : ℚ) : GpsWorld ℚ := ⟨time, ⟨0, 0, 0⟩, ⟨0, 0, 0, 1⟩, true, false⟩

/-- A second after the time of the last sending the position is sent again, with a reset in
between. -/
theorem publishers_prompt_iff_gps :
    ∃ p log, ((Gps.system "robotino1" false).watch
        (Throttle.monitor (1 / 10 : ℚ) GpsWorld.simTime)).Reach
          (Throttle.Timely (1 / 10) GpsWorld.simTime) (p, log) ∧
      log.ticks.length = 2 ∧ ∀ u ∈ log.ticks, u.Prompt (1 / 10) := by
  obtain ⟨⟨p, log⟩, hreach, hticks⟩ := LTS.exists_reach
    (T := (Gps.system "robotino1" false).watch
      (Throttle.monitor (1 / 10 : ℚ) GpsWorld.simTime))
    (C := Throttle.Timely (1 / 10) GpsWorld.simTime)
    (s := (Gps.load "robotino1" false (gpsWorld 0), ⟨0, 0, [], []⟩))
    (l := [.update (gpsWorld 10), .restart, .update (gpsWorld 11)])
    (p := fun p => p.2.ticks.length == 2)
    ⟨⟨gpsWorld 0, rfl⟩, rfl⟩ (by decide +kernel) (by decide +kernel)
  have hprompt := (publishers_prompt_iff (K := ℚ)).1 "robotino1" false p log hreach
  exact ⟨p, log, hreach, beq_iff_eq.mp hticks, hprompt.1⟩

/-- Ten seconds after the start the position is sent, and not again a second after a reset. -/
theorem gps_silent_after_reset :
    ¬ ∀ p log,
      ((Gps.system "robotino1" false).watch
        (Throttle.monitor (1 / 10 : ℚ) GpsWorld.simTime)).Reach
          (Throttle.Increasing GpsWorld.simTime) (p, log) →
        ∀ u ∈ log.ticks, u.Prompt (1 / 10) := by
  intro h
  obtain ⟨⟨p, log⟩, hreach, hsilent⟩ := LTS.exists_reach
    (T := (Gps.system "robotino1" false).watch
      (Throttle.monitor (1 / 10 : ℚ) GpsWorld.simTime))
    (C := Throttle.Increasing GpsWorld.simTime)
    (s := (Gps.load "robotino1" false (gpsWorld 0), ⟨0, 0, [], []⟩))
    (l := [.update (gpsWorld 10), .restart, .update (gpsWorld 1)])
    (p := fun p => p.2.ticks.any fun u => u.sends.isEmpty && decide (1 / 10 < u.time) && !u.sent)
    ⟨⟨gpsWorld 0, rfl⟩, rfl⟩ (by decide +kernel) (by decide +kernel)
  obtain ⟨u, hu, htick⟩ := List.any_eq_true.mp hsilent
  simp only [Bool.and_eq_true, List.isEmpty_iff, decide_eq_true_eq, Bool.not_eq_true'] at htick
  obtain ⟨⟨hsends, htime⟩, hsent⟩ := htick
  have hdue : u.Due (1 / 10) := ⟨htime, by simp [hsends]⟩
  rw [h p log hreach u hu hdue] at hsent
  cases hsent

end GazeboRcll
