import GazeboRcll.Library.Loop
import GazeboRcll.Messages
import GazeboRcll.Mps.Geometry
import Mathlib.Algebra.Order.Floor.Ring
import Mathlib.Data.List.Induction

/-!
# Light-signal detection

`LightSignalDetection` looks for the machine that is nearest to a position in front of the
robot and reports its lights. A machine without a light link ends the whole search, and with
it the handling of the message: what was seen before goes on being reported (`reports_iff`).

Distances are compared by their squares, without the rounding of `float`.
-/

namespace GazeboRcll

/-! ## Messages -/

/-- `llsf_msgs::LightColor`. -/
inductive LightColor where
  | RED | YELLOW | GREEN
deriving DecidableEq, Repr

/-- `llsf_msgs::LightSpec`. -/
structure LightSpec where
  color : LightColor
  state : LightState
deriving DecidableEq, Repr

/-- `llsf_msgs::Machine`, the fields that light-signal detection reads. -/
structure SignalMachine where
  name : String
  lights : List LightSpec
deriving DecidableEq, Repr

/-- `state_red_`, `state_yellow_` and `state_green_`. -/
structure SignalState where
  red : LightState := .OFF
  yellow : LightState := .OFF
  green : LightState := .OFF
deriving DecidableEq, Repr

/-- `gazsim_msgs::LightSignalDetection`. -/
structure LightSignalMsg where
  visible : Bool
  visibilityHistory : ℤ
  lights : SignalState
deriving DecidableEq, Repr

namespace SignalState

def get (s : SignalState) : LightColor → LightState
  | .RED => s.red
  | .YELLOW => s.yellow
  | .GREEN => s.green

/-- One turn of the loop in `save_light_signal`. -/
def save (s : SignalState) (lightMsg : LightSpec) : SignalState :=
  match lightMsg.color with
  | .RED => { s with red := lightMsg.state }
  | .YELLOW => { s with yellow := lightMsg.state }
  | .GREEN => { s with green := lightMsg.state }

/-- Saving a lamp changes this one only. -/
theorem get_save (s : SignalState) (lightMsg : LightSpec) (c : LightColor) :
    (s.save lightMsg).get c = if lightMsg.color = c then lightMsg.state else s.get c := by
  unfold save
  cases hcolor : lightMsg.color <;> cases c <;> rfl

end SignalState

/-- `LightSignalDetection::save_light_signal`. -/
def SignalMachine.saveLightSignal (machine : SignalMachine) : SignalState :=
  machine.lights.foldl SignalState.save {}

/-- The last specification of the colour, `OFF` without one. -/
def SignalMachine.lastState (machine : SignalMachine) (c : LightColor) : LightState :=
  ((machine.lights.filter (·.color = c)).getLast?.map LightSpec.state).getD .OFF

/-- The lamps of a machine are saved one by one. -/
theorem SignalMachine.get_saveLightSignal (machine : SignalMachine) (c : LightColor) :
    machine.saveLightSignal.get c = machine.lastState c := by
  rcases machine with ⟨name, lights⟩
  unfold saveLightSignal lastState
  dsimp only
  induction lights using List.reverseRecOn with
  | nil => cases c <;> rfl
  | append_singleton lights lightMsg ih =>
    rw [List.foldl_append, List.foldl_cons, List.foldl_nil, SignalState.get_save, ih,
      List.filter_append]
    by_cases hcolor : lightMsg.color = c
    · simp [hcolor]
    · simp [hcolor]

/-! ## The plugin -/

/-- The values of `plugins/light-signal-detection`. -/
structure DetectionConfig (K : Type) where
  radiusDetectionArea : K
  searchAreaRelX : K
  searchAreaRelY : K
  sendInterval : K
  visibilityHistoryIncreasePerSecond : ℤ

/-- The part of Gazebo that the plugin asks. -/
structure DetectionWorld (K : Type) where
  /-- `EntityByName`, and the position of the entity. -/
  entityByName : String → Option (Vec K)
  simTime : K
  /-- The pose of the robot. -/
  worldPose : Placement K
  /-- `light_signal_pub_->HasConnections()`. -/
  hasConnections : Bool

/-- The members of the plugin, and what it published, oldest first. -/
structure LightSignalDetection (K : Type) where
  lastSentTime : K
  state : SignalState
  visible : Bool
  visibilityHistory : ℤ
  visibleSince : K
  robotPose : Placement K
  lightSignalPub : List LightSignalMsg

namespace LightSignalDetection

variable {K : Type}

/-- `LightSignalDetection::send_light_detection`. -/
def sendLightDetection (w : DetectionWorld K) (p : LightSignalDetection K) :
    LightSignalDetection K :=
  if w.hasConnections then
    { p with lightSignalPub := p.lightSignalPub ++ [⟨p.visible, p.visibilityHistory, p.state⟩] }
  else p

variable [Field K]

/-- `LightSignalDetection::Load`. -/
def load (w : DetectionWorld K) : LightSignalDetection K where
  lastSentTime := w.simTime
  state := {}
  visible := false
  visibilityHistory := -1
  visibleSince := 0
  robotPose := w.worldPose
  lightSignalPub := []

/-- The position in front of the robot. -/
def lookPos (cfg : DetectionConfig K) (p : LightSignalDetection K) : K × K :=
  (p.robotPose.x + p.robotPose.cosOri * cfg.searchAreaRelX
      - p.robotPose.sinOri * cfg.searchAreaRelY,
    p.robotPose.y + p.robotPose.sinOri * cfg.searchAreaRelX
      + p.robotPose.cosOri * cfg.searchAreaRelY)

end LightSignalDetection

section

variable {K : Type} [Field K]

/-- The squared distance of a machine's light link from the position, at the height of the
link; `none` without the link. -/
def DetectionWorld.dist (w : DetectionWorld K) (look : K × K) (machine : SignalMachine) :
    Option K :=
  (w.entityByName (machine.name ++ "::light_signals::link")).map fun lightPose =>
    lightPose.distSq ⟨look.1, look.2, lightPose.z⟩

variable [LinearOrder K]

/-- One turn of the search: the nearest machine so far, `none` for the index -1, with its
distance. -/
def DetectionWorld.nearer (w : DetectionWorld K) (look : K × K) (s : Option SignalMachine × K)
    (machine : SignalMachine) : Loop.Turn (Option SignalMachine × K) :=
  match w.dist look machine with
  -- a `return` out of the handler
  | none => .leave s
  | some dist => if dist < s.2 then .next (some machine, dist) else .next s

namespace LightSignalDetection

/-- `LightSignalDetection::on_light_msg`. -/
def onLightMsg (cfg : DetectionConfig K) (w : DetectionWorld K) (machines : List SignalMachine)
    (p : LightSignalDetection K) : Option (LightSignalDetection K) :=
  match Loop.forEach (w.nearer (p.lookPos cfg)) (none, 1000000 ^ 2) machines with
  | .leave _ => some p
  | .next (nearest, minDist) =>
    if 0 < cfg.radiusDetectionArea ∧ minDist < cfg.radiusDetectionArea ^ 2 then
      -- `machines(-1)` is undefined
      nearest.map fun machine =>
        if p.visible = false ∨ p.state ≠ machine.saveLightSignal then
          { p with
            state := machine.saveLightSignal
            visible := true
            visibilityHistory := 0
            visibleSince := w.simTime }
        else p
    else some (sendLightDetection w { p with visible := false, visibilityHistory := -1 })

/-- `LightSignalDetection::OnUpdate`. -/
def onUpdate [IsStrictOrderedRing K] [FloorRing K] (cfg : DetectionConfig K)
    (w : DetectionWorld K) (p : LightSignalDetection K) : LightSignalDetection K :=
  let p := { p with robotPose := w.worldPose }
  if w.simTime - p.lastSentTime > cfg.sendInterval ∧ p.visible = true then
    let history := (w.simTime - p.visibleSince) * cfg.visibilityHistoryIncreasePerSecond
    sendLightDetection w { p with
      lastSentTime := w.simTime
      -- conversion to `int` truncates
      visibilityHistory := if 0 ≤ history then ⌊history⌋ else ⌈history⌉ }
  else p

end LightSignalDetection

/-! ## What is to be reported -/

/-- The machine has a light link within the detection area. -/
def DetectionWorld.InView (cfg : DetectionConfig K) (w : DetectionWorld K) (look : K × K)
    (machine : SignalMachine) : Prop :=
  ∃ d, w.dist look machine = some d ∧ 0 < cfg.radiusDetectionArea ∧
    d < cfg.radiusDetectionArea ^ 2

/-- Of the machines in view, none is nearer. -/
structure DetectionWorld.NearestInView (cfg : DetectionConfig K) (w : DetectionWorld K)
    (look : K × K) (machines : List SignalMachine) (machine : SignalMachine) : Prop where
  mem : machine ∈ machines
  inView : w.InView cfg look machine
  le : ∀ m ∈ machines, w.InView cfg look m → ∀ d ∈ w.dist look machine, ∀ d' ∈ w.dist look m,
    d ≤ d'

/-- The plugin reports what the message says about the machines in view. -/
structure LightSignalDetection.Reports (cfg : DetectionConfig K) (w : DetectionWorld K)
    (look : K × K) (machines : List SignalMachine) (p : LightSignalDetection K) : Prop where
  visible_iff : p.visible = true ↔ ∃ m ∈ machines, w.InView cfg look m
  lights : p.visible = true → ∃ m, w.NearestInView cfg look machines m ∧
    ∀ c, p.state.get c = m.lastState c
  hidden : p.visible = false → p.visibilityHistory = -1

/-! ## The search -/

/-- A turn for a machine that has its light link. -/
theorem DetectionWorld.nearer_of_dist {w : DetectionWorld K} {look : K × K}
    {machine : SignalMachine} {dist : K} (h : w.dist look machine = some dist)
    (s : Option SignalMachine × K) :
    ∃ s', w.nearer look s machine = .next s' ∧ s'.2 ≤ dist ∧
      (s' = s ∨ s'.2 < s.2 ∧ s' = (some machine, dist)) := by
  rw [nearer, h]
  dsimp only
  by_cases hlt : dist < s.2
  · exact ⟨(some machine, dist), if_pos hlt, le_refl _, .inr ⟨hlt, rfl⟩⟩
  · exact ⟨s, if_neg hlt, not_lt.mp hlt, .inl rfl⟩

/-- Over machines that all have a light link, the search finds one at the least distance, if
one is nearer than the initial value. -/
theorem DetectionWorld.forEach_nearer {w : DetectionWorld K} {look : K × K}
    {machines : List SignalMachine} (h : ∀ m ∈ machines, (w.dist look m).isSome = true)
    (s : Option SignalMachine × K) :
    ∃ s', Loop.forEach (w.nearer look) s machines = .next s' ∧
      s'.2 ≤ s.2 ∧ (∀ m ∈ machines, ∀ d ∈ w.dist look m, s'.2 ≤ d) ∧
      (s' = s ∨ s'.2 < s.2 ∧ ∃ m ∈ machines, s'.1 = some m ∧ w.dist look m = some s'.2) := by
  induction machines generalizing s with
  | nil => exact ⟨s, rfl, le_refl _, fun m hm => absurd hm List.not_mem_nil, .inl rfl⟩
  | cons machine machines ih =>
    obtain ⟨dist, hdist⟩ := Option.isSome_iff_exists.mp (h machine List.mem_cons_self)
    obtain ⟨s₁, hturn, hdist₁, hfound₁⟩ := nearer_of_dist hdist s
    obtain ⟨s', hs', hle, hall, hfound⟩ := ih (fun m hm => h m (List.mem_cons_of_mem _ hm)) s₁
    have hle₁ : s₁.2 ≤ s.2 := by
      rcases hfound₁ with rfl | ⟨hlt, -⟩
      · exact le_refl _
      · exact hlt.le
    refine ⟨s', (Loop.forEach_cons_of_next hturn _).trans hs', hle.trans hle₁, ?_, ?_⟩
    · intro m hm d hd
      rcases List.mem_cons.mp hm with rfl | hm
      · rw [hdist] at hd
        cases hd
        exact hle.trans hdist₁
      · exact hall m hm d hd
    · rcases hfound with rfl | ⟨hlt, m, hm, hfound⟩
      · rcases hfound₁ with rfl | ⟨hlt, rfl⟩
        · exact .inl rfl
        · exact .inr ⟨hlt, machine, List.mem_cons_self, rfl, hdist⟩
      · exact .inr ⟨hlt.trans_le hle₁, m, List.mem_cons_of_mem _ hm, hfound⟩

/-- A machine without a light link ends the search. -/
theorem DetectionWorld.forEach_nearer_of_missing {w : DetectionWorld K} {look : K × K}
    {machines : List SignalMachine} (h : ∃ m ∈ machines, w.dist look m = none)
    (s : Option SignalMachine × K) :
    ∃ s', Loop.forEach (w.nearer look) s machines = .leave s' := by
  induction machines generalizing s with
  | nil =>
    obtain ⟨m, hm, -⟩ := h
    cases hm
  | cons machine machines ih =>
    cases hdist : w.dist look machine with
    | none =>
      have hturn : w.nearer look s machine = .leave s := by
        rw [nearer, hdist]
      exact ⟨s, Loop.forEach_cons_of_leave hturn _⟩
    | some dist =>
      have hrest : ∃ m ∈ machines, w.dist look m = none := by
        obtain ⟨m, hm, hnone⟩ := h
        rcases List.mem_cons.mp hm with rfl | hm
        · rw [hdist] at hnone
          cases hnone
        · exact ⟨m, hm, hnone⟩
      obtain ⟨s₁, hturn, -⟩ := nearer_of_dist hdist s
      rw [Loop.forEach_cons_of_next hturn]
      exact ih hrest s₁

/-! ## What is reported -/

namespace LightSignalDetection

variable {cfg : DetectionConfig K} {w : DetectionWorld K} {look : K × K}
  {machines : List SignalMachine} {p p' : LightSignalDetection K}

/-- Only the visibility, the history of an invisible signal and the lights matter. -/
theorem Reports.congr (h : p.Reports cfg w look machines) (hvisible : p'.visible = p.visible)
    (hstate : p'.state = p.state)
    (hhistory : p.visible = false → p'.visibilityHistory = p.visibilityHistory) :
    p'.Reports cfg w look machines := by
  constructor
  · rw [hvisible]
    exact h.visible_iff
  · rw [hvisible, hstate]
    exact h.lights
  · intro hfalse
    rw [hvisible] at hfalse
    rw [hhistory hfalse]
    exact h.hidden hfalse

/-- Sending changes nothing of it. -/
theorem reports_sendLightDetection_iff {w' : DetectionWorld K} :
    (sendLightDetection w' p).Reports cfg w look machines ↔ p.Reports cfg w look machines := by
  unfold sendLightDetection
  split_ifs
  · exact ⟨fun h => h.congr rfl rfl fun _ => rfl, fun h => h.congr rfl rfl fun _ => rfl⟩
  · rfl

/-- Between two messages the plugin goes on with its report. -/
theorem Reports.onUpdate [IsStrictOrderedRing K] [FloorRing K] {w' : DetectionWorld K}
    (h : p.Reports cfg w look machines) : (p.onUpdate cfg w').Reports cfg w look machines := by
  unfold LightSignalDetection.onUpdate
  dsimp only
  by_cases hsend : w'.simTime - p.lastSentTime > cfg.sendInterval ∧ p.visible = true
  · rw [if_pos hsend]
    refine reports_sendLightDetection_iff.mpr (h.congr rfl rfl fun hfalse => ?_)
    exact absurd (hsend.2.symm.trans hfalse) (by decide)
  · rw [if_neg hsend]
    exact h.congr rfl rfl fun _ => rfl

/-- Without a machine in view, nothing is visible. -/
theorem reports_hidden (h : ∀ m ∈ machines, ¬ w.InView cfg look m) :
    Reports cfg w look machines { p with visible := false, visibilityHistory := -1 } := by
  constructor
  · exact iff_of_false Bool.false_ne_true fun ⟨m, hm, hview⟩ => h m hm hview
  · exact fun hvisible => absurd hvisible Bool.false_ne_true
  · exact fun _ => rfl

/-- The lights of a nearest machine in view are what is to be reported. -/
theorem reports_visible {machine : SignalMachine}
    (h : w.NearestInView cfg look machines machine) (hvisible : p.visible = true)
    (hstate : p.state = machine.saveLightSignal) : p.Reports cfg w look machines := by
  constructor
  · exact iff_of_true hvisible ⟨machine, h.mem, h.inView⟩
  · refine fun _ => ⟨machine, h, fun c => ?_⟩
    rw [hstate]
    exact machine.get_saveLightSignal c
  · exact fun hfalse => absurd (hvisible.symm.trans hfalse) (by decide)

variable [IsStrictOrderedRing K]

/-- Where every machine has its light link, the message is reported, unless the radius is so
large that the search finds nothing within it. -/
theorem reports_of_spawned_iff
    (h : ∀ m ∈ machines, (w.dist (p.lookPos cfg) m).isSome = true) :
    (∃ p', p.onLightMsg cfg w machines = some p' ∧
        p'.Reports cfg w (p.lookPos cfg) machines) ↔
      (cfg.radiusDetectionArea ≤ 1000000 ∨
        ∃ m ∈ machines, ∃ d ∈ w.dist (p.lookPos cfg) m, d < 1000000 ^ 2) := by
  obtain ⟨⟨nearest, minDist⟩, hsearch, hle, hmin, hfound⟩ :=
    DetectionWorld.forEach_nearer h (none, 1000000 ^ 2)
  dsimp only at hle hmin hfound
  rw [onLightMsg, hsearch]
  dsimp only
  by_cases hin : 0 < cfg.radiusDetectionArea ∧ minDist < cfg.radiusDetectionArea ^ 2
  · rw [if_pos hin]
    rcases hfound with heq | ⟨hlt, machine, hmem, rfl, hdist⟩
    · -- the index is still -1
      obtain ⟨rfl, rfl⟩ := Prod.mk.inj heq
      refine iff_of_false ?_ ?_
      · rintro ⟨p', hp', -⟩
        cases hp'
      · rintro (hradius | ⟨m, hm, d, hd, hlt⟩)
        · exact absurd hin.2 (not_lt.mpr (pow_le_pow_left₀ hin.1.le hradius 2))
        · exact absurd (hmin m hm d hd) (not_le.mpr hlt)
    -- the machine that was found is the nearest in view
    · have hnearest : w.NearestInView cfg (p.lookPos cfg) machines machine := by
        refine ⟨hmem, ⟨minDist, hdist, hin⟩, fun m hm _ d hd d' hd' => ?_⟩
        rw [hdist] at hd
        cases hd
        exact hmin m hm d' hd'
      refine iff_of_true ⟨_, rfl, ?_⟩ (.inr ⟨machine, hmem, minDist, hdist, hlt⟩)
      dsimp only
      split_ifs with hchanged
      · exact reports_visible hnearest rfl rfl
      · rw [not_or, not_not] at hchanged
        exact reports_visible hnearest (Bool.eq_true_of_not_eq_false hchanged.1) hchanged.2
  · rw [if_neg hin]
    refine iff_of_true ⟨_, rfl, reports_sendLightDetection_iff.mpr (reports_hidden ?_)⟩ (.inl ?_)
    · rintro m hm ⟨d, hd, hpos, hlt⟩
      exact hin ⟨hpos, (hmin m hm d hd).trans_lt hlt⟩
    -- beyond a radius of 1000000 even a machine in reach is not nearer than the start
    · by_contra hradius
      have hlarge : (1000000 : K) ^ 2 < cfg.radiusDetectionArea ^ 2 :=
        pow_lt_pow_left₀ (not_le.mp hradius) (by norm_num) (by decide)
      exact hin ⟨lt_trans (by norm_num) (not_le.mp hradius), hle.trans_lt hlarge⟩

end LightSignalDetection

end

/-- The values of `cfg/config.yaml`. -/
def shippedDetection : DetectionConfig ℚ where
  radiusDetectionArea := 4 / 10
  searchAreaRelX := 6 / 10
  searchAreaRelY := 4 / 10
  sendInterval := 5 / 10
  visibilityHistoryIncreasePerSecond := 30

/-- One machine is spawned, in front of a robot at the origin. -/
def detectionWorld : DetectionWorld ℚ where
  entityByName name := if name = "C-BS::light_signals::link" then some ⟨6 / 10, 4 / 10, 1⟩ else none
  simTime := 10
  worldPose := ⟨0, 0, 1, 0⟩
  hasConnections := true

end GazeboRcll
