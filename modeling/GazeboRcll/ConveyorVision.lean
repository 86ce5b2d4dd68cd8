import GazeboRcll.Library.Strings
import GazeboRcll.Mps.Runs
import GazeboRcll.Mps.Slide
import Mathlib.Tactic.LinearCombination

/-!
# The conveyor as the robot sees it

`ConveyorVision` computes from the pose of a machine where its conveyor and its slide are,
with formulas of its own, and sends both poses relative to the robot. The places of the
conveyor are the machine's (`conveyor_agrees`). The slide is taken to be at the height of the
belt, while the ring station looks for it at the height of the machine, and as long as the
camera looks at the output the pose sent for it is the robot's own (`slide_shown_iff`).
-/

namespace GazeboRcll

/-! ## Poses -/

/-- A pose in the world. -/
structure Pose3d (K Rot : Type) where
  pos : Vec K
  rot : Rot
deriving DecidableEq, Repr

/-- What is used of the mathematical library; a rotation is whatever it takes for one. -/
structure PoseMath (K Rot : Type) where
  /-- The rotation by no angle. -/
  identity : Rot
  /-- `Quaterniond(0, 0, IGN_PI_2)`. -/
  yawCorrection : Rot
  coordRotationAdd : Rot → Rot → Rot
  coordRotationSub : Rot → Rot → Rot
  /-- The operator `-` of `Pose3d`. -/
  sub : Pose3d K Rot → Pose3d K Rot → Pose3d K Rot

/-- `Pose3d(0, 0, 0, 0, 0, 0)`. -/
def PoseMath.zero {K Rot : Type} [Zero K] (ign : PoseMath K Rot) : Pose3d K Rot :=
  ⟨⟨0, 0, 0⟩, ign.identity⟩

/-- A difference is the first pose as seen from the second: a pose seen from itself is zero,
and two poses that look the same are the same. -/
structure PoseMath.Relative {K Rot : Type} [Zero K] (ign : PoseMath K Rot) : Prop where
  sub_self : ∀ a, ign.sub a a = ign.zero
  sub_injective : ∀ b, Function.Injective fun a => ign.sub a b

/-! ## The plugin -/

/-- The configuration of `ConveyorVision`, beside that of the machines. -/
structure VisionConfig (K : Type) extends SlideConfig K where
  slideOffsetSide : K
  radiusDetectionArea : K
  searchAreaRelX : K
  searchAreaRelY : K

/-- A link or a model, with cosine and sine of its yaw. -/
structure Body (K Rot : Type) where
  pose : Pose3d K Rot
  cosYaw : K
  sinYaw : K

/-- Where a model stands. -/
def Body.placement {K Rot : Type} (b : Body K Rot) : Placement K :=
  ⟨b.pose.pos.x, b.pose.pos.y, b.cosYaw, b.sinYaw⟩

structure NamedBody (K Rot : Type) extends Body K Rot where
  name : String

/-- The part of Gazebo that the plugin asks. -/
structure VisionWorld (K Rot : Type) where
  /-- `conveyor_pub_->HasConnections()`. -/
  hasConnections : Bool
  /-- The links of the robot; `none` is the null pointer. -/
  cameraLink : Option (Body K Rot)
  baseLink : Option (Pose3d K Rot)
  models : List (NamedBody K Rot)

/-- The message `ConveyorVisionResult`. -/
structure ConveyorVisionResult (K Rot : Type) where
  conveyor : Pose3d K Rot
  slide : Option (Pose3d K Rot)

/-- `is_machine`. -/
def isMachine (name : String) : Bool :=
  ["BS", "SS", "CS", "DS", "RS"].any fun tag => (Strings.find name tag).isSome

def isRS (name : String) : Bool := (Strings.find name "RS").isSome

namespace VisionConfig

variable {K Rot : Type} [Field K] (cfg : VisionConfig K) (p : Placement K)

/-- The position in front of the camera. -/
def lookPos (camera : Body K Rot) : Vec K where
  x := camera.pose.pos.x + camera.cosYaw * cfg.searchAreaRelX - camera.sinYaw * cfg.searchAreaRelY
  y := camera.pose.pos.y + camera.sinYaw * cfg.searchAreaRelX + camera.cosYaw * cfg.searchAreaRelY
  z := cfg.beltHeight

def convInputPose : Vec K where
  x := p.x + cfg.beltOffsetSide * p.cosOri - (half cfg.beltLength - cfg.puckSize) * p.sinOri
  y := p.y + cfg.beltOffsetSide * p.sinOri + (half cfg.beltLength - cfg.puckSize) * p.cosOri
  z := cfg.beltHeight

def convOutputPose : Vec K where
  x := p.x + cfg.beltOffsetSide * p.cosOri + (half cfg.beltLength - cfg.puckSize) * p.sinOri
  y := p.y + cfg.beltOffsetSide * p.sinOri - (half cfg.beltLength - cfg.puckSize) * p.cosOri
  z := cfg.beltHeight

def slideInputPose : Vec K where
  x := p.x + (cfg.beltOffsetSide + cfg.slideOffsetSide) * p.cosOri
    - (half cfg.beltLength - cfg.puckSize) * p.sinOri
  y := p.y + (cfg.beltOffsetSide + cfg.slideOffsetSide) * p.sinOri
    + (half cfg.beltLength - cfg.puckSize) * p.cosOri
  z := cfg.beltHeight

variable [LinearOrder K]

/-- The machine is near the position in front of the camera. -/
def sees (camera : Body K Rot) (model : NamedBody K Rot) : Bool :=
  isMachine model.name && Vec.within cfg.radiusDetectionArea (cfg.lookPos camera)
    ⟨model.pose.pos.x, model.pose.pos.y, model.pose.pos.z + cfg.beltHeight⟩

/-- The camera is nearer to the input than to the output. -/
def looksAtInput (camera : Body K Rot) (model : NamedBody K Rot) : Bool :=
  decide ((cfg.convInputPose model.placement).distSq camera.pose.pos
    < (cfg.convOutputPose model.placement).distSq camera.pose.pos)

/-- The message about a machine. -/
def conveyorResult (ign : PoseMath K Rot) (camera : Body K Rot) (base : Pose3d K Rot)
    (model : NamedBody K Rot) : ConveyorVisionResult K Rot :=
  let mpsPose := model.placement
  let inputAngle := ign.coordRotationSub model.pose.rot ign.yawCorrection
  let outputAngle := ign.coordRotationAdd model.pose.rot ign.yawCorrection
  let slidePose := ⟨cfg.slideInputPose mpsPose, inputAngle⟩
  if cfg.looksAtInput camera model then
    { conveyor := ign.sub ⟨cfg.convInputPose mpsPose, inputAngle⟩ base
      slide := if isRS model.name then some (ign.sub slidePose base) else none }
  else
    { conveyor := ign.sub ⟨cfg.convOutputPose mpsPose, outputAngle⟩ base
      -- the pose of the slide is not filled in
      slide := if isRS model.name then some ign.zero else none }

/-- `ConveyorVision::send_conveyor_result`, with the message that is published. -/
def sendConveyorResult (ign : PoseMath K Rot) (w : VisionWorld K Rot) :
    Option (ConveyorVisionResult K Rot) :=
  if w.hasConnections then do
    let camera ← w.cameraLink
    let base ← w.baseLink
    let model ← w.models.find? (cfg.sees camera)
    return cfg.conveyorResult ign camera base model
  else none

end VisionConfig

/-! ## The places of the conveyor -/

section

variable {K : Type} [Field K] [LinearOrder K]

/-- `Mps::puck_in_input`, `Mps::puck_in_middle` and `Mps::puck_in_output` for a message. -/
def MpsConfig.puckInMsg (cfg : MpsConfig K) (p : Placement K) : Slot → Vec K → Bool
  | .input, pose => decide (0 < cfg.detectTolerance ∧
      (pose.x - cfg.inputX p) * (pose.x - cfg.inputX p)
        + (pose.y - cfg.inputY p) * (pose.y - cfg.inputY p)
        + (pose.z - cfg.beltHeight) * (pose.z - cfg.beltHeight) < cfg.detectTolerance ^ 2)
  | .middle, pose => Vec.within cfg.detectTolerance pose (cfg.center p .middle)
  | .output, pose => decide (0 < cfg.detectTolerance ∧
      (pose.x - cfg.outputX p) * (pose.x - cfg.outputX p)
        + (pose.y - cfg.outputY p) * (pose.y - cfg.outputY p)
        + (pose.z - cfg.beltHeight) * (pose.z - cfg.beltHeight) < cfg.detectTolerance ^ 2)

/-- A workpiece is in a slot if it is within the tolerance of its centre. -/
theorem puckInMsg_eq (cfg : MpsConfig K) (p : Placement K) (slot : Slot) (pose : Vec K) :
    cfg.puckInMsg p slot pose = Vec.within cfg.detectTolerance pose (cfg.center p slot) := by
  cases slot with
  | middle => rfl
  | _ =>
    unfold MpsConfig.puckInMsg Vec.within Vec.distSq MpsConfig.center
    simp only [sq]

/-- The message is about the first machine in front of the camera. -/
theorem sendConveyorResult_eq_some {Rot : Type} {cfg : VisionConfig K} {ign : PoseMath K Rot}
    {w : VisionWorld K Rot} {msg : ConveyorVisionResult K Rot}
    (h : cfg.sendConveyorResult ign w = some msg) :
    ∃ camera base model, w.cameraLink = some camera ∧ w.baseLink = some base ∧
      w.models.find? (cfg.sees camera) = some model ∧
      msg = cfg.conveyorResult ign camera base model := by
  unfold VisionConfig.sendConveyorResult at h
  split_ifs at h
  simp only [Option.bind_eq_bind, Option.bind_eq_some_iff, Option.pure_def] at h
  obtain ⟨camera, hcamera, base, hbase, model, hmodel, hmsg⟩ := h
  exact ⟨camera, base, model, hcamera, hbase, hmodel, (Option.some.inj hmsg).symm⟩

/-- The conveyor is that of the machine, on the side that the camera looks at. -/
theorem conveyorResult_conveyor {Rot : Type} (cfg : VisionConfig K) (ign : PoseMath K Rot)
    (camera : Body K Rot) (base : Pose3d K Rot) (model : NamedBody K Rot) :
    (cfg.conveyorResult ign camera base model).conveyor = ign.sub
      ⟨cfg.center model.placement (if cfg.looksAtInput camera model then .input else .output),
        (if cfg.looksAtInput camera model then ign.coordRotationSub else ign.coordRotationAdd)
          model.pose.rot ign.yawCorrection⟩ base := by
  unfold VisionConfig.conveyorResult
  by_cases hlook : cfg.looksAtInput camera model = true
  · simp only [if_pos hlook]
    rfl
  · simp only [if_neg hlook]
    rfl

/-- Only a ring station has a slide, and only from the input its pose is computed. -/
theorem conveyorResult_slide {Rot : Type} (cfg : VisionConfig K) (ign : PoseMath K Rot)
    (camera : Body K Rot) (base : Pose3d K Rot) (model : NamedBody K Rot) :
    (cfg.conveyorResult ign camera base model).slide =
      if isRS model.name then
        some (if cfg.looksAtInput camera model then
          ign.sub ⟨cfg.slideInputPose model.placement,
            ign.coordRotationSub model.pose.rot ign.yawCorrection⟩ base
        else ign.zero)
      else none := by
  unfold VisionConfig.conveyorResult
  by_cases hlook : cfg.looksAtInput camera model = true
  · simp only [if_pos hlook]
  · simp only [if_neg hlook]

variable [IsStrictOrderedRing K]

/-- A distance is below the tolerance. -/
theorem Vec.within_iff_lt {tolerance dist : K} {a b : Vec K} (hdist : 0 ≤ dist)
    (hsq : dist ^ 2 = a.distSq b) : Vec.within tolerance a b = true ↔ dist < tolerance := by
  rw [Vec.within, decide_eq_true_eq, ← hsq]
  constructor
  · rintro ⟨htol, hlt⟩
    exact lt_of_pow_lt_pow_left₀ 2 htol.le hlt
  · intro hlt
    exact ⟨hdist.trans_lt hlt, pow_lt_pow_left₀ hlt hdist two_ne_zero⟩

/-- The conveyor is seen where the machine has it, the other formulas of the machine give the
same places, and a workpiece moved to a slot is detected there. -/
theorem conveyor_agrees {Rot : Type} (cfg : VisionConfig K) (ign : PoseMath K Rot)
    (p : Placement K) :
    (∀ w msg, cfg.sendConveyorResult ign w = some msg →
      ∃ camera base model rot, w.cameraLink = some camera ∧ w.baseLink = some base ∧
        w.models.find? (cfg.sees camera) = some model ∧
        msg.conveyor = ign.sub
          ⟨cfg.center model.placement
            (if cfg.looksAtInput camera model then .input else .output), rot⟩ base) ∧
      cfg.convInputPose p = cfg.center p .input ∧
      cfg.convOutputPose p = cfg.center p .output ∧
      cfg.center p .middle =
        ⟨((cfg.center p .input).x + (cfg.center p .output).x) / 2,
          ((cfg.center p .input).y + (cfg.center p .output).y) / 2,
          ((cfg.center p .input).z + (cfg.center p .output).z) / 2⟩ ∧
      cfg.getPuckWorldPose p 0 0 (cfg.heightOrBelt (-1)) = cfg.center p .input ∧
      (∀ slot pose, cfg.puckInMsg p slot pose
          = Vec.within cfg.detectTolerance pose (cfg.center p slot) ∧
        ∀ dist, 0 ≤ dist → dist ^ 2 = pose.distSq (cfg.center p slot) →
          (cfg.puckInMsg p slot pose = true ↔ dist < cfg.detectTolerance)) ∧
      ∀ name sdf garbage side src dst wp (m : Mps (Vec K)), 0 < cfg.detectTolerance →
        side.route = some (src, dst) → m.wpIn src = some wp →
        ∃ m', (Mps.moveConveyor (cfg.machine p name sdf garbage) side).run handle m
            = some (m', ()) ∧
          m'.world.pose wp = cfg.center p dst ∧ m'.wpIn dst = some wp ∧
          cfg.puckInMsg p dst (m'.world.pose wp) = true ∧
          (∀ s : Mps (Vec K), s.wpIn dst = some wp →
            (s.onPuckMsg (cfg.machine p name sdf garbage) ⟨wp, m'.world.pose wp⟩).wpIn dst
              = some wp) ∧
          ∀ s : Mps (Vec K), dst = .input → s.wpIn .input = none →
            (s.onPuckMsg (cfg.machine p name sdf garbage) ⟨wp, m'.world.pose wp⟩).wpIn .input
              = s.world.modelByName wp := by
  refine ⟨?_, rfl, rfl, ?_, ?_, ?_, ?_⟩
  -- what is published is the slot's centre as seen from the base
  · intro w msg h
    obtain ⟨camera, base, model, hcamera, hbase, hmodel, rfl⟩ := sendConveyorResult_eq_some h
    exact ⟨camera, base, model, _, hcamera, hbase, hmodel, conveyorResult_conveyor ..⟩
  · simp only [MpsConfig.center, add_self_div_two]
  · simp only [MpsConfig.getPuckWorldPose, MpsConfig.center, MpsConfig.heightOrBelt, add_zero,
      if_true]
    rfl
  · intro slot pose
    refine ⟨puckInMsg_eq .., fun dist hdist hsq => ?_⟩
    rw [puckInMsg_eq, Vec.within_iff_lt hdist hsq]
  · intro name sdf garbage side src dst wp m htol hroute hwp
    -- a workpiece put on the centre is found in the slot
    have hcenter := cfg.machine_puckIn_center p name sdf garbage htol
    have hpose : (m.carried (cfg.machine p name sdf garbage) wp src dst).world.pose wp
        = cfg.center p dst := Function.update_self ..
    refine ⟨_, Mps.run_moveConveyor .., ?_⟩
    rw [moveResult_of_route hroute hwp, hpose, puckInMsg_eq]
    refine ⟨rfl, Function.update_self .., hcenter dst, fun s hs => ?_, fun s hdst hs => ?_⟩
    · exact onPuckMsg_keeps hs (hcenter dst)
    · subst hdst
      exact onPuckMsg_finds hs (hcenter .input)

/-! ## The slide -/

/-- The pose is that of a position on the slide, as seen from the robot. -/
def SlideConfig.Shows {Rot : Type} (cfg : SlideConfig K) (ign : PoseMath K Rot)
    (base : Pose3d K Rot) (p : Placement K) (pose : Pose3d K Rot) : Prop :=
  ∃ a, ign.sub a base = pose ∧ cfg.puckOnSlide p a.pos = true

omit [IsStrictOrderedRing K] in
/-- A pose as seen from the robot shows the slide if it is on the slide. -/
theorem shows_sub_iff {Rot : Type} {cfg : SlideConfig K} {ign : PoseMath K Rot}
    (hign : ign.Relative) {base a : Pose3d K Rot} {p : Placement K} :
    cfg.Shows ign base p (ign.sub a base) ↔ cfg.puckOnSlide p a.pos = true := by
  constructor
  · rintro ⟨b, heq, hb⟩
    rwa [← hign.sub_injective base heq]
  · exact fun ha => ⟨a, rfl, ha⟩

omit [IsStrictOrderedRing K] in
/-- The zero pose is that of the robot. -/
theorem shows_zero_iff {Rot : Type} {cfg : SlideConfig K} {ign : PoseMath K Rot}
    (hign : ign.Relative) {base : Pose3d K Rot} {p : Placement K} :
    cfg.Shows ign base p ign.zero ↔ cfg.puckOnSlide p base.pos = true := by
  rw [← hign.sub_self base, shows_sub_iff hign]

/-- The position that is computed differs from the slide in its height. -/
theorem puckOnSlide_slideInputPose {cfg : VisionConfig K} {p : Placement K}
    (hoffset : cfg.slideOffsetSide = -1 / 4) :
    cfg.puckOnSlide p (cfg.slideInputPose p) = true ↔
      |cfg.beltHeight - cfg.heightOrBelt cfg.mpsHeight| < cfg.detectTolerance := by
  have hdist : (cfg.slideInputPose p).distSq (cfg.addBasePose p)
      = |cfg.beltHeight - cfg.heightOrBelt cfg.mpsHeight| ^ 2 := by
    unfold VisionConfig.slideInputPose SlideConfig.addBasePose MpsConfig.getPuckWorldPose
      Vec.distSq half
    rw [hoffset, sq_abs]
    ring
  exact Vec.within_iff_lt (abs_nonneg _) hdist.symm

/-- The pose sent for the slide shows it if the camera looks at the input and the heights of
belt and slide are close, or else if the robot itself stands on the slide. -/
theorem slide_shown_iff {Rot : Type} (cfg : VisionConfig K) (ign : PoseMath K Rot)
    (hign : ign.Relative) (hoffset : cfg.slideOffsetSide = -1 / 4) (w : VisionWorld K Rot)
    (msg : ConveyorVisionResult K Rot) (slide : Pose3d K Rot)
    (hmsg : cfg.sendConveyorResult ign w = some msg) (hslide : msg.slide = some slide) :
    ∃ camera base model, w.cameraLink = some camera ∧ w.baseLink = some base ∧
      w.models.find? (cfg.sees camera) = some model ∧ isRS model.name = true ∧
      (cfg.Shows ign base model.placement slide ↔
        if cfg.looksAtInput camera model then
          |cfg.beltHeight - cfg.heightOrBelt cfg.mpsHeight| < cfg.detectTolerance
        else cfg.puckOnSlide model.placement base.pos = true) := by
  obtain ⟨camera, base, model, hcamera, hbase, hmodel, rfl⟩ := sendConveyorResult_eq_some hmsg
  rw [conveyorResult_slide] at hslide
  by_cases hRS : isRS model.name = true
  · rw [if_pos hRS] at hslide
    obtain rfl := Option.some.inj hslide
    refine ⟨camera, base, model, hcamera, hbase, hmodel, hRS, ?_⟩
    by_cases hlook : cfg.looksAtInput camera model = true
    · rw [if_pos hlook, if_pos hlook, shows_sub_iff hign]
      exact puckOnSlide_slideInputPose hoffset
    · rw [if_neg hlook, if_neg hlook, shows_zero_iff hign]
  · rw [if_neg hRS] at hslide
    cases hslide

end

/-! ## A robot in front of a ring station -/

/-- A rotation about the vertical axis. -/
@[ext] structure Turn where
  cos : ℚ
  sin : ℚ
  unit : cos ^ 2 + sin ^ 2 = 1

/-- Both rotations, one after the other. -/
def Turn.add (a b : Turn) : Turn where
  cos := a.cos * b.cos - a.sin * b.sin
  sin := a.cos * b.sin + a.sin * b.cos
  unit := by linear_combination (b.cos ^ 2 + b.sin ^ 2) * a.unit + b.unit

/-- The rotation in the other direction. -/
def Turn.neg (a : Turn) : Turn where
  cos := a.cos
  sin := -a.sin
  unit := by linear_combination a.unit

/-- Poses that are rotated about the vertical axis only. -/
def planar : PoseMath ℚ Turn where
  identity := ⟨1, 0, by decide +kernel⟩
  yawCorrection := ⟨0, 1, by decide +kernel⟩
  coordRotationAdd a b := b.add a
  coordRotationSub a b := b.neg.add a
  sub a b :=
    { pos :=
        { x := b.rot.cos * (a.pos.x - b.pos.x) + b.rot.sin * (a.pos.y - b.pos.y)
          y := -b.rot.sin * (a.pos.x - b.pos.x) + b.rot.cos * (a.pos.y - b.pos.y)
          z := a.pos.z - b.pos.z }
      rot := b.rot.neg.add a.rot }

/-- A rotation can be taken back. -/
theorem planar_sub_injective (b : Pose3d ℚ Turn) :
    Function.Injective fun a => planar.sub a b := by
  rintro ⟨⟨x, y, z⟩, r⟩ ⟨⟨x', y', z'⟩, r'⟩ heq
  simp only [planar, Turn.add, Turn.neg, Pose3d.mk.injEq, Vec.mk.injEq, Turn.mk.injEq] at heq
  obtain ⟨⟨hx, hy, hz⟩, hcos, hsin⟩ := heq
  have hunit := b.rot.unit
  congr 1
  · ext
    · linear_combination b.rot.cos * hx - b.rot.sin * hy - (x - x') * hunit
    · linear_combination b.rot.sin * hx + b.rot.cos * hy - (y - y') * hunit
    · linear_combination hz
  · ext
    · linear_combination b.rot.cos * hcos - b.rot.sin * hsin - (r.cos - r'.cos) * hunit
    · linear_combination b.rot.sin * hcos + b.rot.cos * hsin - (r.sin - r'.sin) * hunit

theorem planar_relative : planar.Relative where
  sub_self a := by
    have hunit := a.rot.unit
    simp only [planar, PoseMath.zero, Turn.add, Turn.neg, Pose3d.mk.injEq, Vec.mk.injEq,
      Turn.mk.injEq]
    refine ⟨⟨by ring, by ring, by ring⟩, by linear_combination hunit, by ring⟩
  sub_injective := planar_sub_injective

/-- The values of `cfg/config.yaml`. -/
def shippedVision : VisionConfig ℚ :=
  { shippedSlide with
    slideOffsetSide := -25 / 100
    radiusDetectionArea := 4 / 10
    searchAreaRelX := 4 / 10
    searchAreaRelY := 0 }

/-- A ring station at the origin of the field, facing along the x axis. -/
def ringStationBody : NamedBody ℚ Turn where
  pose := planar.zero
  cosYaw := 1
  sinYaw := 0
  name := "C-RS1"

/-- The robot faces the input of the station. -/
def robotPose : Pose3d ℚ Turn := ⟨⟨25 / 1000, 7 / 10, 0⟩, ⟨0, -1, by decide +kernel⟩⟩

/-- Its camera, in front of it. -/
def robotCamera : Body ℚ Turn where
  pose := ⟨⟨25 / 1000, 5 / 10, 9 / 10⟩, robotPose.rot⟩
  cosYaw := 0
  sinYaw := -1

/-- The world with the two of them. -/
def ringWorld : VisionWorld ℚ Turn where
  hasConnections := true
  cameraLink := some robotCamera
  baseLink := some robotPose
  models := [ringStationBody]

/-- The station in front of the robot is seen. -/
theorem sendConveyorResult_ringWorld (cfg : VisionConfig ℚ)
    (h : cfg.sees robotCamera ringStationBody = true) :
    cfg.sendConveyorResult planar ringWorld
      = some (cfg.conveyorResult planar robotCamera robotPose ringStationBody) := by
  have hfind : [ringStationBody].find? (cfg.sees robotCamera) = some ringStationBody :=
    List.find?_cons_of_pos h
  unfold VisionConfig.sendConveyorResult ringWorld
  simp only [if_true, Option.bind_eq_bind, Option.bind_some, hfind]
  rfl

/-- The robot is sent the place of the input, and a workpiece brought to the output is detected
there. -/
theorem conveyor_agrees_output :
    (∃ msg rot, shippedVision.sendConveyorResult planar ringWorld = some msg ∧
      msg.conveyor = planar.sub ⟨shippedVision.center origin .input, rot⟩ robotPose) ∧
    ∃ m, (Mps.moveConveyor (ringStation origin) .OUTPUT).run handle
        ((shippedMps "C-RS1").assign .middle (some "puck_7")) = some (m, ()) ∧
      shippedVision.puckInMsg origin .output (m.world.pose "puck_7") = true := by
  obtain ⟨hsent, -, -, -, -, -, hmoved⟩ := conveyor_agrees shippedVision planar origin
  constructor
  · have hsees : shippedVision.sees robotCamera ringStationBody = true := by decide +kernel
    have hlook : shippedVision.looksAtInput robotCamera ringStationBody = true := by decide +kernel
    have hmsg := sendConveyorResult_ringWorld shippedVision hsees
    obtain ⟨camera, base, model, rot, hcamera, hbase, hmodel, hconveyor⟩ := hsent ringWorld _ hmsg
    cases hcamera
    cases hbase
    obtain rfl := Option.some.inj ((List.find?_cons_of_pos hsees).symm.trans hmodel)
    rw [if_pos hlook] at hconveyor
    exact ⟨_, rot, hmsg, hconveyor⟩
  · obtain ⟨m, hrun, -, -, hin, -⟩ := hmoved "C-RS1" (fun newName _ _ => some newName) .RED .OUTPUT
      .middle .output "puck_7" ((shippedMps "C-RS1").assign .middle (some "puck_7"))
      (by decide +kernel) rfl (Mps.assign_wpIn_self ..)
    exact ⟨m, hrun, hin⟩

/-- The slide of the station in front of the robot. -/
theorem slide_ringWorld (cfg : VisionConfig ℚ)
    (h : cfg.looksAtInput robotCamera ringStationBody = true) :
    (cfg.conveyorResult planar robotCamera robotPose ringStationBody).slide
      = some (planar.sub ⟨cfg.slideInputPose origin,
          planar.coordRotationSub planar.identity planar.yawCorrection⟩ robotPose) := by
  have hRS : isRS ringStationBody.name = true := by decide
  rw [conveyorResult_slide, if_pos hRS, if_pos h]
  rfl

/-- The configuration with the slide at the height of the belt. -/
def levelVision : VisionConfig ℚ := { shippedVision with mpsHeight := 92 / 100 }

/-- Then the robot is sent a position on the slide. -/
theorem slide_shown_iff_level :
    ∃ msg slide, levelVision.sendConveyorResult planar ringWorld = some msg ∧
      msg.slide = some slide ∧ levelVision.Shows planar robotPose origin slide := by
  have hmsg := sendConveyorResult_ringWorld levelVision (by decide +kernel)
  have hslide := slide_ringWorld levelVision (by decide +kernel)
  obtain ⟨camera, base, model, hcamera, hbase, hmodel, -, hiff⟩ :=
    slide_shown_iff levelVision planar planar_relative (by decide +kernel) ringWorld _ _ hmsg hslide
  cases hcamera
  cases hbase
  have hsees : levelVision.sees robotCamera ringStationBody = true := by decide +kernel
  obtain rfl := Option.some.inj ((List.find?_cons_of_pos hsees).symm.trans hmodel)
  exact ⟨_, _, hmsg, hslide, hiff.mpr (by decide +kernel)⟩

/-- With the shipped configuration, the pose sent for the slide is above it. -/
theorem slide_not_shown :
    ¬ ∀ (ign : PoseMath ℚ Turn), ign.Relative → ∀ w msg slide,
      shippedVision.sendConveyorResult ign w = some msg → msg.slide = some slide →
      ∀ camera base model, w.cameraLink = some camera → w.baseLink = some base →
        w.models.find? (shippedVision.sees camera) = some model →
        shippedVision.Shows ign base model.placement slide := by
  intro h
  have hsees : shippedVision.sees robotCamera ringStationBody = true := by decide +kernel
  have hshows := h planar planar_relative ringWorld _ _ (sendConveyorResult_ringWorld _ hsees)
    (slide_ringWorld _ (by decide +kernel)) robotCamera robotPose ringStationBody rfl rfl
    (List.find?_cons_of_pos hsees)
  have hslide := (shows_sub_iff planar_relative).mp hshows
  exact absurd hslide (by decide +kernel)

end GazeboRcll
