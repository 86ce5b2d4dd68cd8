import GazeboRcll.Library.LTS
import GazeboRcll.Library.Loop
import GazeboRcll.Library.Strings
import GazeboRcll.Mps.Geometry
import Mathlib.Data.List.MinMax
import Mathlib.Data.List.Nodup

/-!
# The gripper of a robot

`Gripper` takes the nearest workpiece when it is told to close: it moves the workpiece to
its own link, attaches it with a joint and publishes what it holds. The commands wait in a
queue that `OnUpdate` works off, one at a time, while the world changes in between.

Positions are exact, in an ordered field, and a pose is reduced to its position. Where the
source dereferences a null pointer the step has no result.

* `getGripperLink_eq_iff`: when the gripper link is found by the ending of its name.
* `getNearestPuck_eq`: the search of the source finds a minimiser of the distance.
* `close_takes_nearest`: what closing takes, moves and publishes.
* `viewsAgree_iff`: over which runs the pointer, the joint and what was published agree.
-/

namespace GazeboRcll

/-! ## The world -/

structure Link (K : Type) where
  name : String
  position : Vec K
deriving DecidableEq, Repr

/-- A pointer to a model of the world. -/
structure ModelRef where
  id : ℕ
  name : String
deriving DecidableEq, Repr

/-- A model of the world with the names of its links. -/
structure WorldModel (K : Type) where
  id : ℕ
  name : String
  position : Vec K
  links : List String
deriving DecidableEq, Repr

namespace WorldModel

variable {K : Type}

def ref (m : WorldModel K) : ModelRef := ⟨m.id, m.name⟩

/-- The name matches the pattern `puck*` in upper or lower case. -/
def isPuck (m : WorldModel K) : Bool :=
  "puck".toList.isPrefixOf (m.name.toList.map Char.toLower)

/-- `Gripper::getLinkEndingWith`. -/
def getLinkEndingWith (m : WorldModel K) (ending : String) : Option String :=
  m.links.find? (Strings.endsWith · ending)

end WorldModel

/-- The part of Gazebo's world that a gripper looks at: the models in the order of their
indices, and the links of the gripper's own model. -/
structure GripperWorld (K : Type) where
  models : List (WorldModel K)
  links : List (Link K)
  nodup : (models.map WorldModel.id).Nodup

variable {K : Type}

namespace GripperWorld

/-- `SetWorldPose` of a model. -/
def setWorldPose (w : GripperWorld K) (id : ℕ) (position : Vec K) : GripperWorld K where
  models := w.models.map fun m => if m.id = id then { m with position } else m
  links := w.links
  nodup := by
    have hids : (w.models.map fun m => if m.id = id then { m with position } else m).map
        WorldModel.id = w.models.map WorldModel.id := by
      rw [List.map_map]
      refine List.map_congr_left fun m _ => ?_
      rw [Function.comp_apply]
      split <;> rfl
    rw [hids]
    exact w.nodup

/-- `Gripper::getGripperLink`. -/
def getGripperLink (w : GripperWorld K) : Option (Link K) :=
  (w.links.find? (·.name = "gripper::link")).or
    (w.links.find? fun link =>
      let linkLen := "gripper::link".length
      (Strings.rfind link.name "gripper::link"
        (Strings.sizeSub link.name.length linkLen)).isSome)

section

variable [Field K] [LinearOrder K]

/-- One turn of the loop in `getNearestPuck`: the nearest workpiece so far and the next
model. Every distance is below the initial `DBL_MAX`. -/
def nearer (gripper : Vec K) (nearest : Option (WorldModel K)) (tmp : WorldModel K) :
    Option (WorldModel K) :=
  if tmp.isPuck then
    match nearest with
    | none => some tmp
    | some m =>
      if gripper.distSq tmp.position < gripper.distSq m.position then some tmp else some m
  else nearest

/-- `Gripper::getNearestPuck`; the inner `none` is the null pointer. -/
def getNearestPuck (radius : K) (w : GripperWorld K) : Option (Option (WorldModel K)) :=
  w.getGripperLink.map fun gripperLink =>
    (w.models.foldl (nearer gripperLink.position) none).filter fun nearest =>
      Vec.within radius gripperLink.position nearest.position

/-- The first of the workpieces nearest to the gripper link, if it is in reach. -/
def nearestInReach (radius : K) (w : GripperWorld K) : Option (WorldModel K) :=
  w.getGripperLink.bind fun gripperLink =>
    ((w.models.filter WorldModel.isPuck).argmin fun m =>
      gripperLink.position.distSq m.position).filter fun m =>
        Vec.within radius gripperLink.position m.position

/-- The loop finds the nearest workpiece, the first one of those at the same distance. -/
theorem foldl_nearer (gripper : Vec K) (models : List (WorldModel K)) :
    models.foldl (nearer gripper) none =
      (models.filter WorldModel.isPuck).argmin fun m => gripper.distSq m.position := by
  rw [List.argmin, List.foldl_filter]
  congr 1
  funext nearest tmp
  cases nearest <;> rfl

/-- The search of the source finds a minimiser of the distance. -/
theorem getNearestPuck_eq (radius : K) {w : GripperWorld K} {gripperLink : Link K}
    (h : w.getGripperLink = some gripperLink) :
    w.getNearestPuck radius = some (w.nearestInReach radius) := by
  rw [getNearestPuck, nearestInReach, h, Option.map_some, Option.bind_some, foldl_nearer]

/-- A workpiece in reach to which no other one is nearer. -/
structure Nearest (radius : K) (gripper : Vec K) (w : GripperWorld K) (puck : WorldModel K) :
    Prop where
  mem : puck ∈ w.models
  isPuck : puck.isPuck = true
  inReach : Vec.within radius gripper puck.position = true
  le : ∀ m ∈ w.models, m.isPuck = true →
    gripper.distSq puck.position ≤ gripper.distSq m.position

variable {radius : K} {w : GripperWorld K} {gripperLink : Link K}

/-- The workpiece that is found is nearest to the gripper, and within its reach. -/
theorem nearest_of_nearestInReach (h : w.getGripperLink = some gripperLink)
    {puck : WorldModel K} (hpuck : w.nearestInReach radius = some puck) :
    w.Nearest radius gripperLink.position puck := by
  rw [nearestInReach, h, Option.bind_some, Option.filter_eq_some_iff] at hpuck
  obtain ⟨hmin, hreach⟩ := hpuck
  obtain ⟨hmem, hname⟩ := List.mem_filter.mp (List.argmin_mem hmin)
  refine ⟨hmem, hname, hreach, fun m hm hm' => ?_⟩
  exact List.le_of_mem_argmin (f := fun m : WorldModel K => gripperLink.position.distSq m.position)
    (List.mem_filter.mpr ⟨hm, hm'⟩) hmin

/-- The search finds nothing exactly if no workpiece is in reach. -/
theorem nearestInReach_eq_none_iff (h : w.getGripperLink = some gripperLink) :
    w.nearestInReach radius = none ↔
      ∀ m ∈ w.models, m.isPuck = true →
        Vec.within radius gripperLink.position m.position = false := by
  constructor
  · intro hnone m hm hname
    by_contra hreach
    have hmem := List.mem_filter.mpr ⟨hm, hname⟩
    obtain ⟨radius_pos, hlt⟩ := of_decide_eq_true (Bool.eq_true_of_not_eq_false hreach)
    rw [nearestInReach, h, Option.bind_some] at hnone
    cases hmin : (w.models.filter WorldModel.isPuck).argmin fun m =>
        gripperLink.position.distSq m.position with
    | none =>
      rw [List.argmin_eq_none.mp hmin] at hmem
      cases hmem
    | some puck =>
      -- the minimiser is in reach as well
      have hle := List.le_of_mem_argmin
        (f := fun m : WorldModel K => gripperLink.position.distSq m.position) hmem hmin
      have hpuck : Vec.within radius gripperLink.position puck.position = true :=
        decide_eq_true ⟨radius_pos, lt_of_le_of_lt hle hlt⟩
      rw [hmin, Option.filter_some, if_pos hpuck] at hnone
      cases hnone
  · intro hall
    by_contra hsome
    obtain ⟨puck, hpuck⟩ := Option.ne_none_iff_exists'.mp hsome
    have hnearest := nearest_of_nearestInReach h hpuck
    have hfalse := hall puck hnearest.mem hnearest.isPuck
    rw [hnearest.inReach] at hfalse
    cases hfalse

end

end GripperWorld

/-! ## The gripper link -/

namespace GripperWorld

/-- The search for the name goes backwards from where it would end the other name, and so it
finds every occurrence. -/
theorem rfind_gripperLink_isSome_iff {name : String} (hsize : name.length < 2 ^ 64) :
    (Strings.rfind name "gripper::link"
      (Strings.sizeSub name.length "gripper::link".length)).isSome ↔
      "gripper::link".toList <:+: name.toList := by
  apply Strings.rfind_isSome_iff
  by_cases hfits : "gripper::link".length ≤ name.length
  · rw [Strings.sizeSub_of_le hsize hfits]
  · -- for a short name the difference wraps
    rw [Nat.sub_eq_zero_of_le (Nat.le_of_not_le hfits)]
    exact Nat.zero_le _

/-- The gripper link is the first link with that ending of its name exactly if no link that has
the text elsewhere comes before it. -/
theorem getGripperLink_eq_iff (w : GripperWorld K)
    (hsize : ∀ link ∈ w.links, link.name.length < 2 ^ 64)
    (hname : ∀ link ∈ w.links, link.name ≠ "gripper::link") :
    w.getGripperLink = w.links.find? (fun link => Strings.endsWith link.name "gripper::link") ↔
      ∀ before link after, w.links = before ++ link :: after →
        "gripper::link".toList <:+: link.name.toList →
        Strings.endsWith link.name "gripper::link" = true ∨
          ∃ l ∈ before, Strings.endsWith l.name "gripper::link" = true := by
  have hnone : w.links.find? (·.name = "gripper::link") = none := by
    rw [List.find?_eq_none]
    intro link hlink heq
    exact hname link hlink (of_decide_eq_true heq)
  rw [getGripperLink, hnone, Option.none_or, Loop.find?_eq_find?_iff]
  · refine forall₃_congr fun before link after => ?_
    apply imp_congr_right
    intro hlinks
    have hlink : link ∈ w.links := by
      rw [hlinks]
      exact List.mem_append_right before List.mem_cons_self
    rw [rfind_gripperLink_isSome_iff (hsize link hlink)]
  · intro link hlink hends
    rw [rfind_gripperLink_isSome_iff (hsize link hlink)]
    exact ((Strings.endsWith_iff _ _).mp hends).isInfix

/-- A model with these links, all at the origin. -/
def ofLinks (names : List String) : GripperWorld ℚ where
  models := []
  links := names.map fun name => ⟨name, ⟨0, 0, 0⟩⟩
  nodup := List.nodup_nil

theorem getGripperLink_eq_iff_robot1 :
    let w := ofLinks ["robot1::body", "robot1::gripper::link", "gripper::link_2"]
    w.getGripperLink = some ⟨"robot1::gripper::link", ⟨0, 0, 0⟩⟩ ∧
      ∀ before link after, w.links = before ++ link :: after →
        "gripper::link".toList <:+: link.name.toList →
        Strings.endsWith link.name "gripper::link" = true ∨
          ∃ l ∈ before, Strings.endsWith l.name "gripper::link" = true :=
  ⟨by decide +kernel, (getGripperLink_eq_iff _ (by decide +kernel) (by decide +kernel)).mp
    (by decide +kernel)⟩

/-- A link of something that is mounted on the gripper is taken for the gripper. -/
theorem getGripperLink_camera :
    ¬ ∀ w : GripperWorld ℚ, (∀ link ∈ w.links, link.name.length < 2 ^ 64) →
      (∀ link ∈ w.links, link.name ≠ "gripper::link") →
      w.getGripperLink =
        w.links.find? fun link => Strings.endsWith link.name "gripper::link" := by
  intro h
  have hfound := h (ofLinks ["robot1::gripper::link::camera", "robot1::gripper::link"])
    (by decide +kernel) (by decide +kernel)
  revert hfound
  decide +kernel

end GripperWorld

/-! ## The plugin -/

inductive ActionOnUpdate where
  | NOTHING | OPEN | CLOSE | MOVE
deriving DecidableEq, Repr

/-- What the joint holds together: the gripper's link and a link of a workpiece. -/
structure GrabJoint where
  parent : String
  child : ModelRef
  childLink : String
deriving DecidableEq, Repr

/-- `msgs::Joint`, the fields that the gripper sets. -/
structure JointMsg where
  name : String
  id : ℕ
  parentId : ℕ
  childId : ℕ
  child : String
deriving DecidableEq, Repr

/-- The members of the plugin, the world around it and what it published, oldest first. -/
structure Gripper (K : Type) where
  name : String
  /-- `grabJoint->GetId()`. -/
  jointId : ℕ
  grippedPuck : Option ModelRef
  /-- `grabJoint`, as long as it is attached. -/
  grabJoint : Option GrabJoint
  messageQueue : List ActionOnUpdate
  hasPuckPub : List ℤ
  jointPub : List JointMsg
  world : GripperWorld K

namespace Gripper

/-- `Gripper::Load`. -/
def load (name : String) (jointId : ℕ) (world : GripperWorld K) : Gripper K where
  name := name
  jointId := jointId
  grippedPuck := none
  grabJoint := none
  messageQueue := []
  hasPuckPub := []
  jointPub := []
  world := world

/-- `Gripper::on_set_gripper_msg`. -/
def onSetGripperMsg (data : ℤ) (p : Gripper K) : Gripper K :=
  if data = 0 then { p with messageQueue := p.messageQueue ++ [.CLOSE] }
  else if data = 1 then { p with messageQueue := p.messageQueue ++ [.OPEN] }
  else if data = 2 then { p with messageQueue := p.messageQueue ++ [.MOVE] }
  else p

/-- The two messages of `sendHasPuck`. -/
def publish (data : ℤ) (childId : ℕ) (child : String) (p : Gripper K) : Gripper K :=
  { p with
    hasPuckPub := p.hasPuckPub ++ [data]
    jointPub := p.jointPub ++ [⟨p.name, p.jointId, p.jointId, childId, child⟩] }

/-- `Gripper::sendHasPuck`. -/
def sendHasPuck (hasPuck : Bool) (p : Gripper K) : Option (Gripper K) :=
  if hasPuck then p.grippedPuck.map fun puck => p.publish 1 puck.id puck.name
  else some (p.publish 0 0 "")

/-- `Gripper::setPuckPose`. -/
def setPuckPose (p : Gripper K) : Option (Gripper K) :=
  match p.grippedPuck with
  | none => some p
  | some puck => p.world.getGripperLink.map fun gripperLink =>
    { p with world := p.world.setWorldPose puck.id gripperLink.position }

/-- The second half of `Gripper::close`, which attaches the workpiece that was found. -/
def attachPuck (puck : WorldModel K) (p : Gripper K) : Option (Gripper K) :=
  match p.world.getGripperLink with
  | none => some p
  | some gripperLink =>
    match puck.getLinkEndingWith "cylinder" with
    -- the workpiece stays in `grippedPuck`
    | none => some p
    | some puckLink =>
      sendHasPuck true { p with grabJoint := some ⟨gripperLink.name, puck.ref, puckLink⟩ }

end Gripper

/-- `Gripper::open`. -/
def Gripper.open (p : Gripper K) : Option (Gripper K) :=
  if p.grippedPuck.isNone then some p
  else sendHasPuck false { p with grabJoint := none, grippedPuck := none }

namespace Gripper

/-- `Gripper::Reset`. -/
def reset (p : Gripper K) : Option (Gripper K) := p.open

variable [Field K] [LinearOrder K]

/-- `Gripper::close`. -/
def close (radius : K) (p : Gripper K) : Option (Gripper K) :=
  if p.grippedPuck.isSome then p.sendHasPuck true
  else
    (p.world.getNearestPuck radius).bind fun
      | none => some { p with grippedPuck := none }
      | some puck =>
        (setPuckPose { p with grippedPuck := some puck.ref }).bind (attachPuck puck)

/-- `Gripper::OnUpdate`. -/
def onUpdate (radius : K) (p : Gripper K) : Option (Gripper K) :=
  match p.messageQueue with
  | [] => some p
  | action :: messageQueue =>
    match action with
    | .CLOSE => close radius { p with messageQueue }
    | .OPEN => Gripper.open { p with messageQueue }
    | .NOTHING | .MOVE => some { p with messageQueue }

end Gripper

/-- What happens around a gripper: calls from Gazebo, and changes of the world. -/
inductive GripperEvent (K : Type) where
  | setGripper (data : ℤ)
  | onUpdate
  | reset
  | gazebo (world : GripperWorld K)

def GripperEvent.perform [Field K] [LinearOrder K] (radius : K) :
    GripperEvent K → Gripper K → Option (Gripper K)
  | .setGripper data, p => some (p.onSetGripperMsg data)
  | .onUpdate, p => p.onUpdate radius
  | .reset, p => p.reset
  | .gazebo world, p => some { p with world := world }

/-- A gripper of the given radius from its loading on. -/
def gripperSystem [Field K] [LinearOrder K] (radius : K) : LTS (Gripper K) (GripperEvent K) where
  init p := ∃ name jointId world, p = .load name jointId world
  next p l := l.perform radius p

/-! ## The three views of what a gripper holds -/

namespace Gripper

/-- The last messages say that the gripper holds this workpiece. -/
def Announced (p : Gripper K) (puck : ModelRef) : Prop :=
  p.hasPuckPub.getLast? = some 1 ∧
    ∃ msg ∈ p.jointPub.getLast?, msg.childId = puck.id ∧ msg.child = puck.name

/-- The last message says that the gripper is empty, or there was none. -/
def AnnouncedEmpty (p : Gripper K) : Prop :=
  p.hasPuckPub.getLast? = none ∨ p.hasPuckPub.getLast? = some 0

/-- The pointer, the joint and what was published agree. -/
structure ViewsAgree (p : Gripper K) : Prop where
  joint : p.grabJoint.map GrabJoint.child = p.grippedPuck
  held : ∀ puck, p.grippedPuck = some puck ↔ p.Announced puck
  empty : p.grippedPuck = none ↔ p.AnnouncedEmpty

/-- A gripper begins with nothing in its hand. -/
theorem viewsAgree_load (name : String) (jointId : ℕ) (world : GripperWorld K) :
    ViewsAgree (load name jointId world) where
  joint := rfl
  held _ := iff_of_false nofun fun h => nomatch h.1
  empty := iff_of_true rfl (.inl rfl)

/-- Commands and changes of the world leave the views as they are. -/
theorem ViewsAgree.frame {p : Gripper K} (h : p.ViewsAgree)
    (messageQueue : List ActionOnUpdate) (world : GripperWorld K) :
    ViewsAgree { p with messageQueue, world } := ⟨h.joint, h.held, h.empty⟩

/-- Publishing a workpiece that is held. -/
theorem viewsAgree_publish_one {p : Gripper K} (puck : ModelRef)
    (hgripped : p.grippedPuck = some puck)
    (hjoint : p.grabJoint.map GrabJoint.child = some puck) :
    ViewsAgree (p.publish 1 puck.id puck.name) where
  joint := hjoint.trans hgripped.symm
  held puck' := by
    simp only [Announced, publish, List.getLast?_concat, hgripped, Option.mem_some, true_and,
      Option.some.injEq, exists_eq_left', ← ModelRef.mk.injEq]
  empty := by
    simp [AnnouncedEmpty, publish, hgripped]

/-- Publishing that nothing is held. -/
theorem viewsAgree_publish_zero {p : Gripper K} (hgripped : p.grippedPuck = none)
    (hjoint : p.grabJoint = none) (childId : ℕ) (child : String) :
    ViewsAgree (p.publish 0 childId child) where
  joint := by
    show p.grabJoint.map GrabJoint.child = p.grippedPuck
    rw [hjoint, hgripped, Option.map_none]
  held puck := by
    simp [Announced, publish, hgripped]
  empty := by
    simp [AnnouncedEmpty, publish, hgripped]

/-- Opening lets go of the workpiece everywhere. -/
theorem ViewsAgree.open {p p' : Gripper K} (h : p.ViewsAgree) (hs : p.open = some p') :
    p'.ViewsAgree := by
  rw [Gripper.open] at hs
  by_cases hgripped : p.grippedPuck.isNone = true
  · rw [if_pos hgripped] at hs
    cases hs
    exact h
  · rw [if_neg hgripped] at hs
    cases hs
    exact viewsAgree_publish_zero rfl rfl 0 ""

/-- Opening never uses a null pointer. -/
theorem open_isSome (p : Gripper K) : p.open.isSome := by
  rw [Gripper.open]
  split_ifs <;> rfl

/-! ## Closing -/

/-- A workpiece found, moved to the gripper link and not yet attached. -/
def taking (puck : WorldModel K) (gripperLink : Link K) (p : Gripper K) : Gripper K :=
  { p with
    grippedPuck := some puck.ref
    world := p.world.setWorldPose puck.id gripperLink.position }

/-- A workpiece without a matching link is taken, but neither attached nor published. -/
theorem attachPuck_taking_of_none {p : Gripper K} {puck : WorldModel K} {gripperLink : Link K}
    (hlink : puck.getLinkEndingWith "cylinder" = none) :
    attachPuck puck (p.taking puck gripperLink) = some (p.taking puck gripperLink) := by
  rw [attachPuck, hlink]
  split <;> rfl

/-- A workpiece with a matching link is taken, attached and published. -/
theorem attachPuck_taking_of_some {p : Gripper K} {puck : WorldModel K} {gripperLink : Link K}
    {puckLink : String} (hgripper : p.world.getGripperLink = some gripperLink)
    (hlink : puck.getLinkEndingWith "cylinder" = some puckLink) :
    attachPuck puck (p.taking puck gripperLink) =
      some (publish 1 puck.id puck.name { p.taking puck gripperLink with
        grabJoint := some ⟨gripperLink.name, puck.ref, puckLink⟩ }) := by
  have hgripper' : (p.taking puck gripperLink).world.getGripperLink = some gripperLink :=
    hgripper
  rw [attachPuck, hgripper', hlink]
  rfl

/-- With the joint detached, attaching brings the views into agreement exactly if the
workpiece has the link for it. -/
theorem attachPuck_viewsAgree_iff {p p' : Gripper K} {puck : WorldModel K}
    {gripperLink : Link K} (hgripper : p.world.getGripperLink = some gripperLink)
    (hjoint : p.grabJoint = none)
    (hs : attachPuck puck (p.taking puck gripperLink) = some p') :
    p'.ViewsAgree ↔ (puck.getLinkEndingWith "cylinder").isSome := by
  cases hlink : puck.getLinkEndingWith "cylinder" with
  | none =>
    rw [attachPuck_taking_of_none hlink] at hs
    cases hs
    refine iff_of_false (fun h => ?_) (by simp)
    have hnone : (p.taking puck gripperLink).grippedPuck = none := by
      rw [← h.joint]
      show p.grabJoint.map GrabJoint.child = none
      rw [hjoint, Option.map_none]
    cases hnone
  | some puckLink =>
    rw [attachPuck_taking_of_some hgripper hlink] at hs
    cases hs
    exact iff_of_true (viewsAgree_publish_one puck.ref rfl rfl) rfl

variable [Field K] [LinearOrder K] {radius : K} {p p' : Gripper K}

/-- Closing with a workpiece in hand publishes it again. -/
theorem close_of_gripped {puck : ModelRef} (h : p.grippedPuck = some puck) :
    p.close radius = some (p.publish 1 puck.id puck.name) := by
  rw [close, h, Option.isSome_some, if_pos rfl, sendHasPuck, h]
  rfl

/-- Closing takes the nearest workpiece, if one is in reach. -/
theorem close_of_empty {gripperLink : Link K} (h : p.grippedPuck = none)
    (hgripper : p.world.getGripperLink = some gripperLink) :
    p.close radius = (p.world.nearestInReach radius).elim (some p) fun puck =>
      attachPuck puck (p.taking puck gripperLink) := by
  rw [close, h, Option.isSome_none, if_neg Bool.false_ne_true,
    GripperWorld.getNearestPuck_eq radius hgripper, Option.bind_some]
  cases p.world.nearestInReach radius with
  | none =>
    rw [Option.elim_none, ← h]
  | some puck =>
    have hpose : setPuckPose { p with grippedPuck := some puck.ref }
        = some (p.taking puck gripperLink) := by
      simp only [setPuckPose, hgripper, Option.map_some, taking]
      rfl
    show Option.bind (setPuckPose { p with grippedPuck := some puck.ref }) (attachPuck puck) = _
    rw [hpose, Option.bind_some, Option.elim_some]

/-- The step fails where the search needs the missing link. -/
theorem close_of_no_link (h : p.grippedPuck = none) (hgripper : p.world.getGripperLink = none) :
    p.close radius = none := by
  rw [close, h, Option.isSome_none, if_neg Bool.false_ne_true, GripperWorld.getNearestPuck,
    hgripper]
  rfl

/-- After closing all views agree unless a workpiece without a matching link was taken. -/
theorem ViewsAgree.close_iff (h : p.ViewsAgree) (hs : p.close radius = some p') :
    p'.ViewsAgree ↔ (p.grippedPuck = none →
      ∀ puck ∈ p.world.nearestInReach radius, (puck.getLinkEndingWith "cylinder").isSome) := by
  cases hgripped : p.grippedPuck with
  | some puck =>
    rw [close_of_gripped hgripped] at hs
    cases hs
    exact iff_of_true (viewsAgree_publish_one puck hgripped (h.joint.trans hgripped)) nofun
  | none =>
    cases hgripper : p.world.getGripperLink with
    | none =>
      rw [close_of_no_link hgripped hgripper] at hs
      cases hs
    | some gripperLink =>
      rw [close_of_empty hgripped hgripper] at hs
      cases hnearest : p.world.nearestInReach radius with
      | none =>
        rw [hnearest, Option.elim_none] at hs
        cases hs
        exact iff_of_true h fun _ => nofun
      | some puck =>
        rw [hnearest, Option.elim_some] at hs
        have hjoint : p.grabJoint = none := by
          rw [← Option.map_eq_none_iff, h.joint, hgripped]
        rw [attachPuck_viewsAgree_iff hgripper hjoint hs]
        simp

/-! ## Steps and runs -/

/-- A CLOSE that meets an empty gripper takes a workpiece with a link to attach it by. -/
def TakesAttachable (radius : K) (p : Gripper K) : GripperEvent K → Prop
  | .onUpdate => p.messageQueue.head? = some .CLOSE → p.grippedPuck = none →
    ∀ puck ∈ p.world.nearestInReach radius, (puck.getLinkEndingWith "cylinder").isSome
  | _ => True

instance (radius : K) (p : Gripper K) (l : GripperEvent K) :
    Decidable (TakesAttachable radius p l) :=
  match l with
  | .onUpdate => inferInstanceAs (Decidable (_ → _ → ∀ puck ∈ _, _))
  | .setGripper _ | .reset | .gazebo _ => .isTrue trivial

/-- After an update all views agree unless a workpiece without a matching link was taken. -/
theorem ViewsAgree.onUpdate_iff (h : p.ViewsAgree) (hs : p.onUpdate radius = some p') :
    p'.ViewsAgree ↔ TakesAttachable radius p .onUpdate := by
  rw [onUpdate] at hs
  cases hqueue : p.messageQueue with
  | nil =>
    rw [hqueue] at hs
    cases hs
    refine iff_of_true h fun hhead => ?_
    rw [hqueue] at hhead
    cases hhead
  | cons action messageQueue =>
    rw [hqueue] at hs
    have hpopped : ViewsAgree { p with messageQueue } := h.frame messageQueue p.world
    have hhead : p.messageQueue.head? = some action := by
      rw [hqueue, List.head?_cons]
    cases action with
    | CLOSE =>
      rw [hpopped.close_iff hs]
      exact ⟨fun hlink _ => hlink, fun htakes => htakes hhead⟩
    | OPEN =>
      refine iff_of_true (hpopped.open hs) fun hclose => ?_
      rw [hhead] at hclose
      cases hclose
    | NOTHING | MOVE =>
      cases hs
      refine iff_of_true hpopped fun hclose => ?_
      rw [hhead] at hclose
      cases hclose

/-- Every step but the taking of a workpiece without the link keeps the views together. -/
theorem ViewsAgree.perform_iff (h : p.ViewsAgree) {l : GripperEvent K}
    (hs : l.perform radius p = some p') : p'.ViewsAgree ↔ TakesAttachable radius p l := by
  cases l with
  | setGripper data =>
    cases hs
    refine iff_of_true ?_ trivial
    rw [onSetGripperMsg]
    split_ifs
    · exact h.frame _ _
    · exact h.frame _ _
    · exact h.frame _ _
    · exact h
  | onUpdate => exact h.onUpdate_iff hs
  | reset => exact iff_of_true (h.open hs) trivial
  | gazebo world =>
    cases hs
    exact iff_of_true (h.frame _ _) trivial

/-- Closing uses no null pointer where the gripper has a link. -/
theorem close_isSome (hgripper : p.world.getGripperLink.isSome) : (p.close radius).isSome := by
  obtain ⟨gripperLink, hlink⟩ := Option.isSome_iff_exists.mp hgripper
  cases hgripped : p.grippedPuck with
  | some puck =>
    rw [close_of_gripped hgripped, Option.isSome_some]
  | none =>
    rw [close_of_empty hgripped hlink]
    cases p.world.nearestInReach radius with
    | none => rfl
    | some puck =>
      rw [Option.elim_some]
      cases hcylinder : puck.getLinkEndingWith "cylinder" with
      | none =>
        rw [attachPuck_taking_of_none hcylinder, Option.isSome_some]
      | some puckLink =>
        rw [attachPuck_taking_of_some hlink hcylinder, Option.isSome_some]

/-- As long as the gripper link exists, every step has a result. -/
theorem perform_isSome (hgripper : p.world.getGripperLink.isSome) (l : GripperEvent K) :
    (l.perform radius p).isSome := by
  cases l with
  | setGripper data => rfl
  | onUpdate =>
    show (p.onUpdate radius).isSome
    rw [onUpdate]
    split
    · rfl
    · split
      · exact close_isSome hgripper
      · exact open_isSome _
      · rfl
      · rfl
  | reset => exact open_isSome p
  | gazebo world => rfl

end Gripper

/-- Along every run in which an empty gripper only takes workpieces that it can attach,
pointer, joint and published state agree, and a further step keeps them so exactly if it
takes no other; while the gripper link exists no step fails. -/
theorem viewsAgree_iff [Field K] [LinearOrder K] {radius : K} {p : Gripper K}
    (h : (gripperSystem radius).Reach (Gripper.TakesAttachable radius) p) :
    p.ViewsAgree ∧
      (∀ l p', (gripperSystem radius).next p l = some p' →
        (p'.ViewsAgree ↔ p.TakesAttachable radius l)) ∧
      (p.world.getGripperLink.isSome → ∀ l, ((gripperSystem radius).next p l).isSome) := by
  have hagree : p.ViewsAgree := by
    refine LTS.Reach.invariant (P := Gripper.ViewsAgree) ?_ ?_ h
    · rintro _ ⟨name, jointId, world, rfl⟩
      exact Gripper.viewsAgree_load name jointId world
    · intro p l p' hp htakes hs
      exact (hp.perform_iff hs).mpr htakes
  exact ⟨hagree, fun l p' hs => hagree.perform_iff hs,
    fun hgripper l => Gripper.perform_isSome hgripper l⟩

namespace Gripper

/-- The state after the workpiece was taken: it alone has been teleported, and its name was
published. -/
structure Taken [DecidableEq K] (gripper : Vec K) (puck : WorldModel K) (p p' : Gripper K) :
    Prop where
  gripped : p'.grippedPuck = some puck.ref
  teleported : p'.world.models =
    p.world.models.map fun m => if m = puck then { m with position := gripper } else m
  hasPuck : p'.hasPuckPub = p.hasPuckPub ++ [1]
  announced : p'.jointPub = p.jointPub ++ [⟨p.name, p.jointId, p.jointId, puck.id, puck.name⟩]

variable [Field K] [LinearOrder K] {radius : K} {p : Gripper K}

omit [Field K] in
/-- By its index no other model is moved. -/
theorem setWorldPose_models {w : GripperWorld K} {puck : WorldModel K} (h : puck ∈ w.models)
    (position : Vec K) :
    (w.setWorldPose puck.id position).models =
      w.models.map fun m => if m = puck then { m with position } else m := by
  refine List.map_congr_left fun m hm => ?_
  have hiff : m.id = puck.id ↔ m = puck :=
    ⟨fun hid => List.inj_on_of_nodup_map w.nodup hm h hid, fun heq => by rw [heq]⟩
  simp only [hiff]

/-- An empty gripper takes a nearest workpiece in reach, and nothing if there is none; a full
one keeps what it has, and moves nothing. -/
theorem close_takes_nearest {gripperLink : Link K}
    (hgripper : p.world.getGripperLink = some gripperLink)
    (hcylinder : ∀ puck, p.world.getNearestPuck radius = some (some puck) →
      (puck.getLinkEndingWith "cylinder").isSome = true) :
    ∃ p', p.close radius = some p' ∧
      (∀ puck, p.grippedPuck = some puck → p'.grippedPuck = some puck ∧ p'.world = p.world) ∧
      (p.grippedPuck = none →
        ((∀ m ∈ p.world.models, m.isPuck = true →
            Vec.within radius gripperLink.position m.position = false) →
          p'.grippedPuck = none ∧ p'.world = p.world) ∧
        ((∃ m ∈ p.world.models, m.isPuck = true ∧
            Vec.within radius gripperLink.position m.position = true) →
          ∃ puck, p.world.Nearest radius gripperLink.position puck ∧
            Taken gripperLink.position puck p p')) := by
  cases hgripped : p.grippedPuck with
  | some puck =>
    -- with a workpiece in the gripper `close` does nothing
    refine ⟨_, close_of_gripped hgripped, fun puck' heq => ?_, fun hnone => ?_⟩
    · exact ⟨hgripped.trans heq, rfl⟩
    · cases hnone
  | none =>
    rw [GripperWorld.getNearestPuck_eq radius hgripper] at hcylinder
    rw [close_of_empty hgripped hgripper]
    cases hnearest : p.world.nearestInReach radius with
    | none =>
      have hall := (GripperWorld.nearestInReach_eq_none_iff hgripper).mp hnearest
      refine ⟨p, rfl, fun puck heq => ?_, fun _ => ⟨fun _ => ⟨hgripped, rfl⟩, ?_⟩⟩
      · cases heq
      · rintro ⟨m, hm, hname, hreach⟩
        rw [hall m hm hname] at hreach
        cases hreach
    | some puck =>
      -- the loop over the models ends with the nearest one in reach
      have hpuck := GripperWorld.nearest_of_nearestInReach hgripper hnearest
      obtain ⟨puckLink, hlink⟩ := Option.isSome_iff_exists.mp (hcylinder puck (by rw [hnearest]))
      refine ⟨_, attachPuck_taking_of_some hgripper hlink, fun puck' heq => ?_, fun _ => ⟨?_, ?_⟩⟩
      · cases heq
      · intro hall
        have hfalse := hall puck hpuck.mem hpuck.isPuck
        rw [hpuck.inReach] at hfalse
        cases hfalse
      · exact fun _ => ⟨puck, hpuck, rfl, setWorldPose_models hpuck.mem _, rfl, rfl⟩

end Gripper

/-- A gripper at the origin and one model beside it. -/
def gripperWorld (name : String) (links : List String) : GripperWorld ℚ where
  models := [⟨1, "ground_plane", ⟨0, 0, 0⟩, ["link"]⟩, ⟨7, name, ⟨5 / 100, 0, 0⟩, links⟩]
  links := [⟨"robotino3::body", ⟨-2 / 10, 0, 0⟩⟩, ⟨"robot1::gripper::link", ⟨0, 0, 0⟩⟩]
  nodup := by
    show [1, 7].Nodup
    decide

theorem close_takes_nearest_puck_1 :
    ∃ p', (Gripper.load "gripper" 3 (gripperWorld "puck_1" ["workpiece::cylinder"])).close
        (1 / 10 : ℚ) = some p' ∧
      ∃ puck, (gripperWorld "puck_1" ["workpiece::cylinder"]).Nearest (1 / 10) ⟨0, 0, 0⟩ puck ∧
        Gripper.Taken ⟨0, 0, 0⟩ puck
          (.load "gripper" 3 (gripperWorld "puck_1" ["workpiece::cylinder"])) p' := by
  have hnearest : (gripperWorld "puck_1" ["workpiece::cylinder"]).getNearestPuck (1 / 10) =
      some (some ⟨7, "puck_1", ⟨5 / 100, 0, 0⟩, ["workpiece::cylinder"]⟩) := by
    decide +kernel
  have hgripper : (gripperWorld "puck_1" ["workpiece::cylinder"]).getGripperLink =
      some ⟨"robot1::gripper::link", ⟨0, 0, 0⟩⟩ := by
    decide +kernel
  have hcylinder : ∀ puck, (gripperWorld "puck_1" ["workpiece::cylinder"]).getNearestPuck
      (1 / 10) = some (some puck) → (puck.getLinkEndingWith "cylinder").isSome = true := by
    intro puck hpuck
    obtain rfl := Option.some.inj (Option.some.inj (hnearest.symm.trans hpuck))
    decide +kernel
  obtain ⟨p', hclose, -, hempty⟩ := Gripper.close_takes_nearest
    (p := .load "gripper" 3 (gripperWorld "puck_1" ["workpiece::cylinder"])) hgripper hcylinder
  exact ⟨p', hclose, (hempty rfl).2 ⟨⟨7, "puck_1", ⟨5 / 100, 0, 0⟩, ["workpiece::cylinder"]⟩,
    by decide +kernel⟩⟩

theorem viewsAgree_iff_puck_1 :
    ∃ p : Gripper ℚ, (gripperSystem (1 / 10)).Reach (Gripper.TakesAttachable (1 / 10)) p ∧
      p.grippedPuck = some ⟨7, "puck_1"⟩ ∧ p.Announced ⟨7, "puck_1"⟩ := by
  obtain ⟨p, hreach, hp⟩ :=
    LTS.exists_reach (T := gripperSystem (1 / 10)) (C := Gripper.TakesAttachable (1 / 10))
      (s := .load "gripper" 3 (gripperWorld "puck_1" ["body", "workpiece::cylinder"]))
      (l := [.setGripper 1, .setGripper 0, .onUpdate, .onUpdate])
      (p := fun p => decide (p.grippedPuck = some ⟨7, "puck_1"⟩)) ⟨_, _, _, rfl⟩
      (by decide +kernel) (by decide +kernel)
  have hgripped : p.grippedPuck = some ⟨7, "puck_1"⟩ := of_decide_eq_true hp
  exact ⟨p, hreach, hgripped, ((viewsAgree_iff hreach).1.held _).mp hgripped⟩

/-- A workpiece without the link is kept in `grippedPuck`, with no joint and no message. -/
theorem taken_without_joint :
    ¬ ∀ p : Gripper ℚ, (gripperSystem (1 / 10)).Reachable p →
      p.world.getGripperLink.isSome → p.ViewsAgree := by
  intro h
  obtain ⟨p, hreach, hp⟩ :=
    LTS.exists_reachable (T := gripperSystem (1 / 10))
      (s := .load "gripper" 3 (gripperWorld "puck_1" ["body"]))
      (l := [.setGripper 0, .onUpdate])
      (p := fun p => decide (p.world.getGripperLink.isSome ∧ p.grabJoint = none ∧
        p.grippedPuck = some ⟨7, "puck_1"⟩)) ⟨_, _, _, rfl⟩ (by decide +kernel)
  obtain ⟨hlink, hjoint, hgripped⟩ := of_decide_eq_true hp
  have hagree := (h p hreach hlink).joint
  rw [hjoint, hgripped] at hagree
  cases hagree

end GazeboRcll
