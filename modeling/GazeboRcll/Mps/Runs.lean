import GazeboRcll.Mps.Commands
import GazeboRcll.Mps.Geometry
import Mathlib.Tactic.Common

/-!
# Uninterrupted runs of the command handlers

What a call does when nothing else touches the station meanwhile: one lemma for each
function of the worker, giving the state its run ends in. From these follows which calls
of `process_command_in` release the busy flag (`busy_released_iff`): all but the calls of
`move_conveyor` that find no workpiece to move or an unknown side.
-/

namespace GazeboRcll

open Prog StationM

variable {Pose : Type} {M : Machine Pose}

/-! ## Commands in the register -/

/-- The operation that a value of the action register asks a station of this class for,
`none` if it is meant for another class. -/
def Station.operation (st : Station) (value : UInt16) : Option ℕ :=
  if calculateStationTypeFromCommand value = st.code then some (value.toNat - st.code)
  else none

/-- No operation is called by the number zero. -/
@[simp] theorem Station.operation_zero (st : Station) : st.operation 0 = none := by
  cases st <;> decide

/-- An operation is called by its station's code plus its number. -/
theorem Station.operation_eq_some {st : Station} {value : UInt16} {oper : ℕ} :
    st.operation value = some oper ↔
      calculateStationTypeFromCommand value = st.code ∧ value.toNat - st.code = oper := by
  unfold operation
  split_ifs with h <;> simp [h]

/-- A number of a station's class is at least the station's code. -/
theorem Station.le_toNat_of_class {st : Station} {value : UInt16}
    (h : calculateStationTypeFromCommand value = st.code) : st.code ≤ value.toNat := by
  unfold calculateStationTypeFromCommand at h
  omega

/-! ## Writes to the slots -/

/-- Instructions that write no slot. -/
def Instr.SparesSlots : Instr Pose → Prop
  | .setSlot _ _ => False
  | _ => True

/-- The instructions that spare the slots leave the workpieces. -/
theorem handle_wpIn {i : Instr Pose} {m m' : Mps Pose} {r : i.Resp} (hi : i.SparesSlots)
    (h : handle i m = some (m', r)) : m'.wpIn = m.wpIn := by
  cases i with
  | setSlot s wp => exact hi.elim
  | deref s =>
    rw [eq_of_handle_deref h]
  | _ =>
    cases h
    rfl

/-- A pose message finds a workpiece in the free input, or drops a workpiece that it
reports outside its slot, or leaves the slots as they are. -/
theorem onPuckMsg_cases (M : Machine Pose) (msg : PoseMsg Pose) (m : Mps Pose) :
    (m.wpIn .input = none ∧ M.puckIn .input msg.position = true ∧
      (m.onPuckMsg M msg).wpIn
        = Function.update m.wpIn .input (m.world.modelByName msg.name)) ∨
    (∃ s, s ≠ .middle ∧ m.wpIn s = some msg.name ∧ M.puckIn s msg.position = false ∧
      (m.onPuckMsg M msg).wpIn = Function.update m.wpIn s none) ∨
    (m.onPuckMsg M msg).wpIn = m.wpIn := by
  unfold Mps.onPuckMsg
  split_ifs with h1 h2 h3
  · exact .inl ⟨h1.1, h1.2, rfl⟩
  · exact .inr (.inl ⟨.input, by decide, h2.1, h2.2, rfl⟩)
  · exact .inr (.inl ⟨.output, by decide, h3.1, h3.2, rfl⟩)
  · exact .inr (.inr rfl)

/-- A puck message never changes what is in the middle. -/
theorem onPuckMsg_middle (M : Machine Pose) (msg : PoseMsg Pose) (m : Mps Pose) :
    (m.onPuckMsg M msg).wpIn .middle = m.wpIn .middle := by
  rcases onPuckMsg_cases M msg m with ⟨-, -, heq⟩ | ⟨s, hs, -, -, heq⟩ | heq
  · rw [heq, Function.update_of_ne (by decide)]
  · rw [heq, Function.update_of_ne (Ne.symm hs)]
  · rw [heq]

/-- A message from inside a slot does not take the workpiece out of it. -/
theorem onPuckMsg_keeps {M : Machine Pose} {slot : Slot} {wp : String} {pose : Pose}
    {m : Mps Pose} (hwp : m.wpIn slot = some wp) (hpose : M.puckIn slot pose = true) :
    (m.onPuckMsg M ⟨wp, pose⟩).wpIn slot = some wp := by
  rcases onPuckMsg_cases M ⟨wp, pose⟩ m with ⟨hfree, -, heq⟩ | ⟨s, -, -, hout, heq⟩ | heq
  · have hne : slot ≠ .input := by
      rintro rfl
      rw [hwp] at hfree
      cases hfree
    rw [heq, Function.update_of_ne hne, hwp]
  · have hne : slot ≠ s := by
      rintro rfl
      rw [hpose] at hout
      cases hout
    rw [heq, Function.update_of_ne hne, hwp]
  · rw [heq, hwp]

/-- A message from inside the free input puts the workpiece there. -/
theorem onPuckMsg_finds {M : Machine Pose} {wp : String} {pose : Pose} {m : Mps Pose}
    (hfree : m.wpIn .input = none) (hpose : M.puckIn .input pose = true) :
    (m.onPuckMsg M ⟨wp, pose⟩).wpIn .input = m.world.modelByName wp := by
  unfold Mps.onPuckMsg
  rw [if_pos ⟨hfree, hpose⟩, Mps.assign_wpIn_self]

/-- Pose messages touch neither the busy flag nor the awaited name. -/
theorem onPuckMsg_frame (M : Machine Pose) (msg : PoseMsg Pose) (m : Mps Pose) :
    (m.onPuckMsg M msg).statusBusyIn = m.statusBusyIn ∧
      (m.onPuckMsg M msg).spawning = m.spawning := by
  unfold Mps.onPuckMsg
  split_ifs <;> exact ⟨rfl, rfl⟩

namespace Mps

/-! ## `move_conveyor` -/

/-- Both registers of a finished command are cleared. -/
def clearCommand (m : Mps Pose) : Mps Pose := (m.write .actionIdIn 0).write .payload1In 0

/-- The state after the workpiece `wp` has been brought from `src` to `dst`. -/
def carried (M : Machine Pose) (wp : String) (src dst : Slot) (m : Mps Pose) : Mps Pose :=
  { ((m.teleport wp (M.center dst)).clearCommand.assign src none).assign dst (some wp) with
    statusBusyIn := false
    statusReadyIn := if dst = .middle then m.statusReadyIn else true }

end Mps

/-- The slots between which a side moves a workpiece. -/
def MachineSide.route : MachineSide → Option (Slot × Slot)
  | .INPUT => some (.middle, .input)
  | .MIDDLE => some (.input, .middle)
  | .OUTPUT => some (.middle, .output)
  | .other _ => none

namespace Mps

/-- The state after a call of `move_conveyor`: a call that is turned down leaves the busy
flag raised and the registers as they are. -/
def moveResult (M : Machine Pose) (side : MachineSide) (m : Mps Pose) : Mps Pose :=
  match side.route with
  | none => { m with statusBusyIn := true }
  | some (src, dst) =>
    match m.wpIn src with
    | none => { m with statusBusyIn := true }
    | some wp => m.carried M wp src dst

/-- Nothing is carried from an empty slot. -/
theorem run_carry_none {src : Slot} {m : Mps Pose} (h : m.wpIn src = none) (dst : Slot) :
    (carry M src dst).run handle m = some (m, ()) := by
  unfold carry
  simp only [Instr.perform_bind, run_op, handle, h, Option.bind_some]
  rfl

/-- A carried piece changes its slot. -/
theorem run_carry_some {src : Slot} {m : Mps Pose} {wp : String} (h : m.wpIn src = some wp)
    (dst : Slot) : (carry M src dst).run handle m = some (m.carried M wp src dst, ()) := by
  unfold carry carried
  by_cases hd : dst = .middle
  · simp only [Instr.perform_bind, run_op, handle, h, hd, if_true, Option.bind_some]
    rfl
  · simp only [Instr.perform_bind, run_op, handle, h, hd, if_false, Option.bind_some]
    rfl

/-- Running the conveyor command gives the state that `moveResult` states. -/
theorem run_moveConveyor (M : Machine Pose) (side : MachineSide) (m : Mps Pose) :
    (moveConveyor M side).run handle m = some (m.moveResult M side, ()) := by
  have hcarry : ∀ src dst, (carry M src dst).run handle { m with statusBusyIn := true }
      = some (match m.wpIn src with
          | none => { m with statusBusyIn := true }
          | some wp => m.carried M wp src dst, ()) := by
    intro src dst
    cases h : m.wpIn src with
    | none => exact run_carry_none (m := { m with statusBusyIn := true }) h dst
    | some wp => exact run_carry_some (m := { m with statusBusyIn := true }) h dst
  unfold moveConveyor moveResult
  simp only [Instr.perform_bind, run_op, handle, Option.bind_some]
  cases side with
  | INPUT => exact hcarry .middle .input
  | MIDDLE => exact hcarry .input .middle
  | OUTPUT => exact hcarry .middle .output
  | other v => rfl

/-! ## `spawn_puck` -/

/-- The request that `spawn_puck` publishes for a random number, if it publishes one. -/
def factoryRequest (M : Machine Pose) (spawnPose : Pose) (baseColor : Color) (roll : ℕ) :
    Option (Factory Pose) :=
  (baseColorText baseColor).bind fun (newColor, colorString) =>
    (M.sdf (puckName roll) newColor colorString).map fun sdf => ⟨sdf, puckName roll, spawnPose⟩

/-- The state after a call of `spawn_puck`. -/
def spawnResult (M : Machine Pose) (spawnPose : Pose) (baseColor : Color) (m : Mps Pose) :
    Mps Pose :=
  { m with
    rolls := fun n => m.rolls (n + 1)
    factoryPub := m.factoryPub ++ (factoryRequest M spawnPose baseColor (m.rolls 0)).toList }

/-- The name that `spawn_puck` returns if it publishes a request. -/
def requestedName (M : Machine Pose) (roll : ℕ) (baseColor : Color) : Option String :=
  (baseColorText baseColor).bind fun (newColor, colorString) =>
    (M.sdf (puckName roll) newColor colorString).map fun _ => puckName roll

/-- A request is made for the colours that have a name. -/
theorem factoryRequest_isSome (pose : Pose) (baseColor : Color) (roll : ℕ) :
    (factoryRequest M pose baseColor roll).isSome = (requestedName M roll baseColor).isSome := by
  unfold factoryRequest requestedName
  cases baseColorText baseColor with
  | none => rfl
  | some text => simp

/-- A puck has a name. -/
theorem puckName_ne_empty (roll : ℕ) : puckName roll ≠ "" := by
  intro h
  have hlist := congrArg String.toList h
  rw [puckName, String.toList_append] at hlist
  exact absurd hlist (by simp)

/-- A requested puck has a name. -/
theorem requestedName_ne_empty {roll : ℕ} {baseColor : Color} :
    requestedName M roll baseColor ≠ some "" := by
  intro h
  obtain ⟨text, -, h⟩ := Option.bind_eq_some_iff.mp h
  obtain ⟨sdf, -, h⟩ := Option.map_eq_some_iff.mp h
  exact puckName_ne_empty roll h

/-- Running the spawn gives the state that `spawnResult` states, and the requested name. -/
theorem run_spawnPuck (pose : Pose) (baseColor : Color) (m : Mps Pose) :
    (spawnPuck M pose baseColor).run handle m =
      some (m.spawnResult M pose baseColor,
        (requestedName M (m.rolls 0) baseColor).getD "") := by
  unfold spawnPuck requestedName spawnResult factoryRequest
  simp only [StationM.rand, Instr.perform_bind, run_op, handle, Option.bind_some]
  cases baseColorText baseColor with
  | none => simp
  | some text =>
    obtain ⟨newColor, colorString⟩ := text
    dsimp only [Option.bind_some]
    cases M.sdf (puckName (m.rolls 0)) newColor colorString with
    | none => simp
    | some sdf => rfl

/-! ## `process_command_in` of `Mps` and of the subclasses -/

/-- `process_command_in` of `Mps` moves the conveyor if the register says so, and does
nothing else. -/
theorem run_processCommandIn (M : Machine Pose) (st : Station) (m : Mps Pose) :
    (processCommandIn M st).run handle m
      = some (if st.operation (m.reg .actionIdIn) = some OPERATION_MOVE_CONVEYOR
          then m.moveResult M (.ofValue (m.reg .payload1In)) else m, ()) := by
  unfold processCommandIn
  simp only [Instr.perform_bind, run_op, handle, Option.bind_some]
  by_cases h0 : m.reg .actionIdIn = 0
  · simp [h0]
  · by_cases hc : calculateStationTypeFromCommand (m.reg .actionIdIn) = st.code
    · have hle := not_lt.mpr (Station.le_toNat_of_class hc)
      by_cases ho : (m.reg .actionIdIn).toNat - st.code = OPERATION_MOVE_CONVEYOR
      · simp only [h0, hc, hle, ho, Station.operation, ne_eq, not_true_eq_false, if_false,
          if_true, run_op, handle, Option.bind_some, run_moveConveyor]
      · simp [h0, hc, hle, ho, Station.operation]
    · simp [h0, hc, Station.operation]

/-- The subclasses go on from where the handler of `Mps` left the station. -/
theorem run_ownOperation (k : ℕ → StationM Pose Unit) {st : Station} {m m' : Mps Pose}
    (h : (processCommandIn M st).run handle m = some (m', ())) :
    (ownOperation M st k).run handle m
      = match st.operation (m'.reg .actionIdIn) with
        | none => some (m', ())
        | some oper => (k oper).run handle m' := by
  unfold ownOperation
  rw [run_bind, h, Option.bind_some]
  simp only [Instr.perform_bind, run_op, handle, Option.bind_some]
  by_cases h0 : m'.reg .actionIdIn = 0
  · simp [h0]
  · by_cases hc : calculateStationTypeFromCommand (m'.reg .actionIdIn) = st.code <;>
      simp [h0, hc, Station.operation]

end Mps

/-! ## `BaseStation` -/

namespace BaseStation

/-- The announcement is the one that the station waits for, and the workpiece stands in
the middle. -/
def Awaits (M : Machine Pose) (msg : NewPuck) (m : Mps Pose) : Prop :=
  m.spawning ≠ "" ∧ m.world.models msg.puckName = true ∧ m.spawning = msg.puckName ∧
    M.puckIn .middle (m.world.pose msg.puckName) = true

instance (M : Machine Pose) (msg : NewPuck) (m : Mps Pose) : Decidable (Awaits M msg m) :=
  inferInstanceAs (Decidable (_ ∧ _))

/-- The awaited puck is put into the middle. -/
theorem onNewPuck_of_awaits {msg : NewPuck} {m : Mps Pose} (h : Awaits M msg m) :
    onNewPuck M msg m = { (m.onNewPuck msg).assign .middle (some msg.puckName) with
      spawning := "", statusBusyIn := false } := by
  obtain ⟨hs, hmodel, hname, hpos⟩ := h
  unfold onNewPuck
  rw [if_neg hs]
  simp only [Mps.onNewPuck, World.modelByName, hmodel, hname, hpos, and_self, if_true]

/-- Any other new puck ends the waiting without being taken. -/
theorem onNewPuck_of_not_awaits {msg : NewPuck} {m : Mps Pose} (h : ¬ Awaits M msg m) :
    onNewPuck M msg m =
      if m.spawning = "" then m else { m.onNewPuck msg with statusBusyIn := false } := by
  unfold onNewPuck
  by_cases hs : m.spawning = ""
  · rw [if_pos hs, if_pos hs]
  · rw [if_neg hs, if_neg hs]
    cases hmodel : m.world.models msg.puckName with
    | false => simp only [Mps.onNewPuck, World.modelByName, hmodel, reduceCtorEq, if_false]
    | true =>
      have hn : ¬ (m.spawning = msg.puckName ∧
          M.puckIn .middle (m.world.pose msg.puckName) = true) :=
        fun hc => h ⟨hs, hmodel, hc.1, hc.2⟩
      simp only [Mps.onNewPuck, World.modelByName, hmodel, hn, if_true, if_false]

/-- The choice of the colour sets `spawn_clr` at most, so it follows every outline that
permits this and stays where it is. -/
theorem selectColor_follows {P : Type} {O : Outline (Instr Pose) Instr.Resp P} {x : P}
    (hset : ∀ c r, O.allows x (.setSpawnClr c) r ∧ O.next x (.setSpawnClr c) r = x)
    (color : UInt16) :
    (selectColor color : StationM Pose Unit).Follows O (fun y _ => y = x) x := by
  unfold selectColor
  split_ifs
  · exact fun r _ => hset .RED r
  · exact fun r _ => hset .SILVER r
  · exact fun r _ => hset .BLACK r
  · rfl

end BaseStation

/-! ## `CapStation` -/

namespace CapStation

/-- The state after a call of `retrieve_cap`. -/
def retrieveResult (m : Mps Pose) : Mps Pose :=
  match m.wpIn .middle with
  | none => m
  | some wp =>
    { m.clearCommand with
      puckCmdPub := m.puckCmdPub ++ [{ command := .REMOVE_CAP, puckName := wp }]
      statusBusyIn := false }

/-- The state after the stored cap, if there is one, has been sent to the workpiece `wp`. -/
def handOver (wp : String) (m : Mps Pose) : Mps Pose :=
  if m.storedCapColor ≠ .NONE then
    { m with
      puckCmdPub := m.puckCmdPub ++
        [{ command := .ADD_CAP, color := [m.storedCapColor], puckName := wp }]
      storedCapColor := .NONE }
  else m

/-- The state after a call of `mount_cap`. -/
def mountResult (M : Machine Pose) (m : Mps Pose) : Mps Pose :=
  match m.wpIn .middle with
  | none => m
  | some wp =>
    if M.puckIn .middle (m.world.pose wp) = false then m
    else { (handOver wp m).clearCommand with statusBusyIn := false }

/-- Running a retrieval gives the state that `retrieveResult` states. -/
theorem run_retrieveCap (m : Mps Pose) :
    retrieveCap.run handle m = some (retrieveResult m, ()) := by
  unfold retrieveCap retrieveResult
  cases h : m.wpIn .middle with
  | none =>
    simp only [Instr.perform_bind, run_op, handle, h, Option.bind_some]
    rfl
  | some wp =>
    simp only [Instr.perform_bind, run_op, handle, h, Option.bind_some, Option.map_some]
    rfl

/-- The stored cap goes to the piece in the middle. -/
theorem run_mountStoredCap {m : Mps Pose} {wp : String} (h : m.wpIn .middle = some wp) :
    mountStoredCap.run handle m = some (handOver wp m, ()) := by
  unfold mountStoredCap handOver
  simp only [Instr.perform_bind, run_op, handle, Option.bind_some]
  by_cases hc : m.storedCapColor ≠ .NONE
  · rw [if_pos hc, if_pos hc]
    simp only [run_op, handle, h, Option.bind_some, Option.map_some]
    rfl
  · rw [if_neg hc, if_neg hc]
    rfl

/-- Running a mounting gives the state that `mountResult` states. -/
theorem run_mountCap (M : Machine Pose) (m : Mps Pose) :
    (mountCap M).run handle m = some (mountResult M m, ()) := by
  unfold mountCap mountResult
  cases h : m.wpIn .middle with
  | none =>
    simp only [Instr.perform_bind, run_op, handle, h, Option.bind_some]
    rfl
  | some wp =>
    simp only [Instr.perform_bind, run_op, handle, h, Option.bind_some, Option.map_some]
    cases hp : M.puckIn .middle (m.world.pose wp) with
    | false =>
      simp only [if_true, run_op, handle, h, Option.bind_some, Option.map_some]
      rfl
    | true =>
      have hm : ({ m with statusBusyIn := true } : Mps Pose).wpIn .middle = some wp := h
      simp only [reduceCtorEq, if_false, run_op, run_bind, handle, Option.bind_some,
        run_mountStoredCap hm]
      unfold handOver
      split_ifs <;> rfl

end CapStation

/-! ## `RingStation` -/

namespace RingStation

/-- The state after a call of `mount_ring`. -/
def mountResult (M : Machine Pose) (color : Color) (m : Mps Pose) : Mps Pose :=
  match m.wpIn .middle with
  | none => m
  | some wp =>
    if M.puckIn .middle (m.world.pose wp) = false then m
    else
      { m with
        puckCmdPub := m.puckCmdPub ++ [{ command := .ADD_RING, color := [color], puckName := wp }]
        statusBusyIn := false }

/-- Running a ring's mounting gives the state that `mountResult` states. -/
theorem run_mountRing (M : Machine Pose) (color : Color) (m : Mps Pose) :
    (mountRing M color).run handle m = some (mountResult M color m, ()) := by
  unfold mountRing mountResult
  cases h : m.wpIn .middle with
  | none =>
    simp only [Instr.perform_bind, run_op, handle, h, Option.bind_some]
    rfl
  | some wp =>
    simp only [Instr.perform_bind, run_op, handle, h, Option.bind_some, Option.map_some]
    cases hp : M.puckIn .middle (m.world.pose wp) with
    | false =>
      simp only [if_true, run_op, handle, h, Option.bind_some, Option.map_some]
      rfl
    | true =>
      simp only [reduceCtorEq, if_false, run_op, handle, h, Option.bind_some, Option.map_some]
      rfl

/-- The colour the second payload stands for. -/
def colorOf (M : Machine Pose) (payload2 : UInt16) : Color :=
  if payload2 = 1 then .BLUE
  else if payload2 = 2 then .GREEN
  else if payload2 = 3 then .ORANGE
  else if payload2 = 4 then .YELLOW
  else M.garbage

/-- Choosing a colour changes nothing. -/
theorem run_ringColor (M : Machine Pose) (payload2 : UInt16) (m : Mps Pose) :
    (ringColor M payload2).run handle m = some (m, colorOf M payload2) := by
  unfold ringColor colorOf
  split_ifs <;> rfl

end RingStation

/-! ## `DeliveryStation` -/

namespace DeliveryStation

/-- The state after a call of `deliver`. -/
def deliverResult (M : Machine Pose) (m : Mps Pose) : Mps Pose :=
  if m.reg .payload1In ≠ 1 ∧ m.reg .payload1In ≠ 2 ∧ m.reg .payload1In ≠ 3 then m
  else
    match m.wpIn .input with
    | none => m
    | some wp =>
      { (m.clearCommand.teleport wp M.gate).assign .input none with
        puckCmdPub := m.puckCmdPub ++
          [{ command := .DELIVER, puckName := wp, teamColor := M.teamColor }]
        statusBusyIn := false }

/-- Running a delivery gives the state that `deliverResult` states. -/
theorem run_deliver (M : Machine Pose) (m : Mps Pose) :
    (deliver M).run handle m = some (deliverResult M m, ()) := by
  unfold deliver deliverResult
  simp only [Instr.perform_bind, run_op, handle, Option.bind_some]
  by_cases hs : m.reg .payload1In ≠ 1 ∧ m.reg .payload1In ≠ 2 ∧ m.reg .payload1In ≠ 3
  · rw [if_pos hs, if_pos hs]
    rfl
  · rw [if_neg hs, if_neg hs]
    simp only [run_op, handle, Option.bind_some]
    cases h : m.wpIn .input with
    | none => rfl
    | some wp =>
      -- none of the instructions before the dereferences writes a slot
      have hclear : (({ m with statusBusyIn := true }).write .actionIdIn 0
          |>.write .payload1In 0).wpIn .input = some wp := h
      have hteleport : ((({ m with statusBusyIn := true }).write .actionIdIn 0
          |>.write .payload1In 0).teleport wp M.gate).wpIn .input = some wp := h
      simp only [run_op, handle, hclear, hteleport, Option.bind_some, Option.map_some]
      rfl

end DeliveryStation

/-! ## Releasing the busy flag -/

/-- The command in the register asks this station to move the conveyor, but the side is
unknown or the slot to take the workpiece from is empty. -/
def Mps.MoveRejected (st : Station) (m : Mps Pose) : Prop :=
  st.operation (m.reg .actionIdIn) = some OPERATION_MOVE_CONVEYOR ∧
    ∀ src dst, (MachineSide.ofValue (m.reg .payload1In)).route = some (src, dst) →
      m.wpIn src = none

/-- The call runs to its end and leaves the busy flag lowered. -/
def ReleasesBusy (p : StationM Pose Unit) (m : Mps Pose) : Prop :=
  ∃ m', p.run handle m = some (m', ()) ∧ m'.statusBusyIn = false

/-- A conveyor with a piece to move carries it along its route. -/
theorem moveResult_of_route {side : MachineSide} {src dst : Slot} {wp : String} {m : Mps Pose}
    (hr : side.route = some (src, dst)) (hwp : m.wpIn src = some wp) :
    m.moveResult M side = m.carried M wp src dst := by
  simp only [Mps.moveResult, hr, hwp]

/-- A rejected move raises the busy flag and does nothing else. -/
theorem moveResult_of_rejected {side : MachineSide} {m : Mps Pose}
    (h : ∀ src dst, side.route = some (src, dst) → m.wpIn src = none) :
    m.moveResult M side = { m with statusBusyIn := true } := by
  unfold Mps.moveResult
  cases hr : side.route with
  | none => rfl
  | some r => simp only [h r.1 r.2 hr]

/-- The part of a subclass decides about its own operations, the part of `Mps` about
moving the conveyor. -/
theorem releasesBusy_ownOperation (M : Machine Pose) {st : Station} {m : Mps Pose}
    (k : ℕ → StationM Pose Unit) (hb : m.statusBusyIn = false)
    (hmove : ∀ m' : Mps Pose, (k OPERATION_MOVE_CONVEYOR).run handle m' = some (m', ()))
    (hk : ∀ oper, st.operation (m.reg .actionIdIn) = some oper → ReleasesBusy (k oper) m) :
    ReleasesBusy (Mps.ownOperation M st k) m ↔ ¬ m.MoveRejected st := by
  have hrun := Mps.run_ownOperation k (Mps.run_processCommandIn M st m)
  by_cases hop : st.operation (m.reg .actionIdIn) = some OPERATION_MOVE_CONVEYOR
  · rw [if_pos hop] at hrun
    by_cases hrej : ∀ src dst, (MachineSide.ofValue (m.reg .payload1In)).route = some (src, dst) →
        m.wpIn src = none
    · -- the flag stays raised: the register still holds the command, which is not the
      -- subclass's own
      rw [moveResult_of_rejected hrej] at hrun
      simp only [hop, hmove] at hrun
      constructor
      · rintro ⟨m', hm', hbusy⟩
        rw [hrun] at hm'
        cases hm'
        cases hbusy
      · exact fun h => absurd ⟨hop, hrej⟩ h
    · -- the workpiece is carried and the register cleared, so the subclass does nothing
      refine iff_of_true ?_ fun h => hrej h.2
      push Not at hrej
      obtain ⟨src, dst, hr, hsrc⟩ := hrej
      obtain ⟨wp, hwp⟩ := Option.ne_none_iff_exists'.mp hsrc
      rw [moveResult_of_route hr hwp] at hrun
      have hcleared : (m.carried M wp src dst).reg .actionIdIn = 0 := rfl
      rw [hcleared, Station.operation_zero] at hrun
      exact ⟨_, hrun, rfl⟩
  · -- the handler of `Mps` has done nothing, so the subclass finds the same state
    refine iff_of_true ?_ fun h => hop h.1
    rw [if_neg hop] at hrun
    cases hoper : st.operation (m.reg .actionIdIn) with
    | none =>
      rw [hoper] at hrun
      exact ⟨m, hrun, hb⟩
    | some oper =>
      rw [hoper] at hrun
      obtain ⟨m', hm', hbusy⟩ := hk oper hoper
      exact ⟨m', hrun.trans hm', hbusy⟩

/-- Mounting a cap ends with the busy flag down. -/
theorem releasesBusy_mountCap {m : Mps Pose} (hb : m.statusBusyIn = false) :
    ReleasesBusy (CapStation.mountCap M) m := by
  refine ⟨_, CapStation.run_mountCap M m, ?_⟩
  unfold CapStation.mountResult
  cases m.wpIn .middle with
  | none => exact hb
  | some wp => dsimp only; split_ifs <;> first | exact hb | rfl

/-- Retrieving a cap ends with the busy flag down. -/
theorem releasesBusy_retrieveCap {m : Mps Pose} (hb : m.statusBusyIn = false) :
    ReleasesBusy CapStation.retrieveCap m := by
  refine ⟨_, CapStation.run_retrieveCap m, ?_⟩
  unfold CapStation.retrieveResult
  cases m.wpIn .middle with
  | none => exact hb
  | some wp => rfl

/-- Mounting a ring ends with the busy flag down. -/
theorem releasesBusy_mountRing {m : Mps Pose} (color : Color) (hb : m.statusBusyIn = false) :
    ReleasesBusy (RingStation.mountRing M color) m := by
  refine ⟨_, RingStation.run_mountRing M color m, ?_⟩
  unfold RingStation.mountResult
  cases m.wpIn .middle with
  | none => exact hb
  | some wp => dsimp only; split_ifs <;> first | exact hb | rfl

/-- A delivery ends with the busy flag down. -/
theorem releasesBusy_deliver {m : Mps Pose} (hb : m.statusBusyIn = false) :
    ReleasesBusy (DeliveryStation.deliver M) m := by
  refine ⟨_, DeliveryStation.run_deliver M m, ?_⟩
  unfold DeliveryStation.deliverResult
  split_ifs
  · exact hb
  · cases m.wpIn .input with
    | none => exact hb
    | some wp => rfl

/-- Every operation of a cap station ends with the busy flag down. -/
theorem releasesBusy_operate_cap {m : Mps Pose} (oper : ℕ) (hb : m.statusBusyIn = false) :
    ReleasesBusy (CapStation.operate M oper) m := by
  unfold CapStation.operate
  by_cases ho : oper ≠ OPERATION_CAP_ACTION
  · rw [if_pos ho]
    exact ⟨m, rfl, hb⟩
  · rw [if_neg ho]
    simp only [Instr.perform_bind, ReleasesBusy, run_op, handle, Option.bind_some]
    split_ifs
    · exact releasesBusy_retrieveCap hb
    · exact releasesBusy_mountCap hb
    · exact ⟨m, rfl, hb⟩

/-- Every operation of a ring station ends with the busy flag down. -/
theorem releasesBusy_operate_ring {m : Mps Pose} (oper : ℕ) (hb : m.statusBusyIn = false) :
    ReleasesBusy (RingStation.operate M oper) m := by
  unfold RingStation.operate
  by_cases ho : oper ≠ OPERATION_MOUNT_RING
  · rw [if_pos ho]
    exact ⟨m, rfl, hb⟩
  · rw [if_neg ho]
    simp only [Instr.perform_bind, ReleasesBusy, run_op, run_bind, handle, Option.bind_some,
      RingStation.run_ringColor]
    split_ifs
    · exact ⟨_, rfl, hb⟩
    · exact releasesBusy_mountRing _ hb

/-- Starting with the busy flag lowered, a call of `process_command_in` returns with the
flag lowered exactly if the command is not a move of the conveyor that is turned down. -/
theorem busy_released_iff (M : Machine Pose) (st : Station) (m : Mps Pose)
    (hst : st ≠ .storage) (hb : m.statusBusyIn = false)
    (hbase : st = .base → st.operation (m.reg .actionIdIn) ≠ some OPERATION_GET_BASE) :
    (∃ m', (processCommandIn M st).run handle m = some (m', ()) ∧ m'.statusBusyIn = false) ↔
      ¬ m.MoveRejected st := by
  cases st with
  | base =>
    refine releasesBusy_ownOperation M (BaseStation.operate M) hb (fun _ => rfl)
      fun oper hoper => ?_
    have hne : oper ≠ OPERATION_GET_BASE := fun h => hbase rfl (h ▸ hoper)
    unfold BaseStation.operate
    rw [if_pos hne]
    exact ⟨m, rfl, hb⟩
  | ring =>
    exact releasesBusy_ownOperation M (RingStation.operate M) hb (fun _ => rfl)
      fun oper _ => releasesBusy_operate_ring oper hb
  | cap =>
    exact releasesBusy_ownOperation M (CapStation.operate M) hb (fun _ => rfl)
      fun oper _ => releasesBusy_operate_cap oper hb
  | delivery =>
    refine releasesBusy_ownOperation M (DeliveryStation.operate M) hb (fun _ => rfl)
      fun oper _ => ?_
    unfold DeliveryStation.operate
    split_ifs
    · exact releasesBusy_deliver hb
    · exact ⟨m, rfl, hb⟩
  | storage => exact absurd rfl hst

/-- A cap station whose client has written an action and its first payload. -/
def capStationWith (actionId payload1 : UInt16) : Mps (Vec ℚ) :=
  ((shippedMps "C-CS1").write .payload1In payload1).write .actionIdIn actionId

/-- A mounting that ends with the busy flag down. -/
theorem busy_released_iff_mount :
    ∃ m', (processCommandIn (shipped "C-CS1") .cap).run handle (capStationWith 301 2)
        = some (m', ()) ∧ m'.statusBusyIn = false :=
  (busy_released_iff (shipped "C-CS1") .cap (capStationWith 301 2) (by decide) rfl
    (by decide)).mpr fun h => absurd h.1 (by decide)

/-- Moving a workpiece to the output of a cap station that holds none leaves the station
busy. -/
theorem busy_not_released :
    ¬ ∀ (st : Station) (m : Mps (Vec ℚ)), st ≠ .storage → m.statusBusyIn = false →
      (st = .base → st.operation (m.reg .actionIdIn) ≠ some OPERATION_GET_BASE) →
      ∃ m', (processCommandIn (shipped "C-CS1") st).run handle m = some (m', ()) ∧
        m'.statusBusyIn = false := by
  intro h
  obtain ⟨m', hm', hb⟩ := h .cap (capStationWith 302 3) (by decide) rfl (by decide)
  have hrun : ((processCommandIn (shipped "C-CS1") .cap).run handle (capStationWith 302 3)).map
      (fun t => t.1.statusBusyIn) = some true := by decide
  rw [hm', Option.map_some, hb] at hrun
  cases hrun

end GazeboRcll
