import GazeboRcll.Mps.Slots

/-!
# Commands with arbitrary payloads

Which payloads the base station and the ring station check. The client writes the payloads
and the action of one command again and again, `process_command_in` runs, and anything else
can happen between two commands. What is observed of an execution are the states before and
after it and the calls of `spawn_puck`.

Main results: `baseOrder_iff` and `ringOrder_iff`.
-/

namespace GazeboRcll

open Prog StationM

variable {Pose : Type} {M : Machine Pose}

/-! ## The system -/

/-- GET_BASE and MOUNT_RING as values of the action register. -/
def getBaseAction : UInt16 := 101

def mountRingAction : UInt16 := 203

/-- The calls of `spawn_puck`: nothing else reads `spawn_clr`, and it is read to be the
argument. -/
def spawnCalls : (i : Instr Pose) → i.Resp → List Color
  | .getSpawnClr, c => [c]
  | _, _ => []

/-- An execution of a command. -/
structure Execution (Pose : Type) where
  /-- The state in which the command is found in the registers. -/
  before : Mps Pose
  after : Mps Pose
  /-- The colours with which `spawn_puck` was called. -/
  spawned : List Color

/-- A call of `process_command_in`, `none` if it is undefined. -/
def execute (M : Machine Pose) (st : Station) (m : Mps Pose) : Option (Execution Pose) :=
  ((processCommandIn M st).run (handle.recording spawnCalls) (m, [])).map fun t =>
    ⟨m, t.1.1, t.1.2⟩

/-- The client writes the payloads, then the action. -/
def Mps.receive (m : Mps Pose) (action payload1 payload2 : UInt16) : Mps Pose :=
  ((m.write .payload1In payload1).write .payload2In payload2).write .actionIdIn action

/-- The register of the action holds what was sent. -/
theorem Mps.receive_actionIdIn (m : Mps Pose) (action payload1 payload2 : UInt16) :
    (m.receive action payload1 payload2).reg .actionIdIn = action := write_reg_self ..

/-- A command of the client, or something else that happens to the station. -/
inductive Order (Pose : Type) where
  | command (payload1 payload2 : UInt16)
  | call (c : Call Pose)

/-- Orders with one action for a station of the given class, and their executions. -/
def orderSystem (M : Machine Pose) (st : Station) (action : UInt16) (init : Mps Pose → Prop) :
    LTS (Mps Pose × List (Execution Pose)) (Order Pose) where
  init s := init s.1 ∧ s.2 = []
  next s
    | .command payload1 payload2 =>
      (execute M st (s.1.receive action payload1 payload2)).map fun e =>
        (e.after, s.2 ++ [e])
    | .call c => (c.perform M s.1).map fun m => (m, s.2)

/-- The executions are those of calls of `process_command_in` that find the action in the
register. -/
theorem execute_of_reachable {st : Station} {action : UInt16} {init : Mps Pose → Prop}
    {s : Mps Pose × List (Execution Pose)} (h : (orderSystem M st action init).Reachable s) :
    ∀ e ∈ s.2, e.before.reg .actionIdIn = action ∧ execute M st e.before = some e := by
  refine LTS.Reach.invariant
    (P := fun s => ∀ e ∈ s.2, e.before.reg .actionIdIn = action ∧
      execute M st e.before = some e) ?_ ?_ h
  · intro s hinit e he
    rw [hinit.2] at he
    cases he
  · intro s l s' hs _ hstep e he
    cases l with
    | command payload1 payload2 =>
      obtain ⟨e', he', rfl⟩ := Option.map_eq_some_iff.mp hstep
      rcases List.mem_append.mp he with hold | hnew
      · exact hs e hold
      · rw [List.mem_singleton.mp hnew]
        obtain ⟨t, -, rfl⟩ := Option.map_eq_some_iff.mp he'
        exact ⟨Mps.receive_actionIdIn .., he'⟩
    | call c =>
      obtain ⟨m, -, rfl⟩ := Option.map_eq_some_iff.mp hstep
      exact hs e he

/-- What is left without the calls. -/
theorem run_of_execute {st : Station} {m : Mps Pose} {e : Execution Pose}
    (h : execute M st m = some e) :
    (processCommandIn M st).run handle m = some (e.after, ()) := by
  obtain ⟨t, ht, rfl⟩ := Option.map_eq_some_iff.mp h
  rw [← run_recording handle spawnCalls _ m [], ht]
  rfl

/-- A command that ends has an execution. -/
theorem execute_isSome {st : Station} {m m' : Mps Pose}
    (h : (processCommandIn M st).run handle m = some (m', ())) :
    (execute M st m).isSome = true := by
  rw [← run_recording handle spawnCalls _ m []] at h
  obtain ⟨t, ht, -⟩ := Option.map_eq_some_iff.mp h
  rw [execute, ht]
  rfl

/-- One instruction, with the colours it spawns. -/
theorem run_perform (i : Instr Pose) (m : Mps Pose) (l : List Color) :
    i.perform.run (handle.recording spawnCalls) (m, l) =
      (handle i m).map fun t => ((t.1, l ++ spawnCalls i t.2), t.2) := by
  unfold Instr.perform instr
  rw [run_op_recording]
  cases handle i m <;> rfl

/-- Before an operation of its own, a subclass reads no colour. -/
theorem run_ownOperation_recording {st : Station} {m : Mps Pose} {oper : ℕ}
    (h : st.operation (m.reg .actionIdIn) = some oper) (hmove : oper ≠ OPERATION_MOVE_CONVEYOR)
    (k : ℕ → StationM Pose Unit) (l : List Color) :
    (Mps.ownOperation M st k).run (handle.recording spawnCalls) (m, l) =
      (k oper).run (handle.recording spawnCalls) (m, l) := by
  obtain ⟨hclass, hoper⟩ := Station.operation_eq_some.mp h
  have hzero : m.reg .actionIdIn ≠ 0 := by
    intro heq
    rw [heq, Station.operation_zero] at h
    cases h
  have hle := not_lt.mpr (Station.le_toNat_of_class hclass)
  unfold Mps.ownOperation Mps.processCommandIn
  simp only [Instr.perform_bind, run_op_recording, handle, Option.bind_some, spawnCalls,
    List.append_nil, run_bind, hzero, hclass, hle, hoper, hmove, ne_eq, not_true_eq_false,
    if_false, pure_eq_ret, run_ret]

/-! ## `BaseStation` -/

namespace BaseStation

/-- The colour that a GET_BASE command asks for. -/
def requested (payload1 : UInt16) : Option Color :=
  if payload1 = 1 then some .RED
  else if payload1 = 2 then some .SILVER
  else if payload1 = 3 then some .BLACK
  else none

/-- `spawn_puck` is called once with the requested colour, and without one it is not called
and the station is not busy. -/
def AsRequested (e : Execution Pose) : Prop :=
  e.spawned = (requested (e.before.reg .payload1In)).toList ∧
    (requested (e.before.reg .payload1In) = none → e.after.statusBusyIn = false)

instance : DecidablePred (@AsRequested Pose) := fun _ => inferInstanceAs (Decidable (_ ∧ _))

/-- `spawn_clr` after the switch of `dispense_base`. -/
def selected (payload1 : UInt16) (spawnClr : Color) : Color :=
  (requested payload1).getD spawnClr

/-- The switch sets `spawn_clr` at most. -/
theorem run_selectColor (payload1 : UInt16) (m : Mps Pose) (l : List Color) :
    (selectColor payload1).run (handle.recording spawnCalls) (m, l) =
      some (({ m with spawnClr := selected payload1 m.spawnClr }, l), ()) := by
  have hset : ∀ c, (setSpawnClr c : StationM Pose Unit).run (handle.recording spawnCalls) (m, l) =
      some (({ m with spawnClr := c }, l), ()) := by
    intro c
    rw [run_perform]
    simp only [handle, Option.map_some, spawnCalls, List.append_nil]
  unfold selectColor selected requested
  split_ifs
  · exact hset .RED
  · exact hset .SILVER
  · exact hset .BLACK
  · rfl

/-- `spawn_puck` leaves the flag alone. -/
theorem run_spawnPuck (p : Pose) (c : Color) (m : Mps Pose) (l : List Color) :
    ∃ m' name, (Mps.spawnPuck M p c).run (handle.recording spawnCalls) (m, l) =
      some ((m', l), name) ∧ m'.statusBusyIn = m.statusBusyIn := by
  unfold Mps.spawnPuck
  simp only [Instr.perform_bind, run_op_recording, handle, Option.bind_some, spawnCalls,
    List.append_nil]
  split
  · exact ⟨_, _, rfl, rfl⟩
  · split
    · exact ⟨_, _, rfl, rfl⟩
    · simp only [run_op_recording, handle, Option.bind_some, spawnCalls, List.append_nil]
      exact ⟨_, _, rfl, rfl⟩

/-- A dispensing spawns the colour of its payload, if it names one. -/
theorem run_dispenseBase (payload1 : UInt16) (m : Mps Pose) (l : List Color) :
    ∃ m', (dispenseBase M payload1).run (handle.recording spawnCalls) (m, l) =
      some ((m', l ++ [selected payload1 m.spawnClr]), ()) ∧ m'.statusBusyIn = true := by
  unfold dispenseBase
  simp only [Instr.perform_bind, run_op_recording, handle, Option.bind_some, spawnCalls,
    List.append_nil, run_bind, run_selectColor]
  obtain ⟨m', name, hrun, hbusy⟩ := run_spawnPuck (M := M) M.spawnPose
    (selected payload1 m.spawnClr)
    { m with statusBusyIn := true, spawnClr := selected payload1 m.spawnClr }
    (l ++ [selected payload1 m.spawnClr])
  rw [hrun]
  rw [Option.bind_some, run_perform]
  simp only [handle, Option.map_some, spawnCalls, List.append_nil]
  exact ⟨_, rfl, hbusy⟩

/-- A GET_BASE command calls `spawn_puck` once, whatever its payload, and raises the flag. -/
theorem execute_getBase {m : Mps Pose} (h : m.reg .actionIdIn = getBaseAction) :
    ∃ e, execute M .base m = some e ∧ e.before = m ∧
      e.spawned = [selected (m.reg .payload1In) m.spawnClr] ∧ e.after.statusBusyIn = true := by
  obtain ⟨m', hrun, hbusy⟩ := run_dispenseBase (M := M) (m.reg .payload1In) m []
  refine ⟨⟨m, (m'.write .actionIdIn 0).write .payload1In 0,
    [selected (m.reg .payload1In) m.spawnClr]⟩, ?_, rfl, rfl, hbusy⟩
  have hoper : Station.base.operation (m.reg .actionIdIn) = some OPERATION_GET_BASE := by
    rw [h]
    decide
  have hown := run_ownOperation_recording (M := M) hoper (by decide) (operate M) []
  unfold operate at hown
  rw [if_neg (not_not.mpr rfl), Instr.perform_bind, run_op_recording] at hown
  simp only [handle, Option.bind_some, spawnCalls, List.append_nil] at hown
  rw [run_bind, hrun] at hown
  simp only [Instr.perform_bind, run_op_recording, handle, Option.bind_some, spawnCalls,
    List.append_nil] at hown
  rw [run_perform] at hown
  unfold execute
  exact (congrArg _ hown).trans rfl

/-- A base is as requested when the payload names one of the three colours. -/
theorem asRequested_iff {e : Execution Pose} (h : e.before.reg .actionIdIn = getBaseAction)
    (he : execute M .base e.before = some e) :
    AsRequested e ↔ e.before.reg .payload1In ∈ [1, 2, 3] := by
  obtain ⟨e', he', -, hspawned, hbusy⟩ := execute_getBase (M := M) h
  rw [he] at he'
  cases he'
  unfold AsRequested
  rw [hspawned, hbusy, selected, requested]
  simp only [List.mem_cons, List.not_mem_nil, or_false]
  split_ifs with h1 h2 h3
  · simp [h1]
  · simp [h2]
  · simp [h3]
  · simp [h1, h2, h3]

end BaseStation

/-- A station as one of its constructors leaves it. -/
def Mps.IsFresh (m : Mps Pose) : Prop := ∃ w clr rolls, m = Mps.fresh w clr rolls

/-- From its construction on, a base station executes every GET_BASE command, and as it was
requested exactly if the payload is 1, 2 or 3. -/
theorem baseOrder_iff (M : Machine Pose) {s : Mps Pose × List (Execution Pose)}
    (h : (orderSystem M .base getBaseAction Mps.IsFresh).Reachable s) :
    (∀ payload1 payload2, ((orderSystem M .base getBaseAction Mps.IsFresh).next s
        (.command payload1 payload2)).isSome = true) ∧
      ∀ e ∈ s.2, BaseStation.AsRequested e ↔ e.before.reg .payload1In ∈ [1, 2, 3] := by
  constructor
  · intro payload1 payload2
    obtain ⟨e, he, -⟩ := BaseStation.execute_getBase (M := M)
      (s.1.receive_actionIdIn getBaseAction payload1 payload2)
    refine Option.isSome_map.trans ?_
    rw [he]
    rfl
  · intro e he
    obtain ⟨haction, hexec⟩ := execute_of_reachable h e he
    exact BaseStation.asRequested_iff haction hexec

/-- The shipped machine has not been used. -/
theorem shippedMps_isFresh (name : String) : (shippedMps name).IsFresh := ⟨_, _, _, rfl⟩

/-- A red base, as ordered. -/
theorem baseOrder_iff_red :
    ∃ s, (orderSystem (shipped "C-BS") .base getBaseAction Mps.IsFresh).Reachable s ∧
      s.2.map (fun e => e.before.reg .payload1In) = [1] ∧
      ∀ e ∈ s.2, BaseStation.AsRequested e := by
  obtain ⟨s, hreach, hpayload⟩ := LTS.exists_reachable
    (T := orderSystem (shipped "C-BS") .base getBaseAction Mps.IsFresh)
    (s := (shippedMps "C-BS", [])) (l := [.command 1 0])
    (p := fun s => decide (s.2.map (fun e => e.before.reg .payload1In) = [1]))
    ⟨shippedMps_isFresh _, rfl⟩ (by decide +kernel)
  have hpayload := of_decide_eq_true hpayload
  refine ⟨s, hreach, hpayload, fun e he => ?_⟩
  refine ((baseOrder_iff (shipped "C-BS") hreach).2 e he).mpr ?_
  have hmem := List.mem_map_of_mem (f := fun e => e.before.reg .payload1In) he
  rw [hpayload] at hmem
  rw [List.mem_singleton.mp hmem]
  decide

/-- After a silver base, the payload 4 gets another one. -/
theorem silver_again :
    ¬ ∀ s, (orderSystem (shipped "C-BS") .base getBaseAction Mps.IsFresh).Reachable s →
      ∀ e ∈ s.2, BaseStation.AsRequested e := by
  intro h
  obtain ⟨s, hreach, hspawned⟩ := LTS.exists_reachable
    (T := orderSystem (shipped "C-BS") .base getBaseAction Mps.IsFresh)
    (s := (shippedMps "C-BS", [])) (l := [.command 2 0, .command 4 0])
    (p := fun s => s.2.any fun e => e.before.reg .payload1In = 4 ∧ e.spawned = [.SILVER])
    ⟨shippedMps_isFresh _, rfl⟩ (by decide +kernel)
  obtain ⟨e, he, hspawned⟩ := List.any_eq_true.mp hspawned
  obtain ⟨hpayload, hsilver⟩ := of_decide_eq_true hspawned
  have hcalls := (h s hreach e he).1
  rw [hpayload, hsilver] at hcalls
  exact absurd hcalls (by decide)

/-! ## `RingStation` -/

namespace RingStation

/-- The colour that a MOUNT_RING command asks for. -/
def requestedColor (payload2 : UInt16) : Option Color :=
  if payload2 = 1 then some .BLUE
  else if payload2 = 2 then some .GREEN
  else if payload2 = 3 then some .ORANGE
  else if payload2 = 4 then some .YELLOW
  else none

/-- The workpiece is in the middle, and stands there. -/
def Located (M : Machine Pose) (m : Mps Pose) (wp : String) : Prop :=
  m.wpIn .middle = some wp ∧ M.puckIn .middle (m.world.pose wp) = true

instance (M : Machine Pose) (m : Mps Pose) : DecidablePred (Located M m) :=
  fun _ => inferInstanceAs (Decidable (_ ∧ _))

/-- What the command in the registers asks to be published. -/
def requested (M : Machine Pose) (m : Mps Pose) : Option WorkpieceCommand :=
  match m.wpIn .middle, requestedColor (m.reg .payload2In) with
  | some wp, some c =>
    if m.reg .payload1In ∈ [1, 2] ∧ Located M m wp then
      some { command := .ADD_RING, color := [c], puckName := wp }
    else none
  | _, _ => none

/-- The command that was asked for is published, and no other one. -/
def AsRequested (M : Machine Pose) (e : Execution Pose) : Prop :=
  e.after.puckCmdPub = e.before.puckCmdPub ++ (requested M e.before).toList

instance (M : Machine Pose) : DecidablePred (AsRequested M) :=
  fun _ => inferInstanceAs (Decidable (_ = _))

/-- What is published. -/
def published (M : Machine Pose) (m : Mps Pose) : Option WorkpieceCommand :=
  (m.wpIn .middle).bind fun wp =>
    if m.reg .payload1In ∈ [1, 2] ∧ Located M m wp then
      some { command := .ADD_RING, color := [colorOf M (m.reg .payload2In)], puckName := wp }
    else none

/-- All registers of a command are cleared. -/
def clearAll (m : Mps Pose) : Mps Pose :=
  ((m.write .actionIdIn 0).write .payload1In 0).write .payload2In 0

/-- The ring station mounts a ring for feeder 1 and 2 only. -/
theorem run_operate (m : Mps Pose) :
    (operate M OPERATION_MOUNT_RING).run handle m =
      (if m.reg .payload1In ≠ 1 ∧ m.reg .payload1In ≠ 2 then
          log (.unexpectedFeeder (m.reg .payload1In))
        else mountRing M (colorOf M (m.reg .payload2In))).run handle (clearAll m) := by
  unfold operate clearAll
  rw [if_neg (not_not.mpr rfl)]
  simp only [Instr.perform_bind, run_op, handle, Option.bind_some, run_bind, run_ringColor]

/-- A MOUNT_RING command publishes at most one command, in a colour of the machine's if none
was requested. -/
theorem run_mountRingAction {m : Mps Pose} (h : m.reg .actionIdIn = mountRingAction) :
    ∃ m', (GazeboRcll.processCommandIn M .ring).run handle m = some (m', ()) ∧
      m'.puckCmdPub = m.puckCmdPub ++ (published M m).toList := by
  have hoper : Station.ring.operation (m.reg .actionIdIn) = some OPERATION_MOUNT_RING := by
    rw [h]
    decide
  have hmps : (Mps.processCommandIn M .ring).run handle m = some (m, ()) := by
    rw [Mps.run_processCommandIn, hoper]
    rfl
  have hown : (GazeboRcll.processCommandIn M .ring).run handle m =
      (operate M OPERATION_MOUNT_RING).run handle m := by
    refine (Mps.run_ownOperation (operate M) hmps).trans ?_
    rw [hoper]
  rw [hown, run_operate, published]
  by_cases hfeeder : m.reg .payload1In ∈ [1, 2]
  · have hknown : ¬ (m.reg .payload1In ≠ 1 ∧ m.reg .payload1In ≠ 2) := by
      rintro ⟨h1, h2⟩
      simp [h1, h2] at hfeeder
    rw [if_neg hknown, run_mountRing]
    refine ⟨_, rfl, ?_⟩
    unfold mountResult
    -- the slots and the world are as before
    have hwp : (clearAll m).wpIn .middle = m.wpIn .middle := rfl
    have hworld : (clearAll m).world = m.world := rfl
    rw [hwp, hworld]
    cases hmiddle : m.wpIn .middle with
    | none => exact (List.append_nil _).symm
    | some wp =>
      rw [Option.bind_some]
      dsimp only
      by_cases hlocated : M.puckIn .middle (m.world.pose wp) = true
      · rw [if_neg (by rw [hlocated]; decide), if_pos ⟨hfeeder, hmiddle, hlocated⟩]
        rfl
      · rw [if_pos (Bool.eq_false_of_not_eq_true hlocated), if_neg fun h => hlocated h.2.2]
        exact (List.append_nil _).symm
  · have hunknown : m.reg .payload1In ≠ 1 ∧ m.reg .payload1In ≠ 2 := by
      simpa using hfeeder
    rw [if_pos hunknown]
    refine ⟨_, rfl, ?_⟩
    cases m.wpIn .middle with
    | none => exact (List.append_nil _).symm
    | some wp =>
      rw [Option.bind_some, if_neg fun h => hfeeder h.1]
      exact (List.append_nil _).symm

/-- Any other payload leaves the colour that was on the stack. -/
theorem colorOf_eq_getD (payload2 : UInt16) :
    colorOf M payload2 = (requestedColor payload2).getD M.garbage := by
  unfold colorOf requestedColor
  split_ifs <;> rfl

/-- Four payloads name a colour. -/
theorem requestedColor_eq_none_iff (payload2 : UInt16) :
    requestedColor payload2 = none ↔ payload2 ∉ [1, 2, 3, 4] := by
  unfold requestedColor
  simp only [List.mem_cons, List.not_mem_nil, or_false, not_or]
  split_ifs <;> simp_all

/-- Both agree exactly if the colour is known where a ring can be mounted. -/
theorem published_eq_requested_iff (m : Mps Pose) :
    published M m = requested M m ↔
      (m.reg .payload1In ∈ [1, 2] → (∃ wp, Located M m wp) → m.reg .payload2In ∈ [1, 2, 3, 4]) := by
  unfold published requested
  rw [colorOf_eq_getD]
  cases hmiddle : m.wpIn .middle with
  | none =>
    refine iff_of_true rfl fun _ ⟨wp, hlocated⟩ => ?_
    cases hmiddle.symm.trans hlocated.1
  | some wp =>
    rw [Option.bind_some]
    cases hcolor : requestedColor (m.reg .payload2In) with
    | none =>
      have hnot := (requestedColor_eq_none_iff _).mp hcolor
      dsimp only
      by_cases hmount : m.reg .payload1In ∈ [1, 2] ∧ Located M m wp
      · rw [if_pos hmount]
        exact iff_of_false (Option.some_ne_none _) fun h => hnot (h hmount.1 ⟨wp, hmount.2⟩)
      · rw [if_neg hmount]
        refine iff_of_true rfl fun hfeeder ⟨wp', hlocated⟩ => ?_
        have heq : wp = wp' := Option.some.inj (hmiddle.symm.trans hlocated.1)
        exact absurd ⟨hfeeder, heq ▸ hlocated⟩ hmount
    | some c =>
      refine iff_of_true rfl fun _ _ => ?_
      by_contra hnot
      rw [(requestedColor_eq_none_iff _).mpr hnot] at hcolor
      cases hcolor

end RingStation

/-- A ring station, whatever state it is found in, executes every MOUNT_RING command, and as
it was requested exactly if the colour is between 1 and 4 where the feeder is 1 or 2 and a
workpiece stands in the middle. -/
theorem ringOrder_iff (M : Machine Pose) {s : Mps Pose × List (Execution Pose)}
    (h : (orderSystem M .ring mountRingAction fun _ => True).Reachable s) :
    (∀ payload1 payload2, ((orderSystem M .ring mountRingAction fun _ => True).next s
        (.command payload1 payload2)).isSome = true) ∧
      ∀ e ∈ s.2, RingStation.AsRequested M e ↔
        (e.before.reg .payload1In ∈ [1, 2] → (∃ wp, RingStation.Located M e.before wp) →
          e.before.reg .payload2In ∈ [1, 2, 3, 4]) := by
  constructor
  · intro payload1 payload2
    obtain ⟨m', hrun, -⟩ := RingStation.run_mountRingAction (M := M)
      (s.1.receive_actionIdIn mountRingAction payload1 payload2)
    exact Option.isSome_map.trans (execute_isSome hrun)
  · intro e he
    obtain ⟨haction, hexec⟩ := execute_of_reachable h e he
    obtain ⟨m', hrun, hpub⟩ := RingStation.run_mountRingAction (M := M) haction
    have hafter : m' = e.after := by
      rw [run_of_execute hexec] at hrun
      cases hrun
      rfl
    rw [← RingStation.published_eq_requested_iff, RingStation.AsRequested, ← hafter, hpub,
      List.append_cancel_left_eq]
    -- a list of at most one command is its first one
    exact ⟨fun h => by simpa using congrArg List.head? h, fun h => by rw [h]⟩

/-- A ring station with a workpiece in the middle. -/
def ringStationWith (wp : String) : Mps (Vec ℚ) := (shippedMps "C-RS1").assign .middle (some wp)

/-- A blue ring, as ordered. -/
theorem ringOrder_iff_blue :
    ∃ s, (orderSystem (shipped "C-RS1") .ring mountRingAction fun _ => True).Reachable s ∧
      s.2.map (fun e => e.before.reg .payload2In) = [1] ∧
      ∀ e ∈ s.2, RingStation.AsRequested (shipped "C-RS1") e := by
  obtain ⟨s, hreach, hpayload⟩ := LTS.exists_reachable
    (T := orderSystem (shipped "C-RS1") .ring mountRingAction fun _ => True)
    (s := (ringStationWith "puck_7", [])) (l := [.command 2 1])
    (p := fun s => decide (s.2.map (fun e => e.before.reg .payload2In) = [1]))
    ⟨trivial, rfl⟩ (by decide +kernel)
  have hpayload := of_decide_eq_true hpayload
  refine ⟨s, hreach, hpayload, fun e he => ?_⟩
  refine ((ringOrder_iff (shipped "C-RS1") hreach).2 e he).mpr fun _ _ => ?_
  have hmem := List.mem_map_of_mem (f := fun e => e.before.reg .payload2In) he
  rw [hpayload] at hmem
  rw [List.mem_singleton.mp hmem]
  decide

/-- With the colour 0 a ring is mounted all the same. -/
theorem ring_without_color :
    ¬ ∀ s, (orderSystem (shipped "C-RS1") .ring mountRingAction fun _ => True).Reachable s →
      ∀ e ∈ s.2, RingStation.AsRequested (shipped "C-RS1") e := by
  intro h
  obtain ⟨s, hreach, hmounted⟩ := LTS.exists_reachable
    (T := orderSystem (shipped "C-RS1") .ring mountRingAction fun _ => True)
    (s := (ringStationWith "puck_7", [])) (l := [.command 1 0])
    (p := fun s => s.2.any fun e => ¬ RingStation.AsRequested (shipped "C-RS1") e)
    ⟨trivial, rfl⟩ (by decide +kernel)
  obtain ⟨e, he, hmounted⟩ := List.any_eq_true.mp hmounted
  exact of_decide_eq_true hmounted (h s hreach e he)

end GazeboRcll
