import GazeboRcll.Library.LTS
import GazeboRcll.Mps.Runs
import GazeboRcll.Puck

/-!
# The announcement of a dispensed base

`spawn_puck` publishes the request for a workpiece before `dispense_base` records its name
in `spawning`, and the new workpiece announces itself once, any time after the request. An
announcement that is handled before the name has been recorded is not recognised, and no
other follows. So the station ends up with the workpiece exactly if the announcement comes
after the assignment (`received_iff_inTime`).
-/

namespace GazeboRcll

open Prog StationM

variable {Pose : Type} {M : Machine Pose}

/-! ## The system -/

/-- A base station in a call of `process_command_in`, and the workpiece it requests. -/
structure Dispensing (Pose : Type) where
  mps : Mps Pose
  worker : StationM Pose Unit
  /-- The workpiece that Gazebo has been asked to create. -/
  requested : Option String
  /-- The announcement of the workpiece has been handled. -/
  announced : Bool

inductive DispenseStep (Pose : Type) where
  | worker
  /-- The new workpiece, which has appeared in the middle, announces itself. -/
  | announce
  | write (r : Reg) (v : UInt16)
  | puckMsg (msg : PoseMsg Pose)
  | gazebo (w : World Pose)

/-- The effect of an instruction on the request. -/
def afterRequest (requested : Option String) : Instr Pose → Option String
  | .publishFactory msg => some msg.cloneModelName
  | _ => requested

/-- A base station, whatever its state, that processes a command. -/
def dispenseSystem (M : Machine Pose) : LTS (Dispensing Pose) (DispenseStep Pose) where
  init s := s.worker = BaseStation.processCommandIn M ∧ s.requested = none ∧
    s.announced = false
  next s
    | .worker =>
      match s.worker with
      | .ret _ => none
      | .op i k => (handle i s.mps).map fun t =>
          { s with mps := t.1, worker := k t.2, requested := afterRequest s.requested i }
    -- the only announcement there is (`Puck.updates_load`)
    | .announce =>
      match s.requested with
      | none => none
      | some name =>
        if s.announced = false ∧ s.mps.world.models name = true ∧
            M.puckIn .middle (s.mps.world.pose name) = true then
          some { s with
            mps := BaseStation.onNewPuck M (Puck.announcement name) s.mps
            announced := true }
        else none
    | .write r v => some { s with mps := s.mps.write r v }
    | .puckMsg msg => some { s with mps := s.mps.onPuckMsg M msg }
    | .gazebo w => some { s with mps := { s.mps with world := w } }

/-- Whether the assignment to `spawning` has been made, and whether it had been made when
the announcement was handled. -/
structure Timing where
  recorded : Bool := false
  inTime : Bool := false
deriving DecidableEq

def afterRecord (recorded : Bool) : Instr Pose → Bool
  | .setSpawning _ => true
  | _ => recorded

def timing : Monitor (Dispensing Pose) (DispenseStep Pose) Timing where
  start _ := {}
  observe v s l _ := match l, s.worker with
    | .worker, .op i _ => { v with recorded := afterRecord v.recorded i }
    | .announce, _ => { v with inTime := v.recorded }
    | _, _ => v

/-- The station holds the requested workpiece and waits no longer. -/
def Received (s : Dispensing Pose) : Prop :=
  ∃ name, s.requested = some name ∧ s.mps.wpIn .middle = some name ∧
    s.mps.spawning = "" ∧ s.mps.statusBusyIn = false

/-! ## The outline of the call -/

/-- How far the call has come. -/
structure SpawnPoint where
  /-- What the busy flag was set to last. -/
  raised : Bool
  requested : Option String
  recorded : Bool

/-- One workpiece is requested, with the flag raised; afterwards neither the flag nor the
middle is written, and the name is recorded once. -/
def spawnOutline (Pose : Type) : Outline (Instr Pose) Instr.Resp SpawnPoint where
  expects _ _ _ := True
  allows
    | x, .publishFactory msg, _ =>
      x.raised = true ∧ x.requested = none ∧ x.recorded = false ∧ msg.cloneModelName ≠ ""
    | x, .setSpawning name, _ => x.recorded = false ∧ name = x.requested.getD ""
    | x, .setBusy _, _ => x.requested = none
    | x, .setSlot _ _, _ => x.requested = none
    | _, _, _ => True
  next
    | x, .setBusy b, _ => { x with raised := b }
    | x, i, _ => { x with
        requested := afterRequest x.requested i, recorded := afterRecord x.recorded i }

attribute [local simp] spawnOutline afterRequest afterRecord Instr.perform Prog.instr

/-- Nothing has been requested yet. -/
def Unrequested {α : Type} (x : SpawnPoint) (_ : α) : Prop :=
  x.requested = none ∧ x.recorded = false

/-- An early return. -/
theorem unrequested (raised : Bool) : Unrequested ⟨raised, none, false⟩ () := ⟨rfl, rfl⟩

/-- Moving a workpiece asks for no new one. -/
theorem carry_spawn {x : SpawnPoint} (M : Machine Pose) (src dst : Slot)
    (hx : Unrequested x ()) :
    (Mps.carry M src dst).Follows (spawnOutline Pose) Unrequested x := by
  obtain ⟨raised, _, _⟩ := x
  obtain ⟨rfl, rfl⟩ := hx
  unfold Mps.carry
  simp only [Instr.perform_bind, follows_op]
  refine fun wp _ => ⟨trivial, ?_⟩
  cases wp with
  | none => simp [Unrequested]
  | some wp =>
    dsimp only
    split_ifs <;> simp [Unrequested]

/-- The common part of the commands asks for no workpiece. -/
theorem processCommandIn_spawn (M : Machine Pose) (raised : Bool) :
    (Mps.processCommandIn M .base).Follows (spawnOutline Pose) Unrequested
      ⟨raised, none, false⟩ := by
  unfold Mps.processCommandIn Mps.moveConveyor
  simp only [Instr.perform_bind, follows_op]
  refine fun value _ => ⟨trivial, ?_⟩
  split_ifs
  · exact unrequested raised
  · exact unrequested raised
  · exact unrequested raised
  · simp only [follows_op]
    refine fun side _ => ⟨trivial, fun _ _ => ⟨rfl, fun _ _ => ⟨trivial, ?_⟩⟩⟩
    split
    · exact carry_spawn M _ _ ⟨rfl, rfl⟩
    · exact carry_spawn M _ _ ⟨rfl, rfl⟩
    · exact carry_spawn M _ _ ⟨rfl, rfl⟩
    · exact fun _ _ => ⟨trivial, unrequested true⟩
  · exact unrequested raised

/-- The name that `spawn_puck` returns is that of the request. -/
theorem spawnPuck_spawn (M : Machine Pose) (p : Pose) (c : Color) :
    (Mps.spawnPuck M p c).Follows (spawnOutline Pose)
      (fun y name => y.recorded = false ∧ name = y.requested.getD "") ⟨true, none, false⟩ := by
  unfold Mps.spawnPuck
  simp only [Instr.perform_bind, follows_op]
  refine fun r _ => ⟨trivial, ?_⟩
  split
  · simp
  · split
    · simp
    · simp [Mps.puckName_ne_empty]

/-- If a workpiece has been requested, its name has been recorded. -/
def Recorded {α : Type} (x : SpawnPoint) (_ : α) : Prop :=
  x.requested ≠ none → x.recorded = true

/-- When a base has been dispensed, its name is recorded. -/
theorem dispenseBase_spawn {raised : Bool} (M : Machine Pose) (color : UInt16) :
    (BaseStation.dispenseBase M color).Follows (spawnOutline Pose)
      (fun y _ => y.recorded = true) ⟨raised, none, false⟩ := by
  unfold BaseStation.dispenseBase
  simp only [Instr.perform_bind, follows_op]
  have hcolor := BaseStation.selectColor_follows (O := spawnOutline Pose)
    (x := ⟨true, none, false⟩) (fun _ _ => ⟨trivial, rfl⟩) color
  refine fun _ _ => ⟨rfl, (follows_bind _ _ _).mpr (hcolor.mono ?_)⟩
  rintro _ _ rfl
  simp only [follows_op]
  refine fun _ _ => ⟨trivial, fun c _ => ⟨trivial, (follows_bind _ _ _).mpr ?_⟩⟩
  refine (spawnPuck_spawn M _ c).mono ?_
  rintro ⟨raised, requested, _⟩ _ ⟨rfl, rfl⟩
  simp

/-- When a command of the base station is done, a workpiece that was asked for is recorded. -/
theorem base_spawn (M : Machine Pose) (raised : Bool) :
    (BaseStation.processCommandIn M).Follows (spawnOutline Pose) Recorded
      ⟨raised, none, false⟩ := by
  unfold BaseStation.processCommandIn Mps.ownOperation
  refine (follows_bind _ _ _).mpr ((processCommandIn_spawn M raised).mono ?_)
  rintro ⟨raised, _, _⟩ _ ⟨rfl, rfl⟩
  simp only [Instr.perform_bind, follows_op]
  refine fun value _ => ⟨trivial, ?_⟩
  unfold BaseStation.operate
  have hreturn : Recorded ⟨raised, none, false⟩ () := fun h => absurd rfl h
  split_ifs
  · exact hreturn
  · exact hreturn
  · exact hreturn
  · simp only [Instr.perform_bind, follows_op]
    refine fun color _ => ⟨trivial, (follows_bind _ _ _).mpr ?_⟩
    refine (dispenseBase_spawn M color).mono ?_
    rintro ⟨raised, requested, _⟩ _ rfl
    simp [Recorded]

/-! ## Runs -/

/-- What is known at each stage of the hand-over. -/
structure HandOver (s : Dispensing Pose) (v : Timing) : Prop where
  call : ∃ raised, s.worker.Follows (spawnOutline Pose) Recorded
      ⟨raised, s.requested, v.recorded⟩ ∧
    (raised = true → s.requested = none → s.mps.statusBusyIn = true)
  unannounced : s.requested = none → s.announced = false
  ne : ∀ name ∈ s.requested, name ≠ ""
  waiting : s.announced = false → ∀ name ∈ s.requested,
    s.mps.statusBusyIn = true ∧ (v.recorded = true → s.mps.spawning = name)
  received : s.announced = true → v.inTime = true → v.recorded = true ∧
    ∀ name ∈ s.requested, s.mps.wpIn .middle = some name ∧ s.mps.spawning = "" ∧
      s.mps.statusBusyIn = false
  missed : s.announced = true → v.inTime = false → v.recorded = true →
    ∀ name ∈ s.requested, s.mps.spawning = name

namespace HandOver

variable {s : Dispensing Pose} {v : Timing}

/-- Steps that touch neither the flag, nor the name, nor the middle. -/
theorem frame (h : HandOver s v) {m' : Mps Pose} {p' : StationM Pose Unit}
    (hcall : ∀ raised, s.worker.Follows (spawnOutline Pose) Recorded
        ⟨raised, s.requested, v.recorded⟩ →
      p'.Follows (spawnOutline Pose) Recorded ⟨raised, s.requested, v.recorded⟩)
    (hbusy : m'.statusBusyIn = s.mps.statusBusyIn) (hspawn : m'.spawning = s.mps.spawning)
    (hmiddle : m'.wpIn .middle = s.mps.wpIn .middle) :
    HandOver { s with mps := m', worker := p' } v := by
  obtain ⟨raised, hf, hraised⟩ := h.call
  refine ⟨⟨raised, hcall raised hf, ?_⟩, h.unannounced, h.ne, ?_, ?_, ?_⟩
  · rw [hbusy]
    exact hraised
  · rw [hbusy, hspawn]
    exact h.waiting
  · rw [hbusy, hspawn, hmiddle]
    exact h.received
  · rw [hspawn]
    exact h.missed

/-- A step of the worker. -/
theorem worker {s' : Dispensing Pose} (h : HandOver s v)
    (hs : (dispenseSystem M).next s .worker = some s') :
    HandOver s' (timing.observe v s .worker s') := by
  obtain ⟨m, worker, requested, announced⟩ := s
  cases worker with
  | ret a => cases hs
  | op i k =>
    rw [dispenseSystem] at hs
    dsimp only at hs
    rw [Option.map_eq_some_iff] at hs
    obtain ⟨⟨m', r⟩, hr, rfl⟩ := hs
    obtain ⟨raised, hf, hraised⟩ := h.call
    obtain ⟨hallow, hf'⟩ := hf r trivial
    cases i with
    | publishFactory msg =>
      cases hr
      obtain ⟨hr1, hnone, hrec, hne⟩ := hallow
      -- what has not been requested has not been announced
      have hann : announced = false := h.unannounced hnone
      have hbusy : m.statusBusyIn = true := hraised hr1 hnone
      refine ⟨⟨raised, hf', nofun⟩, nofun, ?_, ?_, ?_, ?_⟩
      · intro name hname
        cases hname
        exact hne
      · refine fun _ name hname => ⟨hbusy, fun hrec' => ?_⟩
        exact absurd (hrec'.symm.trans hrec) (by decide)
      · intro hann'
        rw [hann] at hann'
        cases hann'
      · intro hann'
        rw [hann] at hann'
        cases hann'
    | setSpawning name =>
      cases hr
      obtain ⟨hrec, heq⟩ := hallow
      have hname : ∀ n ∈ requested, name = n := by
        rintro n rfl
        exact heq
      refine ⟨⟨raised, hf', hraised⟩, h.unannounced, h.ne, ?_, ?_, ?_⟩
      · exact fun hann n hn => ⟨(h.waiting hann n hn).1, fun _ => hname n hn⟩
      · -- had the announcement been in time, the name would have been recorded before
        intro hann hin
        exact absurd ((h.received hann hin).1.symm.trans hrec) (by decide)
      · exact fun _ _ _ n hn => hname n hn
    | setBusy b =>
      -- the flag and the slots are written before the request only
      cases hr
      have hnone : requested = none := hallow
      subst hnone
      refine ⟨⟨b, hf', fun hb _ => hb⟩, h.unannounced, nofun, nofun, ?_, nofun⟩
      exact fun hann hin => ⟨(h.received hann hin).1, nofun⟩
    | setSlot slot wp =>
      cases hr
      have hnone : requested = none := hallow
      subst hnone
      refine ⟨⟨raised, hf', hraised⟩, h.unannounced, nofun, nofun, ?_, nofun⟩
      exact fun hann hin => ⟨(h.received hann hin).1, nofun⟩
    | deref slot =>
      rw [eq_of_handle_deref hr]
      exact h.frame (fun _ hf => (hf _ trivial).2) rfl rfl rfl
    | _ =>
      cases hr
      exact h.frame (fun _ hf => (hf _ trivial).2) rfl rfl rfl

/-- The announcement comes. -/
theorem announce {s' : Dispensing Pose} (h : HandOver s v)
    (hs : (dispenseSystem M).next s .announce = some s') :
    HandOver s' (timing.observe v s .announce s') := by
  obtain ⟨m, worker, requested, announced⟩ := s
  cases requested with
  | none => cases hs
  | some name =>
    rw [dispenseSystem] at hs
    dsimp only at hs
    split_ifs at hs with hguard
    cases hs
    -- a workpiece is announced once, when it stands in the middle
    obtain ⟨hann, hmodel, hpos⟩ := hguard
    obtain ⟨raised, hf, hraised⟩ := h.call
    refine ⟨⟨raised, hf, nofun⟩, nofun, h.ne, nofun, ?_, ?_⟩
    · -- the name has been recorded, so the announcement is the awaited one
      intro _ hrec
      have hspawn : m.spawning = name := (h.waiting hann name rfl).2 hrec
      have hawaits : BaseStation.Awaits M (Puck.announcement name) m :=
        ⟨hspawn ▸ h.ne name rfl, hmodel, hspawn, hpos⟩
      refine ⟨hrec, ?_⟩
      rintro _ hn
      cases hn
      dsimp only
      rw [BaseStation.onNewPuck_of_awaits hawaits]
      exact ⟨(m.onNewPuck (Puck.announcement name)).assign_wpIn_self .middle (some name),
        rfl, rfl⟩
    · -- an announcement that is not in time comes before the name is recorded
      intro _ hin hrec
      exact absurd (hrec.symm.trans hin) (by decide)

end HandOver

/-- Along every run, once the announcement has been handled and the command is finished,
the station has received its workpiece exactly if the announcement came after the
assignment to `spawning`. -/
theorem received_iff_inTime (M : Machine Pose) {s : Dispensing Pose} {v : Timing}
    (h : ((dispenseSystem M).watch timing).Reachable (s, v)) (hret : s.worker = .ret ())
    (hann : s.announced = true) : Received s ↔ v.inTime = true := by
  have hinv : HandOver s v := by
    refine LTS.Reach.watch_invariant (P := HandOver) ?_ ?_ h
    · rintro ⟨m, worker, requested, announced⟩ ⟨rfl, rfl, rfl⟩
      exact ⟨⟨false, base_spawn M false, nofun⟩, fun _ => rfl, nofun, nofun, nofun, nofun⟩
    · intro s v l s' ih _ hs
      cases l with
      | worker => exact ih.worker hs
      | announce => exact ih.announce hs
      | write r w =>
        cases hs
        exact ih.frame (fun _ hf => hf) rfl rfl rfl
      | puckMsg msg =>
        cases hs
        exact ih.frame (fun _ hf => hf) (onPuckMsg_frame M msg s.mps).1
          (onPuckMsg_frame M msg s.mps).2 (onPuckMsg_middle M msg s.mps)
      | gazebo w =>
        cases hs
        exact ih.frame (fun _ hf => hf) rfl rfl rfl
  obtain ⟨name, hname⟩ : ∃ name, s.requested = some name := by
    cases hreq : s.requested with
    | none =>
      rw [hinv.unannounced hreq] at hann
      cases hann
    | some name => exact ⟨name, rfl⟩
  -- a finished call has recorded the name of the workpiece it has requested
  have hrec : v.recorded = true := by
    obtain ⟨raised, hf, -⟩ := hinv.call
    rw [hret] at hf
    exact hf (by rw [hname]; nofun)
  constructor
  · rintro ⟨-, -, -, hspawn, -⟩
    cases hin : v.inTime with
    | true => rfl
    | false =>
      rw [hinv.missed hann hin hrec name hname] at hspawn
      exact absurd hspawn (hinv.ne name hname)
  · exact fun hin => ⟨name, hname, (hinv.received hann hin).2 name hname⟩

/-- A base station that is about to process a GET_BASE command for a red base. -/
def requestedBase : Dispensing (Vec ℚ) where
  mps := ((shippedMps "C-BS").write .payload1In 1).write .actionIdIn 101
  worker := BaseStation.processCommandIn (shipped "C-BS")
  requested := none
  announced := false

/-- The command is finished and the announcement handled. -/
def Dispensing.done (s : Dispensing Pose) : Bool :=
  match s.worker with
  | .ret _ => s.announced
  | .op _ _ => false

theorem Dispensing.done_iff {s : Dispensing Pose} :
    s.done = true ↔ s.worker = .ret () ∧ s.announced = true := by
  unfold done
  split
  · rename_i hw
    rw [hw]
    simp
  · rename_i hw
    rw [hw]
    simp

/-- An announcement that comes in time is received. -/
theorem received_iff_inTime_puck_0 :
    ∃ s v, ((dispenseSystem (shipped "C-BS")).watch timing).Reachable (s, v) ∧
      s.worker = .ret () ∧ s.announced = true ∧ Received s := by
  obtain ⟨⟨s, v⟩, hreach, hs⟩ :=
    LTS.exists_reachable (T := (dispenseSystem (shipped "C-BS")).watch timing)
      (s := (requestedBase, {})) (l := List.replicate 12 .worker ++ [.announce])
      (p := fun q => q.1.done && q.2.inTime) ⟨⟨rfl, rfl, rfl⟩, rfl⟩ (by decide +kernel)
  obtain ⟨hdone, hin⟩ := Bool.and_eq_true_iff.mp hs
  obtain ⟨hret, hann⟩ := Dispensing.done_iff.mp hdone
  exact ⟨s, v, hreach, hret, hann,
    (received_iff_inTime (shipped "C-BS") hreach hret hann).mpr hin⟩

/-- The workpiece announces itself between the request and the assignment. -/
theorem announcement_missed :
    ¬ ∀ s v, ((dispenseSystem (shipped "C-BS")).watch timing).Reachable (s, v) →
      s.worker = .ret () → s.announced = true → Received s := by
  intro h
  obtain ⟨⟨s, v⟩, hreach, hs⟩ :=
    LTS.exists_reachable (T := (dispenseSystem (shipped "C-BS")).watch timing)
      (s := (requestedBase, {}))
      (l := List.replicate 9 .worker ++ .announce :: List.replicate 3 .worker)
      (p := fun q => q.1.done && decide (q.1.mps.spawning ≠ "")) ⟨⟨rfl, rfl, rfl⟩, rfl⟩
      (by decide +kernel)
  obtain ⟨hdone, hspawn⟩ := Bool.and_eq_true_iff.mp hs
  obtain ⟨hret, hann⟩ := Dispensing.done_iff.mp hdone
  obtain ⟨-, -, -, hempty, -⟩ := h s v hreach hret hann
  exact of_decide_eq_true hspawn hempty

end GazeboRcll
