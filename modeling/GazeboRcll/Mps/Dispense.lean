import GazeboRcll.Mps.WorkerLoop

/-!
# Waiting for a dispensed base

`dispense_base` raises the busy flag, requests a workpiece and records its name in
`spawning`. `on_new_puck` is called for the announcements of all workpieces. It stores the
awaited one and lowers the flag, and it lowers the flag for every other announcement, too
(`idle_while_awaiting`). With announcements of awaited workpieces only, the station is
busy as long as it waits (`busy_while_awaiting`).
-/

namespace GazeboRcll

open Prog StationM

variable {Pose : Type} {M : Machine Pose}

/-! ## The commands and the announcements -/

/-- The client writes no commands but GET_BASE. -/
def GetBaseOnly {E : Type} : LoopStep E → Prop
  | .write .actionIdIn v => Station.base.operation v = some OPERATION_GET_BASE
  | _ => True

instance {E : Type} : DecidablePred (GetBaseOnly (E := E))
  | .write .actionIdIn _ => inferInstanceAs (Decidable (_ = _))
  | .write .payload1In _ | .write .payload2In _ | .write .actionIdBasic _ | .worker
  | .destructor | .dataChange | .spurious | .event _ => .isTrue trivial

/-- The effect of an instruction on the mark that the flag has been raised for a name that
is still to be recorded. -/
def afterRaise (raised : Bool) : Instr Pose → Bool
  | .setBusy b => b
  | .setSpawning _ => false
  | _ => raised

/-- Whether the worker has raised the flag for a base whose name it has not recorded yet. -/
def raisedFor {E : Type} : Monitor (Loop Pose) (LoopStep E) Bool where
  start _ := false
  observe raised s l _ := match l, s.worker with
    | .worker, .running (.op i _) => afterRaise raised i
    | _, _ => raised

/-- An announcement that comes while a name is awaited is the awaited one, for a workpiece
in the middle, and does not come while the worker is about to record another name. -/
def AnnouncesAwaited (M : Machine Pose) (raised : Bool) (s : Loop Pose) :
    LoopStep (BaseEvent Pose) → Prop
  | .event (.newPuck msg) =>
    s.mps.spawning = "" ∨ (BaseStation.Awaits M msg s.mps ∧ raised = false)
  | _ => True

instance (M : Machine Pose) (raised : Bool) (s : Loop Pose) :
    DecidablePred (AnnouncesAwaited M raised s)
  | .event (.newPuck _) => inferInstanceAs (Decidable (_ ∨ _))
  | .event (.puckMsg _) | .event (.gazebo _) | .worker | .destructor | .write ..
  | .dataChange | .spurious => .isTrue trivial

/-- The only commands are GET_BASE commands, the flag is only raised, and no name is
recorded without it. -/
def dispenseOutline (Pose : Type) : Outline (Instr Pose) Instr.Resp Bool where
  expects
    | _, .getValue .actionIdIn, v =>
      v = 0 ∨ Station.base.operation v = some OPERATION_GET_BASE
    | _, _, _ => True
  allows
    | _, .setBusy b, _ => b = true
    | raised, .setSpawning _, _ => raised = true
    | _, .setValue .actionIdIn v, _ => v = 0
    | _, _, _ => True
  next raised i _ := afterRaise raised i

attribute [local simp] dispenseOutline afterRaise Instr.perform Prog.instr

/-- Spawning alone does not touch the flag. -/
theorem spawnPuck_dispense {raised : Bool} (M : Machine Pose) (p : Pose) (c : Color) :
    (Mps.spawnPuck M p c).Follows (dispenseOutline Pose) (fun y _ => y = raised) raised := by
  unfold Mps.spawnPuck
  simp only [Instr.perform_bind, follows_op]
  refine fun _ _ => ⟨trivial, ?_⟩
  split
  · simp
  · split <;> simp

/-- The flag is raised before a workpiece is awaited. -/
theorem dispenseBase_dispense {raised : Bool} (M : Machine Pose) (color : UInt16) :
    (BaseStation.dispenseBase M color).Follows (dispenseOutline Pose) (fun y _ => y = false)
      raised := by
  unfold BaseStation.dispenseBase
  simp only [Instr.perform_bind, follows_op]
  have hcolor := BaseStation.selectColor_follows (O := dispenseOutline Pose) (x := true)
    (fun _ _ => ⟨trivial, rfl⟩) color
  refine fun _ _ => ⟨rfl, (follows_bind _ _ _).mpr (hcolor.mono ?_)⟩
  rintro _ _ rfl
  simp only [follows_op]
  refine fun _ _ => ⟨trivial, fun c _ => ⟨trivial, (follows_bind _ _ _).mpr ?_⟩⟩
  refine (spawnPuck_dispense M _ c).mono ?_
  rintro _ _ rfl
  simp

/-- So does the operation; for any other number nothing is done. -/
theorem operate_dispense {raised : Bool} (M : Machine Pose) (oper : ℕ) :
    (BaseStation.operate M oper).Follows (dispenseOutline Pose) (fun _ _ => True) raised := by
  unfold BaseStation.operate
  split_ifs
  · simp
  · simp only [Instr.perform_bind, follows_op]
    refine fun color _ => ⟨trivial, (follows_bind _ _ _).mpr ?_⟩
    refine (dispenseBase_dispense M color).mono ?_
    rintro _ _ rfl
    simp

/-- With GET_BASE commands only, the part of `Mps` does nothing. -/
theorem processCommandIn_dispense {raised : Bool} (M : Machine Pose) :
    (Mps.processCommandIn M .base).Follows (dispenseOutline Pose) (fun y _ => y = raised)
      raised := by
  unfold Mps.processCommandIn
  simp only [Instr.perform_bind, follows_op]
  refine fun value hvalue => ⟨trivial, ?_⟩
  split_ifs with h0 hclass hlt hmove
  · simp
  · simp
  · simp
  · rcases hvalue with hzero | hget
    · exact absurd hzero h0
    · have hop := (Station.operation_eq_some.mp hget).2
      rw [hop] at hmove
      cases hmove
  · simp

/-- A whole call follows the outline, whatever has been recorded before it. -/
theorem base_dispense (raised : Bool) (M : Machine Pose) :
    (BaseStation.processCommandIn M).Follows (dispenseOutline Pose) (fun _ _ => True)
      raised := by
  unfold BaseStation.processCommandIn Mps.ownOperation
  refine (follows_bind _ _ _).mpr ((processCommandIn_dispense M).mono ?_)
  rintro _ _ rfl
  simp only [Instr.perform_bind, follows_op]
  refine fun value _ => ⟨trivial, ?_⟩
  split_ifs
  · simp
  · simp
  · exact operate_dispense M _

/-- What ties the flag to the awaited name and to the rest of the current call. -/
structure Awaiting (s : Loop Pose) (raised : Bool) : Prop where
  command : s.mps.reg .actionIdIn = 0 ∨
    Station.base.operation (s.mps.reg .actionIdIn) = some OPERATION_GET_BASE
  call : ∀ p, s.worker = .running p →
    p.Follows (dispenseOutline Pose) (fun _ _ => True) raised
  raised : raised = true → s.mps.statusBusyIn = true
  awaiting : s.mps.spawning ≠ "" → s.mps.statusBusyIn = true

namespace Awaiting

variable {s s' : Loop Pose} {raised : Bool} {E : Type}

/-- Steps that write neither the command, nor the flag, nor the name, nor move a running
worker. -/
theorem frame (h : Awaiting s raised)
    (hreg : s'.mps.reg .actionIdIn = s.mps.reg .actionIdIn)
    (hbusy : s'.mps.statusBusyIn = s.mps.statusBusyIn) (hspawn : s'.mps.spawning = s.mps.spawning)
    (hworker : ∀ p, s'.worker = .running p → s.worker = .running p) :
    Awaiting s' raised := by
  refine ⟨?_, fun p hp => h.call p (hworker p hp), ?_, ?_⟩
  · rw [hreg]
    exact h.command
  · rw [hbusy]
    exact h.raised
  · rw [hbusy, hspawn]
    exact h.awaiting

/-- What the worker reads from the register is what the outline expects. -/
theorem expects {i : Instr Pose} {r : i.Resp} {m' : Mps Pose} (h : Awaiting s raised)
    (hr : handle i s.mps = some (m', r)) : (dispenseOutline Pose).expects raised i r := by
  unfold dispenseOutline
  dsimp only
  split
  · cases hr
    exact h.command
  · trivial

/-- A step inside a call. -/
theorem instr {p p' : StationM Pose Unit} {m' : Mps Pose} (h : Awaiting s raised)
    (hw : s.worker = .running p) (hp : p.step handle s.mps = some (m', p')) :
    Awaiting { s with mps := m', worker := .running p' }
      ((raisedFor (E := E)).observe raised s .worker
        { s with mps := m', worker := .running p' }) := by
  obtain ⟨i, r, ⟨k, rfl⟩, hr, hallow, hf'⟩ :=
    (h.call p hw).of_step hp fun i r _ hr => h.expects hr
  simp only [raisedFor, hw]
  have hcall : ∀ q, Worker.running p' = .running q →
      q.Follows (dispenseOutline Pose) (fun _ _ => True) (afterRaise raised i) := by
    rintro _ hq
    cases hq
    exact hf'
  cases i with
  | setValue r v =>
    cases hr
    refine ⟨?_, hcall, h.raised, h.awaiting⟩
    by_cases hreg : r = .actionIdIn
    · subst hreg
      have hv : v = 0 := hallow
      subst hv
      exact .inl (s.mps.write_reg_self _ _)
    · dsimp only
      rw [s.mps.write_reg_of_ne (Ne.symm hreg)]
      exact h.command
  | setBusy b =>
    -- the calls raise the flag and leave it to the announcement to lower it
    cases hr
    have hb : b = true := hallow
    exact ⟨h.command, hcall, fun _ => hb, fun _ => hb⟩
  | setSpawning name =>
    cases hr
    have hraised : raised = true := hallow
    exact ⟨h.command, hcall, nofun, fun _ => h.raised hraised⟩
  | deref slot =>
    rw [eq_of_handle_deref hr]
    exact ⟨h.command, hcall, h.raised, h.awaiting⟩
  | _ =>
    cases hr
    exact ⟨h.command, hcall, h.raised, h.awaiting⟩

/-- A step of the worker keeps the busy flag up while a base is awaited. -/
theorem worker (h : Awaiting s raised) (hm : WorkerMove M .base s s') :
    Awaiting s' ((raisedFor (E := E)).observe raised s .worker s') := by
  cases hm with
  | instr p m' p' hw hp => exact h.instr hw hp
  | call hw =>
    simp only [raisedFor, hw]
    refine ⟨h.command, ?_, h.raised, h.awaiting⟩
    rintro _ hp
    cases hp
    exact base_dispense raised M
  | leave hw _ | enter hw _ | lock hw | wait hw | relock hw | unlock hw | «return» hw =>
    simp only [raisedFor, hw]
    exact h.frame rfl rfl rfl fun p hp => by cases hp

/-- An announcement: either none is awaited and nothing happens, or the workpiece is
stored. -/
theorem newPuck {msg : NewPuck} (h : Awaiting s raised)
    (hc : s.mps.spawning = "" ∨ (BaseStation.Awaits M msg s.mps ∧ raised = false)) :
    Awaiting { s with mps := BaseStation.onNewPuck M msg s.mps } raised := by
  by_cases hs : s.mps.spawning = ""
  · have heq : BaseStation.onNewPuck M msg s.mps = s.mps := by
      rw [BaseStation.onNewPuck, if_pos hs]
    rw [heq]
    exact h
  · obtain ⟨hawaits, hraised⟩ := hc.resolve_left hs
    rw [BaseStation.onNewPuck_of_awaits hawaits]
    refine ⟨h.command, h.call, fun hr => ?_, fun hne => absurd rfl hne⟩
    rw [hraised] at hr
    cases hr

end Awaiting

/-- From `s` to `s'` the station stores the workpiece it has waited for. -/
def Stored (s s' : Loop Pose) : Prop :=
  s.mps.spawning ≠ "" ∧ s'.mps.wpIn .middle = some s.mps.spawning ∧ s'.mps.spawning = ""

/-- A base station while only awaited workpieces are announced. -/
theorem awaiting_of_reach (M : Machine Pose) {s : Loop Pose} {raised : Bool}
    (h : ((workerLoop M .base (BaseStation.environment M)).watch raisedFor).Reach
      (fun q l => GetBaseOnly l ∧ AnnouncesAwaited M q.2 q.1 l) (s, raised)) :
    Awaiting s raised := by
  refine LTS.Reach.watch_invariant (P := Awaiting) ?_ ?_ h
  · rintro _ ⟨_, _, _, rfl⟩
    exact ⟨.inl rfl, nofun, nofun, fun hne => absurd rfl hne⟩
  · rintro s raised l s' ih ⟨hget, hannounce⟩ hs
    cases l with
    | worker => exact ih.worker (workerMove_of_step hs)
    | destructor =>
      obtain ⟨hmps, hrunning⟩ := stepDestructor_frame hs
      exact ih.frame (by rw [hmps]) (by rw [hmps]) (by rw [hmps]) hrunning
    | write r v =>
      cases hs
      refine ⟨?_, ih.call, ih.raised, ih.awaiting⟩
      -- only a write of the command matters
      by_cases hreg : r = .actionIdIn
      · subst hreg
        dsimp only
        rw [Mps.write_reg_self]
        exact .inr hget
      · dsimp only
        rw [s.mps.write_reg_of_ne (Ne.symm hreg)]
        exact ih.command
    | dataChange =>
      obtain ⟨-, rfl⟩ := of_dataChange hs
      exact ih.frame rfl rfl rfl fun _ hp => running_of_notifyWorker hp
    | spurious =>
      obtain ⟨-, rfl⟩ := of_spurious hs
      refine ih.frame ?_ ?_ ?_ fun _ hp => running_of_notifyWorker hp <;> rw [notifyWorker_mps]
    | event e =>
      cases hs
      cases e with
      | newPuck msg => exact ih.newPuck hannounce
      | puckMsg msg =>
        refine ih.frame ?_ ?_ ?_ fun _ hp => hp
        · exact congrFun ((BaseStation.environment M).perform_reg (.puckMsg msg) s.mps) _
        · exact (onPuckMsg_frame M msg s.mps).1
        · exact (onPuckMsg_frame M msg s.mps).2
      | gazebo w => exact ih.frame rfl rfl rfl fun _ hp => hp

/-- Only writing the busy flag changes it. -/
theorem handle_statusBusyIn {i : Instr Pose} {m m' : Mps Pose} {r : i.Resp}
    (h : handle i m = some (m', r)) (hi : ∀ b, i ≠ .setBusy b) :
    m'.statusBusyIn = m.statusBusyIn := by
  cases i with
  | setBusy b => exact absurd rfl (hi b)
  | deref s =>
    rw [eq_of_handle_deref h]
  | _ =>
    cases h
    rfl

/-- The worker never lowers the flag. -/
theorem Awaiting.busy_worker {s s' : Loop Pose} {raised : Bool} (h : Awaiting s raised)
    (hm : WorkerMove M .base s s') (hb : s.mps.statusBusyIn = true) :
    s'.mps.statusBusyIn = true := by
  cases hm with
  | instr p m' p' hw hp =>
    obtain ⟨i, r, ⟨k, rfl⟩, hr, hallow, -⟩ :=
      (h.call p hw).of_step hp fun i r _ hr => h.expects hr
    by_cases hi : ∃ b, i = .setBusy b
    · obtain ⟨b, rfl⟩ := hi
      cases hr
      exact hallow
    · exact (handle_statusBusyIn hr fun b hib => hi ⟨b, hib⟩).trans hb
  | _ => exact hb

/-- The flag falls only when the awaited workpiece is stored. -/
theorem Awaiting.stored {s s' : Loop Pose} {raised : Bool}
    {l : LoopStep (BaseEvent Pose)} (h : Awaiting s raised) (hc : AnnouncesAwaited M raised s l)
    (hs : (workerLoop M .base (BaseStation.environment M)).next s l = some s')
    (hb : s.mps.statusBusyIn = true) (hb' : s'.mps.statusBusyIn = false) : Stored s s' := by
  -- a step that leaves the flag as it is does not lower it
  have hsame : s'.mps.statusBusyIn = s.mps.statusBusyIn → Stored s s' := by
    intro heq
    rw [hb, hb'] at heq
    cases heq
  cases l with
  | worker => exact hsame ((h.busy_worker (workerMove_of_step hs) hb).trans hb.symm)
  | destructor => exact hsame (by rw [(stepDestructor_frame hs).1])
  | write r v =>
    cases hs
    exact hsame rfl
  | dataChange =>
    obtain ⟨-, rfl⟩ := of_dataChange hs
    exact hsame rfl
  | spurious =>
    obtain ⟨-, rfl⟩ := of_spurious hs
    exact hsame (by rw [notifyWorker_mps])
  | event e =>
    cases hs
    cases e with
    | puckMsg msg => exact hsame (onPuckMsg_frame M msg s.mps).1
    | gazebo w => exact hsame rfl
    | newPuck msg =>
      by_cases hspawn : s.mps.spawning = ""
      · refine hsame ?_
        show (BaseStation.onNewPuck M msg s.mps).statusBusyIn = _
        rw [BaseStation.onNewPuck, if_pos hspawn]
      · obtain ⟨hawaits, -⟩ := hc.resolve_left hspawn
        have heq : (BaseStation.environment M).perform (.newPuck msg) s.mps = _ :=
          BaseStation.onNewPuck_of_awaits hawaits
        rw [heq]
        refine ⟨hspawn, ?_, rfl⟩
        rw [hawaits.2.2.1]
        exact (s.mps.onNewPuck msg).assign_wpIn_self .middle (some msg.puckName)

/-- In every run of GET_BASE commands in which each announcement that comes while a name is
awaited is the awaited one, the station is busy as long as it waits, and the flag falls
only when the awaited workpiece is stored. -/
theorem busy_while_awaiting (M : Machine Pose) {s : Loop Pose} {raised : Bool}
    (h : ((workerLoop M .base (BaseStation.environment M)).watch raisedFor).Reach
      (fun q l => GetBaseOnly l ∧ AnnouncesAwaited M q.2 q.1 l) (s, raised)) :
    (s.mps.spawning ≠ "" → s.mps.statusBusyIn = true) ∧
      ∀ l s', GetBaseOnly l → AnnouncesAwaited M raised s l →
        (workerLoop M .base (BaseStation.environment M)).next s l = some s' →
        s.mps.statusBusyIn = true → s'.mps.statusBusyIn = false → Stored s s' :=
  ⟨(awaiting_of_reach M h).awaiting,
    fun _ _ _ hc hs hb hb' => (awaiting_of_reach M h).stored hc hs hb hb'⟩

/-- The base station awaiting `puck_0`. -/
theorem busy_while_awaiting_puck_0 :
    ∃ s raised, (shippedLoop.watch raisedFor).Reach
        (fun q l => GetBaseOnly l ∧ AnnouncesAwaited (shipped "C-BS") q.2 q.1 l) (s, raised) ∧
      s.mps.spawning = "puck_0" ∧ s.mps.statusBusyIn = true := by
  obtain ⟨⟨s, raised⟩, hreach, hs⟩ :=
    LTS.exists_reach (T := shippedLoop.watch raisedFor)
      (C := fun q l => GetBaseOnly l ∧ AnnouncesAwaited (shipped "C-BS") q.2 q.1 l)
      (s := (.start (shippedMps "C-BS"), false))
      (l := .event (.newPuck ⟨"puck_9", ""⟩) :: command 101 1 ++ List.replicate 16 .worker)
      (p := fun q => decide (q.1.mps.spawning = "puck_0")) ⟨⟨_, _, _, rfl⟩, rfl⟩
      (by decide +kernel) (by decide)
  have hspawn : s.mps.spawning = "puck_0" := of_decide_eq_true hs
  refine ⟨s, raised, hreach, hspawn, (busy_while_awaiting (shipped "C-BS") hreach).1 ?_⟩
  rw [hspawn]
  decide

/-- Another workpiece is announced while the station waits for its own. -/
theorem idle_while_awaiting :
    ¬ ∀ s raised, (shippedLoop.watch raisedFor).Reach (fun _ l => GetBaseOnly l) (s, raised) →
      (s.mps.spawning ≠ "" → s.mps.statusBusyIn = true) ∧
        ∀ l s', GetBaseOnly l → shippedLoop.next s l = some s' →
          s.mps.statusBusyIn = true → s'.mps.statusBusyIn = false → Stored s s' := by
  intro h
  obtain ⟨⟨s, raised⟩, hreach, hs⟩ :=
    LTS.exists_reach (T := shippedLoop.watch raisedFor) (C := fun _ l => GetBaseOnly l)
      (s := (.start (shippedMps "C-BS"), false))
      (l := command 101 1 ++ List.replicate 16 .worker ++ [.event (.newPuck ⟨"puck_9", ""⟩)])
      (p := fun q => decide (q.1.mps.spawning ≠ "" ∧ q.1.mps.statusBusyIn = false))
      ⟨⟨_, _, _, rfl⟩, rfl⟩ (by decide) (by decide +kernel)
  obtain ⟨hne, hidle⟩ := of_decide_eq_true hs
  have hbusy := (h s raised hreach).1 hne
  dsimp only at hidle
  rw [hbusy] at hidle
  cases hidle

end GazeboRcll
