import GazeboRcll.Library.LTS
import GazeboRcll.Mps.Runs

/-!
# The worker loop

`worker_loop`, `notify_worker` and the destructor as steps over the mutex and the
condition variable, with the OPC UA client, the DataChange callbacks and the message
handlers acting between any two of them. `notify_one` wakes the worker only when it is
blocked in `wait` at that moment.

The loop waits without a predicate, so a notification between the test of `shutdown_` and
the wait is lost. Apart from these, no shutdown blocks (`not_blocked_of_hasNotified`) and
no command is left unread (`not_blocked_of_unread`).
-/

namespace GazeboRcll

open Prog StationM

variable {Pose : Type} {M : Machine Pose} {st : Station}

/-! ## The state of the loop -/

/-- Where the worker is in `worker_loop`. -/
inductive Worker (Pose : Type) where
  /-- About to test `shutdown_`. -/
  | test
  /-- About to lock `worker_mutex_`. -/
  | lock
  /-- Holds the mutex, about to wait. -/
  | wait
  | blocked
  /-- Has been woken, about to lock the mutex again. -/
  | woken
  /-- Holds the mutex, about to unlock it. -/
  | unlock
  /-- About to call `process_command_base`. -/
  | base
  /-- In `process_command_in`, with the rest of its code. -/
  | running (p : StationM Pose Unit)
  /-- The loop has been left. -/
  | finished

/-- Where the destructor is: the step it makes next. -/
inductive Destructor where
  | lock | set | unlock | notify | join | stopped
deriving DecidableEq, Repr

namespace Worker

def holdsMutex : Worker Pose → Bool
  | wait | unlock => true
  | _ => false

def isBlocked : Worker Pose → Bool
  | blocked => true
  | _ => false

/-- Between the test of `shutdown_` and being blocked. -/
def entersWait : Worker Pose → Bool
  | lock | wait => true
  | _ => false

end Worker

namespace Destructor

def holdsMutex : Destructor → Bool
  | set | unlock => true
  | _ => false

/-- `shutdown_` has been set. -/
def hasSet : Destructor → Bool
  | unlock | notify | join | stopped => true
  | _ => false

def hasNotified : Destructor → Bool
  | join | stopped => true
  | _ => false

end Destructor

/-- A station with its worker and the destructor. -/
structure Loop (Pose : Type) where
  mps : Mps Pose
  worker : Worker Pose
  destructor : Destructor
  shutdown : Bool

/-- A station whose worker thread has just been started. -/
def Loop.start (m : Mps Pose) : Loop Pose := ⟨m, .test, .lock, false⟩

/-! ## Steps -/

namespace Loop

/-- `Mps::notify_worker`. -/
def notifyWorker (s : Loop Pose) : Loop Pose :=
  match s.worker with
  | .blocked => { s with worker := .woken }
  | _ => s

/-- The next step of `Mps::worker_loop`. `process_command_base` does nothing. -/
def stepWorker (M : Machine Pose) (st : Station) (s : Loop Pose) : Option (Loop Pose) :=
  match s.worker with
  -- the test is made without the mutex
  | .test => some { s with worker := if s.shutdown then .finished else .lock }
  | .lock => if s.destructor.holdsMutex then none else some { s with worker := .wait }
  | .wait => some { s with worker := .blocked }
  | .blocked => none
  -- there is no predicate, so a woken worker goes on
  | .woken => if s.destructor.holdsMutex then none else some { s with worker := .unlock }
  | .unlock => some { s with worker := .base }
  | .base => some { s with worker := .running (processCommandIn M st) }
  | .running (.ret _) => some { s with worker := .test }
  | .running p =>
    (p.step handle s.mps).map fun t => { s with mps := t.1, worker := .running t.2 }
  | .finished => none

/-- The next step of `Mps::~Mps`. -/
def stepDestructor (s : Loop Pose) : Option (Loop Pose) :=
  match s.destructor with
  | .lock => if s.worker.holdsMutex then none else some { s with destructor := .set }
  | .set => some { s with shutdown := true, destructor := .unlock }
  | .unlock => some { s with destructor := .notify }
  -- after the mutex has been released
  | .notify => some { s.notifyWorker with destructor := .join }
  | .join =>
    match s.worker with
    | .finished => some { s with destructor := .stopped }
    | _ => none
  | .stopped => none

end Loop

/-- What else happens to a station: handlers of the transport threads and changes of the
world. They write no register that the commands use. -/
structure Environment (Pose : Type) where
  Event : Type
  perform : Event → Mps Pose → Mps Pose
  perform_reg : ∀ e m, (perform e m).reg = m.reg
  perform_changes : ∀ e m, (perform e m).changes = m.changes

/-- The handlers of the transport threads of a base station, and Gazebo. -/
inductive BaseEvent (Pose : Type) where
  | puckMsg (msg : PoseMsg Pose)
  | newPuck (msg : NewPuck)
  | gazebo (w : World Pose)

def BaseEvent.perform (M : Machine Pose) : BaseEvent Pose → Mps Pose → Mps Pose
  | .puckMsg msg, m => m.onPuckMsg M msg
  | .newPuck msg, m => BaseStation.onNewPuck M msg m
  | .gazebo w, m => { m with world := w }

theorem BaseEvent.perform_frame (M : Machine Pose) (e : BaseEvent Pose) (m : Mps Pose) :
    (e.perform M m).reg = m.reg ∧ (e.perform M m).changes = m.changes := by
  cases e with
  | puckMsg msg =>
    unfold BaseEvent.perform Mps.onPuckMsg
    dsimp only
    split_ifs <;> exact ⟨rfl, rfl⟩
  | newPuck msg =>
    rw [BaseEvent.perform]
    by_cases h : BaseStation.Awaits M msg m
    · rw [BaseStation.onNewPuck_of_awaits h]
      exact ⟨rfl, rfl⟩
    · rw [BaseStation.onNewPuck_of_not_awaits h]
      split_ifs <;> exact ⟨rfl, rfl⟩
  | gazebo w => exact ⟨rfl, rfl⟩

def BaseStation.environment (M : Machine Pose) : Environment Pose where
  Event := BaseEvent Pose
  perform := BaseEvent.perform M
  perform_reg e m := (e.perform_frame M m).1
  perform_changes e m := (e.perform_frame M m).2

inductive LoopStep (E : Type) where
  | worker
  | destructor
  /-- The OPC UA client writes a register. -/
  | write (r : Reg) (v : UInt16)
  /-- The OPC UA server runs a DataChange callback. -/
  | dataChange
  /-- The worker wakes up without a notification. -/
  | spurious
  | event (e : E)

/-- A station of class `st` from the start of its worker thread. -/
def workerLoop (M : Machine Pose) (st : Station) (env : Environment Pose) :
    LTS (Loop Pose) (LoopStep env.Event) where
  init s := ∃ w clr rolls, s = .start (.fresh w clr rolls)
  next s
    | .worker => s.stepWorker M st
    | .destructor => s.stepDestructor
    | .write r v => some { s with mps := s.mps.write r v }
    | .dataChange =>
      if s.mps.changes = 0 then none
      else some { s.notifyWorker with mps := { s.mps with changes := s.mps.changes - 1 } }
    | .spurious => if s.worker.isBlocked then some s.notifyWorker else none
    | .event e => some { s with mps := env.perform e s.mps }

/-! ## What a step can do -/

/-- The steps of the worker. -/
inductive WorkerMove (M : Machine Pose) (st : Station) (s : Loop Pose) : Loop Pose → Prop where
  | leave : s.worker = .test → s.shutdown = true →
      WorkerMove M st s { s with worker := .finished }
  | enter : s.worker = .test → s.shutdown = false → WorkerMove M st s { s with worker := .lock }
  | lock : s.worker = .lock → WorkerMove M st s { s with worker := .wait }
  | wait : s.worker = .wait → WorkerMove M st s { s with worker := .blocked }
  | relock : s.worker = .woken → WorkerMove M st s { s with worker := .unlock }
  | unlock : s.worker = .unlock → WorkerMove M st s { s with worker := .base }
  | call : s.worker = .base →
      WorkerMove M st s { s with worker := .running (processCommandIn M st) }
  | instr (p : StationM Pose Unit) (m' : Mps Pose) (p' : StationM Pose Unit) :
      s.worker = .running p → p.step handle s.mps = some (m', p') →
      WorkerMove M st s { s with mps := m', worker := .running p' }
  | return : s.worker = .running (.ret ()) → WorkerMove M st s { s with worker := .test }

theorem workerMove_of_step {s s' : Loop Pose} (h : s.stepWorker M st = some s') :
    WorkerMove M st s s' := by
  unfold Loop.stepWorker at h
  split at h
  case h_1 hw =>
    cases h
    by_cases hsd : s.shutdown = true
    · rw [if_pos hsd]
      exact .leave hw hsd
    · rw [if_neg hsd]
      exact .enter hw (Bool.eq_false_iff.mpr hsd)
  case h_2 hw =>
    split_ifs at h
    cases h
    exact .lock hw
  case h_3 hw => cases h; exact .wait hw
  case h_4 hw => cases h
  case h_5 hw =>
    split_ifs at h
    cases h
    exact .relock hw
  case h_6 hw => cases h; exact .unlock hw
  case h_7 hw => cases h; exact .call hw
  case h_8 a hw => cases h; exact .return hw
  case h_9 p _ hw =>
    rw [Option.map_eq_some_iff] at h
    obtain ⟨⟨m', p'⟩, hp, rfl⟩ := h
    exact .instr p m' p' hw hp
  case h_10 hw => cases h

/-- A notification changes nothing but the worker, and the worker only if it is blocked. -/
theorem notifyWorker_eq (s : Loop Pose) :
    s.notifyWorker = { s with worker := if s.worker.isBlocked then .woken else s.worker } := by
  obtain ⟨mps, worker, destructor, shutdown⟩ := s
  cases worker <;> rfl

theorem notifyWorker_mps (s : Loop Pose) : s.notifyWorker.mps = s.mps := by
  rw [notifyWorker_eq]

/-- A notification does not bring the worker into a call. -/
theorem running_of_notifyWorker {s : Loop Pose} {p : StationM Pose Unit}
    (h : s.notifyWorker.worker = .running p) : s.worker = .running p := by
  rw [notifyWorker_eq] at h
  dsimp only at h
  split_ifs at h
  exact h

/-- The steps of the destructor. -/
theorem stepDestructor_cases {s s' : Loop Pose} (h : s.stepDestructor = some s') :
    (s.destructor = .lock ∧ s' = { s with destructor := .set }) ∨
    (s.destructor = .set ∧ s' = { s with shutdown := true, destructor := .unlock }) ∨
    (s.destructor = .unlock ∧ s' = { s with destructor := .notify }) ∨
    (s.destructor = .notify ∧ s' = { s.notifyWorker with destructor := .join }) ∨
    (s.destructor = .join ∧ s' = { s with destructor := .stopped }) := by
  unfold Loop.stepDestructor at h
  split at h
  case h_1 hd =>
    split_ifs at h
    cases h
    exact .inl ⟨hd, rfl⟩
  case h_2 hd => cases h; exact .inr (.inl ⟨hd, rfl⟩)
  case h_3 hd => cases h; exact .inr (.inr (.inl ⟨hd, rfl⟩))
  case h_4 hd => cases h; exact .inr (.inr (.inr (.inl ⟨hd, rfl⟩)))
  case h_5 hd =>
    split at h
    · cases h
      exact .inr (.inr (.inr (.inr ⟨hd, rfl⟩)))
    · cases h
  case h_6 hd => cases h

/-- The destructor touches neither the station nor a call in progress. -/
theorem stepDestructor_frame {s s' : Loop Pose} (h : s.stepDestructor = some s') :
    s'.mps = s.mps ∧ ∀ p, s'.worker = .running p → s.worker = .running p := by
  rcases stepDestructor_cases h with
    ⟨-, rfl⟩ | ⟨-, rfl⟩ | ⟨-, rfl⟩ | ⟨-, rfl⟩ | ⟨-, rfl⟩
  · exact ⟨rfl, fun _ hp => hp⟩
  · exact ⟨rfl, fun _ hp => hp⟩
  · exact ⟨rfl, fun _ hp => hp⟩
  · exact ⟨notifyWorker_mps s, fun _ hp => running_of_notifyWorker hp⟩
  · exact ⟨rfl, fun _ hp => hp⟩

/-- A callback notifies the worker. -/
theorem of_dataChange {env : Environment Pose} {s s' : Loop Pose}
    (h : (workerLoop M st env).next s .dataChange = some s') :
    s.mps.changes ≠ 0 ∧
      s' = { s.notifyWorker with mps := { s.mps with changes := s.mps.changes - 1 } } := by
  rw [workerLoop] at h
  dsimp only at h
  split_ifs at h with h0
  exact ⟨h0, (Option.some.inj h).symm⟩

/-- A spurious wake-up is that of a blocked worker. -/
theorem of_spurious {env : Environment Pose} {s s' : Loop Pose}
    (h : (workerLoop M st env).next s .spurious = some s') :
    s.worker.isBlocked = true ∧ s' = s.notifyWorker := by
  rw [workerLoop] at h
  dsimp only at h
  split_ifs at h with hb
  exact ⟨hb, (Option.some.inj h).symm⟩

/-! ## Shutdown -/

/-- The destructor does not notify while the worker is between its test of `shutdown_` and
the wait. -/
def NotifiesInTime {E : Type} (s : Loop Pose) : LoopStep E → Prop
  | .destructor => s.destructor = .notify → s.worker.entersWait = false
  | _ => True

instance {E : Type} (s : Loop Pose) : DecidablePred (NotifiesInTime (E := E) s)
  | .destructor => inferInstanceAs (Decidable (_ → _))
  | .worker | .write .. | .dataChange | .spurious | .event _ => .isTrue trivial

/-- What holds of the worker once the destructor has set the flag and notified. -/
structure ShutdownSeen (s : Loop Pose) : Prop where
  set : s.destructor.hasSet = true → s.shutdown = true
  notified : s.destructor.hasNotified = true →
    s.worker.entersWait = false ∧ s.worker.isBlocked = false

theorem ShutdownSeen.worker {s s' : Loop Pose} (h : ShutdownSeen s) (hm : WorkerMove M st s s') :
    ShutdownSeen s' := by
  have hset : s.destructor.hasNotified = true → s.shutdown = true := by
    intro hn
    refine h.set ?_
    cases hd : s.destructor <;> rw [hd] at hn <;> first | rfl | cases hn
  cases hm with
  | enter hw hsd =>
    -- the test sees the flag
    refine ⟨h.set, fun hn => ?_⟩
    rw [hset hn] at hsd
    cases hsd
  | lock hw | wait hw =>
    -- the worker was not on its way to the wait
    refine ⟨h.set, fun hn => ?_⟩
    have henters := (h.notified hn).1
    rw [hw] at henters
    cases henters
  | _ => exact ⟨h.set, fun _ => ⟨rfl, rfl⟩⟩

theorem ShutdownSeen.notifyWorker {s : Loop Pose} (h : ShutdownSeen s) :
    ShutdownSeen s.notifyWorker := by
  rw [notifyWorker_eq]
  refine ⟨h.set, fun hn => ?_⟩
  obtain ⟨hw, hb⟩ := h.notified hn
  simp only [hb, hw, Bool.false_eq_true, if_false, and_self]

theorem ShutdownSeen.destructor {s s' : Loop Pose} (h : ShutdownSeen s)
    (hc : s.destructor = .notify → s.worker.entersWait = false)
    (hs : s.stepDestructor = some s') : ShutdownSeen s' := by
  rcases stepDestructor_cases hs with ⟨hd, rfl⟩ | ⟨hd, rfl⟩ | ⟨hd, rfl⟩ | ⟨hd, rfl⟩ | ⟨hd, rfl⟩
  · exact ⟨nofun, nofun⟩
  · exact ⟨fun _ => rfl, nofun⟩
  · exact ⟨fun _ => h.set (by rw [hd]; rfl), nofun⟩
  · -- the notification wakes a blocked worker; the others test the flag before they wait
    rw [notifyWorker_eq]
    refine ⟨fun _ => h.set (by rw [hd]; rfl), fun _ => ?_⟩
    cases hb : s.worker.isBlocked with
    | true => exact ⟨rfl, rfl⟩
    | false => exact ⟨hc hd, hb⟩
  · exact ⟨fun _ => h.set (by rw [hd]; rfl), fun _ => h.notified (by rw [hd]; rfl)⟩

/-- In every run in which the destructor does not notify between the worker's test of
`shutdown_` and its wait, the worker is not blocked once the destructor has notified. -/
theorem not_blocked_of_hasNotified (M : Machine Pose) (st : Station) (env : Environment Pose)
    {s : Loop Pose} (h : (workerLoop M st env).Reach NotifiesInTime s) :
    ¬ (s.shutdown = true ∧ s.destructor.hasNotified = true ∧ s.worker.isBlocked = true) := by
  have hinv : ShutdownSeen s := by
    refine LTS.Reach.invariant ?_ ?_ h
    · rintro _ ⟨_, _, _, rfl⟩
      exact ⟨nofun, nofun⟩
    · intro s l s' ih hc hs
      cases l with
      | worker => exact ih.worker (workerMove_of_step hs)
      | destructor => exact ih.destructor hc hs
      | write r v => cases hs; exact ⟨ih.set, ih.notified⟩
      | dataChange =>
        obtain ⟨-, rfl⟩ := of_dataChange hs
        exact ⟨ih.notifyWorker.set, ih.notifyWorker.notified⟩
      | spurious =>
        obtain ⟨-, rfl⟩ := of_spurious hs
        exact ih.notifyWorker
      | event e => cases hs; exact ⟨ih.set, ih.notified⟩
  rintro ⟨-, hn, hb⟩
  rw [(hinv.notified hn).2] at hb
  cases hb

/-- The worker loop of a base station with the shipped configuration. -/
abbrev shippedLoop : LTS (Loop (Vec ℚ)) (LoopStep (BaseEvent (Vec ℚ))) :=
  workerLoop (shipped "C-BS") .base (BaseStation.environment (shipped "C-BS"))

/-- The client writes a command and its first payload while the worker waits, and the
callback runs. -/
def command {E : Type} (actionId payload1 : UInt16) : List (LoopStep E) :=
  List.replicate 3 .worker ++
    [.write .payload1In payload1, .write .actionIdIn actionId, .dataChange]

/-- The four steps of the destructor up to its notification. -/
def destroy {E : Type} : List (LoopStep E) := List.replicate 4 .destructor

theorem not_blocked_of_hasNotified_waiting :
    ∃ s, shippedLoop.Reach NotifiesInTime s ∧
      s.shutdown = true ∧ s.destructor.hasNotified = true ∧ s.worker.isBlocked = false := by
  obtain ⟨s, hreach, hs⟩ := LTS.exists_reach (T := shippedLoop) (C := NotifiesInTime)
    (s := .start (shippedMps "C-BS")) (l := List.replicate 3 .worker ++ destroy)
    (p := fun s => s.shutdown && s.destructor.hasNotified) ⟨_, _, _, rfl⟩ (by decide) (by decide)
  rw [Bool.and_eq_true] at hs
  refine ⟨s, hreach, hs.1, hs.2, Bool.eq_false_iff.mpr fun hb => ?_⟩
  exact not_blocked_of_hasNotified (shipped "C-BS") .base
    (BaseStation.environment (shipped "C-BS")) hreach ⟨hs.1, hs.2, hb⟩

/-- The destructor runs after the worker has tested `shutdown_` and before it waits. No
callback is left that could wake the worker. -/
theorem blocked_after_hasNotified :
    ¬ ∀ s, shippedLoop.Reachable s → ¬ (s.shutdown = true ∧ s.destructor.hasNotified = true ∧
      s.worker.isBlocked = true ∧ s.mps.changes = 0) := by
  intro h
  obtain ⟨s, hreach, hs⟩ := LTS.exists_reachable (T := shippedLoop)
    (s := .start (shippedMps "C-BS")) (l := .worker :: destroy ++ List.replicate 2 .worker)
    (p := fun s => decide (s.shutdown = true ∧ s.destructor.hasNotified = true ∧
      s.worker.isBlocked = true ∧ s.mps.changes = 0)) ⟨_, _, _, rfl⟩ (by decide)
  exact h s hreach (of_decide_eq_true hs)

/-! ## Commands and wake-ups -/

/-- A read of the action register. -/
def Instr.ReadsCommand : Instr Pose → Prop
  | .getValue .actionIdIn => True
  | _ => False

/-- The worker is going to read the action register before it waits again, or it is not
going to wait again. -/
def Loop.ReadsBeforeWait (s : Loop Pose) : Prop :=
  match s.worker with
  | .woken | .unlock | .base | .finished => True
  | .running p => p.Inevitable Instr.ReadsCommand ∨ s.shutdown = true
  | .test => s.shutdown = true
  | .lock | .wait | .blocked => False

/-- The worker's next step is a read of the action register. -/
def Worker.readsCommand : Worker Pose → Bool
  | .running (.op (.getValue .actionIdIn) _) => true
  | _ => false

/-- Whether the client has written the action register since `process_command_in` has read
it last. -/
def unreadCommand {E : Type} : Monitor (Loop Pose) (LoopStep E) Bool where
  start _ := false
  observe unread s l _ := match l with
    | .write .actionIdIn _ => true
    | .worker => unread && !s.worker.readsCommand
    | _ => unread

/-- No wake-up is lost: the callback that is the last one for an unread command finds the
worker blocked or still before its next read, and a write that leaves the command in the
register as it is, for which there is no callback, finds it before its next read, or
another callback ahead. -/
def KeepsWakeUp {E : Type} (unread : Bool) (s : Loop Pose) : LoopStep E → Prop
  | .dataChange => unread = true → s.mps.reg .actionIdIn ≠ 0 → s.mps.changes = 1 →
      s.worker.isBlocked = true ∨ s.ReadsBeforeWait
  | .write r v => r = .actionIdIn → v ≠ 0 → s.mps.reg .actionIdIn = v →
      s.mps.changes ≠ 0 ∨ s.ReadsBeforeWait
  | _ => True

/-- An unread command has a callback ahead or a worker that is going to read it. -/
def Attended (s : Loop Pose) (unread : Bool) : Prop :=
  unread = true → s.mps.reg .actionIdIn ≠ 0 → s.mps.changes ≠ 0 ∨ s.ReadsBeforeWait

/-- Writes never take callbacks back, and a changed command has one ahead. -/
theorem write_changes (m : Mps Pose) (r : Reg) (v : UInt16) :
    m.changes ≤ (m.write r v).changes ∧
      ((m.write r v).reg .actionIdIn = m.reg .actionIdIn ∨ (m.write r v).changes ≠ 0) := by
  unfold Mps.write
  by_cases hv : m.reg r = v
  · refine ⟨by simp [hv], .inl ?_⟩
    rw [← hv, Function.update_eq_self]
  · by_cases hr : r = .actionIdIn
    · subst hr
      exact ⟨by simp [Reg.subscribed, hv], .inr (by simp [Reg.subscribed, hv])⟩
    · refine ⟨?_, .inl (Function.update_of_ne (Ne.symm hr) _ _)⟩
      dsimp only
      split_ifs <;> omega

theorem handle_changes {i : Instr Pose} {m m' : Mps Pose} {r : i.Resp}
    (h : handle i m = some (m', r)) :
    m.changes ≤ m'.changes ∧
      (m'.reg .actionIdIn = m.reg .actionIdIn ∨ m'.changes ≠ 0) := by
  cases i with
  | setValue r v =>
    cases h
    exact write_changes m r v
  | deref s =>
    rw [eq_of_handle_deref h]
    exact ⟨le_rfl, .inl rfl⟩
  | _ =>
    cases h
    exact ⟨le_rfl, .inl rfl⟩

/-- Every class but `StorageStation` reads the command when it is woken. -/
theorem processCommandIn_inevitable (M : Machine Pose) (hst : st ≠ .storage) :
    (processCommandIn M st).Inevitable Instr.ReadsCommand := by
  cases st with
  | storage => exact absurd rfl hst
  | _ => exact .inl trivial

theorem Attended.worker {s s' : Loop Pose} {unread : Bool} {E : Type} (hst : st ≠ .storage)
    (h : Attended s unread) (hm : WorkerMove M st s s') :
    Attended s' ((unreadCommand (E := E)).observe unread s .worker s') := by
  intro hu hv
  simp only [unreadCommand, Bool.and_eq_true, Bool.not_eq_true'] at hu
  obtain ⟨hunread, hnoread⟩ := hu
  cases hm with
  | leave hw hsd =>
    -- a worker that has left the loop never waits
    exact .inr trivial
  | enter hw hsd =>
    refine .inl ((h hunread hv).resolve_right fun hread => ?_)
    simp [Loop.ReadsBeforeWait, hw, hsd] at hread
  | lock hw | wait hw =>
    -- on the way to the wait only a callback ahead helps, and it stays ahead
    refine .inl ((h hunread hv).resolve_right fun hread => ?_)
    simp [Loop.ReadsBeforeWait, hw] at hread
  | relock hw | unlock hw => exact .inr trivial
  | call hw => exact .inr (.inl (processCommandIn_inevitable M hst))
  | instr p m' p' hw hp =>
    cases p with
    | ret a => cases hp
    | op i k =>
      -- the step is not the read, so a worker that was going to read still is
      have hi : ¬ i.ReadsCommand := by
        intro hi
        unfold Instr.ReadsCommand at hi
        split at hi
        · rw [hw] at hnoread
          cases hnoread
        · exact hi
      obtain ⟨r, hr, rfl⟩ := step_op_eq_some hp
      rcases handle_changes hr with ⟨hle, heq | hne⟩
      · rcases h hunread (heq ▸ hv) with hch | hreads
        · exact .inl fun h0 => hch (Nat.le_zero.mp (h0 ▸ hle))
        · refine .inr ?_
          simp only [Loop.ReadsBeforeWait, hw] at hreads ⊢
          rcases hreads with (hi' | hk) | hsd
          · exact absurd hi' hi
          · exact .inl (hk r)
          · exact .inr hsd
      · exact .inl hne
  | «return» hw =>
    refine (h hunread hv).imp_right fun hread => ?_
    simpa only [Loop.ReadsBeforeWait, hw, Inevitable, false_or] using hread

theorem Loop.ReadsBeforeWait.not_blocked {s : Loop Pose} (h : s.ReadsBeforeWait) :
    s.worker.isBlocked = false := by
  obtain ⟨mps, worker, destructor, shutdown⟩ := s
  cases worker with
  | blocked => exact h.elim
  | _ => rfl

/-- A notification leaves a worker that is going to read as it is, and makes one of a
blocked worker. -/
theorem readsBeforeWait_notifyWorker {s : Loop Pose}
    (h : s.worker.isBlocked = true ∨ s.ReadsBeforeWait) : s.notifyWorker.ReadsBeforeWait := by
  obtain ⟨mps, worker, destructor, shutdown⟩ := s
  cases worker with
  | blocked => trivial
  | _ =>
    rcases h with hb | hr
    · cases hb
    · exact hr

theorem readsBeforeWait_shutdown {s : Loop Pose} (h : s.ReadsBeforeWait) (d : Destructor) :
    Loop.ReadsBeforeWait { s with shutdown := true, destructor := d } := by
  obtain ⟨mps, worker, destructor, shutdown⟩ := s
  cases worker with
  | test => rfl
  | running p => exact .inr rfl
  | _ => exact h

theorem Attended.destructor {s s' : Loop Pose} {unread : Bool} (h : Attended s unread)
    (hs : s.stepDestructor = some s') : Attended s' unread := by
  rcases stepDestructor_cases hs with ⟨-, rfl⟩ | ⟨-, rfl⟩ | ⟨-, rfl⟩ | ⟨-, rfl⟩ | ⟨-, rfl⟩
  · exact h
  · exact fun hu hv => (h hu hv).imp_right fun hread => readsBeforeWait_shutdown hread _
  · exact h
  · intro hu hv
    dsimp only at hv ⊢
    rw [notifyWorker_mps] at hv ⊢
    exact (h hu hv).imp_right fun hread => readsBeforeWait_notifyWorker (.inr hread)
  · exact h

theorem Attended.write {s : Loop Pose} {unread unread' : Bool} {r : Reg} {v : UInt16}
    (h : Attended s unread)
    (hu : unread' = true → r = .actionIdIn ∨ unread = true)
    (hc : r = .actionIdIn → v ≠ 0 → s.mps.reg .actionIdIn = v →
      s.mps.changes ≠ 0 ∨ s.ReadsBeforeWait) :
    Attended { s with mps := s.mps.write r v } unread' := by
  intro hunread hv
  rcases write_changes s.mps r v with ⟨hle, heq | hne⟩
  · -- the register is as before, so the command is covered as it was
    have hcover : s.mps.changes ≠ 0 ∨ s.ReadsBeforeWait := by
      rw [heq] at hv
      rcases hu hunread with hr | hold
      · subst hr
        have hval : s.mps.reg .actionIdIn = v := by
          rw [← heq, Mps.write_reg_self]
        exact hc rfl (hval ▸ hv) hval
      · exact h hold hv
    exact hcover.imp_left fun hch h0 => hch (Nat.le_zero.mp (h0 ▸ hle))
  · exact .inl hne

/-- In every run in which no wake-up for a command is lost, the worker is never blocked
with no callback left while the register holds a command that it has not read. -/
theorem not_blocked_of_unread (M : Machine Pose) (st : Station) (hst : st ≠ .storage)
    (env : Environment Pose) {s : Loop Pose} {unread : Bool}
    (h : ((workerLoop M st env).watch unreadCommand).Reach (fun q l => KeepsWakeUp q.2 q.1 l)
      (s, unread)) :
    ¬ (s.worker.isBlocked = true ∧ s.mps.changes = 0 ∧ s.mps.reg .actionIdIn ≠ 0 ∧
      unread = true) := by
  have hinv : Attended s unread := by
    refine LTS.Reach.watch_invariant (P := Attended) ?_ ?_ h
    · exact fun s _ hu => by cases hu
    · intro s unread l s' ih hc hs
      cases l with
      | worker => exact ih.worker hst (workerMove_of_step hs)
      | destructor => exact ih.destructor hs
      | write r v =>
        cases hs
        refine ih.write (fun hu => ?_) hc
        cases r with
        | actionIdIn => exact .inl rfl
        | _ => exact .inr hu
      | dataChange =>
        obtain ⟨h0, rfl⟩ := of_dataChange hs
        intro hu hv
        -- the last callback must be in time, any other leaves one ahead
        by_cases h1 : s.mps.changes = 1
        · exact .inr (readsBeforeWait_notifyWorker (hc hu hv h1))
        · exact .inl (by dsimp only; omega)
      | spurious =>
        obtain ⟨hb, rfl⟩ := of_spurious hs
        exact fun _ _ => .inr (readsBeforeWait_notifyWorker (.inl hb))
      | event e =>
        cases hs
        intro hu hv
        rw [env.perform_reg] at hv
        dsimp only
        rw [env.perform_changes]
        exact ih hu hv
  rintro ⟨hb, hch, hv, hu⟩
  rcases hinv hu hv with hne | hread
  · exact hne hch
  · rw [hread.not_blocked] at hb
    cases hb

/-- Callbacks run while the worker is blocked, and no write repeats the value of the
register. -/
def CallsBlocked {E : Type} (s : Loop Pose) : LoopStep E → Prop
  | .dataChange => s.worker.isBlocked = true
  | .write r v => s.mps.reg r ≠ v
  | _ => True

instance {E : Type} (s : Loop Pose) : DecidablePred (CallsBlocked (E := E) s)
  | .dataChange => inferInstanceAs (Decidable (_ = _))
  | .write .. => inferInstanceAs (Decidable (_ ≠ _))
  | .worker | .destructor | .spurious | .event _ => .isTrue trivial

theorem CallsBlocked.keepsWakeUp {E : Type} {s : Loop Pose} {l : LoopStep E}
    (h : CallsBlocked s l) (unread : Bool) : KeepsWakeUp unread s l := by
  cases l with
  | dataChange => exact fun _ _ _ => .inl h
  | write r v =>
    rintro rfl _ hv
    exact absurd hv h
  | _ => trivial

/-- A command is written while the worker waits, and its callback runs. -/
theorem not_blocked_of_unread_woken :
    ∃ s, (shippedLoop.watch unreadCommand).Reach (fun q l => KeepsWakeUp q.2 q.1 l) (s, true) ∧
      s.mps.changes = 0 ∧ s.mps.reg .actionIdIn = 101 ∧ s.worker.isBlocked = false := by
  obtain ⟨⟨s, unread⟩, hreach, hs⟩ :=
    LTS.exists_reach (T := shippedLoop.watch unreadCommand) (C := fun q l => CallsBlocked q.1 l)
      (s := (.start (shippedMps "C-BS"), false))
      (l := List.replicate 3 .worker ++ [.write .actionIdIn 101, .dataChange])
      (p := fun q => decide (q.2 = true ∧ q.1.mps.changes = 0 ∧ q.1.mps.reg .actionIdIn = 101))
      ⟨⟨_, _, _, rfl⟩, rfl⟩ (by decide) (by decide)
  obtain ⟨hu, hch, hv⟩ := of_decide_eq_true hs
  have hreach' := hreach.mono (D := fun q l => KeepsWakeUp q.2 q.1 l)
    fun q _ hc => hc.keepsWakeUp q.2
  have hnot := not_blocked_of_unread (shipped "C-BS") .base (by decide)
    (BaseStation.environment (shipped "C-BS")) hreach'
  dsimp only at hu
  subst hu
  refine ⟨s, hreach', hch, hv, Bool.eq_false_iff.mpr fun hb => hnot ⟨hb, hch, ?_, rfl⟩⟩
  dsimp only at hv
  rw [hv]
  decide

/-- The callback for the command runs before the worker waits. -/
theorem blocked_with_unread :
    ¬ ∀ s unread, (shippedLoop.watch unreadCommand).Reachable (s, unread) →
      ¬ (s.worker.isBlocked = true ∧ s.mps.changes = 0 ∧ s.mps.reg .actionIdIn ≠ 0 ∧
        unread = true) := by
  intro h
  obtain ⟨⟨s, unread⟩, hreach, hs⟩ :=
    LTS.exists_reachable (T := shippedLoop.watch unreadCommand)
      (s := (.start (shippedMps "C-BS"), false))
      (l := [.worker, .write .actionIdIn 101, .dataChange, .worker, .worker])
      (p := fun q => decide (q.1.worker.isBlocked = true ∧ q.1.mps.changes = 0 ∧
        q.1.mps.reg .actionIdIn ≠ 0 ∧ q.2 = true)) ⟨⟨_, _, _, rfl⟩, rfl⟩ (by decide)
  exact h s unread hreach (of_decide_eq_true hs)

end GazeboRcll
