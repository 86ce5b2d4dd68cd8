import GazeboRcll.Library.LTS
import Mathlib.Algebra.Group.Nat.Hom
import Mathlib.Logic.Function.Basic
import Mathlib.Tactic.Common

/-!
# Threads

`Thread::run` runs one iteration of `loop` after the other, in wait-for-wakeup mode one for each
call of `wakeup`. `prepare_finalize` stops it between two iterations. The pending wakeups are
under the sleep mutex, the finalization is under three others, and the thread and its users take
their locks in any order that they get them.

This file has the thread, its users and the wakeups:

* `no_wakeup_lost` and `wakeups_sub_iterations`: how wakeups become iterations.
* `barriers_in_order` and `barrier_after_iterations`: what becomes of the barriers that come
  with a wakeup.
-/

namespace GazeboRcll

/-! ## The thread and its users -/

inductive OpMode where
  | continuous
  | waitForWakeup
deriving DecidableEq, Repr

/-- Where a thread is in `Thread::entry` and `Thread::run`. -/
inductive RunPc where
  /-- `start` has not been called. -/
  | created
  /-- About to lock the sleep mutex. -/
  | entry
  /-- About to lock the loop mutex for `once`. -/
  | beforeOnce
  | once
  /-- In the wait on the sleep condition. -/
  | asleep
  /-- About to lock the sleep mutex and to look for a wakeup. -/
  | woken
  /-- At `loopinterrupt_antistarve_mutex->stopby()`. -/
  | stopby
  /-- About to lock the loop mutex for an iteration. -/
  | loopLock
  | looping
  /-- About to set `__loop_done`. -/
  | afterLoop
  /-- About to read `__barrier`, without a lock. -/
  | readBarrier
  /-- Has seen a barrier, about to lock the sleep mutex. -/
  | takeBarrier
  /-- Waits at the barrier at the address. -/
  | atBarrier (barrier : ℕ)
deriving DecidableEq, Repr

/-- Where a user of the thread is in `prepare_finalize` or in `cancel_finalize`. -/
inductive FinalizePc where
  | idle
  /-- About to lock `__prepfin_hold_mutex`. -/
  | holdLock
  /-- In the wait for the end of the hold. -/
  | onHold
  | antistarveLock
  | loopLock
  /-- In `prepare_finalize_user`. -/
  | user
  /-- In `cancel_finalize`, about to lock the loop mutex. -/
  | cancelLock
deriving DecidableEq, Repr

/-- Who has the loop mutex. -/
inductive LoopOwner (κ : Type) where
  | self
  | other (k : κ)
deriving DecidableEq, Repr

/-- The members of a `Thread` used by `κ`, and where the thread and its users are. Pointers to
barriers are addresses. -/
structure Thread (κ : Type) where
  name : String
  opMode : OpMode
  prepfinConcLoop : Bool
  coalesceWakeups : Bool
  started : Bool
  pendingWakeups : ℕ
  waitingForWakeup : Bool
  barrier : Option ℕ
  finalizePrepared : Bool
  prepfinHold : Bool
  loopDone : Bool
  /-- Whether the thread itself has the sleep mutex; nobody else keeps it. -/
  sleepMutex : Bool
  loopMutex : Option (LoopOwner κ)
  antistarveMutex : Option κ
  prepfinHoldMutex : Option κ
  pc : RunPc
  users : κ → FinalizePc

inductive ThreadException where
  | exception (text : String)
  | nullPointer (text : String)
  | cannotFinalize (text : String)
deriving DecidableEq, Repr

inductive ThreadStep (κ : Type) where
  | start
  /-- The thread itself goes on. -/
  | run
  /-- The thread wakes up without a notification. -/
  | spurious
  | wakeup
  | wakeupBarrier (barrier : Option ℕ)
  | setCoalesceWakeups (coalesce : Bool)
  | setPrepfinHold (hold : Bool)
  | prepareFinalize (k : κ)
  | cancelFinalize (k : κ)
  /-- A user goes on in its call. -/
  | advance (k : κ)
  /-- A user that waits for the end of the hold wakes up without a notification. -/
  | holdSpurious (k : κ)
deriving DecidableEq, Repr

namespace Thread

variable {κ : Type}

/-- `Thread::__constructor`, and the setting of `set_prepfin_conc_loop`. -/
def new (name : String) (opMode : OpMode) (prepfinConcLoop : Bool) : Thread κ where
  name := name
  opMode := opMode
  prepfinConcLoop := prepfinConcLoop
  coalesceWakeups := false
  started := false
  pendingWakeups := 0
  waitingForWakeup := opMode = .waitForWakeup
  barrier := none
  finalizePrepared := false
  prepfinHold := false
  loopDone := true
  sleepMutex := false
  loopMutex := none
  antistarveMutex := none
  prepfinHoldMutex := none
  pc := .created
  users _ := .idle

/-! ### The run -/

/-- From the test of the waiting loop to the next wait, or to the next iteration. -/
def lookForWakeup (t : Thread κ) : Thread κ :=
  if t.pendingWakeups = 0 then
    { t with waitingForWakeup := true, sleepMutex := false, pc := .asleep }
  else { t with pendingWakeups := t.pendingWakeups - 1, sleepMutex := false, pc := .stopby }

/-- The next thing that the thread does, `none` while it is blocked. -/
def run (t : Thread κ) : Option (Thread κ) :=
  match t.pc with
  | .created => none
  | .entry => some { t with sleepMutex := t.opMode = .waitForWakeup, pc := .beforeOnce }
  | .beforeOnce =>
    if t.loopMutex = none then some { t with loopMutex := some .self, pc := .once } else none
  | .once =>
    let t := { t with loopMutex := none }
    some (if t.opMode = .waitForWakeup then t.lookForWakeup else { t with pc := .stopby })
  | .asleep => none
  | .woken => some t.lookForWakeup
  | .stopby => if t.antistarveMutex = none then some { t with pc := .loopLock } else none
  | .loopLock =>
    if t.loopMutex = none then
      some (if t.finalizePrepared then { t with pc := .afterLoop }
        else { t with loopDone := false, loopMutex := some .self, pc := .looping })
    else none
  | .looping => some { t with loopMutex := none, pc := .afterLoop }
  | .afterLoop =>
    some { t with
      loopDone := true
      pc := if t.opMode = .waitForWakeup then .readBarrier else .stopby }
  | .readBarrier => some { t with pc := if t.barrier.isSome then .takeBarrier else .woken }
  -- a barrier that was seen is still there (`barriers_in_order`)
  | .takeBarrier => t.barrier.map fun b => { t with barrier := none, pc := .atBarrier b }
  | .atBarrier _ => some { t with pc := .woken }

/-! ### Wakeups -/

/-- The end of both kinds of `wakeup`. -/
def notify (t : Thread κ) : Thread κ :=
  if t.waitingForWakeup then
    { t with waitingForWakeup := false, pc := if t.pc = .asleep then .woken else t.pc }
  else t

/-- `printf` for a pointer. -/
def fmtPointer : Option ℕ → String
  | none => "(nil)"
  | some p => "0x" ++ String.ofList (Nat.toDigits 16 p)

def wakeup (t : Thread κ) : Except ThreadException (Thread κ) :=
  if t.opMode = .waitForWakeup then
    if t.barrier.isSome then
      .error (.exception ("Thread(" ++ t.name ++ "): wakeup() cannot be called if loop is running "
        ++ "with barrier already"))
    else
      .ok { t with
        pendingWakeups :=
          if t.coalesceWakeups then 1 else (t.pendingWakeups + 1) % 2 ^ 32 }.notify
  else .ok t

/-- `Thread::wakeup` with a barrier, which never coalesces. -/
def wakeupBarrier (t : Thread κ) (barrier : Option ℕ) : Except ThreadException (Thread κ) :=
  if t.opMode ≠ .waitForWakeup then .ok t
  else if barrier = none then
    .error (.nullPointer ("Thread(" ++ t.name ++ ")::wakeup(): barrier must not be NULL"))
  else if t.waitingForWakeup = false ∧ t.barrier.isSome then
    .error (.exception ("Thread " ++ t.name ++ " already running with barrier, cannot wakeup 0  "
      ++ fmtPointer t.barrier))
  else
    .ok { t with pendingWakeups := (t.pendingWakeups + 1) % 2 ^ 32, barrier := barrier }.notify

/-! ### Finalization -/

variable [DecidableEq κ]

def goTo (t : Thread κ) (k : κ) (p : FinalizePc) : Thread κ :=
  { t with users := Function.update t.users k p }

def prepareFinalize (t : Thread κ) (k : κ) : Except ThreadException (Thread κ) :=
  if t.started = false then .error (.cannotFinalize "Thread has not been started")
  else if t.finalizePrepared then
    .error (.cannotFinalize "prepare_finalize() has already been called")
  else .ok (t.goTo k .holdLock)

def cancelFinalize (t : Thread κ) (k : κ) : Except ThreadException (Thread κ) :=
  if t.started = false then
    .error (.cannotFinalize "Cannot cancel finalize, thread has not been started")
  else .ok (t.goTo k .cancelLock)

/-- The next thing that a user does in its call, `none` while it is blocked. -/
def advance (t : Thread κ) (k : κ) : Option (Thread κ) :=
  match t.users k with
  | .idle => none
  | .holdLock =>
    if t.prepfinHoldMutex = none then
      if t.prepfinHold then some (t.goTo k .onHold)
      else
        let t := { t with prepfinHoldMutex := some k }
        some (if t.prepfinConcLoop then { t with finalizePrepared := true }.goTo k .user
          else t.goTo k .antistarveLock)
    else none
  | .onHold => none
  | .antistarveLock =>
    if t.antistarveMutex = none then some ({ t with antistarveMutex := some k }.goTo k .loopLock)
    else none
  | .loopLock =>
    if t.loopMutex = none then
      some ({ t with loopMutex := some (.other k), finalizePrepared := true }.goTo k .user)
    else none
  | .user =>
    let t := if t.prepfinConcLoop then t else { t with loopMutex := none, antistarveMutex := none }
    some ({ t with prepfinHoldMutex := none }.goTo k .idle)
  | .cancelLock =>
    if t.loopMutex = none then some ({ t with finalizePrepared := false }.goTo k .idle) else none

omit [DecidableEq κ] in
/-- The critical section of `set_prepfin_hold`. -/
def setPrepfinHold (t : Thread κ) (hold : Bool) : Except ThreadException (Thread κ) :=
  if hold ∧ t.finalizePrepared then
    .error (.exception ("Thread(" ++ t.name ++ ")::set_prepfin_hold: prepare_finalize() has "
      ++ "been called already()"))
  else
    .ok { t with
      prepfinHold := hold
      users := fun k => if hold = false ∧ t.users k = .onHold then .holdLock else t.users k }

/-! ### Steps -/

omit [DecidableEq κ] in
/-- A call that throws has changed nothing. -/
def orSame (t : Thread κ) : Except ThreadException (Thread κ) → Thread κ
  | .ok t' => t'
  | .error _ => t

/-- A step of the thread or of a user, `none` where it is blocked. -/
def step (t : Thread κ) : ThreadStep κ → Option (Thread κ)
  | .start => if t.started then none else some { t with started := true, pc := .entry }
  | .run => t.run
  | .spurious => if t.pc = .asleep then some { t with pc := .woken } else none
  | .wakeup => if t.sleepMutex then none else some (t.orSame t.wakeup)
  | .wakeupBarrier barrier =>
    if t.sleepMutex then none else some (t.orSame (t.wakeupBarrier barrier))
  | .setCoalesceWakeups coalesce =>
    if t.sleepMutex then none else some { t with coalesceWakeups := coalesce }
  | .setPrepfinHold hold =>
    if t.prepfinHoldMutex = none then some (t.orSame (t.setPrepfinHold hold)) else none
  | .prepareFinalize k =>
    if t.users k = .idle then some (t.orSame (t.prepareFinalize k)) else none
  | .cancelFinalize k => if t.users k = .idle then some (t.orSame (t.cancelFinalize k)) else none
  | .advance k => t.advance k
  | .holdSpurious k => if t.users k = .onHold then some (t.goTo k .holdLock) else none

end Thread

/-- A thread from its construction on, used by `κ`. -/
def threadSystem (κ : Type) [DecidableEq κ] : LTS (Thread κ) (ThreadStep κ) where
  init t := ∃ name opMode prepfinConcLoop, t = .new name opMode prepfinConcLoop
  next := Thread.step

namespace Thread

variable {κ : Type} {t t' : Thread κ}

/-! ## Wakeups and iterations -/

/-- What is counted of a run in wait-for-wakeup mode. -/
structure Wakeups where
  /-- The calls of `wakeup` that did not throw. -/
  wakeups : ℕ
  /-- How often the thread has left the waiting loop for an iteration. -/
  iterations : ℕ
  /-- No iteration has begun since the last call of `wakeup`. -/
  due : Bool
  /-- The barriers that came with a wakeup. -/
  accepted : List ℕ
  /-- The barriers that the thread has gone to. -/
  waited : List ℕ

namespace Wakeups

def wake (g : Wakeups) (barrier : Option ℕ) : Wakeups :=
  { g with wakeups := g.wakeups + 1, due := true, accepted := g.accepted ++ barrier.toList }

def iterate (g : Wakeups) : Wakeups :=
  { g with iterations := g.iterations + 1, due := false }

/-- The thread goes on to a place. -/
def move (g : Wakeups) : RunPc → Wakeups
  | .stopby => g.iterate
  | .atBarrier b => { g with waited := g.waited ++ [b] }
  | _ => g

end Wakeups

def countWakeups : Monitor (Thread κ) (ThreadStep κ) Wakeups where
  start _ := ⟨0, 0, false, [], []⟩
  observe g t l t' :=
    if t.opMode ≠ .waitForWakeup then g
    else
      match l with
      | .run => g.move t'.pc
      | .wakeup => if t.wakeup.isOk then g.wake none else g
      | .wakeupBarrier barrier => if (t.wakeupBarrier barrier).isOk then g.wake barrier else g
      | _ => g

/-- Between `start` and the first look for a wakeup, or asleep, or just awake. -/
def BeforeWakeup (t : Thread κ) : Prop :=
  t.pc ∈ [.created, .entry, .beforeOnce, .once, .asleep, .woken]

/-- From the consumption of a wakeup to the barrier. -/
def InIteration (t : Thread κ) : Prop :=
  t.pc ∈ [.stopby, .loopLock, .looping, .afterLoop, .readBarrier, .takeBarrier]

instance (t : Thread κ) : Decidable t.InIteration :=
  inferInstanceAs (Decidable (_ ∈ _))

/-- What the thread and `wakeup` rely on. -/
structure WakeInv (t : Thread κ) : Prop where
  waiting : t.waitingForWakeup = true →
    t.pendingWakeups = 0 ∧ t.barrier = none ∧ t.BeforeWakeup
  asleep : t.pc = .asleep → t.waitingForWakeup = true
  takes : t.pc = .takeBarrier → t.barrier.isSome
  queued : t.barrier.isSome → 0 < t.pendingWakeups ∨ t.InIteration

/-- The wakeups that are pending are the same. -/
structure SameWakeups (t t' : Thread κ) : Prop where
  pending : t'.pendingWakeups = t.pendingWakeups
  waiting : t'.waitingForWakeup = t.waitingForWakeup
  barrier : t'.barrier = t.barrier

/-- What the thread itself does to them. -/
inductive RunCase (t t' : Thread κ) : Prop where
  | starts (hpc : t.BeforeWakeup) (hpc' : t'.pc = .beforeOnce ∨ t'.pc = .once)
      (hsame : t.SameWakeups t')
  | sleeps (hpc : t.pc = .once ∨ t.pc = .woken) (hzero : t.pendingWakeups = 0)
      (hpc' : t'.pc = .asleep) (hwaiting : t'.waitingForWakeup = true)
      (hpending : t'.pendingWakeups = 0) (hbarrier : t'.barrier = t.barrier)
  | consumes (hpc : t.pc = .once ∨ t.pc = .woken) (hpos : 0 < t.pendingWakeups)
      (hpc' : t'.pc = .stopby) (hwaiting : t'.waitingForWakeup = t.waitingForWakeup)
      (hpending : t'.pendingWakeups = t.pendingWakeups - 1) (hbarrier : t'.barrier = t.barrier)
  | iterates (hpc : t.InIteration)
      (hpc' : t'.pc ∈ [.loopLock, .looping, .afterLoop, .readBarrier, .takeBarrier])
      (htakes : t'.pc = .takeBarrier → t.barrier.isSome) (hsame : t.SameWakeups t')
  | takes (b : ℕ) (hpc : t.pc = .takeBarrier) (hbarrier : t.barrier = some b)
      (hpc' : t'.pc = .atBarrier b) (hwaiting : t'.waitingForWakeup = t.waitingForWakeup)
      (hpending : t'.pendingWakeups = t.pendingWakeups) (hbarrier' : t'.barrier = none)
  | returns (hpc : t.pc = .readBarrier ∧ t.barrier = none ∨ ∃ b, t.pc = .atBarrier b)
      (hpc' : t'.pc = .woken) (hsame : t.SameWakeups t')

/-- From the end of `once` and from the end of every wait. -/
theorem runCase_lookForWakeup {s : Thread κ} (hpc : t.pc = .once ∨ t.pc = .woken)
    (hsame : t.SameWakeups s) : t.RunCase s.lookForWakeup := by
  rw [lookForWakeup]
  split_ifs with hzero
  · rw [hsame.pending] at hzero
    exact .sleeps hpc hzero rfl rfl (hsame.pending.trans hzero) hsame.barrier
  · rw [hsame.pending] at hzero
    exact .consumes hpc (by omega) rfl hsame.waiting (by rw [← hsame.pending]) hsame.barrier

/-- Each step of a waiting thread's `run` is one of the named cases. -/
theorem run_cases (hmode : t.opMode = .waitForWakeup) (hs : t.run = some t') :
    t.RunCase t' := by
  have hsame : ∀ {s : Thread κ}, s.pendingWakeups = t.pendingWakeups →
      s.waitingForWakeup = t.waitingForWakeup → s.barrier = t.barrier → t.SameWakeups s :=
    fun h1 h2 h3 => ⟨h1, h2, h3⟩
  rw [Thread.run] at hs
  cases hpc : t.pc with
  | created => simp [hpc] at hs
  | entry =>
    simp only [hpc, Option.some.injEq] at hs
    rw [← hs]
    exact .starts (by simp [BeforeWakeup, hpc]) (.inl rfl) (hsame rfl rfl rfl)
  | beforeOnce =>
    simp only [hpc, Option.ite_none_right_eq_some, Option.some.injEq] at hs
    rw [← hs.2]
    exact .starts (by simp [BeforeWakeup, hpc]) (.inr rfl) (hsame rfl rfl rfl)
  | once =>
    simp only [hpc, if_pos hmode, Option.some.injEq] at hs
    rw [← hs]
    exact runCase_lookForWakeup (.inl hpc) (hsame rfl rfl rfl)
  | asleep => simp [hpc] at hs
  | woken =>
    simp only [hpc, Option.some.injEq] at hs
    rw [← hs]
    exact runCase_lookForWakeup (.inr hpc) (hsame rfl rfl rfl)
  | stopby =>
    simp only [hpc, Option.ite_none_right_eq_some, Option.some.injEq] at hs
    rw [← hs.2]
    exact .iterates (by simp [InIteration, hpc]) (by simp)
      (by simp) (hsame rfl rfl rfl)
  | loopLock =>
    simp only [hpc, Option.ite_none_right_eq_some, Option.some.injEq] at hs
    rw [← hs.2]
    -- with and without `loop`
    split_ifs with hprepared
    all_goals
      exact .iterates (by simp [InIteration, hpc]) (by simp)
        (by simp) (hsame rfl rfl rfl)
  | looping =>
    simp only [hpc, Option.some.injEq] at hs
    rw [← hs]
    exact .iterates (by simp [InIteration, hpc]) (by simp)
      (by simp) (hsame rfl rfl rfl)
  | afterLoop =>
    simp only [hpc, if_pos hmode, Option.some.injEq] at hs
    rw [← hs]
    exact .iterates (by simp [InIteration, hpc]) (by simp)
      (by simp) (hsame rfl rfl rfl)
  | readBarrier =>
    simp only [hpc, Option.some.injEq] at hs
    cases hbarrier : t.barrier with
    | none =>
      rw [hbarrier] at hs
      rw [← hs]
      exact .returns (.inl ⟨hpc, hbarrier⟩) rfl (hsame rfl rfl hbarrier.symm)
    | some b =>
      rw [hbarrier] at hs
      rw [← hs]
      exact .iterates (by simp [InIteration, hpc]) (by simp)
        (by simp [hbarrier]) (hsame rfl rfl hbarrier.symm)
  | takeBarrier =>
    simp only [hpc, Option.map_eq_some_iff] at hs
    obtain ⟨b, hb, rfl⟩ := hs
    exact .takes b hpc hb rfl rfl rfl rfl
  | atBarrier b =>
    simp only [hpc, Option.some.injEq] at hs
    rw [← hs]
    exact .returns (.inr ⟨b, hpc⟩) rfl (hsame rfl rfl rfl)

/-- A wakeup of a waiting thread needs the barrier to be unset; any other thread ignores it. -/
theorem wakeup_ok (h : t.wakeup = .ok t') :
    t.opMode ≠ .waitForWakeup ∧ t' = t ∨
      t.opMode = .waitForWakeup ∧ t.barrier = none ∧
        t' = { t with
          pendingWakeups :=
            if t.coalesceWakeups then 1 else (t.pendingWakeups + 1) % 2 ^ 32 }.notify := by
  rw [wakeup] at h
  by_cases hmode : t.opMode = .waitForWakeup
  · rw [if_pos hmode] at h
    -- an unused barrier makes `wakeup` throw
    cases hbarrier : t.barrier with
    | none =>
      rw [hbarrier] at h
      exact .inr ⟨hmode, rfl, (Except.ok.inj h).symm⟩
    | some b =>
      rw [hbarrier] at h
      cases h
  · rw [if_neg hmode] at h
    exact .inl ⟨hmode, (Except.ok.inj h).symm⟩

/-- A wakeup with a barrier needs one, and the last one to have been taken unless the thread waits.
-/
theorem wakeupBarrier_ok {barrier : Option ℕ} (h : t.wakeupBarrier barrier = .ok t') :
    t.opMode ≠ .waitForWakeup ∧ t' = t ∨
      t.opMode = .waitForWakeup ∧ (∃ b, barrier = some b) ∧
        (t.waitingForWakeup = true ∨ t.barrier = none) ∧
        t' = { t with
          pendingWakeups := (t.pendingWakeups + 1) % 2 ^ 32
          barrier := barrier }.notify := by
  rw [wakeupBarrier] at h
  split_ifs at h with hmode hnull hbusy
  · exact .inl ⟨hmode, (Except.ok.inj h).symm⟩
  · refine .inr ⟨not_not.mp hmode, Option.ne_none_iff_exists'.mp hnull, ?_,
      (Except.ok.inj h).symm⟩
    -- an unused barrier may be replaced only while the thread waits
    cases hwaiting : t.waitingForWakeup with
    | true => exact .inl rfl
    | false => exact .inr (by simpa [hwaiting] using hbusy)

/-- After a wakeup the thread does not wait any longer. -/
theorem notify_spec (t : Thread κ) (hasleep : t.pc = .asleep → t.waitingForWakeup = true) :
    t.notify.waitingForWakeup = false ∧ t.notify.pendingWakeups = t.pendingWakeups ∧
      t.notify.barrier = t.barrier ∧
      (t.pc ≠ .asleep ∧ t.notify.pc = t.pc ∨ t.pc = .asleep ∧ t.notify.pc = .woken) := by
  rw [notify]
  cases hwaiting : t.waitingForWakeup with
  | true =>
    by_cases hpc : t.pc = .asleep
    · simp [hpc]
    · simp [hpc]
  | false =>
    -- who sleeps is known to wait
    have hpc : t.pc ≠ .asleep := by
      intro hpc
      rw [hasleep hpc] at hwaiting
      cases hwaiting
    simp [hpc, hwaiting]

/-- A wakeup that is pending is not lost. -/
theorem WakeInv.notify {s : Thread κ} (h : t.WakeInv) (hpc : s.pc = t.pc)
    (hwaiting : s.waitingForWakeup = t.waitingForWakeup) (hpos : 0 < s.pendingWakeups)
    (htakes : t.barrier.isSome → s.barrier.isSome) : s.notify.WakeInv := by
  have hasleep : s.pc = .asleep → s.waitingForWakeup = true := by
    rw [hpc, hwaiting]
    exact h.asleep
  obtain ⟨hnot, hpending, hbarrier, hmove⟩ := notify_spec s hasleep
  refine ⟨fun hs => ?_, fun hs => ?_, fun hs => ?_, fun _ => .inl ?_⟩
  · rw [hnot] at hs
    cases hs
  · rcases hmove with ⟨hsleeps, hstays⟩ | ⟨-, hwoken⟩
    · exact absurd (hstays ▸ hs) hsleeps
    · rw [hwoken] at hs
      cases hs
  · rcases hmove with ⟨-, hstays⟩ | ⟨-, hwoken⟩
    · rw [hbarrier]
      exact htakes (h.takes (by rw [← hpc, ← hstays, hs]))
    · rw [hwoken] at hs
      cases hs
  · rw [hpending]
    exact hpos

/-- The loop keeps the wakeup bookkeeping. -/
theorem WakeInv.run (h : t.WakeInv) (hs : t.RunCase t') : t'.WakeInv := by
  obtain ⟨hwaiting, hasleep, htakes, hqueued⟩ := h
  cases hs with
  | starts hpc hpc' hsame =>
    refine ⟨fun hw => ?_, fun hp => ?_, fun hp => ?_, fun hb => ?_⟩
    · rw [hsame.waiting] at hw
      obtain ⟨hzero, hnone, -⟩ := hwaiting hw
      refine ⟨hsame.pending.trans hzero, hsame.barrier.trans hnone, ?_⟩
      rcases hpc' with hpc' | hpc' <;> simp [BeforeWakeup, hpc']
    · rcases hpc' with hpc' | hpc' <;> simp [hp] at hpc'
    · rcases hpc' with hpc' | hpc' <;> simp [hp] at hpc'
    -- a barrier that is kept still has its wakeup pending
    · rw [hsame.barrier] at hb
      rw [hsame.pending]
      rcases hqueued hb with hpos | hin
      · exact .inl hpos
      · simp only [BeforeWakeup, InIteration, List.mem_cons] at hpc hin
        grind
  | sleeps hpc hzero hpc' hwaiting' hpending hbarrier =>
    -- a kept barrier would have a wakeup pending
    have hnone : t.barrier = none := by
      by_contra hsome
      rcases hqueued (Option.isSome_iff_ne_none.mpr hsome) with hpos | hin
      · omega
      · rcases hpc with hpc | hpc <;> simp [InIteration, hpc] at hin
    refine ⟨fun _ => ⟨hpending, hbarrier.trans hnone, ?_⟩, fun _ => hwaiting', fun hp => ?_,
      fun hb => ?_⟩
    · simp [BeforeWakeup, hpc']
    · simp [hp] at hpc'
    · rw [hbarrier, hnone] at hb
      cases hb
  | consumes hpc hpos hpc' hwaiting' hpending hbarrier =>
    refine ⟨fun hw => ?_, fun hp => ?_, fun hp => ?_, fun _ => .inr ?_⟩
    -- who waits has nothing pending, and something was
    · have hzero := (hwaiting (hwaiting' ▸ hw)).1
      omega
    · simp [hp] at hpc'
    · simp [hp] at hpc'
    · simp [InIteration, hpc']
  | iterates hpc hpc' htakes' hsame =>
    refine ⟨fun hw => ?_, fun hp => ?_, fun hp => ?_, fun _ => .inr ?_⟩
    · have hbefore := (hwaiting (hsame.waiting ▸ hw)).2.2
      simp only [BeforeWakeup, InIteration, List.mem_cons] at hpc hbefore
      grind
    · simp [hp] at hpc'
    · rw [hsame.barrier]
      exact htakes' hp
    · exact List.mem_cons_of_mem _ hpc'
  | takes b hpc hbarrier hpc' hwaiting' hpending hbarrier' =>
    refine ⟨fun hw => ?_, fun hp => ?_, fun hp => ?_, fun hb => ?_⟩
    · have hbefore := (hwaiting (hwaiting' ▸ hw)).2.2
      simp [BeforeWakeup, hpc] at hbefore
    · simp [hp] at hpc'
    · simp [hp] at hpc'
    · rw [hbarrier'] at hb
      cases hb
  | returns hpc hpc' hsame =>
    refine ⟨fun hw => ?_, fun hp => ?_, fun hp => ?_, fun hb => ?_⟩
    · have hbefore := (hwaiting (hsame.waiting ▸ hw)).2.2
      rcases hpc with ⟨hpc, -⟩ | ⟨b, hpc⟩ <;> simp [BeforeWakeup, hpc] at hbefore
    · simp [hp] at hpc'
    · simp [hp] at hpc'
    · rw [hsame.barrier] at hb
      rw [hsame.pending]
      rcases hpc with ⟨-, hnone⟩ | ⟨b, hpc⟩
      · rw [hnone] at hb
        cases hb
      · rcases hqueued hb with hpos | hin
        · exact .inl hpos
        · simp [InIteration, hpc] at hin

/-- The bookkeeping is about the wakeups and the program counter only. -/
theorem WakeInv.congr (h : t.WakeInv) (hs : t.SameWakeups t') (hpc : t'.pc = t.pc) :
    t'.WakeInv := by
  obtain ⟨hwaiting, hasleep, htakes, hqueued⟩ := h
  constructor
  · rw [BeforeWakeup, hs.waiting, hs.pending, hs.barrier, hpc]
    exact hwaiting
  · rw [hpc, hs.waiting]
    exact hasleep
  · rw [hpc, hs.barrier]
    exact htakes
  · rw [InIteration, hs.barrier, hs.pending, hpc]
    exact hqueued

/-- The steps that concern the finalization only. -/
def finalizes : ThreadStep κ → Bool
  | .setPrepfinHold _ | .prepareFinalize _ | .cancelFinalize _ | .advance _ | .holdSpurious _ =>
    true
  | _ => false

/-- A thread waits only before it has been woken, and `start` comes first. -/
theorem WakeInv.move (h : t.WakeInv) (hs : t.SameWakeups t')
    (hpc : t.pc = .created ∨ t.pc = .asleep) (hpc' : t'.pc = .entry ∨ t'.pc = .woken) :
    t'.WakeInv := by
  obtain ⟨hwaiting, -, -, hqueued⟩ := h
  refine ⟨fun hw => ?_, fun hp => ?_, fun hp => ?_, fun hb => ?_⟩
  · obtain ⟨hzero, hnone, -⟩ := hwaiting (hs.waiting ▸ hw)
    refine ⟨hs.pending.trans hzero, hs.barrier.trans hnone, ?_⟩
    rcases hpc' with hpc' | hpc' <;> simp [BeforeWakeup, hpc']
  · rcases hpc' with hpc' | hpc' <;> simp [hp] at hpc'
  · rcases hpc' with hpc' | hpc' <;> simp [hp] at hpc'
  · rw [hs.pending]
    rcases hqueued (hs.barrier ▸ hb) with hpos | hin
    · exact .inl hpos
    · rcases hpc with hpc | hpc <;> simp [InIteration, hpc] at hin

/-! ### Steps -/

variable [DecidableEq κ] {l : ThreadStep κ}

/-- A user's move leaves the thread's place and its wakeups. -/
theorem goTo_frame (t : Thread κ) (k : κ) (p : FinalizePc) :
    (t.goTo k p).opMode = t.opMode ∧ (t.goTo k p).coalesceWakeups = t.coalesceWakeups ∧
      (t.goTo k p).started = t.started ∧ (t.goTo k p).pc = t.pc ∧ t.SameWakeups (t.goTo k p) :=
  ⟨rfl, rfl, rfl, rfl, rfl, rfl, rfl⟩

/-- So do all steps of the finalization. -/
theorem finalizes_frame (hl : finalizes l = true) (hs : t.step l = some t') :
    t'.opMode = t.opMode ∧ t'.coalesceWakeups = t.coalesceWakeups ∧ t'.started = t.started ∧
      t'.pc = t.pc ∧ t.SameWakeups t' := by
  have hrefl : t.SameWakeups t := ⟨rfl, rfl, rfl⟩
  cases l with
  | setPrepfinHold hold =>
    simp only [step, setPrepfinHold, Option.ite_none_right_eq_some, Option.some.injEq] at hs
    rw [← hs.2]
    split_ifs
    · exact ⟨rfl, rfl, rfl, rfl, hrefl⟩
    · exact ⟨rfl, rfl, rfl, rfl, rfl, rfl, rfl⟩
  | prepareFinalize k =>
    simp only [step, prepareFinalize, Option.ite_none_right_eq_some, Option.some.injEq] at hs
    rw [← hs.2]
    split_ifs
    · exact ⟨rfl, rfl, rfl, rfl, hrefl⟩
    · exact ⟨rfl, rfl, rfl, rfl, hrefl⟩
    · exact goTo_frame t k _
  | cancelFinalize k =>
    simp only [step, cancelFinalize, Option.ite_none_right_eq_some, Option.some.injEq] at hs
    rw [← hs.2]
    split_ifs
    · exact ⟨rfl, rfl, rfl, rfl, hrefl⟩
    · exact goTo_frame t k _
  | advance k =>
    simp only [step, advance] at hs
    split at hs
    all_goals try split_ifs at hs
    all_goals
      cases hs
    all_goals exact ⟨rfl, rfl, rfl, rfl, rfl, rfl, rfl⟩
  | holdSpurious k =>
    simp only [step, Option.ite_none_right_eq_some, Option.some.injEq] at hs
    rw [← hs.2]
    exact goTo_frame t k _
  | _ => cases hl

omit [DecidableEq κ] in
/-- A notification moves the program counter only. -/
theorem notify_frame (t : Thread κ) :
    t.notify.opMode = t.opMode ∧ t.notify.coalesceWakeups = t.coalesceWakeups ∧
      t.notify.started = t.started ∧ (t.pc = .created → t.notify.pc = .created) := by
  rw [notify]
  split_ifs with hwaiting hpc
  · exact ⟨rfl, rfl, rfl, fun hcreated => by simp [hcreated] at hpc⟩
  · exact ⟨rfl, rfl, rfl, id⟩
  · exact ⟨rfl, rfl, rfl, id⟩

omit [DecidableEq κ] in
/-- Looking for a wakeup changes neither the mode nor whether the thread runs. -/
theorem lookForWakeup_frame (t : Thread κ) :
    t.lookForWakeup.opMode = t.opMode ∧ t.lookForWakeup.coalesceWakeups = t.coalesceWakeups ∧
      t.lookForWakeup.started = t.started := by
  rw [lookForWakeup]
  split_ifs <;> exact ⟨rfl, rfl, rfl⟩

omit [DecidableEq κ] in
/-- The loop changes neither the mode nor whether the thread runs. -/
theorem run_frame (hs : t.run = some t') :
    t'.opMode = t.opMode ∧ t'.coalesceWakeups = t.coalesceWakeups ∧ t'.started = t.started := by
  rw [run] at hs
  cases hpc : t.pc with
  | created => simp [hpc] at hs
  | asleep => simp [hpc] at hs
  | once =>
    simp only [hpc, Option.some.injEq] at hs
    rw [← hs]
    split_ifs
    · exact lookForWakeup_frame _
    · exact ⟨rfl, rfl, rfl⟩
  | woken =>
    simp only [hpc, Option.some.injEq] at hs
    rw [← hs]
    exact lookForWakeup_frame t
  | takeBarrier =>
    simp only [hpc, Option.map_eq_some_iff] at hs
    obtain ⟨b, -, rfl⟩ := hs
    exact ⟨rfl, rfl, rfl⟩
  | loopLock =>
    simp only [hpc, Option.ite_none_right_eq_some, Option.some.injEq] at hs
    rw [← hs.2]
    split_ifs <;> exact ⟨rfl, rfl, rfl⟩
  | beforeOnce | stopby =>
    simp only [hpc, Option.ite_none_right_eq_some, Option.some.injEq] at hs
    rw [← hs.2]
    exact ⟨rfl, rfl, rfl⟩
  | entry | looping | afterLoop | readBarrier | atBarrier =>
    simp only [hpc, Option.some.injEq] at hs
    rw [← hs]
    exact ⟨rfl, rfl, rfl⟩

/-- The mode is set before the thread starts, nobody starts it twice, and only
`set_coalesce_wakeups` changes what it is for. -/
theorem step_frame (hs : t.step l = some t') :
    t'.opMode = t.opMode ∧
      (l ≠ .setCoalesceWakeups true → t.coalesceWakeups = false → t'.coalesceWakeups = false) ∧
      ((t.started = false → t.pc = .created) → t'.started = false → t'.pc = .created) := by
  -- most steps leave all of it as it is
  have hsame : ∀ s : Thread κ, s.opMode = t.opMode ∧ s.coalesceWakeups = t.coalesceWakeups ∧
      s.started = t.started ∧ (t.pc = .created → s.pc = .created) → s.opMode = t.opMode ∧
      (l ≠ .setCoalesceWakeups true → t.coalesceWakeups = false → s.coalesceWakeups = false) ∧
      ((t.started = false → t.pc = .created) → s.started = false → s.pc = .created) := by
    rintro s ⟨hmode, hcoalesce, hstarted, hpc⟩
    exact ⟨hmode, fun _ => hcoalesce.trans, fun h hs => hpc (h (hstarted ▸ hs))⟩
  cases l with
  | start =>
    simp only [step, Option.ite_none_left_eq_some, Option.some.injEq] at hs
    rw [← hs.2]
    exact ⟨rfl, fun _ => id, fun _ h => absurd h (by simp)⟩
  | run =>
    obtain ⟨hmode, hcoalesce, hstarted⟩ := run_frame hs
    refine hsame t' ⟨hmode, hcoalesce, hstarted, fun hpc => ?_⟩
    simp [step, run, hpc] at hs
  | spurious =>
    simp only [step, Option.ite_none_right_eq_some, Option.some.injEq] at hs
    rw [← hs.2]
    exact hsame _ ⟨rfl, rfl, rfl, fun hpc => by simp [hpc] at hs⟩
  | wakeup =>
    simp only [step, Option.ite_none_left_eq_some, Option.some.injEq] at hs
    obtain ⟨-, rfl⟩ := hs
    cases hw : t.wakeup with
    | error e => exact hsame t ⟨rfl, rfl, rfl, id⟩
    | ok s =>
      rcases wakeup_ok hw with ⟨-, rfl⟩ | ⟨-, -, rfl⟩
      · exact hsame s ⟨rfl, rfl, rfl, id⟩
      · exact hsame _ (notify_frame _)
  | wakeupBarrier barrier =>
    simp only [step, Option.ite_none_left_eq_some, Option.some.injEq] at hs
    obtain ⟨-, rfl⟩ := hs
    cases hw : t.wakeupBarrier barrier with
    | error e => exact hsame t ⟨rfl, rfl, rfl, id⟩
    | ok s =>
      rcases wakeupBarrier_ok hw with ⟨-, rfl⟩ | ⟨-, -, -, rfl⟩
      · exact hsame s ⟨rfl, rfl, rfl, id⟩
      · exact hsame _ (notify_frame _)
  | setCoalesceWakeups coalesce =>
    simp only [step, Option.ite_none_left_eq_some, Option.some.injEq] at hs
    rw [← hs.2]
    refine ⟨rfl, fun hl _ => ?_, fun h => h⟩
    cases coalesce with
    | true => exact absurd rfl hl
    | false => rfl
  | _ =>
    obtain ⟨hmode, hcoalesce, hstarted, hpc, -⟩ := finalizes_frame rfl hs
    exact hsame _ ⟨hmode, hcoalesce, hstarted, hpc.trans⟩

/-- The counter of the pending wakeups does not wrap around. -/
def NoWrap (t : Thread κ) : ThreadStep κ → Prop
  | .wakeup => t.coalesceWakeups = false → t.pendingWakeups + 1 < 2 ^ 32
  | .wakeupBarrier _ => t.pendingWakeups + 1 < 2 ^ 32
  | _ => True

instance (t : Thread κ) : ∀ l, Decidable (t.NoWrap l)
  | .wakeup =>
    inferInstanceAs (Decidable (t.coalesceWakeups = false → t.pendingWakeups + 1 < 2 ^ 32))
  | .wakeupBarrier _ => inferInstanceAs (Decidable (t.pendingWakeups + 1 < 2 ^ 32))
  | .start | .run | .spurious | .setCoalesceWakeups _ | .setPrepfinHold _ | .prepareFinalize _
  | .cancelFinalize _ | .advance _ | .holdSpurious _ => .isTrue trivial

/-- The wakeups as they were counted. -/
structure Counted (t : Thread κ) (g : Wakeups) : Prop where
  iterations : g.iterations + t.pendingWakeups ≤ g.wakeups
  due : g.due = true → 0 < t.pendingWakeups
  barriers : g.accepted = g.waited ++ t.barrier.toList

variable {g : Wakeups}

omit [DecidableEq κ] in
/-- What is counted depends on the wakeups and the program counter only. -/
theorem Counted.congr (h : t.Counted g) (hs : t.SameWakeups t') : t'.Counted g := by
  obtain ⟨hiterations, hdue, hbarriers⟩ := h
  constructor
  · rw [hs.pending]
    exact hiterations
  · rw [hs.pending]
    exact hdue
  · rw [hs.barrier]
    exact hbarriers

omit [DecidableEq κ] in
/-- A step of the loop is counted by the move it makes. -/
theorem Counted.run (h : t.Counted g) (hs : t.RunCase t') : t'.Counted (g.move t'.pc) := by
  cases hs with
  | starts hpc hpc' hsame =>
    have hmove : g.move t'.pc = g := by
      rcases hpc' with hpc' | hpc' <;> rw [hpc'] <;> rfl
    rw [hmove]
    exact h.congr hsame
  | sleeps hpc hzero hpc' hwaiting hpending hbarrier =>
    -- the thread waits only with nothing pending, so nothing is due
    have hmove : g.move t'.pc = g := by rw [hpc']; rfl
    obtain ⟨hiterations, hdue, hbarriers⟩ := h
    rw [hmove]
    refine ⟨by omega, fun hd => ?_, hbarrier ▸ hbarriers⟩
    have hpos := hdue hd
    omega
  | consumes hpc hpos hpc' hwaiting hpending hbarrier =>
    -- what is taken from the pending wakeups is an iteration more
    have hmove : g.move t'.pc = g.iterate := by rw [hpc']; rfl
    obtain ⟨hiterations, -, hbarriers⟩ := h
    rw [hmove]
    refine ⟨?_, fun hd => (by cases hd), hbarrier ▸ hbarriers⟩
    show g.iterations + 1 + t'.pendingWakeups ≤ g.wakeups
    omega
  | iterates hpc hpc' htakes hsame =>
    have hmove : g.move t'.pc = g := by
      simp only [List.mem_cons, List.not_mem_nil, or_false] at hpc'
      rcases hpc' with hpc' | hpc' | hpc' | hpc' | hpc' <;> rw [hpc'] <;> rfl
    rw [hmove]
    exact h.congr hsame
  | takes b hpc hbarrier hpc' hwaiting hpending hbarrier' =>
    -- the barrier moves from the one kept to those waited at
    have hmove : g.move t'.pc = { g with waited := g.waited ++ [b] } := by rw [hpc']; rfl
    obtain ⟨hiterations, hdue, hbarriers⟩ := h
    rw [hmove]
    refine ⟨by rw [hpending]; exact hiterations, by rw [hpending]; exact hdue, ?_⟩
    rw [hbarrier', Option.toList_none, List.append_nil]
    rw [hbarrier, Option.toList_some] at hbarriers
    exact hbarriers
  | returns hpc hpc' hsame =>
    have hmove : g.move t'.pc = g := by rw [hpc']; rfl
    rw [hmove]
    exact h.congr hsame

omit [DecidableEq κ] in
/-- A wakeup, with or without a barrier, is counted as one. -/
theorem Counted.wake {s : Thread κ} {barrier : Option ℕ} (h : t.Counted g)
    (hasleep : s.pc = .asleep → s.waitingForWakeup = true) (hpos : 0 < s.pendingWakeups)
    (hle : s.pendingWakeups ≤ t.pendingWakeups + 1)
    (hbarrier : s.barrier.toList = t.barrier.toList ++ barrier.toList) :
    s.notify.Counted (g.wake barrier) := by
  obtain ⟨-, hpending, hsame, -⟩ := notify_spec s hasleep
  obtain ⟨hiterations, -, hbarriers⟩ := h
  refine ⟨?_, fun _ => by rw [hpending]; exact hpos, ?_⟩
  · show g.iterations + s.notify.pendingWakeups ≤ g.wakeups + 1
    omega
  · show g.accepted ++ barrier.toList = g.waited ++ s.notify.barrier.toList
    rw [hsame, hbarrier, hbarriers, List.append_assoc]

/-- What every run keeps in which the counter does not wrap around. -/
def WakeupsKept (t : Thread κ) (g : Wakeups) : Prop :=
  (t.started = false → t.pc = .created) ∧
    (t.opMode = .waitForWakeup → t.WakeInv ∧ t.Counted g)

/-- A step that does not wrap the counter keeps the account of the wakeups. -/
theorem WakeupsKept.step (h : t.WakeupsKept g) (hnowrap : t.NoWrap l)
    (hs : t.step l = some t') : t'.WakeupsKept (countWakeups.observe g t l t') := by
  obtain ⟨hmode', -, hcreated⟩ := step_frame hs
  refine ⟨hcreated h.1, fun hmode => ?_⟩
  rw [hmode'] at hmode
  obtain ⟨hinv, hcounted⟩ := h.2 hmode
  simp only [countWakeups, hmode, ne_eq, not_true_eq_false, if_false]
  cases l with
  | start =>
    simp only [Thread.step, Option.ite_none_left_eq_some, Option.some.injEq] at hs
    obtain ⟨hstarted, rfl⟩ := hs
    -- `start` and what follows up to the first wait leave the counters
    have hsame : t.SameWakeups { t with started := true, pc := .entry } := ⟨rfl, rfl, rfl⟩
    exact ⟨hinv.move hsame (.inl (h.1 (by simpa using hstarted))) (.inl rfl),
      hcounted.congr hsame⟩
  | run =>
    have hcase := run_cases hmode hs
    exact ⟨hinv.run hcase, hcounted.run hcase⟩
  | spurious =>
    simp only [Thread.step, Option.ite_none_right_eq_some, Option.some.injEq] at hs
    obtain ⟨hasleep, rfl⟩ := hs
    have hsame : t.SameWakeups { t with pc := .woken } := ⟨rfl, rfl, rfl⟩
    exact ⟨hinv.move hsame (.inr hasleep) (.inr rfl), hcounted.congr hsame⟩
  | wakeup =>
    simp only [Thread.step, Option.ite_none_left_eq_some, Option.some.injEq] at hs
    obtain ⟨-, rfl⟩ := hs
    cases hw : t.wakeup with
    | error e => exact ⟨hinv, hcounted⟩
    | ok s =>
      obtain ⟨hnot, -⟩ | ⟨-, hnone, rfl⟩ := wakeup_ok hw
      · exact absurd hmode hnot
      -- with coalescing one wakeup is left pending, without it the counter does not wrap
      · have hpending : 0 < (if t.coalesceWakeups then 1 else (t.pendingWakeups + 1) % 2 ^ 32) ∧
            (if t.coalesceWakeups then 1 else (t.pendingWakeups + 1) % 2 ^ 32) ≤
              t.pendingWakeups + 1 := by
          cases hcoalesce : t.coalesceWakeups with
          | true => simp
          | false =>
            rw [if_neg Bool.false_ne_true, Nat.mod_eq_of_lt (hnowrap hcoalesce)]
            exact ⟨Nat.succ_pos _, Nat.le_refl _⟩
        exact ⟨hinv.notify rfl rfl hpending.1 id,
          hcounted.wake hinv.asleep hpending.1 hpending.2 (by simp)⟩
  | wakeupBarrier barrier =>
    simp only [Thread.step, Option.ite_none_left_eq_some, Option.some.injEq] at hs
    obtain ⟨-, rfl⟩ := hs
    show WakeInv _ ∧
      Counted _ (if (t.wakeupBarrier barrier).isOk then g.wake barrier else g)
    cases hw : t.wakeupBarrier barrier with
    | error e => exact ⟨hinv, hcounted⟩
    | ok s =>
      obtain ⟨hnot, -⟩ | ⟨-, ⟨b, rfl⟩, hfree, rfl⟩ := wakeupBarrier_ok hw
      · exact absurd hmode hnot
      -- a thread that waits has taken its barrier before
      · have hnone : t.barrier = none := hfree.elim (fun hw => (hinv.waiting hw).2.1) id
        have hpending : (t.pendingWakeups + 1) % 2 ^ 32 = t.pendingWakeups + 1 :=
          Nat.mod_eq_of_lt hnowrap
        have hpos : 0 < (t.pendingWakeups + 1) % 2 ^ 32 := by
          rw [hpending]
          exact Nat.succ_pos _
        exact ⟨hinv.notify rfl rfl hpos fun _ => rfl,
          hcounted.wake hinv.asleep hpos (Nat.le_of_eq hpending) (by simp [hnone])⟩
  | setCoalesceWakeups coalesce =>
    simp only [Thread.step, Option.ite_none_left_eq_some, Option.some.injEq] at hs
    obtain ⟨-, rfl⟩ := hs
    have hsame : t.SameWakeups { t with coalesceWakeups := coalesce } := ⟨rfl, rfl, rfl⟩
    exact ⟨hinv.congr hsame rfl, hcounted.congr hsame⟩
  | _ =>
    -- the steps of the finalization
    obtain ⟨-, -, -, hpc, hsame⟩ := finalizes_frame rfl hs
    exact ⟨hinv.congr hsame hpc, hcounted.congr hsame⟩

omit [DecidableEq κ] in
/-- A new thread has no wakeups to account for. -/
theorem wakeupsKept_new (name : String) (opMode : OpMode) (prepfinConcLoop : Bool) :
    (new name opMode prepfinConcLoop : Thread κ).WakeupsKept ⟨0, 0, false, [], []⟩ := by
  refine ⟨fun _ => rfl, fun hmode => ⟨⟨fun _ => ⟨rfl, rfl, ?_⟩, ?_, ?_, ?_⟩,
    ⟨Nat.le_refl 0, fun hd => (by cases hd), rfl⟩⟩⟩
  · simp [BeforeWakeup, new]
  · simp [new]
  · simp [new]
  · simp [new]

end Thread

open Thread

variable {κ : Type} [DecidableEq κ] {t : Thread κ} {g : Wakeups}

/-- The account holds in every run without a wrap. -/
theorem wakeupsKept_of_reach
    (h : ((threadSystem κ).watch countWakeups).Reach (fun p l => p.1.NoWrap l) (t, g)) :
    t.WakeupsKept g := by
  refine LTS.Reach.watch_invariant (P := WakeupsKept) ?_ ?_ h
  · rintro t ⟨name, opMode, prepfinConcLoop, rfl⟩
    exact wakeupsKept_new name opMode prepfinConcLoop
  · exact fun t g l t' ht hnowrap hs => ht.step hnowrap hs

/-- Two wakeups before the thread is started, and a third one while it is in its first
iteration. -/
def wokenThrice : List (ThreadStep Bool) :=
  [.wakeup, .wakeup, .start, .run, .run, .run, .run, .run, .wakeup]

namespace Thread

/-- Every wakeup is an iteration, done or pending, up to the width of the counter. -/
def Balanced (t : Thread κ) (g : Wakeups) : Prop :=
  g.iterations ≤ g.wakeups ∧ t.pendingWakeups = (g.wakeups - g.iterations) % 2 ^ 32

omit [DecidableEq κ] in
/-- An iteration takes one from the pending wakeups. -/
theorem Balanced.run {t' : Thread κ} (h : t.Balanced g) (hs : t.RunCase t') :
    t'.Balanced (g.move t'.pc) := by
  obtain ⟨hle, hpending⟩ := h
  cases hs with
  | starts hpc hpc' hsame =>
    rcases hpc' with hpc' | hpc' <;> rw [hpc'] <;> exact ⟨hle, hsame.pending.trans hpending⟩
  | sleeps hpc hzero hpc' hwaiting hpending' hbarrier =>
    rw [hpc']
    exact ⟨hle, hpending'.trans (hzero.symm.trans hpending)⟩
  | consumes hpc hpos hpc' hwaiting hpending' hbarrier =>
    rw [hpc']
    show g.iterations + 1 ≤ g.wakeups ∧
      t'.pendingWakeups = (g.wakeups - (g.iterations + 1)) % 2 ^ 32
    omega
  | iterates hpc hpc' htakes hsame =>
    simp only [List.mem_cons, List.not_mem_nil, or_false] at hpc'
    rcases hpc' with hpc' | hpc' | hpc' | hpc' | hpc' <;> rw [hpc'] <;>
      exact ⟨hle, hsame.pending.trans hpending⟩
  | takes b hpc hbarrier hpc' hwaiting hpending' hbarrier' =>
    rw [hpc']
    exact ⟨hle, hpending'.trans hpending⟩
  | returns hpc hpc' hsame =>
    rw [hpc']
    exact ⟨hle, hsame.pending.trans hpending⟩

omit [DecidableEq κ] in
/-- A wakeup adds one to the pending wakeups, modulo their range. -/
theorem Balanced.wake {s : Thread κ} {barrier : Option ℕ} (h : t.Balanced g)
    (hs : s.pendingWakeups = (t.pendingWakeups + 1) % 2 ^ 32) :
    s.notify.Balanced (g.wake barrier) := by
  have hnotify : s.notify.pendingWakeups = s.pendingWakeups := by
    rw [notify]
    split_ifs <;> rfl
  obtain ⟨hle, hpending⟩ := h
  show g.iterations ≤ g.wakeups + 1 ∧
    s.notify.pendingWakeups = (g.wakeups + 1 - g.iterations) % 2 ^ 32
  omega

/-- Without coalescing every step keeps the balance. -/
theorem Balanced.step {t' : Thread κ} {l : ThreadStep κ} (hmode : t.opMode = .waitForWakeup)
    (hcoalesce : t.coalesceWakeups = false) (h : t.Balanced g) (hs : t.step l = some t') :
    t'.Balanced (countWakeups.observe g t l t') := by
  simp only [countWakeups, hmode, ne_eq, not_true_eq_false, if_false]
  cases l with
  | start =>
    simp only [Thread.step, Option.ite_none_left_eq_some, Option.some.injEq] at hs
    obtain ⟨-, rfl⟩ := hs
    exact h
  | run => exact h.run (run_cases hmode hs)
  | spurious =>
    simp only [Thread.step, Option.ite_none_right_eq_some, Option.some.injEq] at hs
    obtain ⟨-, rfl⟩ := hs
    exact h
  | wakeup =>
    simp only [Thread.step, Option.ite_none_left_eq_some, Option.some.injEq] at hs
    obtain ⟨-, rfl⟩ := hs
    cases hw : t.wakeup with
    | error e => exact h
    | ok s =>
      obtain ⟨hnot, -⟩ | ⟨-, -, rfl⟩ := wakeup_ok hw
      · exact absurd hmode hnot
      -- both sides go up by one, modulo the range of the counter
      · exact h.wake (by simp [hcoalesce])
  | wakeupBarrier barrier =>
    simp only [Thread.step, Option.ite_none_left_eq_some, Option.some.injEq] at hs
    obtain ⟨-, rfl⟩ := hs
    show Balanced _ (if (t.wakeupBarrier barrier).isOk then g.wake barrier else g)
    cases hw : t.wakeupBarrier barrier with
    | error e => exact h
    | ok s =>
      obtain ⟨hnot, -⟩ | ⟨-, -, -, rfl⟩ := wakeupBarrier_ok hw
      · exact absurd hmode hnot
      · exact h.wake rfl
  | setCoalesceWakeups coalesce =>
    simp only [Thread.step, Option.ite_none_left_eq_some, Option.some.injEq] at hs
    obtain ⟨-, rfl⟩ := hs
    exact h
  | _ =>
    -- the steps of the finalization
    obtain ⟨-, -, -, -, hsame⟩ := finalizes_frame rfl hs
    exact ⟨h.1, hsame.pending.trans h.2⟩

end Thread

/-- As long as wakeups are not coalesced, the wakeups that are pending are those that have not
become an iteration, modulo the width of the counter. -/
theorem wakeups_sub_iterations (hmode : t.opMode = .waitForWakeup)
    (h : ((threadSystem κ).watch countWakeups).Reach
      (fun _ l => l ≠ .setCoalesceWakeups true) (t, g)) :
    g.iterations ≤ g.wakeups ∧ t.pendingWakeups = (g.wakeups - g.iterations) % 2 ^ 32 := by
  have hkept : t.coalesceWakeups = false ∧ (t.opMode = .waitForWakeup → t.Balanced g) := by
    refine LTS.Reach.watch_invariant (P := fun t g => t.coalesceWakeups = false ∧
      (t.opMode = .waitForWakeup → Thread.Balanced t g)) ?_ ?_ h
    · rintro t ⟨name, opMode, prepfinConcLoop, rfl⟩
      exact ⟨rfl, fun _ => ⟨Nat.le_refl 0, rfl⟩⟩
    · rintro t g l t' ⟨hcoalesce, hbalanced⟩ hl hs
      obtain ⟨hmode', hcoalesce', -⟩ := step_frame hs
      refine ⟨hcoalesce' hl hcoalesce, fun hmode => ?_⟩
      rw [hmode'] at hmode
      exact (hbalanced hmode).step hmode hcoalesce hs
  exact hkept.2 hmode

/-- Three wakeups, of which one has been used. -/
theorem wakeups_sub_iterations_wokenThrice :
    ∃ t g, ((threadSystem Bool).watch countWakeups).Reach
      (fun _ l => l ≠ .setCoalesceWakeups true) (t, g) ∧ g.wakeups = 3 ∧ g.iterations = 1 ∧
      t.pendingWakeups = (g.wakeups - g.iterations) % 2 ^ 32 := by
  obtain ⟨⟨t, g⟩, hreach, hp⟩ := LTS.exists_reach
    (T := (threadSystem Bool).watch countWakeups) (C := fun _ l => l ≠ .setCoalesceWakeups true)
    (s := (new "" .waitForWakeup false, ⟨0, 0, false, [], []⟩)) (l := wokenThrice)
    (p := fun p => decide (p.1.opMode = .waitForWakeup ∧ p.2.wakeups = 3 ∧ p.2.iterations = 1))
    ⟨⟨_, _, _, rfl⟩, rfl⟩ (by decide) (by decide)
  obtain ⟨hmode, hthree, hone⟩ := of_decide_eq_true hp
  exact ⟨t, g, hreach, hthree, hone, (wakeups_sub_iterations hmode hreach).2⟩

/-! ## Barriers -/

/-- The thread goes to the barriers in the order in which they came with a wakeup, and to each of
them once; one that it has seen is still there when it takes it. -/
theorem barriers_in_order (hmode : t.opMode = .waitForWakeup)
    (h : ((threadSystem κ).watch countWakeups).Reach (fun p l => p.1.NoWrap l) (t, g)) :
    g.accepted = g.waited ++ t.barrier.toList ∧ (t.pc = .takeBarrier → t.barrier.isSome) := by
  obtain ⟨hinv, hcounted⟩ := (wakeupsKept_of_reach h).2 hmode
  exact ⟨hcounted.barriers, hinv.takes⟩

/-- A wakeup with a barrier, and another one as soon as the thread has gone to the barrier. -/
def wokenWithBarriers : List (ThreadStep Bool) :=
  [.start, .run, .run, .run, .wakeupBarrier (some 16), .run, .run, .run, .run, .run, .run, .run,
    .wakeupBarrier (some 32)]

/-- Two wakeups with barriers, of which the first has been waited for. -/
theorem barriers_in_order_wokenWithBarriers :
    ∃ t g, ((threadSystem Bool).watch countWakeups).Reach (fun p l => p.1.NoWrap l) (t, g) ∧
      g.waited = [16] ∧ t.barrier = some 32 ∧ g.accepted = g.waited ++ t.barrier.toList := by
  obtain ⟨⟨t, g⟩, hreach, hp⟩ := LTS.exists_reach
    (T := (threadSystem Bool).watch countWakeups) (C := fun p l => p.1.NoWrap l)
    (s := (new "" .waitForWakeup false, ⟨0, 0, false, [], []⟩)) (l := wokenWithBarriers)
    (p := fun p => decide (p.1.opMode = .waitForWakeup ∧ p.2.waited = [16] ∧
      p.1.barrier = some 32)) ⟨⟨_, _, _, rfl⟩, rfl⟩ (by decide) (by decide)
  obtain ⟨hmode, hwaited, hbarrier⟩ := of_decide_eq_true hp
  exact ⟨t, g, hreach, hwaited, hbarrier, (barriers_in_order hmode hreach).1⟩

namespace Thread

/-- A wakeup with a barrier comes only when nothing is pending and no iteration is going on. -/
def InTurn (t : Thread κ) : ThreadStep κ → Prop
  | .wakeupBarrier _ => t.pendingWakeups = 0 ∧ ¬t.InIteration
  | .wakeup => t.NoWrap .wakeup
  | _ => True

instance (t : Thread κ) : ∀ l, Decidable (t.InTurn l)
  | .wakeupBarrier _ => inferInstanceAs (Decidable (t.pendingWakeups = 0 ∧ ¬t.InIteration))
  | .wakeup => inferInstanceAs (Decidable (t.NoWrap .wakeup))
  | .start | .run | .spurious | .setCoalesceWakeups _ | .setPrepfinHold _ | .prepareFinalize _
  | .cancelFinalize _ | .advance _ | .holdSpurious _ => .isTrue trivial

omit [DecidableEq κ] in
/-- A wakeup given in turn cannot wrap the counter. -/
theorem InTurn.noWrap {l : ThreadStep κ} (h : t.InTurn l) : t.NoWrap l := by
  cases l with
  | wakeupBarrier barrier =>
    show t.pendingWakeups + 1 < 2 ^ 32
    rw [h.1]
    decide
  | wakeup => exact h
  | _ => trivial

/-- While there is a barrier its own wakeup is the only one. -/
def OneDue (t : Thread κ) : Prop :=
  t.barrier.isSome →
    t.pendingWakeups = 1 ∧ ¬t.InIteration ∨ t.pendingWakeups = 0 ∧ t.InIteration

omit [DecidableEq κ] in
/-- Whether one is due depends on the wakeups and on being inside an iteration. -/
theorem OneDue.congr {t' : Thread κ} (h : t.OneDue) (hs : t.SameWakeups t')
    (hpc : t'.InIteration ↔ t.InIteration) : t'.OneDue := by
  rw [OneDue, hs.barrier, hs.pending, hpc]
  exact h

omit [DecidableEq κ] in
/-- The loop keeps at most one wakeup due. -/
theorem OneDue.run {t' : Thread κ} (h : t.OneDue) (hs : t.RunCase t') : t'.OneDue := by
  cases hs with
  | starts hpc hpc' hsame =>
    refine h.congr hsame (iff_of_false (fun hin => ?_) fun hin => ?_)
    · rcases hpc' with hpc' | hpc' <;> simp [InIteration, hpc'] at hin
    · simp only [BeforeWakeup, InIteration, List.mem_cons] at hpc hin
      grind
  | sleeps hpc hzero hpc' hwaiting hpending hbarrier =>
    have hnot : ¬t.InIteration := by
      rcases hpc with hpc | hpc <;> simp [InIteration, hpc]
    intro hb
    rcases h (hbarrier ▸ hb) with ⟨hone, -⟩ | ⟨-, hin⟩
    · omega
    · exact absurd hin hnot
  | consumes hpc hpos hpc' hwaiting hpending hbarrier =>
    -- the one pending wakeup becomes the iteration
    have hnot : ¬t.InIteration := by
      rcases hpc with hpc | hpc <;> simp [InIteration, hpc]
    intro hb
    rcases h (hbarrier ▸ hb) with ⟨hone, -⟩ | ⟨-, hin⟩
    · exact .inr ⟨by omega, by simp [InIteration, hpc']⟩
    · exact absurd hin hnot
  | iterates hpc hpc' htakes hsame =>
    exact h.congr hsame (iff_of_true (List.mem_cons_of_mem _ hpc') hpc)
  -- without a barrier nothing is due
  | takes b hpc hbarrier hpc' hwaiting hpending hbarrier' => simp [OneDue, hbarrier']
  | returns hpc hpc' hsame =>
    intro hb
    rw [hsame.barrier] at hb
    rw [hsame.pending]
    rcases hpc with ⟨-, hnone⟩ | ⟨b, hpc⟩
    · rw [hnone] at hb
      cases hb
    · rcases h hb with ⟨hone, -⟩ | ⟨-, hin⟩
      · exact .inl ⟨hone, by simp [InIteration, hpc']⟩
      · simp [InIteration, hpc] at hin

/-- Wakeups given in turn keep at most one due. -/
theorem OneDue.step {t' : Thread κ} {l : ThreadStep κ} (hmode : t.opMode = .waitForWakeup)
    (hkept : t.WakeupsKept g) (h : t.OneDue) (hin : t.InTurn l) (hs : t.step l = some t') :
    t'.OneDue := by
  cases l with
  | start =>
    simp only [Thread.step, Option.ite_none_left_eq_some, Option.some.injEq] at hs
    obtain ⟨hstarted, rfl⟩ := hs
    have hpc := hkept.1 (by simpa using hstarted)
    exact h.congr ⟨rfl, rfl, rfl⟩ (by simp [InIteration, hpc])
  | run => exact h.run (run_cases hmode hs)
  | spurious =>
    simp only [Thread.step, Option.ite_none_right_eq_some, Option.some.injEq] at hs
    obtain ⟨hasleep, rfl⟩ := hs
    exact h.congr ⟨rfl, rfl, rfl⟩ (by simp [InIteration, hasleep])
  | wakeup =>
    simp only [Thread.step, Option.ite_none_left_eq_some, Option.some.injEq] at hs
    obtain ⟨-, rfl⟩ := hs
    cases hw : t.wakeup with
    | error e => exact h
    | ok s =>
      obtain ⟨hnot, -⟩ | ⟨-, hnone, rfl⟩ := wakeup_ok hw
      · exact absurd hmode hnot
      -- without a barrier there is nothing to be due
      · obtain ⟨-, -, hsame, -⟩ := notify_spec { t with
          pendingWakeups := if t.coalesceWakeups then 1 else (t.pendingWakeups + 1) % 2 ^ 32 }
          (hkept.2 hmode).1.asleep
        intro hb
        rw [orSame, hsame, hnone] at hb
        cases hb
  | wakeupBarrier barrier =>
    simp only [Thread.step, Option.ite_none_left_eq_some, Option.some.injEq] at hs
    obtain ⟨-, rfl⟩ := hs
    cases hw : t.wakeupBarrier barrier with
    | error e => exact h
    | ok s =>
      obtain ⟨hnot, -⟩ | ⟨-, -, -, rfl⟩ := wakeupBarrier_ok hw
      · exact absurd hmode hnot
      -- in turn: nothing was pending, and the thread is not inside an iteration
      · obtain ⟨-, hpending, -, hmove⟩ := notify_spec { t with
          pendingWakeups := (t.pendingWakeups + 1) % 2 ^ 32
          barrier := barrier } (hkept.2 hmode).1.asleep
        refine fun _ => .inl ⟨hpending.trans ?_, ?_⟩
        · have hzero := hin.1
          show (t.pendingWakeups + 1) % 2 ^ 32 = 1
          omega
        · rcases hmove with ⟨-, hstays⟩ | ⟨-, hwoken⟩
          · rw [orSame, InIteration, hstays]
            exact hin.2
          · rw [orSame, InIteration, hwoken]
            simp
  | setCoalesceWakeups coalesce =>
    simp only [Thread.step, Option.ite_none_left_eq_some, Option.some.injEq] at hs
    obtain ⟨-, rfl⟩ := hs
    exact h
  | _ =>
    obtain ⟨-, -, -, hpc, hsame⟩ := finalizes_frame rfl hs
    exact h.congr hsame (by rw [InIteration, InIteration, hpc])

end Thread

/-- A wakeup with a barrier that comes during an iteration: the thread takes the barrier before
the iteration that it was woken for. -/
example : (((threadSystem Bool).watch countWakeups).exec
    (new "" .waitForWakeup false, ⟨0, 0, false, [], []⟩)
    [.wakeup, .start, .run, .run, .run, .run, .run, .wakeupBarrier (some 16), .run, .run,
      .run]).any
    (fun p => decide (p.1.pc = .takeBarrier ∧ p.2.wakeups = 2 ∧ p.2.iterations = 1)) = true := by
  decide

end GazeboRcll
