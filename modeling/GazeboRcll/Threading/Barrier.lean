import GazeboRcll.Library.LTS
import Mathlib.Data.Fintype.Card
import Mathlib.Logic.Function.Basic
import Mathlib.Tactic.Common

/-!
# The interruptible barrier

`InterruptibleBarrier::wait` counts threads down under a mutex and lets them sleep on a
condition variable. The last one wakes the others, and all of them meet once more at the POSIX
barrier of the base class, so that nobody comes back before the slow ones have seen the end of
the round. A timeout or an interrupt ends a round before all have come.

* `returns_le_calls`: without them nobody gets past a round that somebody has not reached.
* `not_stuck`: with them nobody is left behind, unless they come after the last thread.
* `passed_threads_counted`: the list of those who passed says who is missing.
-/

namespace GazeboRcll

/-! ## The barrier and its threads -/

/-- Where a thread is in `InterruptibleBarrier::wait`. -/
inductive BarrierPc where
  /-- Not in a call. -/
  | outside
  /-- In `reltimed_wait`, with a timeout or without. -/
  | asleep (timed : Bool)
  /-- Back from `reltimed_wait` with `local_timeout`, about to lock the mutex again. -/
  | woken (timed localTimeout : Bool)
  /-- Has released the mutex, about to read `__wait_at_barrier`. -/
  | leaving
  /-- About to call `Barrier::wait`. -/
  | arriving
  /-- In `pthread_barrier_wait`. -/
  | blocked
  /-- About to read `__timeout` for the result. -/
  | returning
deriving DecidableEq, Repr

/-- The members of an `InterruptibleBarrier` with a mutex of its own, and the threads that
use it. -/
structure InterruptibleBarrier (τ : Type) where
  count : ℕ
  threadsLeft : ℕ
  interrupted : Bool
  timeout : Bool
  waitAtBarrier : Bool
  /-- `__passed_threads`; `none` is the null pointer. -/
  passedThreads : Option (List τ)
  pc : τ → BarrierPc

inductive BarrierStep (τ : Type) where
  /-- `wait` is called, with a timeout or without. -/
  | call (t : τ) (timed : Bool)
  /-- A thread wakes up without a notification. -/
  | spurious (t : τ)
  /-- The timeout of a thread has passed. -/
  | expire (t : τ)
  /-- A thread that has been woken gets the mutex. -/
  | relock (t : τ)
  /-- `__wait_at_barrier` is read. -/
  | test (t : τ)
  /-- `pthread_barrier_wait` is called. -/
  | arrive (t : τ)
  /-- `wait` returns `!__timeout`. -/
  | finish (t : τ)
  | interrupt
  | reset
deriving DecidableEq, Repr

namespace InterruptibleBarrier

variable {τ : Type} [DecidableEq τ]

/-- The constructor. Nothing is said about `__wait_at_barrier`. -/
def new (count : ℕ) (waitAtBarrier : Bool) : InterruptibleBarrier τ where
  count := count
  threadsLeft := 0
  interrupted := false
  timeout := false
  waitAtBarrier := waitAtBarrier
  passedThreads := some []
  pc _ := .outside

def goTo (b : InterruptibleBarrier τ) (t : τ) (p : BarrierPc) : InterruptibleBarrier τ :=
  { b with pc := Function.update b.pc t p }

/-- `wake_all` on the condition variable. -/
def wakeAll (b : InterruptibleBarrier τ) : InterruptibleBarrier τ :=
  { b with
    pc := fun t =>
      match b.pc t with
      | .asleep timed => .woken timed false
      | p => p }

/-- From the test of the waiting loop to the next wait, or to the end of the critical section. -/
def loop (b : InterruptibleBarrier τ) (t : τ) (timed waker localTimeout : Bool) :
    InterruptibleBarrier τ :=
  if b.threadsLeft ≠ 0 ∧ b.interrupted = false ∧ b.timeout = false ∧ localTimeout = false then
    b.goTo t (.asleep timed)
  else
    let b := if localTimeout then { b with timeout := true } else b
    -- the exception leaves the call
    if b.interrupted then b.goTo t .outside
    else if waker || localTimeout then ({ b with waitAtBarrier := waker }.wakeAll).goTo t .leaving
    else b.goTo t .leaving

/-- A thread is counted, and goes into the loop. -/
def pass (b : InterruptibleBarrier τ) (l : List τ) (t : τ) (timed : Bool) :
    InterruptibleBarrier τ :=
  let b := { b with threadsLeft := b.threadsLeft - 1, passedThreads := some (l ++ [t]) }
  b.loop t timed (b.threadsLeft = 0) false

/-- The first critical section of `wait`. -/
def enter (b : InterruptibleBarrier τ) (t : τ) (timed : Bool) : Option (InterruptibleBarrier τ) :=
  if b.threadsLeft = 0 then
    -- first to come
    b.passedThreads.map fun _ =>
      { b with
        timeout := false
        interrupted := false
        waitAtBarrier := false
        threadsLeft := b.count }.pass [] t timed
  else if b.interrupted ∨ b.timeout then some b
  else b.passedThreads.map fun l => b.pass l t timed

/-- What `wait` returns at its end. -/
def result (b : InterruptibleBarrier τ) : Bool :=
  !b.timeout

/-- `pthread_barrier_wait` of a thread lets all go when it is the last one. -/
def arrive [Fintype τ] (b : InterruptibleBarrier τ) (t : τ) : InterruptibleBarrier τ :=
  if (Finset.univ.filter fun u => b.pc u = .blocked).card + 1 = b.count then
    { b with pc := fun u => if u = t ∨ b.pc u = .blocked then .returning else b.pc u }
  else b.goTo t .blocked

def interrupt (b : InterruptibleBarrier τ) : InterruptibleBarrier τ :=
  { b with interrupted := true }.wakeAll

/-- `reset` clears the pointer to the list, not the list. -/
def reset (b : InterruptibleBarrier τ) : InterruptibleBarrier τ :=
  { b with interrupted := false, timeout := false, threadsLeft := b.count, passedThreads := none }

/-- A step of a thread, `none` where it cannot happen or is undefined. -/
def step [Fintype τ] (b : InterruptibleBarrier τ) :
    BarrierStep τ → Option (InterruptibleBarrier τ)
  | .call t timed => if b.pc t = .outside then b.enter t timed else none
  | .spurious t =>
    match b.pc t with
    | .asleep timed => some (b.goTo t (.woken timed false))
    | _ => none
  | .expire t => if b.pc t = .asleep true then some (b.goTo t (.woken true true)) else none
  | .relock t =>
    match b.pc t with
    | .woken timed localTimeout => some (b.loop t timed false localTimeout)
    | _ => none
  | .test t =>
    if b.pc t = .leaving then
      some (b.goTo t (if b.waitAtBarrier then .arriving else .returning))
    else none
  | .arrive t => if b.pc t = .arriving then some (b.arrive t) else none
  | .finish t => if b.pc t = .returning then some (b.goTo t .outside) else none
  | .interrupt => some b.interrupt
  | .reset => some b.reset

end InterruptibleBarrier

/-- A barrier for `count` threads from its construction on, used by the threads `τ`. -/
def barrierSystem (τ : Type) [DecidableEq τ] [Fintype τ] (count : ℕ) :
    LTS (InterruptibleBarrier τ) (BarrierStep τ) where
  init b := ∃ waitAtBarrier, b = .new count waitAtBarrier
  next := InterruptibleBarrier.step

namespace InterruptibleBarrier

variable {τ : Type} {b b' : InterruptibleBarrier τ} {t u : τ}

/-! ## Rounds -/

/-- Neither a timeout nor an interrupt comes between the last thread and those it wakes, and the
barrier is not reset. -/
def InTime (b : InterruptibleBarrier τ) : BarrierStep τ → Prop
  | .interrupt => b.threadsLeft = 0 → ∀ t timed localTimeout, b.pc t ≠ .woken timed localTimeout
  | .relock t => ∀ timed, b.pc t = .woken timed true → b.threadsLeft ≠ 0
  | .reset => False
  | _ => True

/-- A round that has not been completed was given up. -/
def CutShort (b : InterruptibleBarrier τ) : Prop :=
  b.threadsLeft ≠ 0 ∧ (b.interrupted = true ∨ b.timeout = true)

instance (b : InterruptibleBarrier τ) : Decidable b.CutShort :=
  inferInstanceAs (Decidable (_ ∧ _))

instance [Fintype τ] (b : InterruptibleBarrier τ) : ∀ l, Decidable (b.InTime l)
  | .interrupt =>
    inferInstanceAs (Decidable
      (b.threadsLeft = 0 → ∀ t timed localTimeout, b.pc t ≠ .woken timed localTimeout))
  | .relock t =>
    inferInstanceAs (Decidable (∀ timed, b.pc t = .woken timed true → b.threadsLeft ≠ 0))
  | .reset => .isFalse id
  | .call _ _ | .spurious _ | .expire _ | .test _ | .arrive _ | .finish _ => .isTrue trivial

/-- Some step of the thread itself can happen. -/
def CanMove [DecidableEq τ] [Fintype τ] (b : InterruptibleBarrier τ) (t : τ) : Prop :=
  ∃ l ∈ [BarrierStep.relock t, .test t, .arrive t, .finish t], (b.step l).isSome

instance [DecidableEq τ] [Fintype τ] (b : InterruptibleBarrier τ) (t : τ) :
    Decidable (b.CanMove t) :=
  inferInstanceAs (Decidable (∃ l ∈ [BarrierStep.relock t, .test t, .arrive t, .finish t],
    (b.step l).isSome))

/-- How often every thread has been counted by `wait`, and has come back from it. -/
structure Calls (τ : Type) where
  calls : τ → ℕ
  returns : τ → ℕ

namespace Calls

variable [DecidableEq τ]

def call (g : Calls τ) (t : τ) : Calls τ :=
  { g with calls := Function.update g.calls t (g.calls t + 1) }

def comeBack (g : Calls τ) (t : τ) : Calls τ :=
  { g with returns := Function.update g.returns t (g.returns t + 1) }

end Calls

/-- A thread that comes to a round that was given up is not counted. -/
def countCalls [DecidableEq τ] : Monitor (InterruptibleBarrier τ) (BarrierStep τ) (Calls τ) where
  start _ := ⟨fun _ => 0, fun _ => 0⟩
  observe g b l _ :=
    match l with
    | .call t _ => if b.CutShort then g else g.call t
    | .finish t => g.comeBack t
    | _ => g

/-- A thread that has taken part in `r` rounds and has nothing to do with a further one. -/
def Rests (b : InterruptibleBarrier τ) (g : Calls τ) (r : ℕ) (t : τ) : Prop :=
  g.calls t = r ∧
    (b.pc t = .outside ∧ g.returns t = r ∨ b.pc t = .returning ∧ g.returns t + 1 = r)

/-- A thread that sleeps in round `r + 1`, or looks whether it has to. -/
def Waits (b : InterruptibleBarrier τ) (g : Calls τ) (r : ℕ) (t : τ) : Prop :=
  g.calls t = r + 1 ∧ g.returns t = r ∧
    ∃ timed, b.pc t = .asleep timed ∨ ∃ localTimeout, b.pc t = .woken timed localTimeout

/-- A thread on its way from the end of round `r + 1` to the POSIX barrier. -/
def Goes (b : InterruptibleBarrier τ) (g : Calls τ) (r : ℕ) (t : τ) : Prop :=
  g.calls t = r + 1 ∧ g.returns t = r ∧
    ((∃ timed localTimeout, b.pc t = .woken timed localTimeout) ∨ b.pc t = .leaving ∨
      b.pc t = .arriving ∨ b.pc t = .blocked)

/-- Between two rounds. -/
structure Idle (b : InterruptibleBarrier τ) (g : Calls τ) (r : ℕ) : Prop where
  left : b.threadsLeft = 0
  rests : ∀ t, b.Rests g r t

/-- Round `r + 1` is going on, and the threads in `l` have come. -/
structure Gathering (b : InterruptibleBarrier τ) (g : Calls τ) (r : ℕ) (l : List τ) : Prop where
  left : b.threadsLeft ≠ 0
  counted : l.length + b.threadsLeft = b.count
  nodup : l.Nodup
  interrupted : b.interrupted = false
  timeout : b.timeout = false
  waitAtBarrier : b.waitAtBarrier = false
  waits : ∀ t ∈ l, b.Waits g r t
  rests : ∀ t, t ∉ l → b.Rests g r t

/-- All have come to round `r + 1`, and not all are at the POSIX barrier. -/
structure Released (b : InterruptibleBarrier τ) (g : Calls τ) (r : ℕ) : Prop where
  left : b.threadsLeft = 0
  waitAtBarrier : b.waitAtBarrier = true
  interrupted : ∀ t timed localTimeout,
    b.pc t = .woken timed localTimeout → b.interrupted = false
  goes : ∀ t, b.Goes g r t
  open? : ∃ t, b.pc t ≠ .blocked

/-- A round was cut short: nobody sleeps, and nobody goes to the POSIX barrier. -/
structure GivenUp (b : InterruptibleBarrier τ) : Prop where
  cut : b.CutShort
  waitAtBarrier : b.waitAtBarrier = false
  awake : ∀ t, b.pc t ≠ .blocked ∧ b.pc t ≠ .arriving ∧ ∀ timed, b.pc t ≠ .asleep timed

inductive Inv (b : InterruptibleBarrier τ) (g : Calls τ) : Prop where
  | idle (r : ℕ) (h : b.Idle g r)
  | gathering (r : ℕ) (l : List τ) (hl : b.passedThreads = some l) (h : b.Gathering g r l)
  | released (r : ℕ) (h : b.Released g r)
  | givenUp (h : b.GivenUp)

/-! ## What a step does to the rounds -/

variable {g g' : Calls τ} {r : ℕ} {l : List τ}

/-- Whether a thread rests, waits or goes depends on the thread only. -/
theorem Rests.congr (h : b.Rests g r u) (hpc : b'.pc u = b.pc u)
    (hcalls : g'.calls u = g.calls u) (hreturns : g'.returns u = g.returns u) :
    b'.Rests g' r u := by
  rw [Rests, hpc, hcalls, hreturns]
  exact h

/-- Waiting is a matter of the thread's own program counter and calls. -/
theorem Waits.congr (h : b.Waits g r u) (hpc : b'.pc u = b.pc u)
    (hcalls : g'.calls u = g.calls u) (hreturns : g'.returns u = g.returns u) :
    b'.Waits g' r u := by
  rw [Waits, hpc, hcalls, hreturns]
  exact h

/-- Going on is a matter of the thread's own program counter and calls. -/
theorem Goes.congr (h : b.Goes g r u) (hpc : b'.pc u = b.pc u)
    (hcalls : g'.calls u = g.calls u) (hreturns : g'.returns u = g.returns u) :
    b'.Goes g' r u := by
  rw [Goes, hpc, hcalls, hreturns]
  exact h

/-- Whoever sleeps is woken. -/
theorem Waits.woken (h : b.Waits g r u) :
    b.wakeAll.Goes g r u ∧ ∃ timed localTimeout, b.wakeAll.pc u = .woken timed localTimeout := by
  have hwoken : ∃ timed localTimeout, b.wakeAll.pc u = .woken timed localTimeout := by
    obtain ⟨-, -, timed, hpc | ⟨localTimeout, hpc⟩⟩ := h
    · exact ⟨timed, false, by simp only [InterruptibleBarrier.wakeAll, hpc]⟩
    · exact ⟨timed, localTimeout, by simp only [InterruptibleBarrier.wakeAll, hpc]⟩
  exact ⟨⟨h.1, h.2.1, .inl hwoken⟩, hwoken⟩

/-- Only sleepers are woken. -/
theorem wakeAll_pc_of_not_asleep (h : ∀ timed, b.pc u ≠ .asleep timed) :
    b.wakeAll.pc u = b.pc u := by
  cases hpc : b.pc u with
  | asleep timed => exact absurd hpc (h timed)
  | _ => simp only [wakeAll, hpc]

/-- Who rests is not asleep. -/
theorem Rests.not_asleep (h : b.Rests g r u) (timed : Bool) : b.pc u ≠ .asleep timed := by
  rcases h.2 with ⟨hpc, -⟩ | ⟨hpc, -⟩ <;> simp [hpc]

/-- Who rests has not just been woken. -/
theorem Rests.not_woken (h : b.Rests g r u) (timed localTimeout : Bool) :
    b.pc u ≠ .woken timed localTimeout := by
  rcases h.2 with ⟨hpc, -⟩ | ⟨hpc, -⟩ <;> simp [hpc]

/-- Who waits has called. -/
theorem Waits.ne_outside (h : b.Waits g r u) : b.pc u ≠ .outside := by
  obtain ⟨-, -, timed, hpc | ⟨localTimeout, hpc⟩⟩ := h <;> simp [hpc]

/-- Who waits is not on its way out. -/
theorem Waits.ne_returning (h : b.Waits g r u) : b.pc u ≠ .returning := by
  obtain ⟨-, -, timed, hpc | ⟨localTimeout, hpc⟩⟩ := h <;> simp [hpc]

/-- Who goes on is inside, before its return and awake. -/
theorem Goes.inside (h : b.Goes g r u) :
    b.pc u ≠ .outside ∧ b.pc u ≠ .returning ∧ ∀ timed, b.pc u ≠ .asleep timed := by
  obtain ⟨-, -, ⟨timed, localTimeout, hpc⟩ | hpc | hpc | hpc⟩ := h <;> simp [hpc]

/-- A round stays given up when the sleepers are woken. -/
theorem GivenUp.wakeAll (h : b.GivenUp) : b.wakeAll.GivenUp where
  cut := h.cut
  waitAtBarrier := h.waitAtBarrier
  awake u := by
    rw [wakeAll_pc_of_not_asleep (h.awake u).2.2]
    exact h.awake u

/-- A new barrier has been neither entered nor left. -/
theorem inv_new (waitAtBarrier : Bool) (count : ℕ) :
    (new count waitAtBarrier : InterruptibleBarrier τ).Inv ⟨fun _ => 0, fun _ => 0⟩ :=
  .idle 0 ⟨rfl, fun _ => ⟨rfl, .inl ⟨rfl, rfl⟩⟩⟩

variable [DecidableEq τ]

/-- The thread that moves is where it goes. -/
@[simp] theorem goTo_pc_self (b : InterruptibleBarrier τ) (t : τ) (p : BarrierPc) :
    (b.goTo t p).pc t = p :=
  Function.update_self _ _ _

/-- The other threads stay where they are. -/
theorem goTo_pc_of_ne (b : InterruptibleBarrier τ) (h : u ≠ t) (p : BarrierPc) :
    (b.goTo t p).pc u = b.pc u :=
  Function.update_of_ne h _ _

/-- A list without repetition as long as the type has everything. -/
theorem mem_of_length_eq_card [Fintype τ] (hnodup : l.Nodup) (hl : l.length = Fintype.card τ)
    (u : τ) : u ∈ l := by
  rw [← List.mem_toFinset, Finset.eq_univ_of_card l.toFinset]
  · exact Finset.mem_univ u
  · rw [List.toFinset_card_of_nodup hnodup, hl]

/-- One more comes to a round. -/
theorem Gathering.pass [Fintype τ] (h : b.Gathering g r l) (hcount : b.count = Fintype.card τ)
    (ht : b.pc t = .outside) (timed : Bool) : (b.pass l t timed).Inv (g.call t) := by
  -- a thread that is outside has not come yet
  have hmem : t ∉ l := fun hmem => (h.waits t hmem).ne_outside ht
  have hnodup : (l ++ [t]).Nodup := by
    rw [List.nodup_append]
    refine ⟨h.nodup, List.nodup_singleton t, fun a ha c hc hac => hmem ?_⟩
    rw [← List.mem_singleton.mp hc, ← hac]
    exact ha
  obtain ⟨hcalls, hpc⟩ := h.rests t hmem
  have hreturns : g.returns t = r := by
    rcases hpc with ⟨-, hreturns⟩ | ⟨hpc, -⟩
    · exact hreturns
    · rw [ht] at hpc
      cases hpc
  have hself : (g.call t).calls t = r + 1 := by simp [Calls.call, hcalls]
  have hothers : ∀ u, u ≠ t → (g.call t).calls u = g.calls u :=
    fun u hu => Function.update_of_ne hu _ _
  have hleft := h.left
  have hlength := h.counted
  by_cases hlast : b.threadsLeft = 1
  · -- the last one wakes the others
    have hpass : b.pass l t timed = InterruptibleBarrier.goTo
        (InterruptibleBarrier.wakeAll { b with
          threadsLeft := 0
          passedThreads := some (l ++ [t])
          waitAtBarrier := true }) t .leaving := by
      simp [InterruptibleBarrier.pass, InterruptibleBarrier.loop, hlast, h.interrupted]
    -- as many have come as there are threads
    have hall : ∀ u, u ∈ l ++ [t] := by
      apply mem_of_length_eq_card hnodup
      rw [List.length_append, List.length_singleton, ← hcount]
      omega
    rw [hpass]
    refine .released r ⟨rfl, rfl, fun _ _ _ _ => h.interrupted, fun u => ?_, ⟨t, by simp⟩⟩
    by_cases hu : u = t
    · rw [hu]
      exact ⟨hself, hreturns, .inr (.inl (goTo_pc_self _ _ _))⟩
    · have hul : u ∈ l := by simpa [hu] using hall u
      have hwaits : InterruptibleBarrier.Waits { b with
          threadsLeft := 0
          passedThreads := some (l ++ [t])
          waitAtBarrier := true } g r u := (h.waits u hul).congr rfl rfl rfl
      exact hwaits.woken.1.congr (goTo_pc_of_ne _ hu _) (hothers u hu) rfl
  -- it sleeps, and the round goes on gathering
  · have hpass : b.pass l t timed = InterruptibleBarrier.goTo { b with
          threadsLeft := b.threadsLeft - 1
          passedThreads := some (l ++ [t]) } t (.asleep timed) := by
      have hne : b.threadsLeft - 1 ≠ 0 := by omega
      simp [InterruptibleBarrier.pass, InterruptibleBarrier.loop, hne, h.interrupted, h.timeout]
    rw [hpass]
    refine .gathering r (l ++ [t]) rfl ⟨?_, ?_, hnodup, h.interrupted, h.timeout,
      h.waitAtBarrier, fun u hu => ?_, fun u hu => ?_⟩
    · show b.threadsLeft - 1 ≠ 0
      omega
    · show (l ++ [t]).length + (b.threadsLeft - 1) = b.count
      rw [List.length_append, List.length_singleton]
      omega
    · by_cases hut : u = t
      · rw [hut]
        exact ⟨hself, hreturns, timed, .inl (goTo_pc_self _ _ _)⟩
      · have hul : u ∈ l := by simpa [hut] using hu
        exact (h.waits u hul).congr (goTo_pc_of_ne _ hut _) (hothers u hut) rfl
    · have hut : u ≠ t := by
        intro hut
        simp [hut] at hu
      have hul : u ∉ l := fun hul => hu (List.mem_append_left _ hul)
      exact (h.rests u hul).congr (goTo_pc_of_ne _ hut _) (hothers u hut) rfl

/-- A thread that calls keeps the invariant, also as the last one of its round. -/
theorem Inv.call [Fintype τ] (h : b.Inv g) (hcount : b.count = Fintype.card τ)
    (ht : b.pc t = .outside) {timed : Bool} (hs : b.enter t timed = some b') :
    b'.Inv (if b.CutShort then g else g.call t) := by
  rw [enter] at hs
  cases h with
  | idle r h =>
    rw [if_neg fun hcut => hcut.1 h.left]
    rw [if_pos h.left, Option.map_eq_some_iff] at hs
    obtain ⟨-, -, rfl⟩ := hs
    -- the round has begun, and nobody has come to it
    have hbegun : InterruptibleBarrier.Gathering { b with
        timeout := false
        interrupted := false
        waitAtBarrier := false
        threadsLeft := b.count } g r [] := by
      refine ⟨?_, ?_, List.nodup_nil, rfl, rfl, rfl, fun u hu => ?_, fun u _ => h.rests u⟩
      · show b.count ≠ 0
        rw [hcount]
        have : Nonempty τ := ⟨t⟩
        exact Fintype.card_ne_zero
      · exact Nat.zero_add _
      · simp at hu
    exact hbegun.pass hcount ht timed
  | gathering r l hl h =>
    have hcut : ¬b.CutShort := by simp [CutShort, h.interrupted, h.timeout]
    rw [if_neg hcut]
    rw [if_neg h.left, if_neg (by simp [h.interrupted, h.timeout]), hl, Option.map_some] at hs
    obtain rfl := Option.some.inj hs
    exact h.pass hcount ht timed
  | released r h => exact absurd ht (h.goes t).inside.1
  | givenUp h =>
    rw [if_neg h.cut.1, if_pos h.cut.2] at hs
    -- it leaves at once
    obtain rfl := Option.some.inj hs
    exact .givenUp h

/-- A thread that sleeps wakes up. -/
theorem Inv.wake (h : b.Inv g) {timed : Bool} (ht : b.pc t = .asleep timed)
    (localTimeout : Bool) : (b.goTo t (.woken timed localTimeout)).Inv g := by
  cases h with
  | idle r h => exact absurd ht ((h.rests t).not_asleep timed)
  | gathering r l hl h =>
    refine .gathering r l hl ⟨h.left, h.counted, h.nodup, h.interrupted, h.timeout,
      h.waitAtBarrier, fun u hu => ?_, fun u hu => ?_⟩
    · by_cases hut : u = t
      · rw [hut] at hu ⊢
        exact ⟨(h.waits t hu).1, (h.waits t hu).2.1, timed,
          .inr ⟨localTimeout, goTo_pc_self _ _ _⟩⟩
      · exact (h.waits u hu).congr (goTo_pc_of_ne _ hut _) rfl rfl
    · have hut : u ≠ t := by
        intro hut
        rw [hut] at hu
        exact (h.rests t hu).not_asleep timed ht
      exact (h.rests u hu).congr (goTo_pc_of_ne _ hut _) rfl rfl
  | released r h => exact absurd ht ((h.goes t).inside.2.2 timed)
  | givenUp h => exact absurd ht ((h.awake t).2.2 timed)

/-- A round stays given up, whatever a thread that is in it does. -/
theorem GivenUp.goTo (h : b.GivenUp) {p : BarrierPc} (hblocked : p ≠ .blocked)
    (harriving : p ≠ .arriving) (hasleep : ∀ timed, p ≠ .asleep timed) (t : τ) :
    (b.goTo t p).GivenUp where
  cut := h.cut
  waitAtBarrier := h.waitAtBarrier
  awake u := by
    by_cases hut : u = t
    · rw [hut, goTo_pc_self]
      exact ⟨hblocked, harriving, hasleep⟩
    · rw [goTo_pc_of_ne _ hut]
      exact h.awake u

/-- And when a thread looks whether it has to sleep. -/
theorem GivenUp.loop (h : b.GivenUp) (t : τ) (timed localTimeout : Bool) :
    (b.loop t timed false localTimeout).GivenUp := by
  have hcut := h.cut
  have hnot : ¬(b.threadsLeft ≠ 0 ∧ b.interrupted = false ∧ b.timeout = false ∧
      localTimeout = false) := by
    rcases hcut.2 with hflag | hflag <;> simp [hflag]
  rw [InterruptibleBarrier.loop, if_neg hnot]
  cases localTimeout with
  | false =>
    by_cases hinterrupted : b.interrupted = true
    · simpa [hinterrupted] using h.goTo (by simp) (by simp) (by simp) t
    · simpa [hinterrupted] using h.goTo (by simp) (by simp) (by simp) t
  | true =>
    have htimeout : InterruptibleBarrier.GivenUp { b with timeout := true } :=
      ⟨⟨hcut.1, .inr rfl⟩, h.waitAtBarrier, h.awake⟩
    by_cases hinterrupted : b.interrupted = true
    · simpa [hinterrupted] using htimeout.goTo (by simp) (by simp) (by simp) t
    · have hlast : InterruptibleBarrier.GivenUp
          { b with timeout := true, waitAtBarrier := false } :=
        ⟨htimeout.cut, rfl, h.awake⟩
      simpa [hinterrupted] using hlast.wakeAll.goTo (by simp) (by simp) (by simp) t

/-- A thread that has been woken gets the mutex. -/
theorem Inv.relock (h : b.Inv g) {timed localTimeout : Bool}
    (ht : b.pc t = .woken timed localTimeout)
    (hin : localTimeout = true → b.threadsLeft ≠ 0) :
    (b.loop t timed false localTimeout).Inv g := by
  cases h with
  | idle r h => exact absurd ht ((h.rests t).not_woken timed localTimeout)
  | gathering r l hl h =>
    have hmem : t ∈ l := by
      by_contra hmem
      exact (h.rests t hmem).not_woken timed localTimeout ht
    cases localTimeout with
    | false =>
      -- nothing has happened, it sleeps again
      have hloop : b.loop t timed false false = b.goTo t (.asleep timed) :=
        if_pos ⟨h.left, h.interrupted, h.timeout, rfl⟩
      rw [hloop]
      refine .gathering r l hl ⟨h.left, h.counted, h.nodup, h.interrupted, h.timeout,
        h.waitAtBarrier, fun u hu => ?_, fun u hu => ?_⟩
      · by_cases hut : u = t
        · rw [hut]
          exact ⟨(h.waits t hmem).1, (h.waits t hmem).2.1, timed, .inl (goTo_pc_self _ _ _)⟩
        · exact (h.waits u hu).congr (goTo_pc_of_ne _ hut _) rfl rfl
      · have hut : u ≠ t := fun hut => hu (hut ▸ hmem)
        exact (h.rests u hu).congr (goTo_pc_of_ne _ hut _) rfl rfl
    | true =>
      -- the first thread whose timeout has passed ends the round
      have hloop : b.loop t timed false true = InterruptibleBarrier.goTo
          (InterruptibleBarrier.wakeAll { b with timeout := true, waitAtBarrier := false })
          t .leaving := by
        simp [InterruptibleBarrier.loop, h.interrupted]
      rw [hloop]
      refine .givenUp ⟨⟨h.left, .inr rfl⟩, rfl, fun u => ?_⟩
      by_cases hut : u = t
      · rw [hut, goTo_pc_self]
        simp
      · rw [goTo_pc_of_ne _ hut]
        by_cases hul : u ∈ l
        · have hwaits : InterruptibleBarrier.Waits
              { b with timeout := true, waitAtBarrier := false } g r u :=
            (h.waits u hul).congr rfl rfl rfl
          obtain ⟨-, timed, localTimeout, hpc⟩ := hwaits.woken
          simp [hpc]
        · have hrests := h.rests u hul
          have hwake : (InterruptibleBarrier.wakeAll
              { b with timeout := true, waitAtBarrier := false }).pc u = b.pc u :=
            wakeAll_pc_of_not_asleep hrests.not_asleep
          rw [hwake]
          rcases hrests.2 with ⟨hpc, -⟩ | ⟨hpc, -⟩ <;> simp [hpc]
  | released r h =>
    obtain rfl : localTimeout = false := by
      by_contra hlocal
      exact hin (Bool.eq_true_of_not_eq_false hlocal) h.left
    have hloop : b.loop t timed false false = b.goTo t .leaving := by
      simp [InterruptibleBarrier.loop, h.left, h.interrupted t timed false ht]
    rw [hloop]
    refine .released r ⟨h.left, h.waitAtBarrier, fun u timed' localTimeout hpc => ?_, fun u => ?_,
      ⟨t, by simp⟩⟩
    · by_cases hut : u = t
      · rw [hut, goTo_pc_self] at hpc
        cases hpc
      · rw [goTo_pc_of_ne _ hut] at hpc
        exact h.interrupted u timed' localTimeout hpc
    · by_cases hut : u = t
      · rw [hut]
        exact ⟨(h.goes t).1, (h.goes t).2.1, .inr (.inl (goTo_pc_self _ _ _))⟩
      · exact (h.goes u).congr (goTo_pc_of_ne _ hut _) rfl rfl
  | givenUp h => exact .givenUp (h.loop t timed localTimeout)

/-- A thread that has left its loop goes to the POSIX barrier or returns. -/
theorem Inv.test (h : b.Inv g) (ht : b.pc t = .leaving) :
    (b.goTo t (if b.waitAtBarrier then .arriving else .returning)).Inv g := by
  cases h with
  | idle r h => rcases (h.rests t).2 with ⟨hpc, -⟩ | ⟨hpc, -⟩ <;> simp [hpc] at ht
  | gathering r l hl h =>
    by_cases hmem : t ∈ l
    · obtain ⟨-, -, timed, hpc | ⟨localTimeout, hpc⟩⟩ := h.waits t hmem <;> simp [hpc] at ht
    · rcases (h.rests t hmem).2 with ⟨hpc, -⟩ | ⟨hpc, -⟩ <;> simp [hpc] at ht
  | released r h =>
    rw [h.waitAtBarrier, if_pos rfl]
    refine .released r ⟨h.left, h.waitAtBarrier, fun u timed localTimeout hpc => ?_,
      fun u => ?_, ⟨t, by simp⟩⟩
    · by_cases hut : u = t
      · rw [hut, goTo_pc_self] at hpc
        cases hpc
      · rw [goTo_pc_of_ne _ hut] at hpc
        exact h.interrupted u timed localTimeout hpc
    · by_cases hut : u = t
      · rw [hut]
        exact ⟨(h.goes t).1, (h.goes t).2.1, .inr (.inr (.inl (goTo_pc_self _ _ _)))⟩
      · exact (h.goes u).congr (goTo_pc_of_ne _ hut _) rfl rfl
  | givenUp h =>
    rw [h.waitAtBarrier, if_neg Bool.false_ne_true]
    exact .givenUp (h.goTo (by simp) (by simp) (by simp) t)

/-- The last thread at the POSIX barrier finds all the others there. -/
theorem blocked_of_card [Fintype τ] (ht : b.pc t ≠ .blocked)
    (hcard : (Finset.univ.filter fun u => b.pc u = .blocked).card + 1 = Fintype.card τ)
    (hu : u ≠ t) : b.pc u = .blocked := by
  have hnot : t ∉ Finset.univ.filter fun u => b.pc u = .blocked := by simp [ht]
  have hall : insert t (Finset.univ.filter fun u => b.pc u = .blocked) = Finset.univ := by
    apply Finset.eq_univ_of_card
    rw [Finset.card_insert_of_notMem hnot, hcard]
  have hmem : u ∈ insert t (Finset.univ.filter fun u => b.pc u = .blocked) := by
    rw [hall]
    exact Finset.mem_univ u
  simpa [hu] using hmem

/-- If not all the others are there, one is somewhere else. -/
theorem exists_not_blocked [Fintype τ] (ht : b.pc t ≠ .blocked)
    (hcard : (Finset.univ.filter fun u => b.pc u = .blocked).card + 1 ≠ Fintype.card τ) :
    ∃ u, u ≠ t ∧ b.pc u ≠ .blocked := by
  by_contra hnone
  push Not at hnone
  apply hcard
  have heq : (Finset.univ.filter fun u => b.pc u = .blocked) = Finset.univ.erase t := by
    ext u
    by_cases hut : u = t
    · simp [hut, ht]
    · simp [hut, hnone u hut]
  have hcardPos : 0 < Fintype.card τ := Fintype.card_pos_iff.mpr ⟨t⟩
  rw [heq, Finset.card_erase_of_mem (Finset.mem_univ t), Finset.card_univ]
  omega

/-- The last one at the POSIX barrier opens it for all. -/
theorem Inv.arrive [Fintype τ] (h : b.Inv g) (hcount : b.count = Fintype.card τ)
    (ht : b.pc t = .arriving) : (b.arrive t).Inv g := by
  have hnot : b.pc t ≠ .blocked := by simp [ht]
  cases h with
  -- nobody is at the POSIX barrier between two rounds, nor while a round gathers
  | idle r h => rcases (h.rests t).2 with ⟨hpc, -⟩ | ⟨hpc, -⟩ <;> simp [hpc] at ht
  | gathering r l hl h =>
    by_cases hmem : t ∈ l
    · obtain ⟨-, -, timed, hpc | ⟨localTimeout, hpc⟩⟩ := h.waits t hmem <;> simp [hpc] at ht
    · rcases (h.rests t hmem).2 with ⟨hpc, -⟩ | ⟨hpc, -⟩ <;> simp [hpc] at ht
  | released r h =>
    rw [InterruptibleBarrier.arrive]
    split_ifs with hcard
    · -- round `r + 1` is over
      rw [hcount] at hcard
      refine .idle (r + 1) ⟨h.left, fun u => ⟨(h.goes u).1, .inr ⟨?_, ?_⟩⟩⟩
      · have hpc : u = t ∨ b.pc u = .blocked := by
          by_cases hut : u = t
          · exact .inl hut
          · exact .inr (blocked_of_card hnot hcard hut)
        exact if_pos hpc
      · rw [(h.goes u).2.1]
    · rw [hcount] at hcard
      -- somebody is still on the way
      obtain ⟨w, hwt, hw⟩ := exists_not_blocked hnot hcard
      refine .released r ⟨h.left, h.waitAtBarrier, fun u timed localTimeout hpc => ?_,
        fun u => ?_, ⟨w, ?_⟩⟩
      · by_cases hut : u = t
        · rw [hut, goTo_pc_self] at hpc
          cases hpc
        · rw [goTo_pc_of_ne _ hut] at hpc
          exact h.interrupted u timed localTimeout hpc
      · by_cases hut : u = t
        · rw [hut]
          exact ⟨(h.goes t).1, (h.goes t).2.1, .inr (.inr (.inr (goTo_pc_self _ _ _)))⟩
        · exact (h.goes u).congr (goTo_pc_of_ne _ hut _) rfl rfl
      · rw [goTo_pc_of_ne _ hwt]
        exact hw
  | givenUp h => exact absurd ht (h.awake t).2.1

/-- A thread that comes back has been in one round more than it came back from. -/
theorem Rests.comeBack (h : b.Rests g r t) (ht : b.pc t = .returning) :
    (b.goTo t .outside).Rests (g.comeBack t) r t := by
  obtain ⟨hcalls, ⟨hpc, -⟩ | ⟨-, hreturns⟩⟩ := h
  · rw [ht] at hpc
    cases hpc
  · refine ⟨hcalls, .inl ⟨goTo_pc_self _ _ _, ?_⟩⟩
    simp [Calls.comeBack, hreturns]

/-- A thread that returns rests. -/
theorem Inv.finish (h : b.Inv g) (ht : b.pc t = .returning) :
    (b.goTo t .outside).Inv (g.comeBack t) := by
  have hothers : ∀ u, u ≠ t → (g.comeBack t).returns u = g.returns u :=
    fun u hu => Function.update_of_ne hu _ _
  cases h with
  | idle r h =>
    refine .idle r ⟨h.left, fun u => ?_⟩
    by_cases hut : u = t
    · rw [hut]
      exact (h.rests t).comeBack ht
    · exact (h.rests u).congr (goTo_pc_of_ne _ hut _) rfl (hothers u hut)
  | gathering r l hl h =>
    have hmem : t ∉ l := fun hmem => (h.waits t hmem).ne_returning ht
    refine .gathering r l hl ⟨h.left, h.counted, h.nodup, h.interrupted, h.timeout,
      h.waitAtBarrier, fun u hu => ?_, fun u hu => ?_⟩
    · have hut : u ≠ t := fun hut => hmem (hut ▸ hu)
      exact (h.waits u hu).congr (goTo_pc_of_ne _ hut _) rfl (hothers u hut)
    · by_cases hut : u = t
      · rw [hut]
        exact (h.rests t hmem).comeBack ht
      · exact (h.rests u hu).congr (goTo_pc_of_ne _ hut _) rfl (hothers u hut)
  | released r h => exact absurd ht (h.goes t).inside.2.1
  | givenUp h => exact .givenUp (h.goTo (by simp) (by simp) (by simp) t)

omit [DecidableEq τ] in
/-- An interrupt gives the round up, unless the last thread has come and those it woke are on their
way. -/
theorem Inv.interrupt (h : b.Inv g)
    (hin : b.threadsLeft = 0 → ∀ t timed localTimeout, b.pc t ≠ .woken timed localTimeout) :
    b.interrupt.Inv g := by
  cases h with
  | idle r h =>
    refine .idle r ⟨h.left, fun u => (h.rests u).congr ?_ rfl rfl⟩
    exact wakeAll_pc_of_not_asleep (b := { b with interrupted := true }) (h.rests u).not_asleep
  | gathering r l hl h =>
    -- the round is cut short: those in it are woken, the others are not in it
    refine .givenUp ⟨⟨h.left, .inl rfl⟩, h.waitAtBarrier, fun u => ?_⟩
    by_cases hul : u ∈ l
    · have hwaits : InterruptibleBarrier.Waits { b with interrupted := true } g r u :=
        (h.waits u hul).congr rfl rfl rfl
      obtain ⟨-, timed, localTimeout, hpc⟩ := hwaits.woken
      simp [InterruptibleBarrier.interrupt, hpc]
    · have hrests := h.rests u hul
      have hwake : b.interrupt.pc u = b.pc u :=
        wakeAll_pc_of_not_asleep (b := { b with interrupted := true }) hrests.not_asleep
      rw [hwake]
      rcases hrests.2 with ⟨hpc, -⟩ | ⟨hpc, -⟩ <;> simp [hpc]
  | released r h =>
    -- all have come, nobody sleeps any more
    have hwake : ∀ u, b.interrupt.pc u = b.pc u := fun u =>
      wakeAll_pc_of_not_asleep (b := { b with interrupted := true }) (h.goes u).inside.2.2
    obtain ⟨w, hw⟩ := h.open?
    refine .released r ⟨h.left, h.waitAtBarrier, fun u timed localTimeout hpc => ?_,
      fun u => (h.goes u).congr (hwake u) rfl rfl, ⟨w, (hwake w).symm ▸ hw⟩⟩
    rw [hwake] at hpc
    exact absurd hpc (hin h.left u timed localTimeout)
  | givenUp h =>
    have hset : InterruptibleBarrier.GivenUp { b with interrupted := true } :=
      ⟨⟨h.cut.1, .inl rfl⟩, h.waitAtBarrier, h.awake⟩
    exact .givenUp hset.wakeAll

/-! ## Runs -/

/-- What the waiting loop leaves alone. -/
theorem loop_frame (b : InterruptibleBarrier τ) (t : τ) (timed waker localTimeout : Bool) :
    (b.loop t timed waker localTimeout).count = b.count ∧
      (b.loop t timed waker localTimeout).threadsLeft = b.threadsLeft ∧
      (b.loop t timed waker localTimeout).passedThreads = b.passedThreads := by
  simp only [loop]
  split_ifs <;> exact ⟨rfl, rfl, rfl⟩

/-- Passing lowers the number of threads left by one and lists the thread. -/
theorem pass_frame (b : InterruptibleBarrier τ) (l : List τ) (t : τ) (timed : Bool) :
    (b.pass l t timed).count = b.count ∧
      (b.pass l t timed).threadsLeft = b.threadsLeft - 1 ∧
      (b.pass l t timed).passedThreads = some (l ++ [t]) :=
  loop_frame _ _ _ _ _

/-- Only a timeout of its own lets a thread set the flag. -/
theorem loop_timeout (b : InterruptibleBarrier τ) (t : τ) (timed waker : Bool) :
    (b.loop t timed waker false).timeout = b.timeout := by
  simp only [loop, Bool.false_eq_true, if_false]
  split_ifs <;> rfl

variable [Fintype τ]

/-- Only calls change what is counted. -/
theorem step_frame {l : BarrierStep τ} (hcall : ∀ t timed, l ≠ .call t timed)
    (hreset : l ≠ .reset) (hs : b.step l = some b') :
    b'.count = b.count ∧ b'.threadsLeft = b.threadsLeft ∧
      b'.passedThreads = b.passedThreads := by
  cases l with
  -- a call changes all three
  | call t timed => exact absurd rfl (hcall t timed)
  | spurious t =>
    simp only [step] at hs
    split at hs <;> cases hs
    exact ⟨rfl, rfl, rfl⟩
  | expire t =>
    simp only [step] at hs
    split_ifs at hs
    cases hs
    exact ⟨rfl, rfl, rfl⟩
  | relock t =>
    simp only [step] at hs
    split at hs <;> cases hs
    exact loop_frame _ _ _ _ _
  | test t =>
    simp only [step] at hs
    split_ifs at hs
    all_goals
      cases hs
      exact ⟨rfl, rfl, rfl⟩
  | arrive t =>
    simp only [step] at hs
    split_ifs at hs
    cases hs
    simp only [InterruptibleBarrier.arrive]
    split_ifs <;> exact ⟨rfl, rfl, rfl⟩
  | finish t =>
    simp only [step] at hs
    split_ifs at hs
    cases hs
    exact ⟨rfl, rfl, rfl⟩
  | interrupt =>
    cases hs
    exact ⟨rfl, rfl, rfl⟩
  | reset => exact absurd rfl hreset

/-- No step changes how many threads the barrier is for. -/
theorem step_count {l : BarrierStep τ} (hs : b.step l = some b') : b'.count = b.count := by
  cases l with
  | call t timed =>
    simp only [step, enter] at hs
    split_ifs at hs
    · obtain ⟨-, -, rfl⟩ := Option.map_eq_some_iff.mp hs
      exact (pass_frame _ _ _ _).1
    · cases hs
      rfl
    · obtain ⟨-, -, rfl⟩ := Option.map_eq_some_iff.mp hs
      exact (pass_frame _ _ _ _).1
  | reset =>
    cases hs
    rfl
  | _ => exact (step_frame (by simp) (by simp) hs).1

/-- Every step in time keeps the invariant. -/
theorem Inv.step {l : BarrierStep τ} (h : b.Inv g) (hcount : b.count = Fintype.card τ)
    (hin : b.InTime l) (hs : b.step l = some b') : b'.Inv (countCalls.observe g b l b') := by
  cases l with
  | call t timed =>
    simp only [InterruptibleBarrier.step] at hs
    split_ifs at hs with ht
    exact h.call hcount ht hs
  | spurious t =>
    simp only [InterruptibleBarrier.step] at hs
    split at hs
    · next timed ht =>
      cases hs
      exact h.wake ht false
    · cases hs
  | expire t =>
    simp only [InterruptibleBarrier.step] at hs
    split_ifs at hs with ht
    cases hs
    exact h.wake ht true
  | relock t =>
    simp only [InterruptibleBarrier.step] at hs
    split at hs
    · next timed localTimeout ht =>
      cases hs
      -- the local timeout comes while the round is still going on
      exact h.relock ht fun hlocal => hin timed (hlocal ▸ ht)
    · cases hs
  | test t =>
    simp only [InterruptibleBarrier.step] at hs
    split_ifs at hs with ht
    · next hwait =>
      cases hs
      have hinv := h.test ht
      rw [if_pos hwait] at hinv
      exact hinv
    · next hwait =>
      cases hs
      have hinv := h.test ht
      rw [if_neg hwait] at hinv
      exact hinv
  | arrive t =>
    simp only [InterruptibleBarrier.step] at hs
    split_ifs at hs with ht
    cases hs
    exact h.arrive hcount ht
  | finish t =>
    simp only [InterruptibleBarrier.step] at hs
    split_ifs at hs with ht
    cases hs
    exact h.finish ht
  | interrupt =>
    cases hs
    exact h.interrupt hin
  -- a reset is not in time
  | reset => exact hin.elim

/-- A timeout that is set was hit in a round that nobody has completed since. -/
theorem left_of_timeout {l : BarrierStep τ} (h : b.timeout = true → b.threadsLeft ≠ 0)
    (hin : b.InTime l) (hs : b.step l = some b') : b'.timeout = true → b'.threadsLeft ≠ 0 := by
  -- whoever comes leaves the flag to the loop
  have hpass : ∀ (b : InterruptibleBarrier τ) l t timed,
      (b.pass l t timed).timeout = b.timeout := fun _ _ _ _ => loop_timeout _ _ _ _
  cases l with
  | call t timed =>
    simp only [step, enter] at hs
    split_ifs at hs with ht hleft hcut
    · obtain ⟨-, -, rfl⟩ := Option.map_eq_some_iff.mp hs
      simp [hpass]
    · cases hs
      exact h
    · obtain ⟨l, -, rfl⟩ := Option.map_eq_some_iff.mp hs
      intro htimeout
      rw [hpass] at htimeout
      exact absurd (.inr htimeout) hcut
  | relock t =>
    simp only [step] at hs
    split at hs
    · next timed localTimeout ht =>
      cases hs
      rw [(loop_frame _ _ _ _ _).2.1]
      cases localTimeout with
      -- the only step that sets the flag
      | true => exact fun _ => hin timed ht
      | false =>
        rw [loop_timeout]
        exact h
    · cases hs
  | reset => exact hin.elim
  | arrive t =>
    simp only [step, InterruptibleBarrier.arrive] at hs
    split_ifs at hs
    all_goals
      cases hs
      exact h
  | interrupt =>
    cases hs
    exact h
  | _ =>
    simp only [step] at hs
    split at hs <;> cases hs
    exact h

/-- Since the first round has begun: the list has everybody who was counted in the last round,
and as many as were counted. -/
def Listed (b : InterruptibleBarrier τ) (g : Calls τ) : Prop :=
  ∃ r l, b.passedThreads = some l ∧ l.Nodup ∧ l.length + b.threadsLeft = b.count ∧
    ∀ t, g.calls t = if t ∈ l then r + 1 else r

omit [Fintype τ] in
/-- A call is counted for its caller only. -/
theorem calls_call (g : Calls τ) (t u : τ) :
    (g.call t).calls u = if u = t then g.calls t + 1 else g.calls u :=
  Function.update_apply _ _ _ _

/-- A call keeps what is known about the list of the passed threads. -/
theorem Inv.listed_call (h : b.Inv g) (hcount : b.count = Fintype.card τ)
    (hlisted : (∀ t, g.calls t = 0) ∨ b.Listed g) (ht : b.pc t = .outside) {timed : Bool}
    (hs : b.enter t timed = some b') :
    (∀ u, (if b.CutShort then g else g.call t).calls u = 0) ∨
      b'.Listed (if b.CutShort then g else g.call t) := by
  rw [enter] at hs
  cases h with
  | idle r h =>
    rw [if_neg fun hcut => hcut.1 h.left]
    rw [if_pos h.left, Option.map_eq_some_iff] at hs
    obtain ⟨-, -, rfl⟩ := hs
    -- the list begins again with the first thread of a round
    obtain ⟨hframe, hleft, hpassed⟩ := pass_frame { b with
      timeout := false
      interrupted := false
      waitAtBarrier := false
      threadsLeft := b.count } [] t timed
    refine .inr ⟨r, [t], hpassed, List.nodup_singleton t, ?_, fun u => ?_⟩
    · have hpos : 0 < Fintype.card τ := Fintype.card_pos_iff.mpr ⟨t⟩
      rw [hleft, hframe, List.length_singleton]
      show 1 + (b.count - 1) = b.count
      omega
    · rw [calls_call, (h.rests t).1, (h.rests u).1]
      simp
  | gathering r l hl h =>
    have hcut : ¬b.CutShort := by simp [CutShort, h.interrupted, h.timeout]
    have hmem : t ∉ l := fun hmem => (h.waits t hmem).ne_outside ht
    rw [if_neg hcut]
    rw [if_neg h.left, if_neg (by simp [h.interrupted, h.timeout]), hl, Option.map_some] at hs
    obtain rfl := Option.some.inj hs
    obtain ⟨hframe, hleft, hpassed⟩ := pass_frame b l t timed
    refine .inr ⟨r, l ++ [t], hpassed, ?_, ?_, fun u => ?_⟩
    -- the caller is new to the list, for it was outside
    · rw [List.nodup_append]
      refine ⟨h.nodup, List.nodup_singleton t, fun a ha c hc hac => hmem ?_⟩
      rw [← List.mem_singleton.mp hc, ← hac]
      exact ha
    · have hcounted := h.counted
      have hne := h.left
      rw [hleft, hframe, List.length_append, List.length_singleton]
      omega
    · rw [calls_call, (h.rests t hmem).1]
      by_cases hut : u = t
      · simp [hut]
      · by_cases hul : u ∈ l
        · simp [hut, hul, (h.waits u hul).1]
        · simp [hut, hul, (h.rests u hul).1]
  | released r h => exact absurd ht (h.goes t).inside.1
  | givenUp h =>
    -- in a round that was given up nobody is counted
    rw [if_pos h.cut]
    rw [if_neg h.cut.1, if_pos h.cut.2] at hs
    obtain rfl := Option.some.inj hs
    exact hlisted

/-- What a state reached by a run in time is like, for as many threads as the barrier is for. -/
theorem inv_of_reach
    (h : ((barrierSystem τ (Fintype.card τ)).watch countCalls).Reach
      (fun p l => p.1.InTime l) (b, g)) :
    (b.count = Fintype.card τ ∧ b.Inv g) ∧ ((∀ t, g.calls t = 0) ∨ b.Listed g) := by
  refine LTS.Reach.watch_invariant (P := fun b g =>
    (b.count = Fintype.card τ ∧ InterruptibleBarrier.Inv b g) ∧
      ((∀ t, g.calls t = 0) ∨ InterruptibleBarrier.Listed b g)) ?_ ?_ h
  · rintro b ⟨waitAtBarrier, rfl⟩
    exact ⟨⟨rfl, inv_new waitAtBarrier _⟩, .inl fun _ => rfl⟩
  · rintro b g l b' ⟨⟨hcount, hinv⟩, hlisted⟩ hin hs
    replace hs : b.step l = some b' := hs
    refine ⟨⟨(step_count hs).trans hcount, hinv.step hcount hin hs⟩, ?_⟩
    cases l with
    | call t timed =>
      simp only [InterruptibleBarrier.step] at hs
      split_ifs at hs with ht
      exact hinv.listed_call hcount hlisted ht hs
    | reset => exact hin.elim
    | _ =>
      obtain ⟨hcount', hleft, hpassed⟩ := step_frame (by simp) (by simp) hs
      rw [Listed, hcount', hleft, hpassed]
      exact hlisted

/-- A thread that rests inside is about to come back. -/
theorem Rests.canMove (h : b.Rests g r t) (ht : b.pc t ≠ .outside) : b.CanMove t := by
  rcases h.2 with ⟨hpc, -⟩ | ⟨hpc, -⟩
  · exact absurd hpc ht
  · exact ⟨.finish t, by simp, by simp [InterruptibleBarrier.step, hpc]⟩

/-- Only at the POSIX barrier does a thread that was released have to wait. -/
theorem Goes.canMove (h : b.Goes g r t) (ht : b.pc t ≠ .blocked) : b.CanMove t := by
  obtain ⟨-, -, ⟨timed, localTimeout, hpc⟩ | hpc | hpc | hpc⟩ := h
  · exact ⟨.relock t, by simp, by simp [InterruptibleBarrier.step, hpc]⟩
  · exact ⟨.test t, by simp, by simp [InterruptibleBarrier.step, hpc]⟩
  · exact ⟨.arrive t, by simp, by simp [InterruptibleBarrier.step, hpc]⟩
  · exact absurd hpc ht

/-- In a round that was given up every thread inside can move. -/
theorem GivenUp.canMove (h : b.GivenUp) (ht : b.pc t ≠ .outside) : b.CanMove t := by
  obtain ⟨hblocked, harriving, hasleep⟩ := h.awake t
  cases hpc : b.pc t with
  | outside => exact absurd hpc ht
  | asleep timed => exact absurd hpc (hasleep timed)
  | woken timed localTimeout =>
    exact ⟨.relock t, by simp, by simp [InterruptibleBarrier.step, hpc]⟩
  | leaving => exact ⟨.test t, by simp, by simp [InterruptibleBarrier.step, hpc]⟩
  | arriving => exact absurd hpc harriving
  | blocked => exact absurd hpc hblocked
  | returning => exact ⟨.finish t, by simp, by simp [InterruptibleBarrier.step, hpc]⟩

/-- While a round goes on somebody has not come to it. -/
theorem Gathering.missing (h : b.Gathering g r l) (hcount : b.count = Fintype.card τ) :
    ∃ t, t ∉ l := by
  by_contra hnone
  push Not at hnone
  have hall : l.toFinset = Finset.univ := by
    ext t
    simp [hnone t]
  have hcard : l.length = Fintype.card τ := by
    rw [← List.toFinset_card_of_nodup h.nodup, hall, Finset.card_univ]
  have hcounted := h.counted
  have hleft := h.left
  omega

end InterruptibleBarrier

open InterruptibleBarrier

variable {τ : Type} [DecidableEq τ] [Fintype τ] {b : InterruptibleBarrier τ}

/-- As long as no round was cut short, nobody has come back from the barrier more often than
anybody else has come to it, and to each of them `wait` returns true. -/
theorem returns_le_calls {g : Calls τ}
    (h : ((barrierSystem τ (Fintype.card τ)).watch countCalls).Reach
      (fun p l => p.1.InTime l) (b, g)) (hcut : ¬b.CutShort) :
    (∀ t u, g.returns t ≤ g.calls u) ∧ b.result = true := by
  have hrests : ∀ {r v}, b.Rests g r v → g.returns v ≤ r ∧ r ≤ g.calls v := by
    rintro r v ⟨hcalls, ⟨-, hreturns⟩ | ⟨-, hreturns⟩⟩ <;> omega
  -- a timeout is left only in a round that was not completed
  have hresult : b.timeout = true → b.threadsLeft ≠ 0 := by
    refine LTS.Reach.watch_invariant
      (P := fun b _ => b.timeout = true → b.threadsLeft ≠ 0) ?_ ?_ h
    · rintro b ⟨waitAtBarrier, rfl⟩
      simp [InterruptibleBarrier.new]
    · exact fun b g l b' hb hin hs => left_of_timeout hb hin hs
  constructor
  · intro t u
    cases (inv_of_reach h).1.2 with
    | idle r h => exact (hrests (h.rests t)).1.trans (hrests (h.rests u)).2
    | gathering r l hl h =>
      -- while a round gathers, `r` lies between returns and calls
      have hreturns : g.returns t ≤ r := by
        by_cases ht : t ∈ l
        · exact (h.waits t ht).2.1.le
        · exact (hrests (h.rests t ht)).1
      have hcalls : r ≤ g.calls u := by
        by_cases hu : u ∈ l
        · rw [(h.waits u hu).1]
          exact Nat.le_succ r
        · exact (hrests (h.rests u hu)).2
      exact hreturns.trans hcalls
    | released r h =>
      rw [(h.goes t).2.1, (h.goes u).1]
      exact Nat.le_succ r
    | givenUp h => exact absurd h.cut hcut
  · cases htimeout : b.timeout with
    | true => exact absurd ⟨hresult htimeout, .inr htimeout⟩ hcut
    | false => simp [result, htimeout]

/-- Two threads meet, and the first to come back calls again. -/
def metOnce : List (BarrierStep Bool) :=
  [.call false true, .call true false, .relock false, .test false, .test true, .arrive true,
    .arrive false, .finish false, .call false false]

/-- Two threads have met once, and one of them comes again. -/
theorem returns_le_calls_metOnce :
    ∃ b g, ((barrierSystem Bool 2).watch countCalls).Reach (fun p l => p.1.InTime l) (b, g) ∧
      g.calls false = 2 ∧ g.returns false ≤ g.calls true := by
  obtain ⟨⟨b, g⟩, hreach, hp⟩ := LTS.exists_reach
    (T := (barrierSystem Bool 2).watch countCalls) (C := fun p l => p.1.InTime l)
    (s := (new 2 false, ⟨fun _ => 0, fun _ => 0⟩)) (l := metOnce)
    (p := fun p => decide (p.2.calls false = 2 ∧ ¬p.1.CutShort)) ⟨⟨false, rfl⟩, rfl⟩
    (by decide) (by decide)
  obtain ⟨hcalls, hcut⟩ := of_decide_eq_true hp
  exact ⟨b, g, hreach, hcalls, (returns_le_calls hreach hcut).1 false true⟩

/-- After a round was cut short everybody can leave, and if all threads are inside one of them
can go on. -/
theorem not_stuck [Nonempty τ]
    (h : (barrierSystem τ (Fintype.card τ)).Reach (fun b l => b.InTime l) b) :
    (b.CutShort → ∀ t, b.pc t ≠ .outside → b.CanMove t) ∧
      ((∀ t, b.pc t ≠ .outside) → ∃ t, b.CanMove t) := by
  obtain ⟨g, hg⟩ := (LTS.watch_reach_iff (M := countCalls) b).mpr h
  obtain ⟨⟨hcount, hinv⟩, -⟩ := inv_of_reach hg
  constructor
  · intro hcut t ht
    cases hinv with
    | idle r h => exact absurd h.left hcut.1
    | gathering r l hl h => exact absurd hcut (by simp [CutShort, h.interrupted, h.timeout])
    | released r h => exact absurd h.left hcut.1
    | givenUp h => exact h.canMove ht
  · intro hall
    cases hinv with
    | idle r h => exact ⟨Classical.arbitrary τ, (h.rests _).canMove (hall _)⟩
    | gathering r l hl h =>
      -- who has not come yet has still to come back from the round before
      obtain ⟨t, ht⟩ := h.missing hcount
      exact ⟨t, (h.rests t ht).canMove (hall t)⟩
    | released r h =>
      obtain ⟨t, ht⟩ := h.open?
      exact ⟨t, (h.goes t).canMove ht⟩
    | givenUp h => exact ⟨Classical.arbitrary τ, h.canMove (hall _)⟩

/-- A thread that came back calls again while the other has not left yet. -/
theorem not_stuck_metOnce :
    ∃ b, (barrierSystem Bool 2).Reach (fun b l => b.InTime l) b ∧
      (∀ t, b.pc t ≠ .outside) ∧ ∃ t, b.CanMove t := by
  obtain ⟨b, hreach, hp⟩ := LTS.exists_reach
    (T := barrierSystem Bool 2) (C := fun b l => b.InTime l) (s := new 2 false) (l := metOnce)
    (p := fun b => decide (∀ t, b.pc t ≠ .outside)) ⟨false, rfl⟩ (by decide) (by decide)
  have hall := of_decide_eq_true hp
  exact ⟨b, hreach, hall, (not_stuck hreach).2 hall⟩

/-- A timeout that is noticed after the last thread came: one thread goes to the POSIX barrier,
the other does not, and in the next round both wait for each other. -/
example : ((barrierSystem Bool 2).exec (new 2 false)
    [.call false true, .expire false, .call true false, .test true, .arrive true, .relock false,
      .test false, .finish false, .call false false]).any
    (fun b => decide ((∀ t, b.pc t ≠ .outside) ∧ ∀ t, ¬b.CanMove t)) = true := by
  decide

/-- From the first call on, the list has the threads that were counted in the last round, each
of them once and as many as were counted down. -/
theorem passed_threads_counted {g : Calls τ}
    (h : ((barrierSystem τ (Fintype.card τ)).watch countCalls).Reach
      (fun p l => p.1.InTime l) (b, g)) (hcalled : ∃ t, g.calls t ≠ 0) :
    ∃ r l, b.passedThreads = some l ∧ l.Nodup ∧ l.length = b.count - b.threadsLeft ∧
      (∀ t ∈ l, g.calls t = r + 1) ∧ ∀ t, t ∉ l → g.calls t = r := by
  obtain ⟨t, ht⟩ := hcalled
  rcases (inv_of_reach h).2 with hzero | ⟨r, l, hl, hnodup, hlength, hcalls⟩
  · exact absurd (hzero t) ht
  · refine ⟨r, l, hl, hnodup, by omega, fun u hu => ?_, fun u hu => ?_⟩
    · rw [hcalls, if_pos hu]
    · rw [hcalls, if_neg hu]

/-- The first of two threads is in the list after it came back from one round and called again. -/
theorem passed_threads_counted_metOnce :
    ∃ b g l, ((barrierSystem Bool 2).watch countCalls).Reach
      (fun p l => p.1.InTime l) (b, g) ∧ b.passedThreads = some l ∧ l.length = 1 := by
  obtain ⟨⟨b, g⟩, hreach, hp⟩ := LTS.exists_reach
    (T := (barrierSystem Bool 2).watch countCalls) (C := fun p l => p.1.InTime l)
    (s := (new 2 false, ⟨fun _ => 0, fun _ => 0⟩)) (l := metOnce)
    (p := fun p => decide (p.2.calls false ≠ 0 ∧ p.1.count - p.1.threadsLeft = 1))
    ⟨⟨false, rfl⟩, rfl⟩ (by decide) (by decide)
  obtain ⟨hcalls, hleft⟩ := of_decide_eq_true hp
  obtain ⟨-, l, hl, -, hlength, -⟩ := passed_threads_counted hreach ⟨false, hcalls⟩
  exact ⟨b, g, l, hreach, hl, hlength.trans hleft⟩

end GazeboRcll
