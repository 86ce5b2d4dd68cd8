import GazeboRcll.Core.Exception
import GazeboRcll.Library.LTS
import GazeboRcll.Library.Loop
import Mathlib.Data.List.Basic
import Mathlib.Tactic.Common

/-!
# Thread lists

A `ThreadList` wakes its threads up together, and waits for them at a barrier of its own, which it
makes anew whenever the number of threads changes. A thread that does not come in time is flagged
as bad and left out until it waits again. Threads are initialized one after the other, and all of
them are finalized when one fails.

* `woken_counted`: the barrier waits for exactly those who were woken up, and for the caller.
* `flagged_recover`: every thread that is flagged can recover.
* `init_rollback`: what is called when a list is initialized, and what comes out.

The flags are set by this list only. The texts of exceptions are left out where nothing depends on
them.
-/

namespace GazeboRcll

/-! ## The barrier of a list -/

/-- `ThreadList`, and `FLAG_BAD` of the threads. -/
structure ThreadList (τ : Type) where
  threads : List τ
  /-- `__sealed`. -/
  isSealed : Bool := false
  /-- The count of `__wnw_barrier`, if there is one. -/
  barrier : Option ℕ := none
  /-- `__wnw_bad_barriers`: their counts, and the threads that were late. -/
  badBarriers : List (ℕ × List τ) := []
  flaggedBad : τ → Bool := fun _ => false

inductive ThreadListError (τ : Type) where
  /-- `ThreadListSealedException`. -/
  | sealed (operation : String)
  /-- `NullPointerException`: no barrier is maintained. -/
  | noBarrier
  /-- The wakeup of these threads has thrown. -/
  | wakeup (threads : List τ)
  /-- "barrier has count (%u) different from number of unflagged threads (%u)". -/
  | countDiffers (barrier count : ℕ)
  /-- Did not finish in time. -/
  | late (threads : List τ)
deriving DecidableEq, Repr

inductive ThreadListStep (τ : Type) where
  | pushFront (t : τ) | pushFrontLocked (t : τ) | pushBack (t : τ) | pushBackLocked (t : τ)
  | clear | remove (t : τ) | removeLocked (t : τ) | popFront | popBack | erase (pos : ℕ)
  /-- `seal`. -/
  | sealList
  | setMaintainBarrier (maintainBarrier : Bool)
  /-- The threads whose `wakeup` throws, and those that passed the barrier if time is over. -/
  | wakeupAndWait (throws : τ → Bool) (passed : Option (List τ))
  /-- What `waiting` returns for the threads of the bad barriers. -/
  | tryRecover (waiting : ℕ → ℕ → Bool)

namespace ThreadList

variable {τ : Type}

/-- The threads that are woken up. -/
def unflagged (s : ThreadList τ) : List τ := s.threads.filter fun t => !s.flaggedBad t

/-- `update_barrier`. -/
def updateBarrier (s : ThreadList τ) : ThreadList τ :=
  { s with barrier := some (1 + s.threads.countP fun t => !s.flaggedBad t) }

/-- The operations on the list itself. -/
def modify (s : ThreadList τ) (operation : String) (f : List τ → List τ) :
    ThreadList τ × Option (ThreadListError τ) :=
  if s.isSealed then (s, some (.sealed operation))
  else
    let s := { s with threads := f s.threads }
    (if s.barrier.isSome then s.updateBarrier else s, none)

variable [DecidableEq τ]

def pushFront (s : ThreadList τ) (t : τ) := s.modify "push_front" (t :: ·)

def pushFrontLocked (s : ThreadList τ) (t : τ) := s.modify "push_front_locked" (t :: ·)

def pushBack (s : ThreadList τ) (t : τ) := s.modify "push_back" (· ++ [t])

def pushBackLocked (s : ThreadList τ) (t : τ) := s.modify "push_back_locked" (· ++ [t])

def clear (s : ThreadList τ) := s.modify "clear" fun _ => []

def remove (s : ThreadList τ) (t : τ) := s.modify "remove_locked" (·.filter (· ≠ t))

def removeLocked (s : ThreadList τ) (t : τ) := s.modify "remove_locked" (·.filter (· ≠ t))

def popFront (s : ThreadList τ) := s.modify "pop_front" List.tail

def popBack (s : ThreadList τ) := s.modify "pop_back" List.dropLast

def erase (s : ThreadList τ) (pos : ℕ) := s.modify "erase" (·.eraseIdx pos)

/-- `set_maintain_barrier`. -/
def setMaintainBarrier (s : ThreadList τ) (maintainBarrier : Bool) : ThreadList τ :=
  let s := { s with barrier := none }
  if maintainBarrier then s.updateBarrier else s

/-- `wakeup_unlocked` with a barrier: who is woken up. -/
def wakeupUnlocked (s : ThreadList τ) (count : ℕ) (throws : τ → Bool) :
    Except (ThreadListError τ) (List τ) :=
  let woken := s.unflagged
  if woken.any throws then .error (.wakeup (woken.filter throws))
  else if 1 + woken.length ≠ count then .error (.countDiffers count (1 + woken.length))
  else .ok woken

/-- `wakeup_and_wait`. -/
def wakeupAndWait (s : ThreadList τ) (throws : τ → Bool) (passed : Option (List τ)) :
    ThreadList τ × Option (ThreadListError τ) :=
  match s.barrier with
  | none => (s, some .noBarrier)
  | some count =>
    match s.wakeupUnlocked count throws with
    | .error e => (s, some e)
    | .ok _ =>
      match passed with
      | none => (s, none)
      | some passed =>
        -- threads that are flagged already have not passed either
        let bad := s.threads.filter (· ∉ passed)
        let s := { s with
          flaggedBad := fun t => t ∈ bad || s.flaggedBad t
          badBarriers := s.badBarriers ++ [(count, bad)]
          barrier := none }
        (s.updateBarrier, some (.late bad))

omit [DecidableEq τ] in
/-- The threads of one bad barrier that have recovered, and the other ones. -/
def recoverThreads (waiting : ℕ → Bool) : ℕ → List τ → List τ × List τ
  | _, [] => ([], [])
  | i, t :: l =>
    let r := recoverThreads waiting (i + 1) l
    if waiting i then (t :: r.1, r.2) else (r.1, t :: r.2)

omit [DecidableEq τ] in
/-- The same for all bad barriers. Those without a thread are deleted. -/
def recoverBarriers (waiting : ℕ → ℕ → Bool) : ℕ → List (ℕ × List τ) →
    List τ × List (ℕ × List τ)
  | _, [] => ([], [])
  | k, (count, l) :: barriers =>
    let r := recoverThreads (waiting k) 0 l
    let r' := recoverBarriers waiting (k + 1) barriers
    (r.1 ++ r'.1, if r.2 = [] then r'.2 else (count, r.2) :: r'.2)

/-- `try_recover`, and the threads that it reports. -/
def tryRecover (s : ThreadList τ) (waiting : ℕ → ℕ → Bool) : ThreadList τ × List τ :=
  let r := recoverBarriers waiting 0 s.badBarriers
  let s := { s with
    flaggedBad := fun t => s.flaggedBad t && t ∉ r.1
    badBarriers := r.2 }
  (if r.1 = [] then s else s.updateBarrier, r.1)

/-- An operation, `none` where it is not defined. -/
def step (s : ThreadList τ) : ThreadListStep τ → Option (ThreadList τ)
  | .pushFront t => some (s.pushFront t).1
  | .pushFrontLocked t => some (s.pushFrontLocked t).1
  | .pushBack t => some (s.pushBack t).1
  | .pushBackLocked t => some (s.pushBackLocked t).1
  | .clear => some s.clear.1
  | .remove t => some (s.remove t).1
  | .removeLocked t => some (s.removeLocked t).1
  | .popFront => if s.threads = [] then none else some s.popFront.1
  | .popBack => if s.threads = [] then none else some s.popBack.1
  | .erase pos => if pos < s.threads.length then some (s.erase pos).1 else none
  | .sealList => some { s with isSealed := true }
  | .setMaintainBarrier maintainBarrier => some (s.setMaintainBarrier maintainBarrier)
  | .wakeupAndWait throws passed => some (s.wakeupAndWait throws passed).1
  | .tryRecover waiting => some (s.tryRecover waiting).1

end ThreadList

/-- A list from its construction on, with a barrier or without one. -/
def threadListSystem (τ : Type) [DecidableEq τ] : LTS (ThreadList τ) (ThreadListStep τ) where
  init s := s = { threads := [] } ∨ s = ThreadList.updateBarrier { threads := [] }
  next := ThreadList.step

namespace ThreadList

variable {τ : Type} {s s' : ThreadList τ}

/-- The barrier is the one for the threads that are not flagged, and those that are flagged are
kept with the barrier that they were late for. -/
structure Inv (s : ThreadList τ) : Prop where
  count : ∀ c, s.barrier = some c → c = 1 + s.unflagged.length
  bad : ∀ t, s.flaggedBad t = true → ∃ b ∈ s.badBarriers, t ∈ b.2

/-- A new barrier is for the threads that there are. -/
theorem inv_updateBarrier (h : ∀ t, s.flaggedBad t = true → ∃ b ∈ s.badBarriers, t ∈ b.2) :
    s.updateBarrier.Inv := by
  apply Inv.mk
  · intro c hc
    rw [← Option.some.inj hc, List.countP_eq_length_filter]
    rfl
  · exact h

/-- Changing the list makes a barrier for the new list. -/
theorem Inv.modify (h : s.Inv) (operation : String) (f : List τ → List τ) :
    (s.modify operation f).1.Inv := by
  rw [ThreadList.modify]
  by_cases hsealed : s.isSealed = true
  · rw [if_pos hsealed]
    exact h
  · rw [if_neg hsealed]
    by_cases hbarrier : s.barrier.isSome = true
    · simp only [if_pos hbarrier]
      exact inv_updateBarrier h.bad
    · simp only [if_neg hbarrier]
      apply Inv.mk
      · intro c hc
        have hnone : s.barrier = some c := hc
        rw [hnone] at hbarrier
        exact absurd rfl hbarrier
      · exact h.bad

/-- A thread of a bad barrier recovers or stays there. -/
theorem mem_recoverThreads (waiting : ℕ → Bool) {t : τ} {l : List τ} (ht : t ∈ l) (i : ℕ) :
    t ∈ (recoverThreads waiting i l).1 ∨ t ∈ (recoverThreads waiting i l).2 := by
  induction l generalizing i with
  | nil => nomatch ht
  | cons u l ih =>
    rw [recoverThreads]
    by_cases hwaiting : waiting i = true
    · simp only [if_pos hwaiting]
      rcases List.mem_cons.mp ht with rfl | hrest
      · exact .inl List.mem_cons_self
      · exact (ih hrest (i + 1)).imp_left (List.mem_cons_of_mem u)
    · simp only [if_neg hwaiting]
      rcases List.mem_cons.mp ht with rfl | hrest
      · exact .inr List.mem_cons_self
      · exact (ih hrest (i + 1)).imp_right (List.mem_cons_of_mem u)

/-- So does a thread of any of the bad barriers. -/
theorem mem_recoverBarriers [DecidableEq τ] (waiting : ℕ → ℕ → Bool) {t : τ}
    {barriers : List (ℕ × List τ)} {b : ℕ × List τ} (hb : b ∈ barriers) (ht : t ∈ b.2) (k : ℕ) :
    t ∈ (recoverBarriers waiting k barriers).1 ∨
      ∃ b' ∈ (recoverBarriers waiting k barriers).2, t ∈ b'.2 := by
  induction barriers generalizing k with
  | nil => nomatch hb
  | cons b₀ barriers ih =>
    obtain ⟨count, l⟩ := b₀
    have hkept : ∀ bad, (∃ b' ∈ (recoverBarriers waiting (k + 1) barriers).2, t ∈ b'.2) →
        ∃ b' ∈ if bad = [] then (recoverBarriers waiting (k + 1) barriers).2
          else (count, bad) :: (recoverBarriers waiting (k + 1) barriers).2, t ∈ b'.2 := by
      rintro bad ⟨b', hb', ht'⟩
      refine ⟨b', ?_, ht'⟩
      split_ifs
      · exact hb'
      · exact List.mem_cons_of_mem _ hb'
    rw [recoverBarriers]
    rcases List.mem_cons.mp hb with rfl | hrest
    · rcases mem_recoverThreads (waiting k) ht 0 with hrecovered | hbad
      · exact .inl (List.mem_append_left _ hrecovered)
      · refine .inr ⟨(count, (recoverThreads (waiting k) 0 l).2), ?_, hbad⟩
        rw [if_neg (List.ne_nil_of_mem hbad)]
        exact List.mem_cons_self
    · exact (ih hrest (k + 1)).imp (List.mem_append_right _) (hkept _)

variable [DecidableEq τ]

/-- A thread that loses its flag is counted again. -/
theorem Inv.tryRecover (h : s.Inv) (waiting : ℕ → ℕ → Bool) : (s.tryRecover waiting).1.Inv := by
  have hbad : ∀ t, (s.flaggedBad t && t ∉ (recoverBarriers waiting 0 s.badBarriers).1) = true →
      ∃ b ∈ (recoverBarriers waiting 0 s.badBarriers).2, t ∈ b.2 := by
    intro t ht
    obtain ⟨hflagged, hnot⟩ := (Bool.and_eq_true ..).mp ht
    obtain ⟨b, hb, hmem⟩ := h.bad t hflagged
    rcases mem_recoverBarriers waiting hb hmem 0 with hrecovered | hkept
    · exact absurd hrecovered (of_decide_eq_true hnot)
    · exact hkept
  rw [ThreadList.tryRecover]
  by_cases hnone : (recoverBarriers waiting 0 s.badBarriers).1 = []
  · simp only [hnone, if_true]
    rw [hnone] at hbad
    apply Inv.mk
    · simpa [unflagged] using h.count
    · simpa using hbad
  · simp only [if_neg hnone]
    exact inv_updateBarrier hbad

/-- The threads missing in a round are flagged, and the next barrier does without them. -/
theorem Inv.wakeupAndWait (h : s.Inv) (throws : τ → Bool) (passed : Option (List τ)) :
    (s.wakeupAndWait throws passed).1.Inv := by
  rw [ThreadList.wakeupAndWait]
  cases s.barrier with
  | none => exact h
  | some count =>
    dsimp only
    cases s.wakeupUnlocked count throws with
    | error e => exact h
    | ok woken =>
      cases passed with
      | none => exact h
      | some passed =>
        apply inv_updateBarrier
        intro t ht
        -- the thread is late now, or was late before
        rcases (Bool.or_eq_true ..).mp ht with hlate | hbefore
        · exact ⟨_, List.mem_append_right _ (List.mem_singleton_self _), of_decide_eq_true hlate⟩
        · obtain ⟨b, hb, hmem⟩ := h.bad t hbefore
          exact ⟨b, List.mem_append_left _ hb, hmem⟩

omit [DecidableEq τ] in
/-- A list that begins to maintain its barrier makes one for the threads that there are. -/
theorem Inv.setMaintainBarrier (h : s.Inv) (maintainBarrier : Bool) :
    (s.setMaintainBarrier maintainBarrier).Inv := by
  cases maintainBarrier with
  | false => exact ⟨nofun, h.bad⟩
  | true => exact inv_updateBarrier h.bad

/-- Every call keeps the invariant. -/
theorem Inv.step {l : ThreadListStep τ} (h : s.Inv) (hs : s.step l = some s') : s'.Inv := by
  cases l with
  | popFront =>
    obtain ⟨-, hs⟩ := Option.ite_none_left_eq_some.mp hs
    obtain rfl := Option.some.inj hs
    exact h.modify _ _
  | popBack =>
    obtain ⟨-, hs⟩ := Option.ite_none_left_eq_some.mp hs
    obtain rfl := Option.some.inj hs
    exact h.modify _ _
  | erase pos =>
    obtain ⟨-, hs⟩ := Option.ite_none_right_eq_some.mp hs
    obtain rfl := Option.some.inj hs
    exact h.modify _ _
  | sealList =>
    obtain rfl := Option.some.inj hs
    exact ⟨h.count, h.bad⟩
  | setMaintainBarrier maintainBarrier =>
    obtain rfl := Option.some.inj hs
    exact h.setMaintainBarrier maintainBarrier
  | wakeupAndWait throws passed =>
    obtain rfl := Option.some.inj hs
    exact h.wakeupAndWait throws passed
  | tryRecover waiting =>
    obtain rfl := Option.some.inj hs
    exact h.tryRecover waiting
  | _ =>
    obtain rfl := Option.some.inj hs
    exact h.modify _ _

/-- The invariant holds in every run. -/
theorem inv_of_reachable (h : (threadListSystem τ).Reachable s) : s.Inv := by
  refine LTS.Reach.invariant (P := Inv) ?_ ?_ h
  · rintro _ (rfl | rfl)
    · exact ⟨nofun, nofun⟩
    · exact inv_updateBarrier nofun
  · exact fun _ _ _ hs _ hstep => hs.step hstep

omit [DecidableEq τ] in
/-- When all threads wait, all of them recover. -/
theorem recoverThreads_true (i : ℕ) (l : List τ) :
    recoverThreads (fun _ => true) i l = (l, []) := by
  induction l generalizing i with
  | nil => rfl
  | cons t l ih => rw [recoverThreads, ih, if_pos rfl]

omit [DecidableEq τ] in
/-- And all bad barriers are done with. -/
theorem recoverBarriers_true (k : ℕ) (barriers : List (ℕ × List τ)) :
    recoverBarriers (fun _ _ => true) k barriers = (barriers.flatMap Prod.snd, []) := by
  induction barriers generalizing k with
  | nil => rfl
  | cons b barriers ih =>
    obtain ⟨count, l⟩ := b
    simp only [recoverBarriers, recoverThreads_true, ih, if_true, List.flatMap_cons]

end ThreadList

/-- The second and the third of three threads are late, then the first one as well. -/
def twiceLate : List (ThreadListStep (Fin 3)) :=
  [.pushBack 0, .pushBack 1, .pushBack 2, .wakeupAndWait (fun _ => false) (some [0]),
    .wakeupAndWait (fun _ => false) (some [])]

/-- Whatever was added, removed, flagged or recovered before: `wakeup_and_wait` wakes up the threads
that are not flagged, in their order, the barrier waits for them and for the caller, and if no
wakeup throws it does not throw before it waits. -/
theorem woken_counted {τ : Type} [DecidableEq τ] {s : ThreadList τ}
    (h : (threadListSystem τ).Reachable s) {count : ℕ} (hbarrier : s.barrier = some count)
    (throws : τ → Bool) :
    count = 1 + s.unflagged.length ∧
      s.wakeupUnlocked count throws =
        if s.unflagged.any throws then .error (.wakeup (s.unflagged.filter throws))
        else .ok s.unflagged := by
  have hcount := (ThreadList.inv_of_reachable h).count count hbarrier
  refine ⟨hcount, ?_⟩
  rw [ThreadList.wakeupUnlocked]
  by_cases hthrows : s.unflagged.any throws = true
  · simp only [if_pos hthrows]
  · simp only [if_neg hthrows, hcount, ne_eq, not_true_eq_false, if_false]

/-- A list of three threads with its barrier. -/
theorem woken_counted_twiceLate :
    ∃ s : ThreadList (Fin 3), s.threads = [0, 1, 2] ∧ s.barrier = some 1 ∧
      s.wakeupUnlocked 1 (fun _ => false) = .ok [] := by
  obtain ⟨s, hs, htest⟩ := LTS.exists_reachable
    (T := threadListSystem (Fin 3)) (s := .updateBarrier { threads := [] }) (l := twiceLate)
    (p := fun s => decide (s.threads = [0, 1, 2] ∧ s.barrier = some 1 ∧ s.unflagged = []))
    (.inr rfl) (by decide)
  obtain ⟨hthreads, hbarrier, hunflagged⟩ := of_decide_eq_true htest
  have hwoken := (woken_counted hs hbarrier fun _ => false).2
  rw [hunflagged] at hwoken
  exact ⟨s, hthreads, hbarrier, hwoken⟩

/-- Every thread that is flagged is kept with a bad barrier. When `try_recover` finds that all of
these wait, it reports them, no thread is flagged and no bad barrier is left, and the barrier is the
one for the whole list. -/
theorem flagged_recover {τ : Type} [DecidableEq τ] {s : ThreadList τ}
    (h : (threadListSystem τ).Reachable s) :
    (∀ t, s.flaggedBad t = true → ∃ b ∈ s.badBarriers, t ∈ b.2) ∧
      ∃ s', s.tryRecover (fun _ _ => true) = (s', s.badBarriers.flatMap Prod.snd) ∧
        s'.threads = s.threads ∧ (∀ t, s'.flaggedBad t = false) ∧ s'.badBarriers = [] ∧
        (s'.barrier.isSome → s'.barrier = some (1 + s.threads.length)) := by
  have hinv := ThreadList.inv_of_reachable h
  have hrecover := ThreadList.recoverBarriers_true 0 s.badBarriers
  have hinv' := hinv.tryRecover fun _ _ => true
  have hthreads : (s.tryRecover fun _ _ => true).1.threads = s.threads := by
    rw [ThreadList.tryRecover]
    split_ifs <;> rfl
  have hnone : (s.tryRecover fun _ _ => true).1.badBarriers = [] := by
    rw [ThreadList.tryRecover, hrecover]
    split_ifs <;> rfl
  -- no bad barrier is left, so no thread is flagged
  have hflagged : ∀ t, (s.tryRecover fun _ _ => true).1.flaggedBad t = false := by
    intro t
    by_contra ht
    obtain ⟨b, hb, -⟩ := hinv'.bad t (eq_true_of_ne_false ht)
    rw [hnone] at hb
    nomatch hb
  refine ⟨hinv.bad, (s.tryRecover fun _ _ => true).1, ?_, hthreads, hflagged, hnone, ?_⟩
  · rw [ThreadList.tryRecover, hrecover]
  · intro hsome
    obtain ⟨c, hc⟩ := Option.isSome_iff_exists.mp hsome
    have hall : (s.tryRecover fun _ _ => true).1.unflagged = s.threads := by
      rw [ThreadList.unflagged, hthreads]
      exact List.filter_eq_self.mpr fun t _ => by rw [hflagged t]; rfl
    rw [hc, hinv'.count c hc, hall]

/-- Two of the threads are reported twice. -/
theorem flagged_recover_twiceLate :
    ∃ s s' : ThreadList (Fin 3), (∀ t, s.flaggedBad t = true) ∧
      s.tryRecover (fun _ _ => true) = (s', [1, 2, 0, 1, 2]) ∧
      (∀ t, s'.flaggedBad t = false) ∧ s'.badBarriers = [] := by
  obtain ⟨s, hs, htest⟩ := LTS.exists_reachable
    (T := threadListSystem (Fin 3)) (s := .updateBarrier { threads := [] }) (l := twiceLate)
    (p := fun s => decide ((∀ t, s.flaggedBad t = true) ∧
      s.badBarriers.flatMap Prod.snd = [1, 2, 0, 1, 2])) (.inr rfl) (by decide)
  obtain ⟨hflagged, hbad⟩ := of_decide_eq_true htest
  obtain ⟨s', hs', -, hnone, hempty, -⟩ := (flagged_recover hs).2
  rw [hbad] at hs'
  exact ⟨s, s', hflagged, hs', hnone, hempty⟩

/-! ## Initialization -/

/-- What a call throws. -/
inductive ThrownByCall where
  | cannotInitialize (messages : List String)
  | cannotFinalize (messages : List String)
  /-- An `Exception` of another class. -/
  | exception (messages : List String)
  | stdException (what : String)
  | unknown
deriving DecidableEq, Repr

/-- The calls that are made for the threads of a list. -/
inductive ListCall (τ : Type) where
  | initializerInit (t : τ)
  | threadInit (t : τ)
  | notifyOfFailedInit (t : τ)
  | finalizerFinalize (t : τ)
  | threadFinalize (t : τ)
deriving DecidableEq, Repr

/-- The messages of an `Exception`. -/
def ThrownByCall.exceptionMessages : ThrownByCall → Option (List String)
  | cannotInitialize messages | cannotFinalize messages | exception messages => some messages
  | stdException _ | unknown => none

/-- A list with its name, and what each call throws. -/
structure ListContext (τ : Type) where
  name : String
  threadName : τ → String
  throws : ListCall τ → Option ThrownByCall

/-- How far an operation on a list has come. -/
structure ListProgress (τ : Type) where
  calls : List (ListCall τ) := []
  /-- `cite` or `me`. -/
  messages : List String := []
  /-- A message that was copied reads an argument: the behaviour is undefined. -/
  undefined : Bool := false
  /-- `error`. -/
  error : Bool := false
  /-- `initialized_threads`. -/
  initialized : List τ := []
  success : Bool := true
  /-- An exception that nobody catches. -/
  thrown : Option ThrownByCall := none

/-- `Exception::copy_messages`: every message is taken for a format; `none` where one of them reads
an argument. -/
def copied (messages : List String) : Option (List String) := messages.mapM formatOnly

namespace ListProgress

variable {τ : Type}

/-- `append` of a text that is formatted already. -/
def append (s : ListProgress τ) (text : String) : ListProgress τ :=
  { s with messages := s.messages ++ [text] }

/-- `append` of an exception with those messages. -/
def appendException (s : ListProgress τ) (messages : List String) : ListProgress τ :=
  { s with
    messages := s.messages ++ (copied messages).getD []
    undefined := s.undefined || (copied messages).isNone }

/-- `throw cite` or `throw me`: what is thrown is a copy. -/
def throwCopy (s : ListProgress τ) (e : List String → ThrownByCall) : ListProgress τ :=
  { s with
    thrown := some (e ((copied s.messages).getD []))
    undefined := s.undefined || (copied s.messages).isNone }

/-- The messages of an exception are there if the behaviour is defined. -/
theorem appendException_defined {s : ListProgress τ} {messages : List String}
    (h : (s.appendException messages).undefined = false) :
    ∃ texts, copied messages = some texts ∧
      (s.appendException messages).messages = s.messages ++ texts := by
  obtain ⟨-, hcopied⟩ := Bool.or_eq_false_iff.mp h
  cases htexts : copied messages with
  | none =>
    rw [htexts] at hcopied
    nomatch hcopied
  | some texts =>
    refine ⟨texts, rfl, ?_⟩
    rw [appendException, htexts]
    rfl

/-- No message has a `%` so far. -/
structure Plain (s : ListProgress τ) : Prop where
  defined : s.undefined = false
  messages : ∀ text ∈ s.messages, '%' ∉ text.toList

/-- Texts without a `%` are copied as they are. -/
theorem copied_of_notMem {messages : List String} (h : ∀ text ∈ messages, '%' ∉ text.toList) :
    copied messages = some messages := by
  have hsame : messages.mapM formatOnly = some (messages.map id) :=
    Loop.mapM_eq_some fun text htext => formatOnly_of_notMem (h text htext)
  rwa [List.map_id] at hsame

/-- A message without `%` keeps the collected ones plain. -/
theorem Plain.append {s : ListProgress τ} (h : s.Plain) {text : String}
    (htext : '%' ∉ text.toList) :
    (s.append text).Plain := by
  refine ⟨h.defined, fun other hother => ?_⟩
  rcases List.mem_append.mp hother with hold | hnew
  · exact h.messages other hold
  · rw [List.mem_singleton.mp hnew]
    exact htext

/-- So do the messages of an exception. -/
theorem Plain.appendException {s : ListProgress τ} (h : s.Plain) {messages : List String}
    (hmessages : ∀ text ∈ messages, '%' ∉ text.toList) : (s.appendException messages).Plain := by
  rw [ListProgress.appendException, copied_of_notMem hmessages]
  refine ⟨by rw [h.defined]; rfl, fun text htext => ?_⟩
  rcases List.mem_append.mp htext with hold | hnew
  · exact h.messages text hold
  · exact hmessages text hnew

/-- Plain messages are copied without undefined behaviour. -/
theorem Plain.throwCopy {s : ListProgress τ} (h : s.Plain) (e : List String → ThrownByCall) :
    (s.throwCopy e).undefined = false := by
  rw [ListProgress.throwCopy, copied_of_notMem h.messages, h.defined]
  rfl

end ListProgress

namespace ListContext

variable {τ : Type} (c : ListContext τ)

/-- `(*i)->finalize()` in the loop of `finalize`, with its handlers. -/
def finalizeThread (s : ListProgress τ) (t : τ) : ListProgress τ :=
  let s := { s with calls := s.calls ++ [.threadFinalize t] }
  let failed := "AspectIniFin called Thread[" ++ c.threadName t ++ "]::finalize() which failed"
  match c.throws (.threadFinalize t) with
  | none => s
  | some (.cannotFinalize messages) =>
    ({ s with error := true }.append failed).appendException messages
  | some (.exception messages) | some (.cannotInitialize messages) =>
    (s.append failed).appendException messages
  | some (.stdException _) | some .unknown =>
    s.append ("Thread[" ++ c.threadName t ++ "]::finalize() threw unsupported exception")

/-- One turn of the loop of `finalize`. -/
def finalizeTurn (listName : String) (s : ListProgress τ) (t : τ) : Loop.Turn (ListProgress τ) :=
  let s := { s with calls := s.calls ++ [.finalizerFinalize t] }
  match c.throws (.finalizerFinalize t) with
  | none => .next (c.finalizeThread s t)
  | some (.cannotFinalize messages) =>
    .next (c.finalizeThread (({ s with error := true }.append ("Could not finalize thread '" ++
      c.threadName t ++ "' in list '" ++ listName ++ "'")).appendException messages) t)
  | some e => .leave { s with thrown := some e }

/-- `finalize`. -/
def finalize (listName : String) (calls : List (ListCall τ)) (threads : List τ) :
    ListProgress τ :=
  let start : ListProgress τ :=
    { calls := calls, messages := ["One or more threads failed to finalize"] }
  match Loop.forEach (c.finalizeTurn listName) start threads.reverse with
  | .leave s => s
  | .next s => if s.error then s.throwCopy .exception else s

/-- What the handlers of `init` append when the `init` of a thread throws. -/
def appendThrown (s : ListProgress τ) (t : τ) : ThrownByCall → ListProgress τ
  | .cannotInitialize messages =>
    (s.append ("Initializing thread '" ++ c.threadName t ++ "' in list '" ++ c.name ++
      "' failed")).appendException messages
  | .cannotFinalize messages | .exception messages =>
    (s.append ("Could not initialize thread '" ++ c.threadName t ++ "'")).appendException messages
  | .stdException what =>
    (s.append ("Could not initialize thread '" ++ c.threadName t ++ "'")).append
      ("Caught std::exception or derivative: " ++ what)
  | .unknown =>
    (s.append ("Could not initialize thread '" ++ c.threadName t ++ "'")).append
      "Unknown exception caught"

/-- One turn of the loop of `init`; `threads` is the whole list. -/
def initTurn (threads : List τ) (s : ListProgress τ) (t : τ) : Loop.Turn (ListProgress τ) :=
  let s := { s with calls := s.calls ++ [ListCall.initializerInit t] }
  match c.throws (.initializerInit t) with
  | some e =>
    match e.exceptionMessages with
    | some messages =>
      .leave (({ s with success := false }.append ("Initialized failed to initialize thread '" ++
        c.threadName t ++ "'")).appendException messages)
    | none => .leave { s with thrown := some e }
  | none =>
    let s := { s with calls := s.calls ++ [ListCall.threadInit t] }
    match c.throws (.threadInit t) with
    | none => .next { s with initialized := s.initialized ++ [t] }
    | some e =>
      .leave { c.appendThrown s t e with
        calls := s.calls ++ threads.map ListCall.notifyOfFailedInit ++
          [ListCall.finalizerFinalize t]
        success := false
        thrown := c.throws (.finalizerFinalize t) }

/-- What `init` does after its loop. The list of the initialized threads has no name. -/
def afterInit (s : ListProgress τ) : ListProgress τ :=
  if s.thrown.isSome then s
  else if s.success then s
  else
    let r := c.finalize "" s.calls s.initialized
    let s := { s with calls := r.calls, undefined := s.undefined || r.undefined }
    if r.thrown.isSome then { s with thrown := r.thrown } else s.throwCopy .cannotInitialize

/-- `init`; `none` where its behaviour is undefined. -/
def init (threads : List τ) : Option (ListProgress τ) :=
  let s := c.afterInit (Loop.forEach (c.initTurn threads) {} threads).state
  if s.undefined then none else some s

/-! ### What is called -/

/-- Both calls of a thread that is initialized. -/
def initCalls (done : List τ) : List (ListCall τ) :=
  done.flatMap fun t => [.initializerInit t, .threadInit t]

/-- Both calls of a thread that is finalized, the last thread first. -/
def finalizeCalls (done : List τ) : List (ListCall τ) :=
  done.reverse.flatMap fun t => [.finalizerFinalize t, .threadFinalize t]

/-- What is called after the initializer was called for a thread that fails, when those in `done`
were initialized. -/
def failureCalls (threads done : List τ) (t : τ) : List (ListCall τ) :=
  match c.throws (.initializerInit t) with
  | some e => if e.exceptionMessages.isSome then finalizeCalls done else []
  | none =>
    [.threadInit t] ++ threads.map .notifyOfFailedInit ++ [.finalizerFinalize t] ++
      if c.throws (.finalizerFinalize t) = none then finalizeCalls done else []

/-- The thread fails. -/
def Fails (t : τ) : Prop :=
  c.throws (.initializerInit t) ≠ none ∨ c.throws (.threadInit t) ≠ none

/-- What `init` appends when the `init` of a thread throws; `none` where a message reads an
argument. -/
def initMessages (t : τ) : ThrownByCall → Option (List String)
  | .cannotInitialize messages =>
    (copied messages).map fun texts =>
      ("Initializing thread '" ++ c.threadName t ++ "' in list '" ++ c.name ++ "' failed") :: texts
  | .cannotFinalize messages | .exception messages =>
    (copied messages).map fun texts =>
      ("Could not initialize thread '" ++ c.threadName t ++ "'") :: texts
  | .stdException what =>
    some ["Could not initialize thread '" ++ c.threadName t ++ "'",
      "Caught std::exception or derivative: " ++ what]
  | .unknown =>
    some ["Could not initialize thread '" ++ c.threadName t ++ "'", "Unknown exception caught"]

/-- The messages about a thread that fails. -/
def failureMessages (t : τ) : Option (List String) :=
  match c.throws (.initializerInit t) with
  | some e =>
    (copied (e.exceptionMessages.getD [])).map fun texts =>
      ("Initialized failed to initialize thread '" ++ c.threadName t ++ "'") :: texts
  | none => (c.throws (.threadInit t)).elim (some []) (c.initMessages t)

/-- Finalizing the thread is no error. -/
def FinalizesQuietly (t : τ) : Prop :=
  c.throws (.finalizerFinalize t) = none ∧
    ∀ messages, c.throws (.threadFinalize t) ≠ some (.cannotFinalize messages)

variable {c} {s s' : ListProgress τ} {t : τ} {l threads : List τ}

/-- The finalizer throws nothing but the exception that it is said to throw. -/
def FinalizerThrowsOnly (c : ListContext τ) : Prop :=
  ∀ t e, c.throws (.finalizerFinalize t) = some e → ∃ messages, e = .cannotFinalize messages

/-- One thread is finalized, its failure going to the collected error. -/
theorem finalizeThread_spec (c : ListContext τ) (s : ListProgress τ) (t : τ) :
    (c.finalizeThread s t).calls = s.calls ++ [.threadFinalize t] ∧
      (c.finalizeThread s t).thrown = s.thrown ∧
      ((∀ messages, c.throws (.threadFinalize t) ≠ some (.cannotFinalize messages)) →
        (c.finalizeThread s t).error = s.error) := by
  rw [finalizeThread]
  cases hthread : c.throws (.threadFinalize t) with
  | none => exact ⟨rfl, rfl, fun _ => rfl⟩
  | some e =>
    cases e with
    | cannotFinalize messages => exact ⟨rfl, rfl, fun hquiet => absurd rfl (hquiet messages)⟩
    | _ => exact ⟨rfl, rfl, fun _ => rfl⟩

/-- A finalizer that fails in the documented way lets its thread be finalized. -/
theorem exists_finalizeTurn (hc : c.FinalizerThrowsOnly) (name : String) (s : ListProgress τ)
    (t : τ) :
    ∃ s', c.finalizeTurn name s t = .next s' ∧
      s'.calls = s.calls ++ [.finalizerFinalize t, .threadFinalize t] ∧ s'.thrown = s.thrown ∧
      (c.FinalizesQuietly t → s'.error = s.error) := by
  rw [finalizeTurn]
  cases hthrows : c.throws (.finalizerFinalize t) with
  | none =>
    obtain ⟨hcalls, hthrown, herror⟩ :=
      finalizeThread_spec c { s with calls := s.calls ++ [.finalizerFinalize t] } t
    exact ⟨_, rfl, hcalls.trans (List.append_assoc ..), hthrown, fun hquiet => herror hquiet.2⟩
  | some e =>
    obtain ⟨messages, rfl⟩ := hc t e hthrows
    have hloud : ¬c.FinalizesQuietly t := by
      rintro ⟨hnone, -⟩
      rw [hthrows] at hnone
      nomatch hnone
    obtain ⟨hcalls, hthrown, -⟩ := finalizeThread_spec c ((ListProgress.append
      { s with calls := s.calls ++ [.finalizerFinalize t], error := true }
        ("Could not finalize thread '" ++ c.threadName t ++ "' in list '" ++ name ++
          "'")).appendException messages) t
    exact ⟨_, rfl, hcalls.trans (List.append_assoc ..), hthrown, fun hquiet => absurd hquiet hloud⟩

/-- The loop of `finalize` is not left early. -/
theorem exists_forEach_finalizeTurn (hc : c.FinalizerThrowsOnly) (name : String)
    (s : ListProgress τ) (l : List τ) :
    ∃ s', Loop.forEach (c.finalizeTurn name) s l = .next s' ∧
      (s'.calls = s.calls ++ l.flatMap fun t => [.finalizerFinalize t, .threadFinalize t]) ∧
      s'.thrown = s.thrown ∧ ((∀ t ∈ l, c.FinalizesQuietly t) → s'.error = s.error) := by
  induction l generalizing s with
  | nil => exact ⟨s, rfl, (List.append_nil _).symm, rfl, fun _ => rfl⟩
  | cons t l ih =>
    obtain ⟨s₁, hturn, hcalls, hthrown, herror⟩ := exists_finalizeTurn hc name s t
    obtain ⟨s', hloop, hcalls', hthrown', herror'⟩ := ih s₁
    refine ⟨s', ?_, ?_, hthrown'.trans hthrown, fun hquiet => ?_⟩
    · rw [Loop.forEach_cons_of_next hturn]
      exact hloop
    · rw [hcalls', hcalls, List.flatMap_cons, List.append_assoc]
    · rw [herror' fun u hu => hquiet u (List.mem_cons_of_mem t hu),
        herror (hquiet t List.mem_cons_self)]

/-- All threads of the list are finalized, and without an error nothing is thrown. -/
theorem finalize_spec (hc : c.FinalizerThrowsOnly) (name : String) (calls : List (ListCall τ))
    (threads : List τ) :
    (c.finalize name calls threads).calls = calls ++ finalizeCalls threads ∧
      ((∀ t ∈ threads, c.FinalizesQuietly t) →
        (c.finalize name calls threads).thrown = none) := by
  obtain ⟨s', hloop, hcalls, hthrown, herror⟩ := exists_forEach_finalizeTurn hc name
    { calls := calls, messages := ["One or more threads failed to finalize"] } threads.reverse
  rw [finalize]
  simp only [hloop]
  constructor
  · split_ifs <;> exact hcalls
  · intro hquiet
    rw [herror fun t ht => hquiet t (List.mem_reverse.mp ht)]
    exact hthrown

/-- What was initialized is rolled back, and what comes out is a copy. -/
theorem afterInit_spec (hc : c.FinalizerThrowsOnly) (hthrown : s.thrown = none)
    (hsuccess : s.success = false) :
    (c.afterInit s).calls = s.calls ++ finalizeCalls s.initialized ∧
      (c.afterInit s).thrown ≠ none ∧
      ((c.afterInit s).undefined = false → s.undefined = false ∧
        ((∀ t ∈ s.initialized, c.FinalizesQuietly t) →
          (c.afterInit s).thrown = (copied s.messages).map .cannotInitialize)) := by
  obtain ⟨hcalls, hquiet⟩ := finalize_spec hc "" s.calls s.initialized
  rw [afterInit, if_neg (by simp [hthrown]), if_neg (by simp [hsuccess])]
  dsimp only
  by_cases hsome : (c.finalize "" s.calls s.initialized).thrown.isSome
  · rw [if_pos hsome]
    refine ⟨hcalls, Option.isSome_iff_ne_none.mp hsome, fun hdefined => ⟨?_, fun hall => ?_⟩⟩
    · exact (Bool.or_eq_false_iff.mp hdefined).1
    · rw [hquiet hall] at hsome
      nomatch hsome
  · rw [if_neg hsome]
    refine ⟨hcalls, nofun, fun hdefined => ?_⟩
    obtain ⟨hbefore, hcopied⟩ := Bool.or_eq_false_iff.mp hdefined
    refine ⟨(Bool.or_eq_false_iff.mp hbefore).1, fun _ => ?_⟩
    show some (ThrownByCall.cannotInitialize ((copied s.messages).getD [])) = _
    cases htexts : copied s.messages with
    | none =>
      rw [show copied _ = copied s.messages from rfl, htexts] at hcopied
      nomatch hcopied
    | some texts => rfl

/-- After another exception there is no rollback. -/
theorem afterInit_of_thrown (hthrown : s.thrown ≠ none) : c.afterInit s = s := by
  rw [afterInit, if_pos (Option.isSome_iff_ne_none.mpr hthrown)]

/-- Collecting a failure initializes nothing. -/
theorem initialized_appendThrown (c : ListContext τ) (s : ListProgress τ) (t : τ)
    (e : ThrownByCall) : (c.appendThrown s t e).initialized = s.initialized := by
  cases e <;> rfl

/-- The messages about a thread whose `init` has thrown. -/
theorem exists_of_appendThrown {e : ThrownByCall} (h : (c.appendThrown s t e).undefined = false) :
    ∃ texts, c.initMessages t e = some texts ∧
      (c.appendThrown s t e).messages = s.messages ++ texts := by
  cases e with
  | cannotInitialize messages | cannotFinalize messages | exception messages =>
    obtain ⟨texts, htexts, happended⟩ := ListProgress.appendException_defined h
    exact ⟨_, congrArg (Option.map _) htexts, happended.trans (List.append_assoc ..)⟩
  | stdException what => exact ⟨_, rfl, List.append_assoc ..⟩
  | unknown => exact ⟨_, rfl, List.append_assoc ..⟩

/-- Where the loop of `init` goes on the thread was initialized. -/
theorem of_initTurn_next (h : c.initTurn threads s t = .next s') :
    ¬c.Fails t ∧ s' = { s with
      calls := s.calls ++ [.initializerInit t, .threadInit t]
      initialized := s.initialized ++ [t] } := by
  rw [initTurn] at h
  cases hinitializer : c.throws (.initializerInit t) with
  | some e =>
    simp only [hinitializer] at h
    split at h <;> nomatch h
  | none =>
    simp only [hinitializer] at h
    cases hthread : c.throws (.threadInit t) with
    | some e =>
      simp only [hthread] at h
      nomatch h
    | none =>
      simp only [hthread, Loop.Turn.next.injEq] at h
      refine ⟨by simp [Fails, hinitializer, hthread], ?_⟩
      rw [← h, List.append_assoc]
      rfl

/-- If the loop gets through no thread has failed. -/
theorem of_forEach_initTurn_next (h : Loop.forEach (c.initTurn threads) s l = .next s') :
    (∀ t ∈ l, ¬c.Fails t) ∧ s' = { s with
      calls := s.calls ++ initCalls l
      initialized := s.initialized ++ l } := by
  induction l generalizing s with
  | nil =>
    obtain rfl := Loop.Turn.next.inj h
    exact ⟨nofun, by simp [initCalls]⟩
  | cons t l ih =>
    cases hturn : c.initTurn threads s t with
    | leave s₁ =>
      rw [Loop.forEach_cons_of_leave hturn] at h
      nomatch h
    | next s₁ =>
      rw [Loop.forEach_cons_of_next hturn] at h
      obtain ⟨hrest, rfl⟩ := ih h
      obtain ⟨hfirst, rfl⟩ := of_initTurn_next hturn
      refine ⟨fun u hu => ?_, ?_⟩
      · rcases List.mem_cons.mp hu with rfl | hmem
        · exact hfirst
        · exact hrest u hmem
      · simp [initCalls]

/-- Where the loop of `init` is left the thread has failed. -/
theorem of_initTurn_leave (h : c.initTurn threads s t = .leave s') (hs : s.thrown = none) :
    c.Fails t ∧ s'.initialized = s.initialized ∧
      ((∃ e, c.throws (.initializerInit t) = some e ∧ e.exceptionMessages = none ∧
          s'.thrown = some e ∧ s'.calls = s.calls ++ [.initializerInit t]) ∨
        (s'.success = false ∧
          (s'.undefined = false →
            ∃ texts, c.failureMessages t = some texts ∧ s'.messages = s.messages ++ texts) ∧
          ((∃ e messages, c.throws (.initializerInit t) = some e ∧
              e.exceptionMessages = some messages ∧ s'.thrown = none ∧
              s'.calls = s.calls ++ [.initializerInit t]) ∨
            (c.throws (.initializerInit t) = none ∧
              s'.thrown = c.throws (.finalizerFinalize t) ∧
              s'.calls = s.calls ++ [.initializerInit t] ++ ([.threadInit t] ++
                threads.map .notifyOfFailedInit ++ [.finalizerFinalize t]))))) := by
  rw [initTurn] at h
  cases hinitializer : c.throws (.initializerInit t) with
  | some e =>
    simp only [hinitializer] at h
    have hfails : c.Fails t := .inl (by rw [hinitializer]; nofun)
    cases hmessages : e.exceptionMessages with
    -- an exception that `init` does not catch leaves it at once
    | none =>
      simp only [hmessages, Loop.Turn.leave.injEq] at h
      subst h
      exact ⟨hfails, rfl, .inl ⟨e, rfl, hmessages, rfl, rfl⟩⟩
    -- the initializer is collected, and the thread is not asked
    | some messages =>
      simp only [hmessages, Loop.Turn.leave.injEq] at h
      subst h
      refine ⟨hfails, rfl, .inr ⟨rfl, fun hdefined => ?_,
        .inl ⟨e, messages, rfl, hmessages, hs, rfl⟩⟩⟩
      obtain ⟨texts, htexts, happended⟩ := ListProgress.appendException_defined hdefined
      refine ⟨_ :: texts, ?_, happended.trans (List.append_assoc ..)⟩
      simp only [failureMessages, hinitializer, hmessages, Option.getD_some, htexts,
        Option.map_some]
  | none =>
    -- the initializer is through
    simp only [hinitializer] at h
    cases hthread : c.throws (.threadInit t) with
    | none =>
      simp only [hthread] at h
      nomatch h
    | some e =>
      simp only [hthread, Loop.Turn.leave.injEq] at h
      subst h
      refine ⟨.inr (by rw [hthread]; nofun), initialized_appendThrown .., .inr ⟨rfl,
        fun hdefined => ?_, .inr ⟨rfl, rfl, ?_⟩⟩⟩
      · obtain ⟨texts, htexts, happended⟩ := exists_of_appendThrown hdefined
        refine ⟨texts, ?_, happended⟩
        simp only [failureMessages, hinitializer, hthread, Option.elim_some, htexts]
      · simp only [List.append_assoc]

/-- The initialization ends where its copies are defined. -/
theorem init_eq_some {r : ListProgress τ} (h : c.init threads = some r) :
    (c.afterInit (Loop.forEach (c.initTurn threads) {} threads).state).undefined = false ∧
      r = c.afterInit (Loop.forEach (c.initTurn threads) {} threads).state := by
  obtain ⟨hdefined, h⟩ := Option.ite_none_left_eq_some.mp h
  exact ⟨Bool.eq_false_of_not_eq_true hdefined, (Option.some.inj h).symm⟩

/-! ### Messages without a `%` -/

/-- No message that is thrown has a `%`, and no name. -/
structure PlainMessages (c : ListContext τ) : Prop where
  thrown : ∀ call e messages, c.throws call = some e → e.exceptionMessages = some messages →
    ∀ text ∈ messages, '%' ∉ text.toList
  what : ∀ call what, c.throws call = some (.stdException what) → '%' ∉ what.toList
  threadName : ∀ t, '%' ∉ (c.threadName t).toList
  name : '%' ∉ c.name.toList

/-- Joined texts without `%` have none. -/
theorem notMem_append {a b : String} (ha : '%' ∉ a.toList) (hb : '%' ∉ b.toList) :
    '%' ∉ (a ++ b).toList := by
  rw [String.toList_append, List.mem_append, not_or]
  exact ⟨ha, hb⟩

/-- A name between two texts. -/
theorem PlainMessages.between (h : c.PlainMessages) (t : τ) {a b : String}
    (ha : '%' ∉ a.toList) (hb : '%' ∉ b.toList) : '%' ∉ (a ++ c.threadName t ++ b).toList :=
  notMem_append (notMem_append ha (h.threadName t)) hb

/-- Finalizing a thread keeps the messages plain. -/
theorem PlainMessages.finalizeThread (h : c.PlainMessages) (hs : s.Plain) (t : τ) :
    (c.finalizeThread s t).Plain := by
  have hfailed := h.between t (a := "AspectIniFin called Thread[")
    (b := "]::finalize() which failed") (by decide) (by decide)
  have hunsupported := h.between t (a := "Thread[")
    (b := "]::finalize() threw unsupported exception") (by decide) (by decide)
  rw [ListContext.finalizeThread]
  cases hthread : c.throws (.threadFinalize t) with
  | none => exact ⟨hs.defined, hs.messages⟩
  | some e =>
    have hcalled : ∀ error, ListProgress.Plain
        { s with calls := s.calls ++ [.threadFinalize t], error := error } :=
      fun _ => ⟨hs.defined, hs.messages⟩
    cases e with
    | cannotFinalize messages =>
      exact ((hcalled true).append hfailed).appendException (h.thrown _ _ messages hthread rfl)
    | exception messages | cannotInitialize messages =>
      exact ((hcalled s.error).append hfailed).appendException (h.thrown _ _ messages hthread rfl)
    | stdException what => exact (hcalled s.error).append hunsupported
    | unknown => exact (hcalled s.error).append hunsupported

/-- So does a turn with the finalizer. -/
theorem PlainMessages.finalizeTurn (h : c.PlainMessages) {name : String}
    (hname : '%' ∉ name.toList) (hs : s.Plain) (t : τ) :
    (c.finalizeTurn name s t).state.Plain := by
  have hnot := notMem_append (notMem_append (h.between t (a := "Could not finalize thread '")
    (b := "' in list '") (by decide) (by decide)) hname) (b := "'") (by decide)
  rw [ListContext.finalizeTurn]
  cases hthrows : c.throws (.finalizerFinalize t) with
  | none =>
    have hcalled : ListProgress.Plain { s with calls := s.calls ++ [.finalizerFinalize t] } :=
      ⟨hs.defined, hs.messages⟩
    exact h.finalizeThread hcalled t
  | some e =>
    have hcalled : ∀ error, ListProgress.Plain
        { s with calls := s.calls ++ [.finalizerFinalize t], error := error } :=
      fun _ => ⟨hs.defined, hs.messages⟩
    cases e with
    | cannotFinalize messages =>
      exact h.finalizeThread (((hcalled true).append hnot).appendException
        (h.thrown _ _ messages hthrows rfl)) t
    | _ => exact ⟨hs.defined, hs.messages⟩

/-- The finalization of the list copies plain messages only. -/
theorem PlainMessages.finalize (h : c.PlainMessages) {name : String} (hname : '%' ∉ name.toList)
    (calls : List (ListCall τ)) (threads : List τ) :
    (c.finalize name calls threads).undefined = false := by
  have hloop := Loop.forEach_invariant (P := ListProgress.Plain)
    (s := { calls := calls, messages := ["One or more threads failed to finalize"] })
    (fun s t hs => h.finalizeTurn hname hs t)
    ⟨rfl, by simp⟩
    threads.reverse
  rw [ListContext.finalize]
  revert hloop
  cases Loop.forEach (c.finalizeTurn name) _ threads.reverse with
  | leave s => exact fun hs => hs.defined
  | next s =>
    intro hs
    show (if s.error then _ else _ : ListProgress τ).undefined = false
    split_ifs
    · exact hs.throwCopy _
    · exact hs.defined

/-- A failing thread's message joins the plain ones. -/
theorem PlainMessages.appendThrown (h : c.PlainMessages) (hs : s.Plain) {t : τ} {e : ThrownByCall}
    (he : c.throws (.threadInit t) = some e) : (c.appendThrown s t e).Plain := by
  have hnot := h.between t (a := "Could not initialize thread '") (b := "'") (by decide) (by decide)
  cases e with
  | cannotInitialize messages =>
    have hfailed := notMem_append (notMem_append (h.between t (a := "Initializing thread '")
      (b := "' in list '") (by decide) (by decide)) h.name) (b := "' failed") (by decide)
    exact (hs.append hfailed).appendException (h.thrown _ _ messages he rfl)
  | cannotFinalize messages | exception messages =>
    exact (hs.append hnot).appendException (h.thrown _ _ messages he rfl)
  | stdException what =>
    exact (hs.append hnot).append
      (notMem_append (a := "Caught std::exception or derivative: ") (by decide) (h.what _ _ he))
  | unknown => exact (hs.append hnot).append (by decide)

/-- A turn of the initialization keeps the messages plain. -/
theorem PlainMessages.initTurn (h : c.PlainMessages) (threads : List τ) (hs : s.Plain) (t : τ) :
    (c.initTurn threads s t).state.Plain := by
  have hnot := h.between t (a := "Initialized failed to initialize thread '") (b := "'")
    (by decide) (by decide)
  rw [ListContext.initTurn]
  cases hinitializer : c.throws (.initializerInit t) with
  | some e =>
    dsimp only
    cases hmessages : e.exceptionMessages with
    | none => exact ⟨hs.defined, hs.messages⟩
    | some messages =>
      have hcalled : ListProgress.Plain
          { s with calls := s.calls ++ [.initializerInit t], success := false } :=
        ⟨hs.defined, hs.messages⟩
      exact (hcalled.append hnot).appendException (h.thrown _ _ messages hinitializer hmessages)
  | none =>
    dsimp only
    cases hthread : c.throws (.threadInit t) with
    | none => exact ⟨hs.defined, hs.messages⟩
    | some e =>
      have hcalled : ListProgress.Plain
          { s with calls := s.calls ++ [.initializerInit t] ++ [.threadInit t] } :=
        ⟨hs.defined, hs.messages⟩
      have happended := h.appendThrown hcalled hthread
      exact ⟨happended.defined, happended.messages⟩

/-- Without a `%` every copy is defined. -/
theorem PlainMessages.isSome_init (h : c.PlainMessages) (threads : List τ) :
    (c.init threads).isSome := by
  have hloop := Loop.forEach_invariant (P := ListProgress.Plain) (s := {})
    (fun s t hs => h.initTurn threads hs t) ⟨rfl, nofun⟩ threads
  have hdefined :
      (c.afterInit (Loop.forEach (c.initTurn threads) {} threads).state).undefined = false := by
    rw [afterInit]
    split_ifs with hthrown hsuccess
    · exact hloop.defined
    · exact hloop.defined
    · have hnot : '%' ∉ "".toList := by decide
      have hafter := h.finalize hnot
        (Loop.forEach (c.initTurn threads) {} threads).state.calls
        (Loop.forEach (c.initTurn threads) {} threads).state.initialized
      dsimp only
      split_ifs
      · simp [hafter, hloop.defined]
      · refine ListProgress.Plain.throwCopy ?_ _
        exact ⟨by simp [hafter, hloop.defined], hloop.messages⟩
  rw [init, hdefined]
  rfl

end ListContext

/-- `init` initializes the threads one after the other, until the first one that fails. Then the
initializer or the finalizer is left to take care of this one, and those that were initialized
before are finalized, the last of them first, unless the initializer has thrown something that is
not an exception of the project or the finalizer has thrown for the thread that failed. The threads
behind it are never touched. What comes out is a copy of the exception about the thread that failed,
if finalizing was no error. Without a `%` in the messages and names all of this is defined. -/
theorem init_rollback {τ : Type} {c : ListContext τ} (hc : c.FinalizerThrowsOnly)
    (threads : List τ) :
    (c.PlainMessages → (c.init threads).isSome) ∧
    ∀ r, c.init threads = some r →
      ((∀ t ∈ threads, ¬c.Fails t) ∧ r.calls = ListContext.initCalls threads ∧ r.thrown = none) ∨
      ∃ done t rest, threads = done ++ t :: rest ∧ (∀ u ∈ done, ¬c.Fails u) ∧ c.Fails t ∧
        r.calls =
          ListContext.initCalls done ++ [.initializerInit t] ++ c.failureCalls threads done t ∧
        r.thrown ≠ none ∧
        ((∀ e, c.throws (.initializerInit t) = some e → e.exceptionMessages.isSome) →
          (∀ u ∈ done, c.FinalizesQuietly u) → c.throws (.finalizerFinalize t) = none →
          r.thrown = ((c.failureMessages t).bind copied).map .cannotInitialize) := by
  refine ⟨fun hplain => hplain.isSome_init threads, fun r hr => ?_⟩
  obtain ⟨hdefined, rfl⟩ := ListContext.init_eq_some hr
  rcases Loop.forEach_next_or_leave (c.initTurn threads) {} threads with
    ⟨s', hloop⟩ | ⟨done, t, rest, s, s', hthreads, hdone, hturn, hloop⟩
  -- no turn has been left: nobody has failed
  · obtain ⟨hnone, rfl⟩ := ListContext.of_forEach_initTurn_next hloop
    refine .inl ⟨hnone, ?_, ?_⟩
    · rw [hloop]
      rfl
    · rw [hloop]
      rfl
  · obtain ⟨hnone, rfl⟩ := ListContext.of_forEach_initTurn_next hdone
    -- the turn of `t` was left, those before it were not
    obtain ⟨hfails, hinitialized, hcase⟩ := ListContext.of_initTurn_leave hturn rfl
    refine .inr ⟨done, t, rest, hthreads, hnone, hfails, ?_⟩
    rw [hloop] at hdefined ⊢
    change (c.afterInit s').undefined = false at hdefined
    show (c.afterInit s').calls = _ ∧ (c.afterInit s').thrown ≠ none ∧
      (_ → _ → _ → (c.afterInit s').thrown = _)
    rcases hcase with ⟨e, he, hnot, hthrown, hcalls⟩ | ⟨hsuccess, hmessages, hcase⟩
    · -- nobody expects what the initializer has thrown
      rw [ListContext.afterInit_of_thrown (by rw [hthrown]; nofun)]
      refine ⟨?_, by rw [hthrown]; nofun, fun hknown => ?_⟩
      · rw [hcalls, ListContext.failureCalls, he]
        simp [hnot]
      · have hsome := hknown e he
        rw [hnot] at hsome
        nomatch hsome
    -- the initializer has failed in a known way, or the thread's `init` has
    · rcases hcase with ⟨e, messages, he, hknown, hthrown, hcalls⟩ | ⟨he, hthrown, hcalls⟩
      · obtain ⟨hundone, hne, hquiet⟩ := ListContext.afterInit_spec hc hthrown hsuccess
        obtain ⟨hbefore, hcopy⟩ := hquiet hdefined
        obtain ⟨texts, htexts, hall⟩ := hmessages hbefore
        refine ⟨?_, hne, fun _ hdone _ => ?_⟩
        · rw [hundone, hcalls, hinitialized, ListContext.failureCalls, he]
          simp [hknown]
        · rw [hcopy (by rw [hinitialized]; exact hdone), hall, htexts]
          rfl
      · by_cases hfinalizer : c.throws (.finalizerFinalize t) = none
        · rw [hfinalizer] at hthrown
          obtain ⟨hundone, hne, hquiet⟩ := ListContext.afterInit_spec hc hthrown hsuccess
          obtain ⟨hbefore, hcopy⟩ := hquiet hdefined
          obtain ⟨texts, htexts, hall⟩ := hmessages hbefore
          refine ⟨?_, hne, fun _ hdone _ => ?_⟩
          · rw [hundone, hcalls, hinitialized, ListContext.failureCalls, he]
            simp [hfinalizer]
          · rw [hcopy (by rw [hinitialized]; exact hdone), hall, htexts]
            rfl
        -- the finalizer's exception comes out instead of the collected one
        · have hne : s'.thrown ≠ none := by
            rw [hthrown]
            exact hfinalizer
          rw [ListContext.afterInit_of_thrown hne]
          refine ⟨?_, hne, fun _ _ hnone => absurd hnone hfinalizer⟩
          rw [hcalls, ListContext.failureCalls, he]
          simp [hfinalizer]

/-- The third of four threads finds no camera. -/
def thirdFails : ListContext (Fin 4) where
  name := "sensors"
  threadName t := "sensor " ++ toString t.val
  throws call := if call = .threadInit 2 then some (.exception ["no camera"]) else none

/-- Four threads of which the third fails. -/
theorem init_rollback_thirdFails :
    ∃ r, thirdFails.init [0, 1, 2, 3] = some r ∧
      r.calls = [.initializerInit 0, .threadInit 0, .initializerInit 1, .threadInit 1,
        .initializerInit 2, .threadInit 2, .notifyOfFailedInit 0, .notifyOfFailedInit 1,
        .notifyOfFailedInit 2, .notifyOfFailedInit 3, .finalizerFinalize 2, .finalizerFinalize 1,
        .threadFinalize 1, .finalizerFinalize 0, .threadFinalize 0] ∧
      r.thrown = some (.cannotInitialize ["Could not initialize thread 'sensor 2'", "no camera"]) ∧
      r.thrown ≠ none := by
  have hc : thirdFails.FinalizerThrowsOnly := fun t e he => nomatch he
  have htest : (thirdFails.init [0, 1, 2, 3]).any fun r => decide (
      r.calls = [.initializerInit 0, .threadInit 0, .initializerInit 1, .threadInit 1,
        .initializerInit 2, .threadInit 2, .notifyOfFailedInit 0, .notifyOfFailedInit 1,
        .notifyOfFailedInit 2, .notifyOfFailedInit 3, .finalizerFinalize 2, .finalizerFinalize 1,
        .threadFinalize 1, .finalizerFinalize 0, .threadFinalize 0] ∧
      r.thrown = some (.cannotInitialize ["Could not initialize thread 'sensor 2'",
        "no camera"])) := by
    decide
  obtain ⟨r, hr, hr'⟩ := (Option.any_eq_true _ _).mp htest
  obtain ⟨hcalls, hthrown⟩ := of_decide_eq_true hr'
  refine ⟨r, hr, hcalls, hthrown, ?_⟩
  rcases (init_rollback hc [0, 1, 2, 3]).2 r hr with ⟨hnone, -⟩ | ⟨_, _, _, -, -, -, -, hne, -⟩
  · exact absurd (.inr (by decide)) (hnone 2 (by simp))
  · exact hne

end GazeboRcll
