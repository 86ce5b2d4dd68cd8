import GazeboRcll.Threading.Thread

/-!
# The finalization of threads

`prepare_finalize` takes three locks, in this order: the one of the hold, the one that keeps the
thread from starving it, and the one that the thread has during an iteration.

* `prepare_finalize_excludes_loop`: no iteration while a thread is being finalized, and no
  finalization while it is held.
* `prepare_finalize_not_stuck`: somebody has what the others wait for, and can go on.
* `overtaken_at_most_once`: how often `prepare_finalize` lets the thread go first.
-/

namespace GazeboRcll

namespace Thread

variable {κ : Type} {t t' : Thread κ}

/-! ## Who has which lock -/

/-- The thread has the loop mutex. -/
def InLoop (t : Thread κ) : Prop :=
  t.pc = .once ∨ t.pc = .looping

structure FinalizeInv (t : Thread κ) : Prop where
  self : t.loopMutex = some .self ↔ t.InLoop
  other : ∀ k, t.loopMutex = some (.other k) ↔ t.prepfinConcLoop = false ∧ t.users k = .user
  antistarve : ∀ k, t.antistarveMutex = some k ↔
    t.prepfinConcLoop = false ∧ (t.users k = .loopLock ∨ t.users k = .user)
  held : ∀ k, t.prepfinHoldMutex = some k ↔
    t.users k = .antistarveLock ∨ t.users k = .loopLock ∨ t.users k = .user
  conc : t.prepfinConcLoop = true → ∀ k, t.users k ≠ .antistarveLock ∧ t.users k ≠ .loopLock
  hold : t.prepfinHoldMutex ≠ none ∨ t.finalizePrepared = true → t.prepfinHold = false
  onHold : ∀ k, t.users k = .onHold → t.prepfinHold = true
  user : t.prepfinConcLoop = false → ∀ k, t.users k = .user → t.finalizePrepared = true
  looping : t.prepfinConcLoop = false → t.pc = .looping → t.finalizePrepared = false
  done : t.pc = .looping → t.loopDone = false
  notDone : t.loopDone = false → t.pc = .looping ∨ t.pc = .afterLoop

/-- Nothing is held in a new thread. -/
theorem finalizeInv_new (name : String) (opMode : OpMode) (prepfinConcLoop : Bool) :
    (new name opMode prepfinConcLoop : Thread κ).FinalizeInv := by
  constructor <;> simp [new, InLoop]

/-- What concerns the finalization only is the same. -/
structure SameFinalize (t t' : Thread κ) : Prop where
  users : t'.users = t.users
  antistarve : t'.antistarveMutex = t.antistarveMutex
  held : t'.prepfinHoldMutex = t.prepfinHoldMutex
  conc : t'.prepfinConcLoop = t.prepfinConcLoop
  prepared : t'.finalizePrepared = t.finalizePrepared
  hold : t'.prepfinHold = t.prepfinHold

/-- What the thread itself does to the loop mutex and to `__loop_done`. -/
inductive LoopCase (t t' : Thread κ) : Prop where
  | locks (hfree : t.loopMutex = none) (hpc' : t'.pc = .once)
      (hlocked : t'.loopMutex = some .self) (hdone : t'.loopDone = t.loopDone)
      (hpc : t.pc = .beforeOnce)
  | iterates (hfree : t.loopMutex = none) (hpc : t.pc = .loopLock)
      (hprepared : t.finalizePrepared = false) (hpc' : t'.pc = .looping)
      (hlocked : t'.loopMutex = some .self) (hdone : t'.loopDone = false)
  | unlocks (hpc : t.InLoop) (hpc' : ¬t'.InLoop) (hafter : t.pc = .looping → t'.pc = .afterLoop)
      (hfree : t'.loopMutex = none) (hdone : t'.loopDone = t.loopDone)
  | goesOn (hpc : ¬t.InLoop) (hpc' : ¬t'.InLoop) (hsame : t'.loopMutex = t.loopMutex)
      (hdone : t'.loopDone = t.loopDone ∧ t.pc ≠ .afterLoop ∨ t'.loopDone = true)

/-- Looking for a wakeup holds no mutex of the finalization. -/
theorem lookForWakeup_spec (t : Thread κ) :
    t.SameFinalize t.lookForWakeup ∧ t.lookForWakeup.loopMutex = t.loopMutex ∧
      t.lookForWakeup.loopDone = t.loopDone ∧
      (t.lookForWakeup.pc = .asleep ∨ t.lookForWakeup.pc = .stopby) := by
  rw [lookForWakeup]
  split_ifs
  · exact ⟨⟨rfl, rfl, rfl, rfl, rfl, rfl⟩, rfl, rfl, .inl rfl⟩
  · exact ⟨⟨rfl, rfl, rfl, rfl, rfl, rfl⟩, rfl, rfl, .inr rfl⟩

/-- A step of `run` leaves the finalizing threads and changes the loop's part only. -/
theorem run_loop (hs : t.run = some t') : t.SameFinalize t' ∧ t.LoopCase t' := by
  have hnot : ∀ {s : Thread κ}, s.pc ≠ .once → s.pc ≠ .looping → ¬s.InLoop :=
    fun h1 h2 h => h.elim h1 h2
  have hrefl : ∀ {s : Thread κ}, s.SameFinalize s := ⟨rfl, rfl, rfl, rfl, rfl, rfl⟩
  rw [Thread.run] at hs
  cases hpc : t.pc with
  | created => simp [hpc] at hs
  | asleep => simp [hpc] at hs
  | entry =>
    simp only [hpc, Option.some.injEq] at hs
    rw [← hs]
    exact ⟨⟨rfl, rfl, rfl, rfl, rfl, rfl⟩, .goesOn (hnot (by simp [hpc]) (by simp [hpc]))
      (hnot (by simp) (by simp)) rfl (.inl ⟨rfl, by simp [hpc]⟩)⟩
  | beforeOnce =>
    simp only [hpc, Option.ite_none_right_eq_some, Option.some.injEq] at hs
    obtain ⟨hfree, rfl⟩ := hs
    exact ⟨⟨rfl, rfl, rfl, rfl, rfl, rfl⟩, .locks hfree rfl rfl rfl hpc⟩
  | once =>
    simp only [hpc, Option.some.injEq] at hs
    rw [← hs]
    split_ifs
    -- after `once` a waiting thread looks for its first wakeup
    · obtain ⟨hsame, hmutex, hdone, hpc'⟩ :=
        lookForWakeup_spec { t with loopMutex := none, pc := .once }
      refine ⟨⟨hsame.users, hsame.antistarve, hsame.held, hsame.conc, hsame.prepared, hsame.hold⟩,
        .unlocks (.inl hpc) ?_ (by simp [hpc]) hmutex hdone⟩
      rcases hpc' with hpc' | hpc' <;> exact hnot (by rw [hpc']; simp) (by rw [hpc']; simp)
    · exact ⟨⟨rfl, rfl, rfl, rfl, rfl, rfl⟩,
        .unlocks (.inl hpc) (hnot (by simp) (by simp)) (by simp [hpc]) rfl rfl⟩
  | woken =>
    simp only [hpc, Option.some.injEq] at hs
    rw [← hs]
    obtain ⟨hsame, hmutex, hdone, hpc'⟩ := lookForWakeup_spec t
    refine ⟨hsame, .goesOn (hnot (by simp [hpc]) (by simp [hpc])) ?_ hmutex
      (.inl ⟨hdone, by simp [hpc]⟩)⟩
    rcases hpc' with hpc' | hpc' <;> exact hnot (by rw [hpc']; simp) (by rw [hpc']; simp)
  | stopby =>
    simp only [hpc, Option.ite_none_right_eq_some, Option.some.injEq] at hs
    rw [← hs.2]
    exact ⟨⟨rfl, rfl, rfl, rfl, rfl, rfl⟩, .goesOn (hnot (by simp [hpc]) (by simp [hpc]))
      (hnot (by simp) (by simp)) rfl (.inl ⟨rfl, by simp [hpc]⟩)⟩
  | loopLock =>
    simp only [hpc, Option.ite_none_right_eq_some, Option.some.injEq] at hs
    obtain ⟨hfree, rfl⟩ := hs
    -- a thread that finds the finalization prepared skips the iteration
    split_ifs with hprepared
    · exact ⟨⟨rfl, rfl, rfl, rfl, rfl, rfl⟩, .goesOn (hnot (by simp [hpc]) (by simp [hpc]))
        (hnot (by simp) (by simp)) rfl (.inl ⟨rfl, by simp [hpc]⟩)⟩
    · exact ⟨⟨rfl, rfl, rfl, rfl, rfl, rfl⟩,
        .iterates hfree hpc (by simpa using hprepared) rfl rfl rfl⟩
  | looping =>
    simp only [hpc, Option.some.injEq] at hs
    rw [← hs]
    exact ⟨⟨rfl, rfl, rfl, rfl, rfl, rfl⟩,
      .unlocks (.inr hpc) (hnot (by simp) (by simp)) (fun _ => rfl) rfl rfl⟩
  | afterLoop =>
    simp only [hpc, Option.some.injEq] at hs
    rw [← hs]
    refine ⟨⟨rfl, rfl, rfl, rfl, rfl, rfl⟩, .goesOn (hnot (by simp [hpc]) (by simp [hpc])) ?_ rfl
      (.inr rfl)⟩
    cases t.opMode <;> exact hnot (by simp) (by simp)
  | readBarrier =>
    simp only [hpc, Option.some.injEq] at hs
    rw [← hs]
    refine ⟨⟨rfl, rfl, rfl, rfl, rfl, rfl⟩, .goesOn (hnot (by simp [hpc]) (by simp [hpc])) ?_ rfl
      (.inl ⟨rfl, by simp [hpc]⟩)⟩
    cases t.barrier <;> exact hnot (by simp) (by simp)
  | takeBarrier =>
    simp only [hpc, Option.map_eq_some_iff] at hs
    obtain ⟨b, -, rfl⟩ := hs
    exact ⟨⟨rfl, rfl, rfl, rfl, rfl, rfl⟩, .goesOn (hnot (by simp [hpc]) (by simp [hpc]))
      (hnot (by simp) (by simp)) rfl (.inl ⟨rfl, by simp [hpc]⟩)⟩
  | atBarrier b =>
    simp only [hpc, Option.some.injEq] at hs
    rw [← hs]
    exact ⟨⟨rfl, rfl, rfl, rfl, rfl, rfl⟩, .goesOn (hnot (by simp [hpc]) (by simp [hpc]))
      (hnot (by simp) (by simp)) rfl (.inl ⟨rfl, by simp [hpc]⟩)⟩

/-- The loop keeps the invariant. -/
theorem FinalizeInv.run (h : t.FinalizeInv) (hsame : t.SameFinalize t') (hs : t.LoopCase t') :
    t'.FinalizeInv := by
  -- a free loop mutex goes to the thread, so no user has it before or after
  have hother : ∀ m, t'.loopMutex = m → m ≠ none → (∀ k, m ≠ some (.other k)) →
      t.loopMutex = none → ∀ k, t'.loopMutex = some (.other k) ↔
        t'.prepfinConcLoop = false ∧ t'.users k = .user := by
    rintro m hm - hself hfree k
    rw [hsame.conc, hsame.users, ← h.other k, hfree, hm]
    exact iff_of_false (hself k) (by simp)
  refine ⟨?_, ?_, fun k => ?_, fun k => ?_, ?_, ?_, ?_, ?_, ?_, ?_, ?_⟩
  · cases hs with
    | locks hfree hpc' hlocked hdone hpc => exact iff_of_true hlocked (.inl hpc')
    | iterates hfree hpc hnot hpc' hlocked hdone => exact iff_of_true hlocked (.inr hpc')
    | unlocks hpc hpc' hafter hfree hdone => exact iff_of_false (by simp [hfree]) hpc'
    | goesOn hpc hpc' hmutex hdone =>
      rw [hmutex, h.self]
      exact iff_of_false hpc hpc'
  · intro k
    cases hs with
    | locks hfree hpc' hlocked hdone hpc =>
      exact hother _ hlocked (by simp) (by simp) hfree k
    | iterates hfree hpc hnot hpc' hlocked hdone =>
      exact hother _ hlocked (by simp) (by simp) hfree k
    | unlocks hpc hpc' hafter hfree hdone =>
      have hself := h.self.mpr hpc
      rw [hsame.conc, hsame.users, ← h.other k, hfree, hself]
      simp
    | goesOn hpc hpc' hmutex hdone =>
      rw [hmutex, hsame.conc, hsame.users]
      exact h.other k
  -- what concerns the users only is not touched
  · rw [hsame.antistarve, hsame.conc, hsame.users]
    exact h.antistarve k
  · rw [hsame.held, hsame.users]
    exact h.held k
  · rw [hsame.conc, hsame.users]
    exact h.conc
  · rw [hsame.held, hsame.prepared, hsame.hold]
    exact h.hold
  · rw [hsame.users, hsame.hold]
    exact h.onHold
  · rw [hsame.conc, hsame.users, hsame.prepared]
    exact h.user
  -- the iteration begins only with the flag down
  · intro _ hp
    cases hs with
    | iterates hfree hpc hnot hpc' hlocked hdone => exact hsame.prepared.trans hnot
    | locks hfree hpc' hlocked hdone hpc => simp [hp] at hpc'
    | unlocks hpc hpc' hafter hfree hdone => exact absurd (.inr hp) hpc'
    | goesOn hpc hpc' hmutex hdone => exact absurd (.inr hp) hpc'
  · intro hp
    cases hs with
    | iterates hfree hpc hnot hpc' hlocked hdone => exact hdone
    | locks hfree hpc' hlocked hdone hpc => simp [hp] at hpc'
    | unlocks hpc hpc' hafter hfree hdone => exact absurd (.inr hp) hpc'
    | goesOn hpc hpc' hmutex hdone => exact absurd (.inr hp) hpc'
  -- from the iteration the thread goes to `afterLoop`, and nowhere else
  · intro hd
    cases hs with
    | iterates hfree hpc hnot hpc' hlocked hdone => exact .inl hpc'
    | locks hfree hpc' hlocked hdone hpc =>
      rcases h.notDone (hdone ▸ hd) with hp | hp <;> simp [hpc] at hp
    | unlocks hpc hpc' hafter hfree hdone =>
      rcases h.notDone (hdone ▸ hd) with hp | hp
      · exact .inr (hafter hp)
      · rcases hpc with hpc | hpc <;> simp [hpc] at hp
    | goesOn hpc hpc' hmutex hdone =>
      rcases hdone with ⟨hdone, hnot⟩ | hdone
      · rcases h.notDone (hdone ▸ hd) with hp | hp
        · exact absurd (.inr hp) hpc
        · exact absurd hp hnot
      · rw [hdone] at hd
        cases hd

/-- A user that has no lock before or after its step. -/
theorem FinalizeInv.congr (h : t.FinalizeInv) (hpc : t'.pc = t.pc)
    (hdone : t'.loopDone = t.loopDone) (hmutex : t'.loopMutex = t.loopMutex)
    (hantistarve : t'.antistarveMutex = t.antistarveMutex)
    (hheld : t'.prepfinHoldMutex = t.prepfinHoldMutex)
    (hconc : t'.prepfinConcLoop = t.prepfinConcLoop)
    (husers : ∀ k p, p = .antistarveLock ∨ p = .loopLock ∨ p = .user →
      (t'.users k = p ↔ t.users k = p))
    (hhold : t'.prepfinHoldMutex ≠ none ∨ t'.finalizePrepared = true → t'.prepfinHold = false)
    (honHold : ∀ k, t'.users k = .onHold → t'.prepfinHold = true)
    (hprepared : t'.finalizePrepared = t.finalizePrepared ∨
      t.loopMutex = none ∧ t'.finalizePrepared = false) : t'.FinalizeInv := by
  -- only these three places of a user are tied to a mutex
  have hantistarveLock := fun k => husers k .antistarveLock (.inl rfl)
  have hloopLock := fun k => husers k .loopLock (.inr (.inl rfl))
  have huser := fun k => husers k .user (.inr (.inr rfl))
  refine ⟨?_, fun k => ?_, fun k => ?_, fun k => ?_, ?_, hhold, honHold, fun hc k hk => ?_,
    fun hc hp => ?_, ?_, ?_⟩
  · rw [InLoop, hmutex, hpc]
    exact h.self
  · rw [hmutex, hconc, huser]
    exact h.other k
  · rw [hantistarve, hconc, hloopLock, huser]
    exact h.antistarve k
  · rw [hheld, hantistarveLock, hloopLock, huser]
    exact h.held k
  · intro hc k
    rw [ne_eq, ne_eq, hantistarveLock, hloopLock]
    exact h.conc (hconc ▸ hc) k
  · rw [hconc] at hc
    rw [huser] at hk
    rcases hprepared with hsame | ⟨hfree, -⟩
    · exact hsame.trans (h.user hc k hk)
    -- a user inside holds the loop mutex, so the flag was not taken back
    · rw [(h.other k).mpr ⟨hc, hk⟩] at hfree
      cases hfree
  · rcases hprepared with hsame | ⟨-, hfalse⟩
    · exact hsame.trans (h.looping (hconc ▸ hc) (hpc ▸ hp))
    · exact hfalse
  · rw [hpc, hdone]
    exact h.done
  · rw [hpc, hdone]
    exact h.notDone

variable [DecidableEq κ] {k : κ}

/-- Only the thread that moves changes its place. -/
theorem goTo_users (t : Thread κ) (k u : κ) (p : FinalizePc) :
    (t.goTo k p).users u = if u = k then p else t.users u :=
  Function.update_apply _ _ _ _

/-- A user that gets locks or gives them back. -/
theorem FinalizeInv.goTo {s : Thread κ} {p : FinalizePc} (h : t.FinalizeInv)
    (hsame : s.pc = t.pc ∧ s.loopDone = t.loopDone ∧ s.prepfinConcLoop = t.prepfinConcLoop ∧
      s.users = t.users)
    (hloop : ∀ m, m ≠ .other k → (s.loopMutex = some m ↔ t.loopMutex = some m))
    (hantistarve : ∀ u, u ≠ k → (s.antistarveMutex = some u ↔ t.antistarveMutex = some u))
    (hheld : ∀ u, u ≠ k → (s.prepfinHoldMutex = some u ↔ t.prepfinHoldMutex = some u))
    (hown : (s.loopMutex = some (.other k) ↔ t.prepfinConcLoop = false ∧ p = .user) ∧
      (s.antistarveMutex = some k ↔ t.prepfinConcLoop = false ∧ (p = .loopLock ∨ p = .user)) ∧
      (s.prepfinHoldMutex = some k ↔ p = .antistarveLock ∨ p = .loopLock ∨ p = .user))
    (hconc : t.prepfinConcLoop = true → p ≠ .antistarveLock ∧ p ≠ .loopLock)
    (hhold : t.prepfinHold = false ∧ s.prepfinHold = false) (hp : p ≠ .onHold)
    (hprepared : t.prepfinConcLoop = false → s.finalizePrepared = t.finalizePrepared ∧ p ≠ .user ∨
      t.loopMutex = none ∧ s.finalizePrepared = true) : (s.goTo k p).FinalizeInv := by
  obtain ⟨hpc, hdone, hconc', husers⟩ := hsame
  obtain ⟨hownLoop, hownAntistarve, hownHeld⟩ := hown
  refine ⟨?_, fun u => ?_, fun u => ?_, fun u => ?_, fun hc u => ?_, fun _ => hhold.2,
    fun u hu => ?_, fun hc u hu => ?_, fun hc hlooping => ?_, ?_, ?_⟩
  -- the thread's own hold of the loop mutex
  · show s.loopMutex = some .self ↔ s.pc = .once ∨ s.pc = .looping
    rw [hloop .self (by simp), hpc]
    exact h.self
  -- each of the three mutexes: what `k` holds is given, the others keep theirs
  · show s.loopMutex = some (.other u) ↔ s.prepfinConcLoop = false ∧ (s.goTo k p).users u = .user
    rw [goTo_users, hconc', husers]
    by_cases huk : u = k
    · rw [huk, if_pos rfl]
      exact hownLoop
    · rw [if_neg huk, hloop _ (by simpa using huk)]
      exact h.other u
  · show s.antistarveMutex = some u ↔ s.prepfinConcLoop = false ∧
      ((s.goTo k p).users u = .loopLock ∨ (s.goTo k p).users u = .user)
    rw [goTo_users, hconc', husers]
    by_cases huk : u = k
    · rw [huk, if_pos rfl]
      exact hownAntistarve
    · rw [if_neg huk, hantistarve u huk]
      exact h.antistarve u
  · show s.prepfinHoldMutex = some u ↔ _
    rw [goTo_users, husers]
    by_cases huk : u = k
    · rw [huk, if_pos rfl]
      exact hownHeld
    · rw [if_neg huk, hheld u huk]
      exact h.held u
  · have hc' : t.prepfinConcLoop = true := hconc'.symm.trans hc
    rw [goTo_users, husers]
    by_cases huk : u = k
    · rw [if_pos huk]
      exact hconc hc'
    · rw [if_neg huk]
      exact h.conc hc' u
  -- nobody else is on hold, since `k` has found no hold
  · rw [goTo_users, husers] at hu
    by_cases huk : u = k
    · exact absurd (by simpa [huk] using hu) hp
    · rw [if_neg huk] at hu
      have htrue := h.onHold u hu
      rw [hhold.1] at htrue
      cases htrue
  · have hc' : t.prepfinConcLoop = false := hconc'.symm.trans hc
    show s.finalizePrepared = true
    rw [goTo_users, husers] at hu
    rcases hprepared hc' with ⟨hsame, hnot⟩ | ⟨-, htrue⟩
    · by_cases huk : u = k
      · exact absurd (by simpa [huk] using hu) hnot
      · rw [if_neg huk] at hu
        exact hsame.trans (h.user hc' u hu)
    · exact htrue
  · have hc' : t.prepfinConcLoop = false := hconc'.symm.trans hc
    have hin : t.pc = .looping := hpc.symm.trans hlooping
    show s.finalizePrepared = false
    rcases hprepared hc' with ⟨hsame, -⟩ | ⟨hfree, -⟩
    · exact hsame.trans (h.looping hc' hin)
    · rw [h.self.mpr (.inr hin)] at hfree
      cases hfree
  · show s.pc = .looping → s.loopDone = false
    rw [hpc, hdone]
    exact h.done
  · show s.loopDone = false → s.pc = .looping ∨ s.pc = .afterLoop
    rw [hpc, hdone]
    exact h.notDone

omit [DecidableEq κ] in
/-- Who has the first lock of the three keeps the hold away. -/
theorem FinalizeInv.not_held (h : t.FinalizeInv)
    (hk : t.users k = .antistarveLock ∨ t.users k = .loopLock ∨ t.users k = .user) :
    t.prepfinHold = false :=
  h.hold (.inl (by rw [(h.held k).mpr hk]; simp))

/-- A user without a lock goes on to where it has none. -/
theorem FinalizeInv.goTo_free {p : FinalizePc} (h : t.FinalizeInv)
    (hk : t.users k ≠ .antistarveLock ∧ t.users k ≠ .loopLock ∧ t.users k ≠ .user)
    (hp : p ≠ .antistarveLock ∧ p ≠ .loopLock ∧ p ≠ .user)
    (honHold : p = .onHold → t.prepfinHold = true) : (t.goTo k p).FinalizeInv := by
  refine h.congr rfl rfl rfl rfl rfl rfl (fun u q hq => ?_) h.hold (fun u hu => ?_) (.inl rfl)
  · rw [goTo_users]
    by_cases huk : u = k
    · rw [if_pos huk, huk]
      rcases hq with rfl | rfl | rfl
      · exact iff_of_false hp.1 hk.1
      · exact iff_of_false hp.2.1 hk.2.1
      · exact iff_of_false hp.2.2 hk.2.2
    · rw [if_neg huk]
  · rw [goTo_users] at hu
    by_cases huk : u = k
    · exact honHold (by simpa [huk] using hu)
    · rw [if_neg huk] at hu
      exact h.onHold u hu

/-- A step of a finalizing thread keeps the invariant. -/
theorem FinalizeInv.advance (h : t.FinalizeInv) (hs : t.advance k = some t') :
    t'.FinalizeInv := by
  have hother := h.other k
  have hantistarve := h.antistarve k
  rw [Thread.advance] at hs
  cases hk : t.users k with
  | idle => simp [hk] at hs
  -- on hold only a broadcast or a spurious wakeup moves the user
  | onHold => simp [hk] at hs
  | holdLock =>
    simp only [hk, Option.ite_none_right_eq_some] at hs
    obtain ⟨hfree, hs⟩ := hs
    have hnotOther : t.loopMutex ≠ some (.other k) := hother.not.mpr (by simp [hk])
    have hnotAntistarve : t.antistarveMutex ≠ some k := hantistarve.not.mpr (by simp [hk])
    split_ifs at hs with hhold hconc
    -- still held: back to sleep, giving `prepfin_hold_mutex` up
    · obtain rfl := Option.some.inj hs
      exact h.goTo_free (by simp [hk]) (by simp) fun _ => hhold
    · -- the other two locks are not used
      obtain rfl := Option.some.inj hs
      have hnot : t.prepfinHold = false := by simpa using hhold
      refine h.goTo ⟨rfl, rfl, rfl, rfl⟩ (fun _ _ => Iff.rfl) (fun _ _ => Iff.rfl)
        (fun u hu => ?_) ⟨?_, ?_, ?_⟩ ?_ ⟨hnot, hnot⟩ (by simp) fun hc => ?_
      · simp [hfree, hu.symm]
      · simp [hnotOther, hconc]
      · simp [hnotAntistarve, hconc]
      · simp
      · simp
      · rw [hconc] at hc
        cases hc
    · obtain rfl := Option.some.inj hs
      have hnot : t.prepfinHold = false := by simpa using hhold
      refine h.goTo ⟨rfl, rfl, rfl, rfl⟩ (fun _ _ => Iff.rfl) (fun _ _ => Iff.rfl)
        (fun u hu => ?_) ⟨?_, ?_, ?_⟩ (fun hc => absurd hc hconc) ⟨hnot, hnot⟩ (by simp)
        fun _ => .inl ⟨rfl, by simp⟩
      · simp [hfree, hu.symm]
      · simp [hnotOther]
      · simp [hnotAntistarve]
      · simp
  | antistarveLock =>
    simp only [hk, Option.ite_none_right_eq_some, Option.some.injEq] at hs
    obtain ⟨hfree, rfl⟩ := hs
    -- no hold is set while `prepfin_hold_mutex` is taken
    have hnot := h.not_held (.inl hk)
    have hconc : t.prepfinConcLoop = false := by
      cases hc : t.prepfinConcLoop with
      | true => exact absurd hk (h.conc hc k).1
      | false => rfl
    refine h.goTo ⟨rfl, rfl, rfl, rfl⟩ (fun _ _ => Iff.rfl) (fun u hu => ?_) (fun _ _ => Iff.rfl)
      ⟨?_, ?_, ?_⟩ ?_ ⟨hnot, hnot⟩ (by simp) fun _ => .inl ⟨rfl, by simp⟩
    · simp [hfree, hu.symm]
    · simpa [hk] using hother
    · simp [hconc]
    · simp [(h.held k).mpr (.inl hk)]
    · simp [hconc]
  | loopLock =>
    simp only [hk, Option.ite_none_right_eq_some, Option.some.injEq] at hs
    obtain ⟨hfree, rfl⟩ := hs
    have hnot := h.not_held (.inr (.inl hk))
    have hconc : t.prepfinConcLoop = false := by
      cases hc : t.prepfinConcLoop with
      | true => exact absurd hk (h.conc hc k).2
      | false => rfl
    refine h.goTo ⟨rfl, rfl, rfl, rfl⟩ (fun m hm => ?_) (fun _ _ => Iff.rfl) (fun _ _ => Iff.rfl)
      ⟨?_, ?_, ?_⟩ ?_ ⟨hnot, hnot⟩ (by simp) fun _ => .inr ⟨hfree, rfl⟩
    · simp [hfree, hm.symm]
    · simp [hconc]
    · simp [hantistarve.mpr ⟨hconc, .inl hk⟩, hconc]
    · simp [(h.held k).mpr (.inr (.inl hk))]
    · simp [hconc]
  | user =>
    simp only [hk, Option.some.injEq] at hs
    obtain rfl := hs
    have hnot := h.not_held (.inr (.inr hk))
    have hheld := (h.held k).mpr (.inr (.inr hk))
    split_ifs with hconc
    -- with `prepfin_conc_loop` only the hold was locked
    · refine h.goTo ⟨rfl, rfl, rfl, rfl⟩ (fun _ _ => Iff.rfl) (fun _ _ => Iff.rfl)
        (fun u hu => ?_) ⟨?_, ?_, ?_⟩ (by simp) ⟨hnot, hnot⟩ (by simp)
        fun _ => .inl ⟨rfl, by simp⟩
      · simp [hheld, hu.symm]
      · simpa [hconc] using hother
      · simpa [hconc] using hantistarve
      · simp
    · have hfalse : t.prepfinConcLoop = false := by simpa using hconc
      have hloop := hother.mpr ⟨hfalse, hk⟩
      have hstarve := hantistarve.mpr ⟨hfalse, .inr hk⟩
      refine h.goTo ⟨rfl, rfl, rfl, rfl⟩ (fun m hm => ?_) (fun u hu => ?_)
        (fun u hu => ?_) ⟨?_, ?_, ?_⟩ (by simp) ⟨hnot, hnot⟩ (by simp)
        fun _ => .inl ⟨rfl, by simp⟩
      · simp [hloop, hm.symm]
      · simp [hstarve, hu.symm]
      · simp [hheld, hu.symm]
      · simp
      · simp
      · simp
  | cancelLock =>
    -- `cancel_finalize` takes its flag back under the loop mutex
    simp only [hk, Option.ite_none_right_eq_some, Option.some.injEq] at hs
    obtain ⟨hfree, rfl⟩ := hs
    have hidle : (t.goTo k .idle).FinalizeInv := h.goTo_free (by simp [hk]) (by simp) (by simp)
    exact hidle.congr rfl rfl rfl rfl rfl rfl (fun _ _ _ => Iff.rfl)
      (fun hheld => hheld.elim (fun hheld => hidle.hold (.inl hheld)) fun hfalse => by cases hfalse)
      hidle.onHold (.inr ⟨hfree, rfl⟩)

omit [DecidableEq κ] in
/-- Setting the hold while nobody looks at it keeps the invariant. -/
theorem FinalizeInv.setPrepfinHold (h : t.FinalizeInv) {hold : Bool}
    (hfree : t.prepfinHoldMutex = none) : (t.orSame (t.setPrepfinHold hold)).FinalizeInv := by
  rw [Thread.setPrepfinHold]
  split_ifs with hthrows
  · exact h
  · refine h.congr rfl rfl rfl rfl rfl rfl (fun u p hp => ?_) (fun hprepared => ?_) (fun u hu => ?_)
      (.inl rfl)
    · by_cases hwakes : hold = false ∧ t.users u = .onHold
      · rcases hp with rfl | rfl | rfl <;> simp [orSame, hwakes]
      · simp [orSame, hwakes]
    · cases hold with
      | false => rfl
      | true =>
        rcases hprepared with hheld | hprepared
        · exact absurd hfree hheld
        · exact absurd ⟨rfl, hprepared⟩ hthrows
    · cases hold with
      | true => rfl
      | false =>
        by_cases hsleeps : t.users u = .onHold <;> simp [orSame, hsleeps] at hu

omit [DecidableEq κ] in
/-- A notification takes and releases no mutex. -/
theorem notify_finalize (t : Thread κ) :
    t.SameFinalize t.notify ∧ t.notify.loopMutex = t.loopMutex ∧ t.notify.loopDone = t.loopDone ∧
      (t.notify.pc = t.pc ∨ t.pc = .asleep ∧ t.notify.pc = .woken) := by
  rw [notify]
  split_ifs with hwaiting hpc
  · exact ⟨⟨rfl, rfl, rfl, rfl, rfl, rfl⟩, rfl, rfl, .inr ⟨hpc, rfl⟩⟩
  · exact ⟨⟨rfl, rfl, rfl, rfl, rfl, rfl⟩, rfl, rfl, .inl rfl⟩
  · exact ⟨⟨rfl, rfl, rfl, rfl, rfl, rfl⟩, rfl, rfl, .inl rfl⟩

omit [DecidableEq κ] in
/-- A wakeup does not touch anything that the finalization looks at. -/
theorem FinalizeInv.move (h : t.FinalizeInv) (hsame : t.SameFinalize t')
    (hmutex : t'.loopMutex = t.loopMutex) (hdone : t'.loopDone = t.loopDone)
    (hpc : t'.pc = t.pc ∨ (t.pc = .created ∨ t.pc = .asleep) ∧ (t'.pc = .entry ∨ t'.pc = .woken)) :
    t'.FinalizeInv := by
  rcases hpc with hpc | ⟨hpc, hpc'⟩
  · exact h.congr hpc hdone hmutex hsame.antistarve hsame.held hsame.conc
      (fun k p _ => by rw [hsame.users])
      (by rw [hsame.held, hsame.prepared, hsame.hold]; exact h.hold)
      (by rw [hsame.users, hsame.hold]; exact h.onHold) (.inl hsame.prepared)
  · refine h.run hsame (.goesOn (fun hin => ?_) (fun hin => ?_) hmutex (.inl ⟨hdone, ?_⟩))
    · rcases hpc with hpc | hpc <;> simp [InLoop, hpc] at hin
    · rcases hpc' with hpc' | hpc' <;> simp [InLoop, hpc'] at hin
    · rcases hpc with hpc | hpc <;> simp [hpc]

/-- Every step of the thread and of its users keeps the invariant. -/
theorem FinalizeInv.step {l : ThreadStep κ} (hcreated : t.started = false → t.pc = .created)
    (h : t.FinalizeInv) (hs : t.step l = some t') : t'.FinalizeInv := by
  cases l with
  | start =>
    simp only [Thread.step, Option.ite_none_left_eq_some, Option.some.injEq] at hs
    obtain ⟨hstarted, rfl⟩ := hs
    exact h.move ⟨rfl, rfl, rfl, rfl, rfl, rfl⟩ rfl rfl
      (.inr ⟨.inl (hcreated (by simpa using hstarted)), .inl rfl⟩)
  -- the thread's own step
  | run =>
    obtain ⟨hsame, hcase⟩ := run_loop hs
    exact h.run hsame hcase
  | spurious =>
    simp only [Thread.step, Option.ite_none_right_eq_some, Option.some.injEq] at hs
    obtain ⟨hasleep, rfl⟩ := hs
    exact h.move ⟨rfl, rfl, rfl, rfl, rfl, rfl⟩ rfl rfl (.inr ⟨.inr hasleep, .inr rfl⟩)
  | wakeup =>
    simp only [Thread.step, Option.ite_none_left_eq_some, Option.some.injEq] at hs
    obtain ⟨-, rfl⟩ := hs
    cases hw : t.wakeup with
    | error e => exact h
    | ok s =>
      rcases wakeup_ok hw with ⟨-, rfl⟩ | ⟨-, -, rfl⟩
      · exact h
      · obtain ⟨hsame, hmutex, hdone, hpc⟩ := notify_finalize { t with
          pendingWakeups := if t.coalesceWakeups then 1 else (t.pendingWakeups + 1) % 2 ^ 32 }
        exact h.move ⟨hsame.users, hsame.antistarve, hsame.held, hsame.conc, hsame.prepared,
          hsame.hold⟩ hmutex hdone (hpc.imp id fun hpc => ⟨.inr hpc.1, .inr hpc.2⟩)
  | wakeupBarrier barrier =>
    simp only [Thread.step, Option.ite_none_left_eq_some, Option.some.injEq] at hs
    obtain ⟨-, rfl⟩ := hs
    cases hw : t.wakeupBarrier barrier with
    | error e => exact h
    | ok s =>
      rcases wakeupBarrier_ok hw with ⟨-, rfl⟩ | ⟨-, -, -, rfl⟩
      · exact h
      · obtain ⟨hsame, hmutex, hdone, hpc⟩ := notify_finalize { t with
          pendingWakeups := (t.pendingWakeups + 1) % 2 ^ 32
          barrier := barrier }
        exact h.move ⟨hsame.users, hsame.antistarve, hsame.held, hsame.conc, hsame.prepared,
          hsame.hold⟩ hmutex hdone (hpc.imp id fun hpc => ⟨.inr hpc.1, .inr hpc.2⟩)
  | setCoalesceWakeups coalesce =>
    simp only [Thread.step, Option.ite_none_left_eq_some, Option.some.injEq] at hs
    obtain ⟨-, rfl⟩ := hs
    exact h.move ⟨rfl, rfl, rfl, rfl, rfl, rfl⟩ rfl rfl (.inl rfl)
  | setPrepfinHold hold =>
    simp only [Thread.step, Option.ite_none_right_eq_some, Option.some.injEq] at hs
    obtain ⟨hfree, rfl⟩ := hs
    exact h.setPrepfinHold hfree
  | prepareFinalize k =>
    simp only [Thread.step, prepareFinalize, Option.ite_none_right_eq_some,
      Option.some.injEq] at hs
    obtain ⟨hidle, rfl⟩ := hs
    split_ifs
    · exact h
    · exact h
    · exact h.goTo_free (by simp [hidle]) (by simp) (by simp)
  | cancelFinalize k =>
    simp only [Thread.step, cancelFinalize, Option.ite_none_right_eq_some,
      Option.some.injEq] at hs
    obtain ⟨hidle, rfl⟩ := hs
    split_ifs
    · exact h
    · exact h.goTo_free (by simp [hidle]) (by simp) (by simp)
  | advance k => exact h.advance hs
  | holdSpurious k =>
    simp only [Thread.step, Option.ite_none_right_eq_some, Option.some.injEq] at hs
    obtain ⟨honHold, rfl⟩ := hs
    exact h.goTo_free (by simp [honHold]) (by simp) (by simp)

end Thread

open Thread

variable {κ : Type} [DecidableEq κ] {t : Thread κ}

/-- The invariant holds in every run. -/
theorem finalizeInv_of_reachable (h : (threadSystem κ).Reachable t) : t.FinalizeInv := by
  have hkept : (t.started = false → t.pc = .created) ∧ t.FinalizeInv := by
    refine LTS.Reach.invariant (P := fun t => (t.started = false → t.pc = .created) ∧
      Thread.FinalizeInv t) ?_ ?_ h
    · rintro t ⟨name, opMode, prepfinConcLoop, rfl⟩
      exact ⟨fun _ => rfl, finalizeInv_new name opMode prepfinConcLoop⟩
    · rintro t l t' ⟨hcreated, hinv⟩ - hs
      exact ⟨(step_frame hs).2.2 hcreated, hinv.step hcreated hs⟩
  exact hkept.2

/-- While somebody is in `prepare_finalize_user` nobody else is and the thread is not held, and
unless they may be concurrent the thread is in no iteration; once that has been called, no
iteration is going on until it is taken back. -/
theorem prepare_finalize_excludes_loop (h : (threadSystem κ).Reachable t) :
    (∀ k, t.users k = .user → t.prepfinHold = false ∧ ∀ k', t.users k' = .user → k' = k) ∧
      (t.finalizePrepared = true → t.prepfinHold = false) ∧
      (t.prepfinConcLoop = false → ∀ k, t.users k = .user →
        t.finalizePrepared = true ∧ t.pc ≠ .once ∧ t.pc ≠ .looping) ∧
      (t.prepfinConcLoop = false → t.finalizePrepared = true → t.pc ≠ .looping) ∧
      (t.loopDone = true → t.pc ≠ .looping) := by
  have hinv := finalizeInv_of_reachable h
  refine ⟨fun k hk => ⟨hinv.not_held (.inr (.inr hk)), fun k' hk' => ?_⟩,
    fun hprepared => hinv.hold (.inr hprepared), fun hconc k hk => ⟨hinv.user hconc k hk, ?_⟩,
    fun hconc hprepared hpc => ?_, fun hdone hpc => ?_⟩
  · -- both have the lock of the hold
    have hheld := (hinv.held k).mpr (.inr (.inr hk))
    have hheld' := (hinv.held k').mpr (.inr (.inr hk'))
    rw [hheld] at hheld'
    exact (Option.some.inj hheld').symm
  · have hmutex := (hinv.other k).mpr ⟨hconc, hk⟩
    have hnot : ¬t.InLoop := by
      intro hin
      rw [hinv.self.mpr hin] at hmutex
      cases hmutex
    exact ⟨fun hpc => hnot (.inl hpc), fun hpc => hnot (.inr hpc)⟩
  · rw [hinv.looping hconc hpc] at hprepared
    cases hprepared
  · rw [hinv.done hpc] at hdone
    cases hdone

/-- The thread is woken, and finalized after its iteration while it is woken again. -/
def finalizedOnce : List (ThreadStep Bool) :=
  [.start, .run, .run, .run, .wakeup, .run, .run, .run, .prepareFinalize true, .advance true,
    .advance true, .run, .advance true, .wakeup]

/-- A user inside the finalization with a wakeup pending. -/
theorem prepare_finalize_excludes_loop_finalizedOnce :
    ∃ t, (threadSystem Bool).Reachable t ∧ t.users true = .user ∧ t.pendingWakeups = 1 ∧
      t.finalizePrepared = true ∧ t.pc ≠ .once ∧ t.pc ≠ .looping := by
  obtain ⟨t, hreach, hp⟩ := LTS.exists_reachable
    (T := threadSystem Bool) (s := new "" .waitForWakeup false) (l := finalizedOnce)
    (p := fun t => decide (t.users true = .user ∧ t.pendingWakeups = 1 ∧
      t.prepfinConcLoop = false)) ⟨_, _, _, rfl⟩ (by decide)
  obtain ⟨huser, hone, hconc⟩ := of_decide_eq_true hp
  exact ⟨t, hreach, huser, hone, (prepare_finalize_excludes_loop hreach).2.2.1 hconc true huser⟩

/-! ## Progress -/

/-- How many iterations have begun since somebody got `loopinterrupt_antistarve_mutex`. -/
def overtakes : Monitor (Thread κ) (ThreadStep κ) ℕ where
  start _ := 0
  observe n t l t' :=
    match l with
    | .run => if t'.pc = .looping then n + 1 else n
    | .advance k => if t.users k = .antistarveLock then 0 else n
    | _ => n

namespace Thread

variable {t' : Thread κ} {n : ℕ}

/-- One iteration at most, and then the thread does not get any further. -/
def Overtaken (t : Thread κ) (n : ℕ) : Prop :=
  t.antistarveMutex ≠ none → n = 0 ∨ n = 1 ∧ t.pc ≠ .loopLock

omit [DecidableEq κ] in
/-- The thread comes to the loop mutex only while nobody wants to interrupt it. -/
theorem run_loopLock (hs : t.run = some t') (hpc' : t'.pc = .loopLock) :
    t.antistarveMutex = none := by
  rw [run] at hs
  cases hpc : t.pc with
  | created => simp [hpc] at hs
  | asleep => simp [hpc] at hs
  | stopby =>
    -- the one step to the loop mutex: it passes through the antistarve mutex
    simp only [hpc, Option.ite_none_right_eq_some] at hs
    exact hs.1
  | once =>
    simp only [hpc, Option.some.injEq] at hs
    rw [← hs] at hpc'
    split_ifs at hpc'
    rcases (lookForWakeup_spec { t with loopMutex := none, pc := .once }).2.2.2 with hp | hp <;>
      simp [hp] at hpc'
  | woken =>
    simp only [hpc, Option.some.injEq] at hs
    rw [← hs] at hpc'
    rcases (lookForWakeup_spec t).2.2.2 with hp | hp <;> simp [hp] at hpc'
  | takeBarrier =>
    simp only [hpc, Option.map_eq_some_iff] at hs
    obtain ⟨b, -, rfl⟩ := hs
    cases hpc'
  | loopLock =>
    simp only [hpc, Option.ite_none_right_eq_some, Option.some.injEq] at hs
    rw [← hs.2] at hpc'
    split_ifs at hpc'
  | beforeOnce =>
    simp only [hpc, Option.ite_none_right_eq_some, Option.some.injEq] at hs
    rw [← hs.2] at hpc'
    cases hpc'
  | entry | looping | atBarrier =>
    simp only [hpc, Option.some.injEq] at hs
    rw [← hs] at hpc'
    cases hpc'
  | afterLoop | readBarrier =>
    simp only [hpc, Option.some.injEq] at hs
    rw [← hs] at hpc'
    simp only at hpc'
    split_ifs at hpc'

/-- The antistarve mutex changes hands only in `prepare_finalize`. -/
theorem advance_antistarve {k : κ} (hk : t.users k ≠ .antistarveLock)
    (hs : t.advance k = some t') :
    t'.antistarveMutex = t.antistarveMutex ∨ t'.antistarveMutex = none := by
  rw [advance] at hs
  cases hpc : t.users k with
  | antistarveLock => exact absurd hpc hk
  | idle => simp [hpc] at hs
  | onHold => simp [hpc] at hs
  | holdLock =>
    simp only [hpc, Option.ite_none_right_eq_some] at hs
    obtain ⟨-, hs⟩ := hs
    split_ifs at hs
    all_goals
      obtain rfl := Option.some.inj hs
      exact .inl rfl
  | loopLock | cancelLock =>
    simp only [hpc, Option.ite_none_right_eq_some, Option.some.injEq] at hs
    rw [← hs.2]
    exact .inl rfl
  | user =>
    simp only [hpc, Option.some.injEq] at hs
    rw [← hs]
    split_ifs
    · exact .inl rfl
    · exact .inr rfl

omit [DecidableEq κ] in
/-- Overtaking is a matter of the mutex against starvation and the loop's place. -/
theorem Overtaken.congr (h : t.Overtaken n) (hmutex : t'.antistarveMutex = t.antistarveMutex)
    (hpc : t'.pc = t.pc ∨ t'.pc = .entry ∨ t'.pc = .woken) : t'.Overtaken n := by
  intro htaken
  rcases h (hmutex ▸ htaken) with hzero | ⟨hone, hnot⟩
  · exact .inl hzero
  · refine .inr ⟨hone, ?_⟩
    rcases hpc with hpc | hpc | hpc <;> simp [hpc, hnot]

/-- Every step keeps the count of what the loop did since the user asked. -/
theorem Overtaken.step {l : ThreadStep κ} (h : t.Overtaken n) (hs : t.step l = some t') :
    t'.Overtaken (overtakes.observe n t l t') := by
  cases l with
  | start =>
    simp only [Thread.step, Option.ite_none_left_eq_some, Option.some.injEq] at hs
    obtain ⟨-, rfl⟩ := hs
    exact h.congr rfl (.inr (.inl rfl))
  | run =>
    obtain ⟨hsame, hcase⟩ := run_loop hs
    show t'.Overtaken (if t'.pc = .looping then n + 1 else n)
    intro htaken
    rw [hsame.antistarve] at htaken
    -- only the step into the iteration is counted
    split_ifs with hpc'
    · have hpc : t.pc = .loopLock := by
        cases hcase with
        | iterates hfree hpc hnot hpc' hlocked hdone => exact hpc
        | locks hfree honce hlocked hdone hpc => simp [hpc'] at honce
        | unlocks hpc hnot hafter hfree hdone => exact absurd (.inr hpc') hnot
        | goesOn hpc hnot hmutex hdone => exact absurd (.inr hpc') hnot
      rcases h htaken with hzero | ⟨-, hnot⟩
      · exact .inr ⟨by omega, by simp [hpc']⟩
      · exact absurd hpc hnot
    · rcases h htaken with hzero | ⟨hone, -⟩
      · exact .inl hzero
      -- the thread stops before the next one while somebody has the antistarve mutex
      · exact .inr ⟨hone, fun hlock => htaken (run_loopLock hs hlock)⟩
  | spurious =>
    simp only [Thread.step, Option.ite_none_right_eq_some, Option.some.injEq] at hs
    obtain ⟨-, rfl⟩ := hs
    exact h.congr rfl (.inr (.inr rfl))
  | wakeup =>
    simp only [Thread.step, Option.ite_none_left_eq_some, Option.some.injEq] at hs
    obtain ⟨-, rfl⟩ := hs
    cases hw : t.wakeup with
    | error e => exact h
    | ok s =>
      rcases wakeup_ok hw with ⟨-, rfl⟩ | ⟨-, -, rfl⟩
      · exact h
      · obtain ⟨hsame, -, -, hpc⟩ := notify_finalize { t with
          pendingWakeups := if t.coalesceWakeups then 1 else (t.pendingWakeups + 1) % 2 ^ 32 }
        exact h.congr hsame.antistarve (hpc.imp id fun hpc => .inr hpc.2)
  | wakeupBarrier barrier =>
    simp only [Thread.step, Option.ite_none_left_eq_some, Option.some.injEq] at hs
    obtain ⟨-, rfl⟩ := hs
    cases hw : t.wakeupBarrier barrier with
    | error e => exact h
    | ok s =>
      rcases wakeupBarrier_ok hw with ⟨-, rfl⟩ | ⟨-, -, -, rfl⟩
      · exact h
      · obtain ⟨hsame, -, -, hpc⟩ := notify_finalize { t with
          pendingWakeups := (t.pendingWakeups + 1) % 2 ^ 32
          barrier := barrier }
        exact h.congr hsame.antistarve (hpc.imp id fun hpc => .inr hpc.2)
  | advance k =>
    obtain ⟨-, -, -, hpc, -⟩ := finalizes_frame rfl hs
    show t'.Overtaken (if t.users k = .antistarveLock then 0 else n)
    -- the count starts when the antistarve mutex is taken
    split_ifs with hk
    · exact fun _ => .inl rfl
    · rcases advance_antistarve hk hs with hsame | hnone
      · exact h.congr hsame (.inl hpc)
      · exact fun htaken => absurd hnone htaken
  | setCoalesceWakeups coalesce =>
    simp only [Thread.step, Option.ite_none_left_eq_some, Option.some.injEq] at hs
    obtain ⟨-, rfl⟩ := hs
    exact h.congr rfl (.inl rfl)
  | setPrepfinHold hold =>
    simp only [Thread.step, Thread.setPrepfinHold, Option.ite_none_right_eq_some,
      Option.some.injEq] at hs
    obtain ⟨-, rfl⟩ := hs
    split_ifs
    · exact h
    · exact h.congr rfl (.inl rfl)
  | prepareFinalize k =>
    simp only [Thread.step, Thread.prepareFinalize, Option.ite_none_right_eq_some,
      Option.some.injEq] at hs
    obtain ⟨-, rfl⟩ := hs
    split_ifs
    · exact h
    · exact h
    · exact h.congr rfl (.inl rfl)
  | cancelFinalize k =>
    simp only [Thread.step, Thread.cancelFinalize, Option.ite_none_right_eq_some,
      Option.some.injEq] at hs
    obtain ⟨-, rfl⟩ := hs
    split_ifs
    · exact h
    · exact h.congr rfl (.inl rfl)
  | holdSpurious k =>
    simp only [Thread.step, Option.ite_none_right_eq_some, Option.some.injEq] at hs
    obtain ⟨-, rfl⟩ := hs
    exact h.congr rfl (.inl rfl)

end Thread

/-- From the moment when `prepare_finalize` has the antistarve mutex until it gives it back, the
thread begins one more iteration at most. -/
theorem overtaken_at_most_once {n : ℕ}
    (h : ((threadSystem κ).watch overtakes).Reachable (t, n)) {k : κ}
    (hk : t.users k = .loopLock ∨ t.users k = .user ∧ t.prepfinConcLoop = false) : n ≤ 1 := by
  have hovertaken : t.Overtaken n := by
    refine LTS.Reach.watch_invariant (P := Thread.Overtaken) ?_ ?_ h
    · rintro t ⟨name, opMode, prepfinConcLoop, rfl⟩ hnone
      exact absurd rfl hnone
    · exact fun t n l t' ht _ hs => ht.step hs
  have hreach : (threadSystem κ).Reachable t := (LTS.watch_reach_iff t).mp ⟨n, h⟩
  have hinv := finalizeInv_of_reachable hreach
  have hmutex : t.antistarveMutex = some k := by
    apply (hinv.antistarve k).mpr
    rcases hk with hk | ⟨hk, hconc⟩
    · refine ⟨?_, .inl hk⟩
      cases hc : t.prepfinConcLoop with
      | true => exact absurd hk (hinv.conc hc k).2
      | false => rfl
    · exact ⟨hconc, .inr hk⟩
  rcases hovertaken (by simp [hmutex]) with hzero | ⟨hone, -⟩ <;> omega

/-- The thread is about to lock the loop mutex when somebody gets the antistarve mutex. -/
theorem overtaken_at_most_once_finalizedOnce :
    ∃ t n, ((threadSystem Bool).watch overtakes).Reachable (t, n) ∧ t.users true = .loopLock ∧
      t.pc = .looping ∧ 0 < n ∧ n ≤ 1 := by
  obtain ⟨⟨t, n⟩, hreach, hp⟩ := LTS.exists_reachable
    (T := (threadSystem Bool).watch overtakes) (s := (new "" .waitForWakeup false, 0))
    (l := [.start, .run, .run, .run, .wakeup, .run, .run, .prepareFinalize true, .advance true,
      .advance true, .run])
    (p := fun p => decide (p.1.users true = .loopLock ∧ p.1.pc = .looping ∧ 0 < p.2))
    ⟨⟨_, _, _, rfl⟩, rfl⟩ (by decide)
  obtain ⟨hk, hpc, hpos⟩ := of_decide_eq_true hp
  exact ⟨t, n, hreach, hk, hpc, hpos, overtaken_at_most_once hreach (.inl hk)⟩

end GazeboRcll
