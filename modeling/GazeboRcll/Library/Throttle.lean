import GazeboRcll.Library.LTS
import Mathlib.Order.Lattice

/-!
# Sending in intervals

A throttle remembers the time at which it last sent something, and sends at an update that is
more than an interval later. When the clock is set back to zero, the remembered time may lie in
the future of the new clock. `PromptIffTimely` says when an update that is due sends nevertheless:
it comes after the first sending since the restart, or more than an interval after the
remembered time.
-/

/-- The time of the last sending, and what else a sending changes. -/
structure Throttle (K σ : Type) where
  last : K
  rest : σ

namespace Throttle

/-- An update in a world `w`, or a restart of the clock. -/
inductive Event (ω : Type) where
  | update (w : ω)
  | restart

/-- What is observed of one update. -/
structure Tick (K : Type) where
  time : K
  /-- The times of the sendings since the last restart, before this update. -/
  sends : List K
  sent : Bool

/-- What is observed of a run. -/
structure Log (K : Type) where
  /-- The current time. -/
  now : K
  /-- The time of the last sending before the last restart, or else that of the beginning. -/
  remembered : K
  /-- The times of the sendings since then, the last one first. -/
  sends : List K
  ticks : List (Tick K)

variable {K σ ω : Type} [Sub K] [LinearOrder K]

/-- The update is late enough to send. -/
def late (interval time : K) (p : Throttle K σ) : Bool := decide (time - p.last > interval)

/-- An update. -/
def update (interval time : K) (send : σ → σ) (p : Throttle K σ) : Throttle K σ :=
  if p.late interval time then { last := time, rest := send p.rest } else p

/-- Observes the updates. -/
def monitor [Zero K] (interval : K) (time : ω → K) :
    Monitor (Throttle K σ) (Event ω) (Log K) where
  start p := ⟨p.last, p.last, [], []⟩
  observe log p
    | .update w, _ =>
      { log with
        now := time w
        sends := if p.late interval (time w) then time w :: log.sends else log.sends
        ticks := ⟨time w, log.sends, p.late interval (time w)⟩ :: log.ticks }
    | .restart, _ =>
      { log with
        now := 0
        remembered := log.sends.headD log.remembered
        sends := [] }

/-- Nothing was sent for an interval since the restart. -/
def Tick.Due (interval : K) (u : Tick K) : Prop :=
  interval < u.time ∧ ∀ sent ∈ u.sends, interval < u.time - sent

/-- If something is due it is sent. -/
def Tick.Prompt (interval : K) (u : Tick K) : Prop := u.Due interval → u.sent = true

/-- Between restarts the clock does not go backwards. -/
def Increasing (time : ω → K) (p : Throttle K σ × Log K) : Event ω → Prop
  | .update w => p.2.now ≤ time w
  | .restart => True

instance (time : ω → K) (p : Throttle K σ × Log K) : DecidablePred (Increasing time p)
  | .update w => inferInstanceAs (Decidable (p.2.now ≤ time w))
  | .restart => .isTrue trivial

/-- As long as nothing was sent since the restart, updates later than an interval are also
later than the remembered time by an interval. -/
def Timely (interval : K) (time : ω → K) (p : Throttle K σ × Log K) : Event ω → Prop
  | .update w => interval < time w → p.2.sends = [] → interval < time w - p.2.remembered
  | .restart => True

instance (interval : K) (time : ω → K) (p : Throttle K σ × Log K) :
    DecidablePred (Timely interval time p)
  | .update w => inferInstanceAs (Decidable (interval < time w → p.2.sends = [] →
      interval < time w - p.2.remembered))
  | .restart => .isTrue trivial

/-- The updates are those of a throttle, and a restart leaves the remembered time alone. -/
structure Throttles (T : LTS (Throttle K σ) (Event ω)) (interval : K) (time : ω → K) : Prop where
  update : ∀ p w p', T.next p (.update w) = some p' →
    ∃ send, p' = p.update interval (time w) send
  restart : ∀ p p', T.next p .restart = some p' → p'.last = p.last

/-- In runs of timely updates whatever is due is sent, and one more event leaves this so exactly
if it is timely. -/
def PromptIffTimely [Zero K] (T : LTS (Throttle K σ) (Event ω)) (interval : K) (time : ω → K) :
    Prop :=
  ∀ p log, (T.watch (monitor interval time)).Reach (Timely interval time) (p, log) →
    (∀ u ∈ log.ticks, u.Prompt interval) ∧
      ∀ l p', T.next p l = some p' →
        ((∀ u ∈ ((monitor interval time).observe log p l p').ticks, u.Prompt interval) ↔
          Timely interval time (p, log) l)

variable {T : LTS (Throttle K σ) (Event ω)} {interval : K} {time : ω → K}
  {p p' : Throttle K σ} {log : Log K} {l : Event ω}

/-- One update, when the remembered time is that of the last sending. -/
theorem prompt_tick_iff (hlast : p.last = log.sends.headD log.remembered) (w : ω) :
    Tick.Prompt interval ⟨time w, log.sends, p.late interval (time w)⟩ ↔
      Timely interval time (p, log) (.update w) := by
  simp only [Tick.Prompt, Tick.Due, Timely, late, decide_eq_true_eq, gt_iff_lt, hlast]
  cases log.sends with
  | nil => simp
  | cons sent sends =>
    -- what was sent last is the remembered time
    apply iff_of_true
    · intro hdue
      exact hdue.2 sent List.mem_cons_self
    · intro _ hnil
      cases hnil

variable [Zero K]

/-- The remembered time stays that of the last sending. -/
theorem last_step (hT : Throttles T interval time)
    (hlast : p.last = log.sends.headD log.remembered) (hs : T.next p l = some p') :
    p'.last = ((monitor interval time).observe log p l p').sends.headD
      ((monitor interval time).observe log p l p').remembered := by
  cases l with
  | update w =>
    obtain ⟨send, rfl⟩ := hT.update p w p' hs
    simp only [monitor, Throttle.update]
    split_ifs
    · rfl
    · exact hlast
  | restart =>
    rw [hT.restart p p' hs]
    exact hlast

/-- One more event. -/
theorem ticks_step_iff (hlast : p.last = log.sends.headD log.remembered)
    (hall : ∀ u ∈ log.ticks, u.Prompt interval) :
    (∀ u ∈ ((monitor interval time).observe log p l p').ticks, u.Prompt interval) ↔
      Timely interval time (p, log) l := by
  cases l with
  | update w =>
    rw [← prompt_tick_iff hlast w]
    simp only [monitor, List.forall_mem_cons]
    exact and_iff_left hall
  | restart => exact iff_of_true hall trivial

/-- A throttle sends what is due as long as its updates are timely. -/
theorem prompt_iff_timely (hT : Throttles T interval time) : PromptIffTimely T interval time := by
  intro p log h
  have hinv : p.last = log.sends.headD log.remembered ∧ ∀ u ∈ log.ticks, u.Prompt interval := by
    refine LTS.Reach.watch_invariant (P := fun p log =>
      p.last = log.sends.headD log.remembered ∧ ∀ u ∈ log.ticks, u.Prompt interval) ?_ ?_ h
    · intro p _
      exact ⟨rfl, nofun⟩
    · intro p log l p' hinv htimely hs
      exact ⟨last_step hT hinv.1 hs, (ticks_step_iff hinv.1 hinv.2).mpr htimely⟩
  exact ⟨hinv.2, fun l p' _ => ticks_step_iff hinv.1 hinv.2⟩

end Throttle
