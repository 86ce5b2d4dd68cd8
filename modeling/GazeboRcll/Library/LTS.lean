import Mathlib.Logic.Basic

/-!
# Labelled transition systems and their runs

A system is given by its initial states and a partial step function: `next s l` is the
state after the step `l`, and `none` where `l` cannot happen. All nondeterminism is in
the labels, so a list of labels is a schedule and `LTS.exec` replays it.

`LTS.Reach C` are the states reached by runs all of whose steps meet the condition `C`,
which reads the label and the state before the step. `Reach.invariant` is the one
induction over runs that the safety arguments need.

A `Monitor` watches a run and keeps a verdict of its own beside the state. It never
restricts the system it watches (`watch_reach_iff`).
-/

/-- A labelled transition system. -/
structure LTS (σ ε : Type) where
  init : σ → Prop
  next : σ → ε → Option σ

namespace LTS

variable {σ ε γ : Type} {T : LTS σ ε} {C : σ → ε → Prop}

/-! ## Runs -/

/-- The states reached by runs from an initial state whose steps all meet `C`. -/
inductive Reach (T : LTS σ ε) (C : σ → ε → Prop) : σ → Prop where
  | init {s : σ} : T.init s → Reach T C s
  | step {s s' : σ} {l : ε} : Reach T C s → C s l → T.next s l = some s' → Reach T C s'

/-- The states reached by any run. -/
def Reachable (T : LTS σ ε) : σ → Prop := T.Reach fun _ _ => True

/-- What holds initially and is kept by every step that meets `C` holds along every run
of such steps. -/
theorem Reach.invariant {P : σ → Prop} (hinit : ∀ s, T.init s → P s)
    (hstep : ∀ s l s', P s → C s l → T.next s l = some s' → P s') {s : σ}
    (h : T.Reach C s) : P s := by
  induction h with
  | init h0 => exact hinit _ h0
  | step _ hc hs ih => exact hstep _ _ _ ih hc hs

/-- A weaker condition admits more runs. -/
theorem Reach.mono {D : σ → ε → Prop} (hCD : ∀ s l, C s l → D s l) {s : σ}
    (h : T.Reach C s) : T.Reach D s := by
  induction h with
  | init h0 => exact .init h0
  | step _ hc hs ih => exact .step ih (hCD _ _ hc) hs

/-! ## Schedules -/

/-- Replay a schedule. -/
def exec (T : LTS σ ε) : σ → List ε → Option σ
  | s, [] => some s
  | s, l :: ls => (T.next s l).bind fun s' => T.exec s' ls

/-- Every step of the schedule meets the condition. -/
def Meets (T : LTS σ ε) (C : σ → ε → Prop) : σ → List ε → Prop
  | _, [] => True
  | s, l :: ls => C s l ∧ ∀ s' ∈ T.next s l, T.Meets C s' ls

instance decidableMeets [∀ s l, Decidable (C s l)] :
    (s : σ) → (ls : List ε) → Decidable (T.Meets C s ls)
  | _, [] => .isTrue trivial
  | s, l :: ls =>
    have : ∀ s', Decidable (T.Meets C s' ls) := fun s' => decidableMeets s' ls
    inferInstanceAs (Decidable (C s l ∧ ∀ s' ∈ T.next s l, T.Meets C s' ls))

@[simp] theorem exec_cons (s : σ) (l : ε) (ls : List ε) :
    T.exec s (l :: ls) = (T.next s l).bind fun s' => T.exec s' ls := rfl

/-- A schedule whose steps meet the condition extends a run. -/
theorem Reach.exec {s s' : σ} {ls : List ε} (h : T.Reach C s) (hm : T.Meets C s ls)
    (he : T.exec s ls = some s') : T.Reach C s' := by
  induction ls generalizing s with
  | nil => cases he; exact h
  | cons l ls ih =>
    rw [exec_cons, Option.bind_eq_some_iff] at he
    obtain ⟨t, ht, he⟩ := he
    exact ih (.step h hm.1 ht) (hm.2 t ht) he

/-- A condition that holds of every label of the schedule in every state. -/
theorem meets_of_forall {ls : List ε} (h : ∀ l ∈ ls, ∀ s, C s l) (s : σ) : T.Meets C s ls := by
  induction ls generalizing s with
  | nil => trivial
  | cons l ls ih =>
    rw [List.forall_mem_cons] at h
    exact ⟨h.1 s, fun s' _ => ih h.2 s'⟩

/-- A schedule replayed from an initial state reaches a state with the property that the
replay computes. -/
theorem exists_reachable {s : σ} {l : List ε} {p : σ → Bool} (h0 : T.init s)
    (h : (T.exec s l).any p = true) : ∃ s', T.Reachable s' ∧ p s' = true := by
  rw [Option.any_eq_true] at h
  obtain ⟨s', hs', hp⟩ := h
  exact ⟨s', Reach.exec (.init h0) (meets_of_forall (fun _ _ _ => trivial) s) hs', hp⟩

/-- The same with a condition on the steps. -/
theorem exists_reach {s : σ} {l : List ε} {p : σ → Bool} (h0 : T.init s)
    (hm : T.Meets C s l) (h : (T.exec s l).any p = true) :
    ∃ s', T.Reach C s' ∧ p s' = true := by
  rw [Option.any_eq_true] at h
  obtain ⟨s', hs', hp⟩ := h
  exact ⟨s', Reach.exec (.init h0) hm hs', hp⟩

end LTS

/-! ## Monitors -/

/-- A monitor: a verdict on the initial state, and how it changes with a step of the
system from one state to the next. -/
structure Monitor (σ ε γ : Type) where
  start : σ → γ
  observe : γ → σ → ε → σ → γ

namespace LTS

variable {σ ε γ : Type} {T : LTS σ ε} {C : σ → ε → Prop}

/-- The system together with the verdict of a monitor. -/
def watch (T : LTS σ ε) (M : Monitor σ ε γ) : LTS (σ × γ) ε where
  init p := T.init p.1 ∧ p.2 = M.start p.1
  next p l := (T.next p.1 l).map fun s' => (s', M.observe p.2 p.1 l s')

variable {M : Monitor σ ε γ}

/-- A step of the watched system is one of the system, and the monitor has seen it. -/
theorem watch_next_eq_some {p p' : σ × γ} {l : ε}
    (h : (T.watch M).next p l = some p') :
    T.next p.1 l = some p'.1 ∧ p'.2 = M.observe p.2 p.1 l p'.1 := by
  rw [watch, Option.map_eq_some_iff] at h
  obtain ⟨s', hs', rfl⟩ := h
  exact ⟨hs', rfl⟩

/-- The invariant rule for a watched system. -/
theorem Reach.watch_invariant {C : σ × γ → ε → Prop} {P : σ → γ → Prop}
    (hinit : ∀ s, T.init s → P s (M.start s))
    (hstep : ∀ s g l s', P s g → C (s, g) l → T.next s l = some s' →
      P s' (M.observe g s l s')) {s : σ} {g : γ} (h : (T.watch M).Reach C (s, g)) : P s g := by
  refine Reach.invariant (P := fun p => P p.1 p.2) ?_ ?_ h
  · intro p h0
    rw [h0.2]
    exact hinit p.1 h0.1
  · intro p l p' hp hc hn
    obtain ⟨hs', hg'⟩ := watch_next_eq_some hn
    rw [hg']
    exact hstep p.1 p.2 l p'.1 hp hc hs'

/-- Watching a system leaves its runs as they are. -/
theorem watch_reach_iff (s : σ) :
    (∃ g, (T.watch M).Reach (fun p l => C p.1 l) (s, g)) ↔ T.Reach C s := by
  constructor
  · rintro ⟨g, h⟩
    suffices ∀ p, (T.watch M).Reach (fun p l => C p.1 l) p → T.Reach C p.1 from this _ h
    intro p hp
    induction hp with
    | init h0 => exact .init h0.1
    | step _ hc hs ih => exact .step ih hc (watch_next_eq_some hs).1
  · intro h
    induction h with
    | @init s h0 => exact ⟨M.start s, .init ⟨h0, rfl⟩⟩
    | @step s s' l _ hc hs ih =>
      obtain ⟨g, hg⟩ := ih
      exact ⟨M.observe g s l s', .step hg hc (by simp [watch, hs])⟩

end LTS
