import Mathlib.Logic.Basic

/-!
# Programs over an instruction set

A thread of a concurrent program, read as a tree: either it has returned, or it is about
to execute one atomic instruction and goes on with the code that the response selects.
The same tree has two readings here.

* `Prog.run` executes it without interruption, against a handler that gives the
  instructions their meaning on a state. An instruction the handler refuses (the
  dereference of a null pointer, say) makes the whole run undefined.
* `Prog.step` executes one instruction, so that a transition system can interleave a
  thread with anything else that changes the state.

`Outline` is the typestate side of a proof outline: points, and which instructions with
which responses are possible and permitted at each of them. `Prog.Follows` says that a
program keeps to an outline whatever its environment does between two instructions, and
`Follows.of_step` is the rule that carries this along an interleaved run.
-/

/-- Programs with result `α` over instructions `I`, the instruction `i` being answered
by an `R i`. -/
inductive Prog (I : Type) (R : I → Type) (α : Type) where
  | ret (a : α) : Prog I R α
  | op (i : I) (k : R i → Prog I R α) : Prog I R α

namespace Prog

variable {I : Type} {R : I → Type} {σ α β : Type}

/-! ## Sequencing -/

/-- Run `p`, then the code its result selects. -/
def bind : Prog I R α → (α → Prog I R β) → Prog I R β
  | ret a, f => f a
  | op i k, f => op i fun r => (k r).bind f

/-- A single instruction. -/
def instr (i : I) : Prog I R (R i) := op i ret

instance : Monad (Prog I R) where
  pure := ret
  bind := Prog.bind

@[simp] theorem pure_eq_ret (a : α) : (pure a : Prog I R α) = ret a := rfl

@[simp] theorem ret_bind (a : α) (f : α → Prog I R β) : (ret a >>= f) = f a := rfl

@[simp] theorem op_bind (i : I) (k : R i → Prog I R α) (f : α → Prog I R β) :
    (op i k >>= f) = op i fun r => k r >>= f := rfl

/-! ## Running a program -/

/-- The meaning of the instructions on a state: the new state and the response, or
`none` where the instruction is undefined. -/
abbrev Handler (I : Type) (R : I → Type) (σ : Type) : Type :=
  (i : I) → σ → Option (σ × R i)

/-- The uninterrupted run of a program. -/
def run (h : Handler I R σ) : Prog I R α → σ → Option (σ × α)
  | ret a, s => some (s, a)
  | op i k, s => (h i s).bind fun t => (k t.2).run h t.1

/-- One instruction of a program. A program that has returned makes no step. -/
def step (h : Handler I R σ) : Prog I R α → σ → Option (σ × Prog I R α)
  | ret _, _ => none
  | op i k, s => (h i s).map fun t => (t.1, k t.2)

/-- The program is about to execute an instruction that is undefined. -/
def Stuck (h : Handler I R σ) : Prog I R α → σ → Prop
  | ret _, _ => False
  | op i _, s => h i s = none

instance (h : Handler I R σ) (p : Prog I R α) (s : σ) : Decidable (Stuck h p s) :=
  match p with
  | ret _ => .isFalse id
  | op i _ => decidable_of_iff ((h i s).isNone = true) Option.isNone_iff_eq_none

@[simp] theorem run_ret (h : Handler I R σ) (a : α) (s : σ) :
    run h (ret a) s = some (s, a) := rfl

theorem run_op (h : Handler I R σ) (i : I) (k : R i → Prog I R α) (s : σ) :
    run h (op i k) s = (h i s).bind fun t => (k t.2).run h t.1 := rfl

/-- Sequencing runs the two parts one after the other. -/
theorem run_bind (h : Handler I R σ) (p : Prog I R α) (f : α → Prog I R β) (s : σ) :
    run h (p >>= f) s = (run h p s).bind fun t => (f t.2).run h t.1 := by
  induction p generalizing s with
  | ret a => rfl
  | op i k ih =>
    rw [op_bind, run_op, run_op, Option.bind_assoc]
    congr 1
    funext t
    exact ih t.2 t.1

/-- A step performs the first operation, and goes on with its result. -/
theorem step_op_eq_some {h : Handler I R σ} {i : I} {k : R i → Prog I R α} {s s' : σ}
    {p : Prog I R α} (hs : step h (op i k) s = some (s', p)) :
    ∃ r, h i s = some (s', r) ∧ p = k r := by
  rw [step, Option.map_eq_some_iff] at hs
  obtain ⟨⟨t, r⟩, ht, hp⟩ := hs
  cases hp
  exact ⟨r, ht, rfl⟩

end Prog

/-! ## Outlines -/

/-- An outline for programs over an instruction set. At a point, an instruction can be
answered by the responses that `expects` admits, it is permitted when `allows` holds,
and it leads to the point `next`. -/
structure Outline (I : Type) (R : I → Type) (P : Type) where
  expects : P → (i : I) → R i → Prop
  allows : P → (i : I) → R i → Prop
  next : P → (i : I) → R i → P

namespace Prog

variable {I : Type} {R : I → Type} {σ α β P : Type}

/-- From the point on, the program executes permitted instructions only, and if it
returns it does so at a point and with a result that satisfy `Q`. The responses are
arbitrary up to what the outline expects: the state may have changed in between. -/
def Follows (O : Outline I R P) (Q : P → α → Prop) : P → Prog I R α → Prop
  | x, ret a => Q x a
  | x, op i k => ∀ r, O.expects x i r → O.allows x i r ∧ (k r).Follows O Q (O.next x i r)

variable {O : Outline I R P} {Q : P → α → Prop} {x : P}

@[simp] theorem follows_ret (a : α) : (ret a : Prog I R α).Follows O Q x ↔ Q x a := Iff.rfl

/-- A program follows an outline if its first operation is allowed and what comes after it follows.
-/
@[simp] theorem follows_op (i : I) (k : R i → Prog I R α) :
    (op i k).Follows O Q x ↔
      ∀ r, O.expects x i r → O.allows x i r ∧ (k r).Follows O Q (O.next x i r) := Iff.rfl

/-- The rule for sequencing. -/
theorem follows_bind (Q : P → β → Prop) (p : Prog I R α) (f : α → Prog I R β) :
    (p >>= f).Follows O Q x ↔ p.Follows O (fun y a => (f a).Follows O Q y) x := by
  induction p generalizing x with
  | ret a => rfl
  | op i k ih =>
    rw [op_bind, follows_op, follows_op]
    exact forall_congr' fun r => imp_congr_right fun _ => and_congr_right fun _ => ih r

/-- The rule of consequence. -/
theorem Follows.mono {Q' : P → α → Prop} {p : Prog I R α} (hp : p.Follows O Q x)
    (hQ : ∀ y a, Q y a → Q' y a) : p.Follows O Q' x := by
  induction p generalizing x with
  | ret a => exact hQ x a hp
  | op i k ih => exact fun r he => ⟨(hp r he).1, ih r (hp r he).2⟩

/-- One instruction takes a program that follows an outline to one that follows it from
the next point. -/
theorem Follows.of_step {h : Handler I R σ} {p p' : Prog I R α} {s s' : σ}
    (hf : p.Follows O Q x) (hs : step h p s = some (s', p'))
    (hx : ∀ i r, (∃ k, p = op i k) → h i s = some (s', r) → O.expects x i r) :
    ∃ i r, (∃ k, p = op i k) ∧ h i s = some (s', r) ∧ O.allows x i r ∧
      p'.Follows O Q (O.next x i r) := by
  cases p with
  | ret a => cases hs
  | op i k =>
    obtain ⟨r, hr, rfl⟩ := step_op_eq_some hs
    obtain ⟨ha, hk⟩ := hf r (hx i r ⟨k, rfl⟩ hr)
    exact ⟨i, r, ⟨k, rfl⟩, hr, ha, hk⟩

/-- The rule for uninterrupted runs: what ties the state to the point and is carried along
by the permitted instructions ties the final state to a point that satisfies `Q`. -/
theorem Follows.run {h : Handler I R σ} {p : Prog I R α} {s s' : σ} {a : α}
    (Inv : P → σ → Prop)
    (hstep : ∀ x i s s' r, Inv x s → h i s = some (s', r) →
      O.expects x i r ∧ (O.allows x i r → Inv (O.next x i r) s'))
    (hf : p.Follows O Q x) (hx : Inv x s) (hr : p.run h s = some (s', a)) :
    ∃ y, Inv y s' ∧ Q y a := by
  induction p generalizing x s with
  | ret b =>
    cases hr
    exact ⟨x, hx, hf⟩
  | op i k ih =>
    rw [run_op, Option.bind_eq_some_iff] at hr
    obtain ⟨⟨t, r⟩, ht, hk⟩ := hr
    obtain ⟨hexp, hnext⟩ := hstep x i s t r hx ht
    obtain ⟨hall, hf'⟩ := hf r hexp
    exact ih r hf' (hnext hall) hk

end Prog

/-! ## Footprints -/

/-- The outline with a single point at which the instructions in `A` are permitted. -/
def Outline.only {I : Type} {R : I → Type} (A : I → Prop) : Outline I R Unit where
  expects _ _ _ := True
  allows _ i _ := A i
  next _ _ _ := ()

namespace Prog

variable {I : Type} {R : I → Type} {σ α β : Type} {A : I → Prop}

/-- The program executes instructions in `A` only. -/
abbrev Only (A : I → Prop) (p : Prog I R α) : Prop :=
  p.Follows (Outline.only A) (fun _ _ => True) ()

theorem only_ret (a : α) : (ret a : Prog I R α).Only A := trivial

theorem only_op {i : I} {k : R i → Prog I R α} (hi : A i) (hk : ∀ r, (k r).Only A) :
    (op i k).Only A :=
  fun r _ => ⟨hi, hk r⟩

/-- A sequence performs only allowed operations if both of its parts do. -/
theorem only_bind {p : Prog I R α} {f : α → Prog I R β} (hp : p.Only A)
    (hf : ∀ a, (f a).Only A) : (p >>= f).Only A := by
  induction p with
  | ret a => exact hf a
  | op i k ih =>
    intro r _
    obtain ⟨hi, hk⟩ := hp r trivial
    exact ⟨hi, ih r hk⟩

/-- The frame rule: what no instruction in `A` changes is as before after the run. -/
theorem Only.run_eq {h : Handler I R σ} {p : Prog I R α} {s s' : σ} {a : α} (f : σ → β)
    (hA : ∀ i s s' r, A i → h i s = some (s', r) → f s' = f s) (hp : p.Only A)
    (hr : p.run h s = some (s', a)) : f s' = f s := by
  obtain ⟨_, hs', _⟩ := Follows.run (fun _ t => f t = f s)
    (fun _ i t t' r ht hi => ⟨trivial, fun ha => (hA i t t' r ha hi).trans ht⟩) hp rfl hr
  exact hs'

/-! ## Inevitable instructions -/

/-- Every way through the program executes an instruction in `A`. -/
def Inevitable (A : I → Prop) : Prog I R α → Prop
  | ret _ => False
  | op i k => A i ∨ ∀ r, (k r).Inevitable A

/-- What is inevitable is performed by a step, or is inevitable still. -/
theorem Inevitable.of_step {h : Handler I R σ} {p p' : Prog I R α} {s s' : σ}
    (hp : p.Inevitable A) (hs : step h p s = some (s', p')) :
    (∃ i k, p = op i k ∧ A i) ∨ p'.Inevitable A := by
  cases p with
  | ret a => cases hs
  | op i k =>
    obtain ⟨r, -, rfl⟩ := step_op_eq_some hs
    rcases hp with hi | hk
    · exact .inl ⟨i, k, rfl, hi⟩
    · exact .inr (hk r)

end Prog

/-! ## Recording -/

namespace Prog

variable {I : Type} {R : I → Type} {σ α ε : Type}

/-- A handler that collects beside the state what `f` reads off every instruction and its
response. -/
def Handler.recording (h : Handler I R σ) (f : (i : I) → R i → List ε) :
    Handler I R (σ × List ε) :=
  fun i s => (h i s.1).map fun t => ((t.1, s.2 ++ f i t.2), t.2)

/-- An operation is recorded when it is performed. -/
theorem run_op_recording (h : Handler I R σ) (f : (i : I) → R i → List ε) (i : I)
    (k : R i → Prog I R α) (s : σ) (l : List ε) :
    (op i k).run (h.recording f) (s, l) =
      (h i s).bind fun t => (k t.2).run (h.recording f) (t.1, l ++ f i t.2) := by
  rw [run_op, Handler.recording]
  cases h i s <;> rfl

/-- Recording leaves the run as it is. -/
theorem run_recording (h : Handler I R σ) (f : (i : I) → R i → List ε) (p : Prog I R α) (s : σ)
    (l : List ε) : (p.run (h.recording f) (s, l)).map (fun t => (t.1.1, t.2)) = p.run h s := by
  induction p generalizing s l with
  | ret a => rfl
  | op i k ih =>
    rw [run_op_recording, run_op]
    cases hi : h i s with
    | none => rfl
    | some t => exact ih t.2 t.1 (l ++ f i t.2)

end Prog
