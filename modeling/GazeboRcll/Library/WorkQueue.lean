import Mathlib.Data.Fintype.Card
import Mathlib.Data.Set.Finite.Basic
import Mathlib.Logic.Relation

/-!
# Work queues

A queue of things to do, each of which may put further ones at its end. Nothing is remembered of
what was done, so the queue drains exactly if nothing in it leads on forever (`drains_iff`). Where
only finitely many things can be reached, that is where none of them leads back to itself
(`acc_iff_no_cycle`).
-/

namespace WorkQueue

open Relation

variable {α : Type}

/-- What is left to do after the first thing. -/
def step (succ : α → List α) : List α → List α
  | [] => []
  | a :: q => q ++ succ a

/-- The number of things to do until the queue is empty. -/
inductive Total (succ : α → List α) : List α → ℕ → Prop where
  | nil : Total succ [] 0
  | cons {a : α} {q : List α} {m n : ℕ} :
    Total succ (succ a) m → Total succ q n → Total succ (a :: q) (m + n + 1)

variable {succ : α → List α}

/-- Two queues are worked off one after the other. -/
theorem Total.append {q q' : List α} {m n : ℕ} (h : Total succ q m) (h' : Total succ q' n) :
    Total succ (q ++ q') (m + n) := by
  induction h with
  | nil =>
    rw [List.nil_append, Nat.zero_add]
    exact h'
  | @cons a q m k ha _ _ ih =>
    rw [List.cons_append, show m + k + 1 + n = m + (k + n) + 1 by omega]
    exact .cons ha ih

/-- The order does not matter for the number. -/
theorem Total.iterate_eq_nil {q : List α} {n : ℕ} (h : Total succ q n) :
    (step succ)^[n] q = [] := by
  induction n generalizing q with
  | zero =>
    cases h
    rfl
  | succ n ih =>
    cases h with
    | @cons a q m k ha hq =>
      rw [Function.iterate_succ_apply]
      have hnext := hq.append ha
      rw [Nat.add_comm k m] at hnext
      exact ih hnext

/-- A queue is worked off if no chain of successors is endless. -/
theorem exists_total {q : List α} (h : ∀ a ∈ q, Acc (fun c b => c ∈ succ b) a) :
    ∃ n, Total succ q n := by
  -- from the things to do to a queue of them
  have hqueue : ∀ q : List α, (∀ a ∈ q, ∃ n, Total succ (succ a) n) → ∃ n, Total succ q n := by
    intro q hq
    induction q with
    | nil => exact ⟨0, .nil⟩
    | cons a q ih =>
      obtain ⟨m, hm⟩ := hq a List.mem_cons_self
      obtain ⟨n, hn⟩ := ih fun b hb => hq b (List.mem_cons_of_mem a hb)
      exact ⟨m + n + 1, .cons hm hn⟩
  have hone : ∀ a, Acc (fun c b => c ∈ succ b) a → ∃ n, Total succ (succ a) n := by
    intro a ha
    induction ha with
    | intro b _ ih => exact hqueue (succ b) ih
  exact hqueue q fun a ha => hone a (h a ha)

/-- The queue drains if and only if nothing in it leads on forever. -/
theorem drains_iff (q : List α) :
    (∃ n, (step succ)^[n] q = []) ↔ ∀ a ∈ q, Acc (fun c b => c ∈ succ b) a := by
  constructor
  · rintro ⟨n, hn⟩
    induction n generalizing q with
    | zero =>
      obtain rfl : q = [] := hn
      exact nofun
    | succ n ih =>
      rw [Function.iterate_succ_apply] at hn
      have hacc := ih (step succ q) hn
      cases q with
      | nil => exact nofun
      | cons a q =>
        intro b hb
        rcases List.mem_cons.mp hb with rfl | hb
        · exact .intro b fun c hc => hacc c (List.mem_append_right q hc)
        · exact hacc b (List.mem_append_left _ hb)
  · intro h
    obtain ⟨n, hn⟩ := exists_total h
    exact ⟨n, hn.iterate_eq_nil⟩

/-! ## Cycles -/

variable {r : α → α → Prop} {a : α}

/-- Where no chain is endless, none is after some steps. -/
theorem acc_of_reflTransGen {b : α} (h : Acc (fun c b => r b c) a) (hb : ReflTransGen r a b) :
    Acc (fun c b => r b c) b := by
  induction hb with
  | refl => exact h
  | tail _ hbc ih => exact ih.inv hbc

/-- With finitely many things in reach, what goes on forever comes back. -/
theorem acc_iff_no_cycle (hfin : {b | ReflTransGen r a b}.Finite) :
    Acc (fun c b => r b c) a ↔ ¬ ∃ b, ReflTransGen r a b ∧ TransGen r b b := by
  constructor
  · rintro h ⟨b, hb, hcycle⟩
    have hacc : Acc (TransGen fun c b => r b c) b := (acc_of_reflTransGen h hb).transGen
    induction hacc with
    | intro b _ ih => exact ih b (transGen_swap.mpr hcycle) hb hcycle
  · intro h
    let Reached := {b // ReflTransGen r a b}
    have : Finite Reached := hfin
    let later : Reached → Reached → Prop := fun c b => TransGen r b.1 c.1
    have htrans : IsTrans Reached later := ⟨fun _ _ _ hba hcb => hcb.trans hba⟩
    have hirrefl : Std.Irrefl later := ⟨fun b hb => h ⟨b.1, b.2, hb⟩⟩
    have hwf : WellFounded later := Finite.wellFounded_of_trans_of_irrefl later
    have hall : ∀ b : Reached, Acc (fun c b => r b c) b.1 := by
      intro b
      induction b using hwf.induction with
      | h b ih => exact .intro b.1 fun c hbc => ih ⟨c, b.2.tail hbc⟩ (.single hbc)
    exact hall ⟨a, .refl⟩

end WorkQueue
