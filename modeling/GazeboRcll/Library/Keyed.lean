import Mathlib.Data.Finset.Card
import Mathlib.Data.Fintype.Basic
import Mathlib.Logic.Function.Basic

/-!
# A map kept in an array

The entries of a map are kept in an array, the entry of the key `k` at `idx k`, and an
operation changes the entry of one key. As long as array and map agree, an operation keeps
them so exactly if it leaves the entry as it is or no other key has the same index
(`Agree.modify_iff`). `count` counts the entries of a kind.
-/

namespace Keyed

variable {κ ι β : Type} [DecidableEq κ] [DecidableEq ι] {idx : κ → ι} {a : ι → β} {m : κ → β}

/-- Apply `f` to the entry at `k`. -/
def modify (m : κ → β) (k : κ) (f : β → β) : κ → β := Function.update m k (f (m k))

@[simp] theorem modify_self (m : κ → β) (k : κ) (f : β → β) : modify m k f k = f (m k) :=
  Function.update_self ..

theorem modify_of_ne (m : κ → β) {k k' : κ} (h : k' ≠ k) (f : β → β) :
    modify m k f k' = m k' := Function.update_of_ne h ..

/-- A modification that has no effect at its key has none at all. -/
theorem modify_of_eq {m : κ → β} {k : κ} {f : β → β} (h : f (m k) = m k) : modify m k f = m := by
  rw [modify, h, Function.update_eq_self]

/-- The array holds under every key's index what the map holds under the key. -/
def Agree (idx : κ → ι) (a : ι → β) (m : κ → β) : Prop := ∀ k, a (idx k) = m k

/-- No other key has the same index. -/
def Alone (idx : κ → ι) (k : κ) : Prop := ∀ k', idx k' = idx k → k' = k

/-- An operation keeps the agreement exactly if it changes nothing or its key is alone. -/
theorem Agree.modify_iff (h : Agree idx a m) (k : κ) (f : β → β) :
    Agree idx (modify a (idx k) f) (modify m k f) ↔ f (m k) = m k ∨ Alone idx k := by
  constructor
  · intro hagree
    by_cases hsame : f (m k) = m k
    · exact .inl hsame
    · refine .inr fun k' hk' => ?_
      by_contra hne
      -- the entry of the other key has changed in the array only
      have hentry := hagree k'
      rw [hk', modify_self, modify_of_ne m hne, h k] at hentry
      exact hsame (by rw [hentry, ← h k', hk', h k])
  · rintro hor k'
    by_cases hk' : k' = k
    · rw [hk', modify_self, modify_self, h k]
    · rw [modify_of_ne m hk']
      by_cases hidx : idx k' = idx k
      · rcases hor with hsame | halone
        · rw [hidx, modify_self, h k, hsame, ← h k, ← hidx, h k']
        · exact absurd (halone k' hidx) hk'
      · rw [modify_of_ne a hidx, h k']

/-- An array and a map agree after a change at a key of which the index is its own. -/
theorem Agree.modify (h : Agree idx a m) {k : κ} (hk : Alone idx k) (f : β → β) :
    Agree idx (modify a (idx k) f) (modify m k f) :=
  (h.modify_iff k f).mpr (.inr hk)

/-! ## Counting entries -/

section

variable [Fintype ι] (p : β → Prop) [DecidablePred p]

/-- How many entries satisfy `p`. -/
def count (a : ι → β) : ℕ := (Finset.univ.filter fun i => p (a i)).card

variable {p}

/-- One more entry satisfies `p`. -/
theorem count_update_of_not {i : ι} {b : β} (hold : ¬ p (a i)) (hnew : p b) :
    count p (Function.update a i b) = count p a + 1 := by
  have hinsert : (Finset.univ.filter fun j => p (Function.update a i b j)) =
      insert i (Finset.univ.filter fun j => p (a j)) := by
    ext j
    by_cases hj : j = i
    · simp [hj, hnew]
    · simp [hj]
  have hmem : i ∉ Finset.univ.filter fun j => p (a j) := by simpa using hold
  rw [count, hinsert, Finset.card_insert_of_notMem hmem]
  rfl

/-- One entry less satisfies `p`. -/
theorem count_update_add_one {i : ι} {b : β} (hold : p (a i)) (hnew : ¬ p b) :
    count p (Function.update a i b) + 1 = count p a := by
  have hback := count_update_of_not (a := Function.update a i b) (i := i) (b := a i)
    (by rwa [Function.update_self]) hold
  rw [Function.update_idem, Function.update_eq_self] at hback
  exact hback.symm

omit [DecidableEq ι] in
/-- Where no entry ceases to satisfy `p`, the number is kept exactly if none begins to. -/
theorem count_eq_iff_of_imp {a' : ι → β} (h : ∀ i, p (a i) → p (a' i)) :
    count p a' = count p a ↔ ∀ i, p (a' i) → p (a i) := by
  have hsub : (Finset.univ.filter fun i => p (a i)) ⊆ Finset.univ.filter fun i => p (a' i) := by
    intro i hi
    rw [Finset.mem_filter] at hi ⊢
    exact ⟨hi.1, h i hi.2⟩
  constructor
  · intro hcard i hi
    have heq := Finset.eq_of_subset_of_card_le hsub (le_of_eq hcard)
    have hmem : i ∈ Finset.univ.filter fun i => p (a i) := by
      rw [heq]
      simpa using hi
    simpa using hmem
  · intro hback
    apply congrArg Finset.card
    apply Finset.filter_congr
    intro i _
    exact ⟨hback i, h i⟩

end

end Keyed
