import Mathlib.Algebra.BigOperators.Group.List.Basic
import Mathlib.Algebra.Order.Group.Defs
import Mathlib.Order.CompletePartialOrder
import Mathlib.Order.Interval.Set.Disjoint

/-!
# Intervals stacked on each other

An interval is a bottom and a top. Intervals that are put on each other, each of them where the
one before ends, do not overlap and leave no gap.
-/

namespace Intervals

variable {K : Type} [AddCommGroup K] [LinearOrder K]

/-- No two of the open intervals have a point in common. -/
def Apart (l : List (K × K)) : Prop :=
  l.Pairwise fun a b => Disjoint (Set.Ioo a.1 a.2) (Set.Ioo b.1 b.2)

/-- Every point between the bottom of one interval and the top of another is in one of them. -/
def Gapless (l : List (K × K)) : Prop :=
  ∀ a ∈ l, ∀ b ∈ l, ∀ z, a.1 ≤ z → z ≤ b.2 → ∃ c ∈ l, c.1 ≤ z ∧ z ≤ c.2

/-- Intervals of these lengths, from a bottom upwards. -/
def stack : K → List K → List (K × K)
  | _, [] => []
  | bottom, h :: hs => (bottom, bottom + h) :: stack (bottom + h) hs

omit [LinearOrder K] in
/-- What is put on a stack begins where the stack ends. -/
theorem stack_append (bottom : K) (hs hs' : List K) :
    stack bottom (hs ++ hs') = stack bottom hs ++ stack (bottom + hs.sum) hs' := by
  induction hs generalizing bottom with
  | nil => simp [stack]
  | cons h hs ih => simp [stack, ih, add_assoc]

omit [LinearOrder K] in
/-- A stack of things of one height. -/
theorem stack_replicate (bottom h : K) (n : ℕ) :
    stack bottom (List.replicate n h)
      = (List.range n).map fun i => (bottom + i • h, bottom + i • h + h) := by
  induction n with
  | zero => rfl
  | succ n ih =>
    rw [List.replicate_succ', stack_append, ih, List.range_succ, List.map_append,
      List.sum_replicate]
    rfl

variable [IsOrderedAddMonoid K] {bottom : K} {hs : List K}

/-- Nothing is below the bottom. -/
theorem le_of_mem_stack (hpos : ∀ h ∈ hs, 0 ≤ h) {a : K × K} (ha : a ∈ stack bottom hs) :
    bottom ≤ a.1 := by
  induction hs generalizing bottom with
  | nil => cases ha
  | cons h hs ih =>
    rcases List.mem_cons.mp ha with rfl | ha
    · exact le_refl _
    · calc bottom ≤ bottom + h := le_add_of_nonneg_right (hpos h List.mem_cons_self)
        _ ≤ a.1 := ih (fun h' hh' => hpos h' (List.mem_cons_of_mem h hh')) ha

/-- Nothing in a stack reaches into anything else. -/
theorem apart_stack (hpos : ∀ h ∈ hs, 0 ≤ h) : Apart (stack bottom hs) := by
  induction hs generalizing bottom with
  | nil => exact List.Pairwise.nil
  | cons h hs ih =>
    have hpos' : ∀ h' ∈ hs, 0 ≤ h' := fun h' hh' => hpos h' (List.mem_cons_of_mem h hh')
    apply List.Pairwise.cons
    · intro b hb
      have hle : bottom + h ≤ b.1 := le_of_mem_stack hpos' hb
      rw [Set.disjoint_left]
      intro z hz hz'
      exact absurd (hz'.1.trans hz.2) (not_lt.mpr hle)
    · exact ih hpos'

/-- Nothing in a stack is above a gap. -/
theorem gapless_stack (hpos : ∀ h ∈ hs, 0 ≤ h) : Gapless (stack bottom hs) := by
  intro a ha b hb z haz hzb
  have hz : bottom ≤ z := (le_of_mem_stack hpos ha).trans haz
  clear ha haz
  induction hs generalizing bottom with
  | nil => cases hb
  | cons h hs ih =>
    by_cases htop : z ≤ bottom + h
    · exact ⟨(bottom, bottom + h), List.mem_cons_self, hz, htop⟩
    · -- the point is above the lowest interval
      have hb' : b ∈ stack (bottom + h) hs := by
        rcases List.mem_cons.mp hb with rfl | hb'
        · exact absurd hzb htop
        · exact hb'
      obtain ⟨c, hc, hcz⟩ := ih (fun h' hh' => hpos h' (List.mem_cons_of_mem h hh')) hb'
        (not_le.mp htop).le
      exact ⟨c, List.mem_cons_of_mem _ hc, hcz⟩

end Intervals
