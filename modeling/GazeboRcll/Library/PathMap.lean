import GazeboRcll.Library.KeyTree
import Mathlib.Data.List.Infix

/-!
# Values at paths

A store in which each value has a path, and no path goes on below one that has a value. Nodes above
the values are not kept: a path leads somewhere if a value is at it or below it.

`KeyTree.toPathMap` is what such a store is made of in a tree. The value at the root is not in it.
-/

/-- Where a value is, there is none further down. -/
@[ext] structure PathMap (κ α : Type) where
  entry : List κ → Option α
  apart : ∀ p k r, (entry p).isSome = true → entry (p ++ k :: r) = none

namespace PathMap

variable {κ α : Type}

def empty : PathMap κ α where
  entry _ := none
  apart _ _ _ _ := rfl

/-- There is a value below the path. -/
def Occupied (m : PathMap κ α) (q : List κ) : Prop := ∃ k r, (m.entry (q ++ k :: r)).isSome = true

/-- There is a value at the path or below it. -/
def Reaches (m : PathMap κ α) (q : List κ) : Prop := ∃ r, (m.entry (q ++ r)).isSome = true

open Classical in
/-- The part of `above ++ q` up to the first element that does not lead anywhere. -/
noncomputable def missing (m : PathMap κ α) (above : List κ) : List κ → List κ
  | [] => above
  | k :: q => if m.Reaches (above ++ [k]) then missing m (above ++ [k]) q else above ++ [k]

section

variable [DecidableEq κ]

/-- Set the value at a path, in place of those above and below. -/
def put (m : PathMap κ α) (q : List κ) (a : α) : PathMap κ α where
  entry p := if p = q then some a else if p <+: q ∨ q <+: p then none else m.entry p
  apart p k r h := by
    by_cases hp : p = q
    · subst hp
      rw [if_neg (by simp), if_pos (.inr (List.prefix_append p _))]
    · rw [if_neg hp] at h
      by_cases hpre : p <+: q ∨ q <+: p
      · rw [if_pos hpre] at h
        cases h
      · rw [if_neg hpre] at h
        rw [not_or] at hpre
        -- a path below `p` is next to `q` as well, so the old values decide
        have hne : p ++ k :: r ≠ q := fun heq => hpre.1 ⟨k :: r, heq⟩
        have hbelow : ¬ (p ++ k :: r <+: q ∨ q <+: p ++ k :: r) := by
          rintro (hleft | hright)
          · exact hpre.1 ((List.prefix_append p _).trans hleft)
          · rcases List.prefix_or_prefix_of_prefix hright (List.prefix_append p _) with h' | h'
            · exact hpre.2 h'
            · exact hpre.1 h'
        rw [if_neg hne, if_neg hbelow]
        exact m.apart p k r h

def erase (m : PathMap κ α) (q : List κ) : PathMap κ α where
  entry p := if p = q then none else m.entry p
  apart p k r h := by
    by_cases hp : p = q
    · rw [if_pos hp] at h
      cases h
    · rw [if_neg hp] at h
      rw [m.apart p k r h, ite_self]

end

variable {m : PathMap κ α} {q : List κ}

/-- A path above others has no value of its own. -/
theorem Occupied.entry_eq_none (h : m.Occupied q) : m.entry q = none := by
  obtain ⟨k, r, hr⟩ := h
  by_contra hne
  rw [m.apart q k r (Option.isSome_iff_ne_none.mpr hne)] at hr
  cases hr

/-- Where nothing is below, only the values above have to go. -/
theorem entry_put [DecidableEq κ] (h : ¬ m.Occupied q) (a : α) (p : List κ) :
    (m.put q a).entry p =
      if p = q then some a else if p <+: q then none else m.entry p := by
  rw [put]
  dsimp only
  by_cases hp : p = q
  · rw [if_pos hp, if_pos hp]
  · rw [if_neg hp, if_neg hp]
    by_cases hpre : p <+: q
    · rw [if_pos (.inl hpre), if_pos hpre]
    · rw [if_neg hpre]
      by_cases hbelow : q <+: p
      · rw [if_pos (.inr hbelow)]
        obtain ⟨r, rfl⟩ := hbelow
        cases r with
        | nil => exact absurd (List.append_nil q) hp
        | cons k r =>
          symm
          rw [← Option.not_isSome_iff_eq_none]
          exact fun hsome => h ⟨k, r, hsome⟩
      · exact if_neg (not_or.mpr ⟨hpre, hbelow⟩)

/-- Nothing is erased where there is no value. -/
theorem erase_of_none [DecidableEq κ] (h : m.entry q = none) : m.erase q = m := by
  ext1
  funext p
  show (if p = q then none else m.entry p) = m.entry p
  by_cases hp : p = q
  · rw [if_pos hp, hp, h]
  · exact if_neg hp

/-- The part of the path that is missed: what is before its last element leads somewhere, but it
does not. -/
theorem missing_eq {above p r : List κ} {k : κ}
    (h : ∀ x, x ≠ [] → x <+: p → m.Reaches (above ++ x)) (hk : ¬ m.Reaches (above ++ (p ++ [k]))) :
    m.missing above (p ++ k :: r) = above ++ (p ++ [k]) := by
  induction p generalizing above with
  | nil =>
    rw [List.nil_append, missing]
    exact if_neg hk
  | cons k' p ih =>
    have hfirst : m.Reaches (above ++ [k']) :=
      h [k'] (List.cons_ne_nil k' []) (List.cons_prefix_cons.mpr ⟨rfl, List.nil_prefix⟩)
    have happend : ∀ x, above ++ [k'] ++ x = above ++ k' :: x := fun x => by
      rw [List.append_assoc, List.singleton_append]
    rw [List.cons_append, missing, if_pos hfirst, ih]
    · rw [happend, List.cons_append]
    · intro x _ hx
      rw [happend]
      exact h (k' :: x) (List.cons_ne_nil k' x) (List.cons_prefix_cons.mpr ⟨rfl, hx⟩)
    · rwa [happend, ← List.cons_append]

end PathMap

/-! ## In a tree -/

namespace KeyTree

variable {κ α : Type} [LinearOrder κ]

/-- The leaves below the root. -/
def toPathMap (t : KeyTree κ α) : PathMap κ α where
  entry p := if p = [] then none else t.leafAt p
  apart p k r h := by
    by_cases hp : p = []
    · rw [if_pos hp] at h
      cases h
    · rw [if_neg hp] at h
      obtain ⟨v, hv⟩ := Option.isSome_iff_exists.mp h
      rw [if_neg (by simp)]
      by_contra hne
      obtain ⟨w, hw⟩ := Option.ne_none_iff_exists'.mp hne
      have heq := eq_of_leafAt_below hv (valueAt_of_leafAt hw) (List.prefix_append p _)
      simp at heq

variable {t t' : KeyTree κ α} {p : List κ}

/-- The values of the map are the leaves of the tree. -/
theorem entry_toPathMap (t : KeyTree κ α) (hp : p ≠ []) : t.toPathMap.entry p = t.leafAt p :=
  if_neg hp

/-- A leaf is known by its value and by what its children have. -/
theorem leafAt_congr (h : t.valueAt p = t'.valueAt p)
    (hbelow : ∀ k, t.valueAt (p ++ [k]) = t'.valueAt (p ++ [k])) : t.leafAt p = t'.leafAt p := by
  ext v
  simp only [leafAt_eq_some_iff, h, hbelow]

/-- Trees with the same leaves have the same map. -/
theorem toPathMap_congr (h : ∀ p, p ≠ [] → t.leafAt p = t'.leafAt p) :
    t.toPathMap = t'.toPathMap := by
  ext1
  funext p
  rw [toPathMap, toPathMap]
  dsimp only
  split_ifs with hp
  · rfl
  · exact h p hp

/-- A path has values below it in the map if its node has children. -/
theorem occupied_toPathMap_iff :
    t.toPathMap.Occupied p ↔ ∃ n, t.get? p = some n ∧ n.HasChildren := by
  constructor
  · intro ⟨k, r, h⟩
    rw [entry_toPathMap t (by simp), Option.isSome_iff_exists] at h
    obtain ⟨v, hv⟩ := h
    obtain ⟨n, hn, hr⟩ := get?_of_append (get?_of_leafAt hv)
    rw [get?_cons, Option.bind_eq_some_iff] at hr
    obtain ⟨c, hc, -⟩ := hr
    exact ⟨n, hn, Children.ne_nil_of_find? hc⟩
  · intro ⟨n, hn, hchildren⟩
    obtain ⟨k, hk⟩ := (hasChildren_iff n).mp hchildren
    obtain ⟨v, hv⟩ := Option.isSome_iff_exists.mp hk
    have hvalue : t.valueAt (p ++ [k]) = some v := by
      rw [valueAt_append, hn, Option.bind_some, hv]
    obtain ⟨r, w, hw⟩ := exists_leafAt_append hvalue
    rw [List.append_assoc, List.singleton_append] at hw
    exact ⟨k, r, by rw [entry_toPathMap t (by simp), hw]; rfl⟩

theorem not_occupied_of_none (h : t.get? p = none) : ¬ t.toPathMap.Occupied p := by
  intro hocc
  obtain ⟨n, hn, -⟩ := occupied_toPathMap_iff.mp hocc
  rw [h] at hn
  cases hn

theorem not_occupied_of_leafAt {v : α} (h : t.leafAt p = some v) : ¬ t.toPathMap.Occupied p := by
  intro hocc
  obtain ⟨n, hn, hchildren⟩ := occupied_toPathMap_iff.mp hocc
  rw [get?_of_leafAt h] at hn
  cases hn
  exact hchildren rfl

/-- A path leads somewhere if a node is there. -/
theorem reaches_toPathMap_iff (hp : p ≠ []) :
    t.toPathMap.Reaches p ↔ (t.valueAt p).isSome = true := by
  constructor
  · intro ⟨r, h⟩
    rw [entry_toPathMap t (by simp [hp]), Option.isSome_iff_exists] at h
    obtain ⟨v, hv⟩ := h
    obtain ⟨w, hw⟩ := valueAt_of_prefix (List.prefix_append p r) (valueAt_of_leafAt hv)
    rw [hw]
    rfl
  · intro h
    obtain ⟨v, hv⟩ := Option.isSome_iff_exists.mp h
    obtain ⟨r, w, hw⟩ := exists_leafAt_append hv
    exact ⟨r, by rw [entry_toPathMap t (by simp [hp]), hw]; rfl⟩

/-- A tree without children has an empty map. -/
theorem toPathMap_childless (v : α) : toPathMap (⟨v, .nil⟩ : KeyTree κ α) = .empty := by
  ext1
  funext p
  cases p <;> rfl

/-- The leaf that is taken away, with the nodes that led to it alone. -/
theorem Pruned.toPathMap_eq {q : List κ} {v : α} (h : t.Pruned q t') (hq : t.leafAt q = some v) :
    t'.toPathMap = t.toPathMap.erase q := by
  ext1
  funext p
  rw [PathMap.erase]
  dsimp only
  by_cases hp : p = []
  · subst hp
    exact (ite_self _).symm
  · rw [entry_toPathMap t hp, entry_toPathMap t' hp, h.leafAt_eq hq hp]

end KeyTree
