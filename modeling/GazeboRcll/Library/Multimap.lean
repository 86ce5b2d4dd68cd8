import Mathlib.Data.List.Basic
import Mathlib.Order.Lattice

/-!
# Multimaps

A map that holds any number of values under a key, as `std::multimap` does: its entries are
sorted by their keys, and a new one stands behind those with the same key. `equalRange` are the
values under a key, so that a multimap is known by the order of its keys and its equal ranges.
-/

/-- Entries sorted by their keys. -/
structure Multimap (κ β : Type) [LinearOrder κ] where
  entries : List (κ × β)
  sorted : (entries.map Prod.fst).Pairwise (· ≤ ·)

namespace Multimap

variable {κ β : Type} [LinearOrder κ]

def empty : Multimap κ β := ⟨[], .nil⟩

/-- Put an entry in front of the first one with a greater key. -/
def insertEntry (k : κ) (b : β) : List (κ × β) → List (κ × β)
  | [] => [(k, b)]
  | e :: es => if k < e.1 then (k, b) :: e :: es else e :: insertEntry k b es

/-- The keys are those before and the new one. -/
theorem mem_map_insertEntry {k k' : κ} {b : β} {es : List (κ × β)} :
    k' ∈ (insertEntry k b es).map Prod.fst ↔ k' = k ∨ k' ∈ es.map Prod.fst := by
  induction es with
  | nil => simp [insertEntry]
  | cons e es ih =>
    rw [insertEntry]
    split_ifs with hlt
    · rw [List.map_cons, List.mem_cons]
    · rw [List.map_cons, List.map_cons, List.mem_cons, List.mem_cons, ih, or_left_comm]

theorem pairwise_insertEntry (k : κ) (b : β) {es : List (κ × β)}
    (h : (es.map Prod.fst).Pairwise (· ≤ ·)) :
    ((insertEntry k b es).map Prod.fst).Pairwise (· ≤ ·) := by
  induction es with
  | nil => exact List.pairwise_singleton ..
  | cons e es ih =>
    rw [List.map_cons, List.pairwise_cons] at h
    obtain ⟨hfirst, hrest⟩ := h
    rw [insertEntry]
    split_ifs with hlt
    · rw [List.map_cons, List.map_cons, List.pairwise_cons, List.pairwise_cons]
      refine ⟨fun k' hk' => ?_, hfirst, hrest⟩
      cases List.mem_cons.mp hk' with
      | inl heq => exact heq ▸ hlt.le
      | inr hmem => exact hlt.le.trans (hfirst k' hmem)
    · rw [List.map_cons, List.pairwise_cons]
      refine ⟨fun k' hk' => ?_, ih hrest⟩
      cases mem_map_insertEntry.mp hk' with
      | inl heq => exact heq ▸ not_lt.mp hlt
      | inr hmem => exact hfirst k' hmem

def insert (m : Multimap κ β) (k : κ) (b : β) : Multimap κ β :=
  ⟨insertEntry k b m.entries, pairwise_insertEntry k b m.sorted⟩

/-- The values under a key, in the order in which they were inserted. -/
def equalRange (m : Multimap κ β) (k : κ) : List β :=
  (m.entries.filter fun e => e.1 = k).map Prod.snd

/-- The entries of the key stay in front of a new one with the key, all others are left out. -/
theorem filter_insertEntry (k k' : κ) (b : β) {es : List (κ × β)}
    (h : (es.map Prod.fst).Pairwise (· ≤ ·)) :
    (insertEntry k b es).filter (fun e => e.1 = k') =
      (es.filter fun e => e.1 = k') ++ if k = k' then [(k, b)] else [] := by
  induction es with
  | nil =>
    rw [insertEntry, List.filter_cons, List.filter_nil, List.nil_append]
    simp only [decide_eq_true_eq]
  | cons e es ih =>
    rw [List.map_cons, List.pairwise_cons] at h
    obtain ⟨hfirst, hrest⟩ := h
    rw [insertEntry]
    split_ifs with hlt heq
    · -- from here on all keys are greater
      have hnone : (e :: es).filter (fun e => e.1 = k') = [] := by
        rw [List.filter_eq_nil_iff]
        intro e' hmem
        rw [decide_eq_true_eq, ← heq]
        cases List.mem_cons.mp hmem with
        | inl hhead => exact hhead ▸ hlt.ne'
        | inr htail => exact (hlt.trans_le (hfirst e'.1 (List.mem_map_of_mem htail))).ne'
      rw [List.filter_cons, hnone, List.nil_append, if_pos (decide_eq_true heq)]
    · rw [List.filter_cons, List.append_nil, if_neg (by rwa [decide_eq_true_eq])]
    · rw [List.filter_cons, List.filter_cons, ih hrest, if_pos ‹k = k'›]
      split_ifs <;> rfl
    · rw [List.filter_cons, List.filter_cons, ih hrest, if_neg ‹k ≠ k'›]
      split_ifs <;> rfl

/-- A new value is the last one under its key. -/
theorem equalRange_insert (m : Multimap κ β) (k k' : κ) (b : β) :
    (m.insert k b).equalRange k' = m.equalRange k' ++ if k = k' then [b] else [] := by
  show ((insertEntry k b m.entries).filter _).map Prod.snd = _
  rw [filter_insertEntry k k' b m.sorted, List.map_append, equalRange]
  split_ifs <;> rfl

/-- Insert entries one after the other. -/
def insertAll (m : Multimap κ β) (es : List (κ × β)) : Multimap κ β :=
  es.foldl (fun m e => m.insert e.1 e.2) m

/-- Under every key there is what was inserted under it, in this order. -/
theorem equalRange_insertAll (m : Multimap κ β) (es : List (κ × β)) (k : κ) :
    (m.insertAll es).equalRange k =
      m.equalRange k ++ (es.filter fun e => e.1 = k).map Prod.snd := by
  induction es generalizing m with
  | nil => rw [List.filter_nil, List.map_nil, List.append_nil, insertAll, List.foldl_nil]
  | cons e es ih =>
    rw [insertAll, List.foldl_cons, ← insertAll, ih, equalRange_insert, List.append_assoc,
      List.filter_cons]
    simp only [decide_eq_true_eq]
    split_ifs <;> rfl

end Multimap
