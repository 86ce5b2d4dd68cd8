import Mathlib.Data.List.Nodup
import Mathlib.Logic.Function.Basic

/-!
# Singly linked lists in memory

A memory maps an address to a cell, which has a value and the address of the next cell.
`Chain h p l` says that the cells from `p` on are those of `l`, each with its address.

The operations are a new cell at the front (`Chain.cons`), a new cell behind the last one
(`Chain.link`), and freeing the cells one after the other (`freeAll_eq`). What is written elsewhere
does not concern a chain (`Chain.congr`).
-/

/-- The cells at the addresses that are in use. -/
abbrev Memory (α β : Type) := α → Option (β × Option α)

/-- The cells from an address on, up to one without a next cell. -/
inductive Chain {α β : Type} (h : Memory α β) : Option α → List (α × β) → Prop where
  | nil : Chain h none []
  | cons {a : α} {b : β} {next : Option α} {l : List (α × β)} :
    h a = some (b, next) → Chain h next l → Chain h (some a) ((a, b) :: l)

namespace Chain

variable {α β : Type} {h h' : Memory α β} {p : Option α} {l : List (α × β)}

/-- The addresses of a list of cells. -/
def addresses (l : List (α × β)) : List α := l.map Prod.fst

/-- A chain stays as long as its cells do. -/
theorem congr (hc : Chain h p l) (hsame : ∀ a ∈ addresses l, h' a = h a) : Chain h' p l := by
  induction hc with
  | nil => exact .nil
  | @cons a b next l ha _ ih =>
    apply cons
    · rw [hsame a List.mem_cons_self]
      exact ha
    · exact ih fun a' ha' => hsame a' (List.mem_cons_of_mem a ha')

/-- All its cells are in use. -/
theorem ne_none_of_mem (hc : Chain h p l) {a : α} (ha : a ∈ addresses l) : h a ≠ none := by
  induction hc with
  | nil => exact absurd ha List.not_mem_nil
  | @cons a' b next l hcell _ ih =>
    rcases List.mem_cons.mp ha with rfl | hrest
    · show h a ≠ none
      rw [hcell]
      nofun
    · exact ih hrest

theorem eq_nil_of_none (hc : Chain h none l) : l = [] := by
  cases hc
  rfl

theorem eq_none_of_nil (hc : Chain h p []) : p = none := by
  cases hc
  rfl

/-- A chain with a first pointer has a first cell. -/
theorem exists_of_some {a : α} (hc : Chain h (some a) l) :
    ∃ b next rest, h a = some (b, next) ∧ l = (a, b) :: rest := by
  cases hc with
  | cons ha _ => exact ⟨_, _, _, ha, rfl⟩

variable [DecidableEq α]

/-- Writing to an address that is not in the chain. -/
theorem update_of_notMem (hc : Chain h p l) {a : α} (ha : a ∉ addresses l)
    (cell : Option (β × Option α)) : Chain (Function.update h a cell) p l := by
  apply hc.congr
  intro a' ha'
  apply Function.update_of_ne
  rintro rfl
  exact ha ha'

/-- A new cell in front of the chain. -/
theorem push (hc : Chain h p l) {a : α} (ha : a ∉ addresses l) (b : β) :
    Chain (Function.update h a (some (b, p))) (some a) ((a, b) :: l) :=
  .cons (Function.update_self ..) (hc.update_of_notMem ha _)

/-- A new cell behind the last one, to which the last one is linked. -/
theorem link {a last : α} {blast : β} (hc : Chain h p (l ++ [(last, blast)]))
    (hnodup : (addresses (l ++ [(last, blast)])).Nodup)
    (ha : a ∉ addresses (l ++ [(last, blast)])) (b : β) :
    h last = some (blast, none) ∧
      Chain (Function.update (Function.update h a (some (b, none))) last (some (blast, some a))) p
        (l ++ [(last, blast)] ++ [(a, b)]) := by
  induction l generalizing p with
  | nil =>
    rw [List.nil_append] at hc ha
    -- the last cell is written, the new one is its end
    have hne : a ≠ last := fun heq => ha (by simp [addresses, heq])
    cases hc with
    | cons hcell hrest =>
      cases hrest
      refine ⟨hcell, .cons (Function.update_self ..) (.cons ?_ .nil)⟩
      rw [Function.update_of_ne hne, Function.update_self]
  | cons c l ih =>
    rw [List.cons_append] at hc ha hnodup
    obtain ⟨hnot, hrestNodup⟩ := List.nodup_cons.mp hnodup
    cases hc with
    | @cons a' b' _ _ hcell hrest =>
      obtain ⟨hlast, hchain⟩ := ih hrest hrestNodup fun hmem => ha (List.mem_cons_of_mem _ hmem)
      refine ⟨hlast, .cons ?_ hchain⟩
      -- the cells before are none of the two
      have hnew : a' ≠ a := fun heq => ha (by simp [addresses, heq])
      have hother : a' ≠ last := by
        rintro rfl
        exact hnot (by simp)
      rw [Function.update_of_ne hother, Function.update_of_ne hnew]
      exact hcell

/-! ## Walking along a chain -/

omit [DecidableEq α] in
/-- The values from an address on, in at most so many steps, and whether the end was reached. -/
def walk (h : Memory α β) : ℕ → Option α → List β × Bool
  | _, none => ([], true)
  | 0, some _ => ([], false)
  | n + 1, some a =>
    match h a with
    | none => ([], false)
    | some (b, next) =>
      let (bs, done) := walk h n next
      (b :: bs, done)

omit [DecidableEq α] in
/-- A walk that is long enough sees the whole chain. -/
theorem walk_eq (hc : Chain h p l) {n : ℕ} (hn : l.length ≤ n) :
    walk h n p = (l.map Prod.snd, true) := by
  induction hc generalizing n with
  | nil => cases n <;> rfl
  | @cons a b next l ha _ ih =>
    obtain ⟨k, rfl⟩ : ∃ k, n = k + 1 := ⟨n - 1, by rw [List.length_cons] at hn; omega⟩
    have hle : l.length ≤ k := by
      rw [List.length_cons] at hn
      omega
    simp only [walk, ha, ih hle, List.map_cons]

/-- Free the cells from an address on in that many turns, `none` if it does not come out. -/
def freeAll : ℕ → Memory α β → Option α → Option (Memory α β)
  | 0, h, none => some h
  | 0, _, some _ => none
  | _ + 1, _, none => none
  | n + 1, h, some a =>
    match h a with
    | none => none
    | some (_, next) => freeAll n (Function.update h a none) next

/-- It takes one turn for each cell, and nothing else is freed. -/
theorem freeAll_eq (hc : Chain h p l) (hnodup : (addresses l).Nodup) (n : ℕ) :
    freeAll n h p =
      if n = l.length then some fun a => if a ∈ addresses l then none else h a else none := by
  induction n generalizing h p l with
  | zero =>
    cases hc with
    | nil => simp [freeAll, addresses]
    | cons _ _ => rw [freeAll, List.length_cons, if_neg (by omega)]
  | succ n ih =>
    cases hc with
    | nil => rfl
    | @cons a b next l ha hrest =>
      -- the first cell is freed, and the rest of the chain does not need it
      obtain ⟨hnot, hrestNodup⟩ := List.nodup_cons.mp hnodup
      simp only [freeAll, ha, ih (hrest.update_of_notMem hnot none) hrestNodup, List.length_cons,
        Nat.add_right_cancel_iff]
      by_cases hn : n = l.length
      · rw [if_pos hn, if_pos hn]
        congr 1
        ext a' : 1
        by_cases ha' : a' = a
        · have hmem : a' ∈ addresses ((a, b) :: l) := by simp [addresses, ha']
          rw [if_pos hmem, ha', Function.update_self, ite_self]
        · rw [Function.update_of_ne ha']
          have hmem : a' ∈ addresses ((a, b) :: l) ↔ a' ∈ addresses l := by
            simp [addresses, ha']
          rw [if_congr hmem rfl rfl]
      · rw [if_neg hn, if_neg hn]

end Chain
