import Mathlib.Order.Lattice
import Mathlib.Tactic.Common

/-!
# Trees of ordered maps

A node has a value and a map from keys to its children, kept as a list in the order of the
keys. `Children.insert` and `Children.erase` change one entry of a map, `KeyTree.get?`
follows a path.

The laws of lookup hold for any list of children; that every key occurs once (`Sorted`) is
needed where all the children of a node are visited, or one is erased.
-/

/-- The children of a node: the first one, with its key, value and children, and the rest. -/
inductive Children (κ α : Type) where
  | nil
  | cons (key : κ) (value : α) (children rest : Children κ α)
deriving DecidableEq

/-- A tree, given by its root. -/
structure KeyTree (κ α : Type) where
  value : α
  children : Children κ α
deriving DecidableEq

namespace Children

variable {κ α : Type} [LinearOrder κ]

/-! ## One level -/

def find? : Children κ α → κ → Option (KeyTree κ α)
  | nil, _ => none
  | cons k v cs rest, key => if key = k then some ⟨v, cs⟩ else rest.find? key

/-- Add a child, or replace it. -/
def insert : Children κ α → κ → KeyTree κ α → Children κ α
  | nil, key, t => cons key t.value t.children nil
  | cons k v cs rest, key, t =>
    if key = k then cons key t.value t.children rest
    else if key < k then cons key t.value t.children (cons k v cs rest)
    else cons k v cs (rest.insert key t)

def erase : Children κ α → κ → Children κ α
  | nil, _ => nil
  | cons k v cs rest, key => if key = k then rest else cons k v cs (rest.erase key)

def keys : Children κ α → List κ
  | nil => []
  | cons k _ _ rest => k :: rest.keys

/-- The keys increase, on every level. -/
def Sorted : Children κ α → Prop
  | nil => True
  | cons k _ cs rest => (∀ k' ∈ rest.keys, k < k') ∧ cs.Sorted ∧ rest.Sorted

def decidableSorted : (f : Children κ α) → Decidable f.Sorted
  | nil => .isTrue trivial
  | cons k _ cs rest =>
    have := decidableSorted cs
    have := decidableSorted rest
    inferInstanceAs (Decidable ((∀ k' ∈ rest.keys, k < k') ∧ cs.Sorted ∧ rest.Sorted))

instance (f : Children κ α) : Decidable f.Sorted := f.decidableSorted

@[simp] theorem find?_insert_self (f : Children κ α) (key : κ) (t : KeyTree κ α) :
    (f.insert key t).find? key = some t := by
  induction f with
  | nil => exact if_pos rfl
  | cons k v cs rest _ ih =>
    rw [insert]
    split_ifs with heq hlt
    · exact if_pos rfl
    · exact if_pos rfl
    · rw [find?, if_neg heq, ih]

theorem find?_insert_of_ne (f : Children κ α) {key k' : κ} (h : k' ≠ key) (t : KeyTree κ α) :
    (f.insert key t).find? k' = f.find? k' := by
  induction f with
  | nil => exact if_neg h
  | cons k v cs rest _ ih =>
    rw [insert]
    split_ifs with heq hlt
    · rw [find?, find?, if_neg h, if_neg (heq ▸ h)]
    · rw [find?, if_neg h]
    · rw [find?, find?, ih]

/-- Erasing a child leaves the others. -/
theorem find?_erase_of_ne (f : Children κ α) {key k' : κ} (h : k' ≠ key) :
    (f.erase key).find? k' = f.find? k' := by
  induction f with
  | nil => rfl
  | cons k v cs rest _ ih =>
    rw [erase]
    split_ifs with heq
    · rw [find?, if_neg (heq ▸ h)]
    · rw [find?, find?, ih]

/-- The second insertion under a key replaces the first. -/
theorem insert_insert (f : Children κ α) (key : κ) (t u : KeyTree κ α) :
    (f.insert key t).insert key u = f.insert key u := by
  induction f with
  | nil => exact if_pos rfl
  | cons k v cs rest _ ih =>
    rw [insert, insert]
    split_ifs with heq hlt
    · rw [insert, if_pos rfl]
    · rw [insert, if_pos rfl]
    · rw [insert, if_neg heq, if_neg hlt, ih]

/-- Nothing is erased where there is no child. -/
theorem erase_of_not_mem {f : Children κ α} {key : κ} (h : key ∉ f.keys) : f.erase key = f := by
  induction f with
  | nil => rfl
  | cons k v cs rest _ ih =>
    rw [keys, List.mem_cons, not_or] at h
    rw [erase, if_neg h.1, ih h.2]

/-- The keys are those under which a child is found. -/
theorem isSome_find?_iff (f : Children κ α) (key : κ) :
    (f.find? key).isSome = true ↔ key ∈ f.keys := by
  induction f with
  | nil => exact iff_of_false Bool.false_ne_true List.not_mem_nil
  | cons k v cs rest _ ih =>
    rw [find?, keys, List.mem_cons]
    by_cases heq : key = k
    · rw [if_pos heq]
      exact iff_of_true rfl (.inl heq)
    · rw [if_neg heq, ih]
      exact (or_iff_right heq).symm

theorem find?_eq_none_iff (f : Children κ α) (key : κ) : f.find? key = none ↔ key ∉ f.keys := by
  rw [← isSome_find?_iff, Option.isSome_iff_ne_none, not_not]

/-- Inserting adds the key. -/
theorem mem_keys_insert (f : Children κ α) (key k' : κ) (t : KeyTree κ α) :
    k' ∈ (f.insert key t).keys ↔ k' = key ∨ k' ∈ f.keys := by
  rw [← isSome_find?_iff, ← isSome_find?_iff]
  by_cases heq : k' = key
  · rw [heq, find?_insert_self]
    exact iff_of_true rfl (.inl rfl)
  · rw [find?_insert_of_ne f heq]
    exact (or_iff_right heq).symm

/-- Erasing adds no key. -/
theorem mem_keys_of_mem_erase (f : Children κ α) {key k' : κ} (h : k' ∈ (f.erase key).keys) :
    k' ∈ f.keys := by
  induction f with
  | nil => exact h
  | cons k v cs rest _ ih =>
    rw [erase] at h
    split_ifs at h with heq
    · exact List.mem_cons_of_mem _ h
    · rcases List.mem_cons.mp h with rfl | h
      · exact List.mem_cons_self
      · exact List.mem_cons_of_mem _ (ih h)

/-- What comes later in the order is not hidden by the first child. -/
theorem find?_cons_of_find?_rest {key k : κ} {v : α} {cs rest : Children κ α} {c : KeyTree κ α}
    (hsorted : (cons key v cs rest).Sorted) (hc : rest.find? k = some c) :
    (cons key v cs rest).find? k = some c := by
  have hmem : k ∈ rest.keys := (isSome_find?_iff rest k).mp (by rw [hc]; rfl)
  rw [find?, if_neg (hsorted.1 k hmem).ne', hc]

theorem ne_nil_of_find? {f : Children κ α} {key : κ} {t : KeyTree κ α}
    (h : f.find? key = some t) : f ≠ nil := by
  rintro rfl
  cases h

/-- Where there are children, one is found. -/
theorem exists_find?_of_ne_nil {f : Children κ α} (h : f ≠ nil) :
    ∃ key t, f.find? key = some t := by
  cases f with
  | nil => exact absurd rfl h
  | cons k v cs rest => exact ⟨k, ⟨v, cs⟩, if_pos rfl⟩

namespace Sorted

variable {f : Children κ α}

/-- What a map of sorted children has under a key is sorted. -/
theorem find? (h : f.Sorted) {key : κ} {t : KeyTree κ α} (ht : f.find? key = some t) :
    t.children.Sorted := by
  induction f with
  | nil => cases ht
  | cons k v cs rest _ ih =>
    rw [Children.find?] at ht
    split_ifs at ht with heq
    · cases ht
      exact h.2.1
    · exact ih h.2.2 ht

theorem insert (h : f.Sorted) (key : κ) {t : KeyTree κ α} (ht : t.children.Sorted) :
    (f.insert key t).Sorted := by
  induction f with
  | nil => exact ⟨nofun, ht, trivial⟩
  | cons k v cs rest _ ih =>
    rw [Children.insert]
    split_ifs with heq hlt
    · exact ⟨heq ▸ h.1, ht, h.2.2⟩
    -- the new key comes first
    · refine ⟨fun k' hk' => ?_, ht, h⟩
      rcases List.mem_cons.mp hk' with rfl | hk'
      · exact hlt
      · exact lt_trans hlt (h.1 k' hk')
    · have hgt : k < key := lt_of_le_of_ne (not_lt.mp hlt) (Ne.symm heq)
      refine ⟨fun k' hk' => ?_, h.2.1, ih h.2.2⟩
      rcases (mem_keys_insert rest key k' t).mp hk' with rfl | hk'
      · exact hgt
      · exact h.1 k' hk'

theorem erase (h : f.Sorted) (key : κ) : (f.erase key).Sorted := by
  induction f with
  | nil => trivial
  | cons k v cs rest _ ih =>
    rw [Children.erase]
    split_ifs with heq
    · exact h.2.2
    · exact ⟨fun k' hk' => h.1 k' (mem_keys_of_mem_erase rest hk'), h.2.1, ih h.2.2⟩

/-- After an erasure the key is gone. -/
theorem find?_erase_self (h : f.Sorted) (key : κ) : (f.erase key).find? key = none := by
  induction f with
  | nil => rfl
  | cons k v cs rest _ ih =>
    rw [Children.erase]
    split_ifs with heq
    · rw [find?_eq_none_iff]
      exact fun hmem => lt_irrefl key (heq ▸ h.1 key hmem)
    · rw [Children.find?, if_neg heq]
      exact ih h.2.2

/-- A child that is replaced makes no difference once it is erased. -/
theorem erase_insert_self (h : f.Sorted) (key : κ) (t : KeyTree κ α) :
    (f.insert key t).erase key = f.erase key := by
  induction f with
  | nil => exact if_pos rfl
  | cons k v cs rest _ ih =>
    rw [Children.insert, Children.erase]
    split_ifs with heq hlt
    · rw [Children.erase, if_pos rfl]
    · have hnot : key ∉ rest.keys := fun hmem => lt_asymm hlt (h.1 key hmem)
      rw [Children.erase, if_pos rfl, Children.erase_of_not_mem hnot]
    · rw [Children.erase, if_neg heq, ih h.2.2]

theorem nodup_keys (h : f.Sorted) : f.keys.Nodup := by
  induction f with
  | nil => exact List.nodup_nil
  | cons k v cs rest _ ih =>
    exact List.nodup_cons.mpr ⟨fun hmem => lt_irrefl k (h.1 k hmem), ih h.2.2⟩

end Sorted

end Children

namespace KeyTree

variable {κ α : Type} [LinearOrder κ]

/-! ## Paths -/

/-- Follow a path. -/
def get? (t : KeyTree κ α) : List κ → Option (KeyTree κ α)
  | [] => some t
  | k :: p => (t.children.find? k).bind fun c => c.get? p

/-- Assignment to a node that is there. -/
def put (t : KeyTree κ α) : List κ → KeyTree κ α → KeyTree κ α
  | [], c => c
  | k :: p, c =>
    match t.children.find? k with
    | none => t
    | some d => { t with children := t.children.insert k (d.put p c) }

/-- The tree as a function of the path. -/
def valueAt (t : KeyTree κ α) (p : List κ) : Option α := (t.get? p).map value

/-- The value at a path where nothing is below. -/
def leafAt (t : KeyTree κ α) (p : List κ) : Option α :=
  (t.get? p).bind fun c =>
    match c.children with
    | .nil => some c.value
    | .cons _ _ _ _ => none

/-- Assignment to one child. -/
def setChild (t : KeyTree κ α) (key : κ) (c : KeyTree κ α) : KeyTree κ α :=
  { t with children := t.children.insert key c }

def eraseChild (t : KeyTree κ α) (key : κ) : KeyTree κ α :=
  { t with children := t.children.erase key }

def HasChildren (t : KeyTree κ α) : Prop := t.children ≠ .nil

instance (t : KeyTree κ α) : Decidable t.HasChildren :=
  match t with
  | ⟨_, .nil⟩ => .isFalse fun h => h rfl
  | ⟨_, .cons _ _ _ _⟩ => .isTrue nofun

def Sorted (t : KeyTree κ α) : Prop := t.children.Sorted

instance (t : KeyTree κ α) : Decidable t.Sorted := inferInstanceAs (Decidable t.children.Sorted)

@[simp] theorem get?_nil (t : KeyTree κ α) : t.get? [] = some t := rfl

theorem get?_cons (t : KeyTree κ α) (k : κ) (p : List κ) :
    t.get? (k :: p) = (t.children.find? k).bind fun c => c.get? p := rfl

/-- The way to a node goes through the nodes above it. -/
theorem get?_append (t : KeyTree κ α) (p q : List κ) :
    t.get? (p ++ q) = (t.get? p).bind fun c => c.get? q := by
  induction p generalizing t with
  | nil => rfl
  | cons k p ih =>
    rw [List.cons_append, get?_cons, get?_cons]
    cases t.children.find? k with
    | none => rfl
    | some c => exact ih c

/-- What is below a child that was set is what is below it in itself. -/
theorem get?_setChild_self (t : KeyTree κ α) (k : κ) (c : KeyTree κ α) (p : List κ) :
    (t.setChild k c).get? (k :: p) = c.get? p := by
  rw [get?_cons, setChild, Children.find?_insert_self]
  rfl

/-- Setting a child leaves what is below the others. -/
theorem get?_setChild_of_ne (t : KeyTree κ α) {k k' : κ} (h : k' ≠ k) (c : KeyTree κ α)
    (p : List κ) : (t.setChild k c).get? (k' :: p) = t.get? (k' :: p) := by
  rw [get?_cons, get?_cons, setChild, Children.find?_insert_of_ne _ h]

/-- Every prefix of a path in the tree is in the tree. -/
theorem get?_of_append {t n : KeyTree κ α} {p q : List κ} (h : t.get? (p ++ q) = some n) :
    ∃ c, t.get? p = some c ∧ c.get? q = some n := by
  rw [get?_append, Option.bind_eq_some_iff] at h
  exact h

theorem Sorted.get? {t c : KeyTree κ α} (h : t.Sorted) {p : List κ} (hc : t.get? p = some c) :
    c.Sorted := by
  induction p generalizing t with
  | nil =>
    cases hc
    exact h
  | cons k p ih =>
    rw [get?_cons, Option.bind_eq_some_iff] at hc
    obtain ⟨d, hd, hc⟩ := hc
    exact ih (Children.Sorted.find? h hd) hc

theorem Sorted.setChild {t c : KeyTree κ α} (h : t.Sorted) (k : κ) (hc : c.Sorted) :
    (t.setChild k c).Sorted := Children.Sorted.insert h k hc

theorem Sorted.eraseChild {t : KeyTree κ α} (h : t.Sorted) (k : κ) : (t.eraseChild k).Sorted :=
  Children.Sorted.erase h k

/-! ## A tree as a function of the path -/

theorem valueAt_cons (t : KeyTree κ α) (k : κ) (p : List κ) :
    t.valueAt (k :: p) = (t.children.find? k).bind fun c => c.valueAt p := by
  rw [valueAt, get?_cons]
  cases t.children.find? k <;> rfl

/-- The value below a node. -/
theorem valueAt_append (t : KeyTree κ α) (p q : List κ) :
    t.valueAt (p ++ q) = (t.get? p).bind fun c => c.valueAt q := by
  rw [valueAt, get?_append]
  cases t.get? p <;> rfl

theorem valueAt_eq_none_iff (t : KeyTree κ α) (p : List κ) :
    t.valueAt p = none ↔ t.get? p = none := Option.map_eq_none_iff

theorem valueAt_setChild_self (t : KeyTree κ α) (k : κ) (c : KeyTree κ α) (p : List κ) :
    (t.setChild k c).valueAt (k :: p) = c.valueAt p :=
  congrArg (Option.map value) (get?_setChild_self t k c p)

theorem valueAt_setChild_of_ne (t : KeyTree κ α) {k k' : κ} (h : k' ≠ k) (c : KeyTree κ α)
    (p : List κ) : (t.setChild k c).valueAt (k' :: p) = t.valueAt (k' :: p) :=
  congrArg (Option.map value) (get?_setChild_of_ne t h c p)

/-- A path goes on where the node at it has children. -/
theorem valueAt_of_prefix {t : KeyTree κ α} {p q : List κ} {v : α} (hpre : p <+: q)
    (h : t.valueAt q = some v) : ∃ w, t.valueAt p = some w := by
  obtain ⟨r, rfl⟩ := hpre
  rw [valueAt, Option.map_eq_some_iff] at h
  obtain ⟨n, hn, -⟩ := h
  obtain ⟨c, hc, -⟩ := get?_of_append hn
  exact ⟨c.value, congrArg (Option.map value) hc⟩

/-- Below a node with something further down there is the child that leads to it. -/
theorem valueAt_child_of_append {t : KeyTree κ α} {p q : List κ} {k : κ} {v : α}
    (h : t.valueAt (p ++ k :: q) = some v) : ∃ w, t.valueAt (p ++ [k]) = some w :=
  valueAt_of_prefix ⟨q, (List.append_cons p k q).symm⟩ h

/-- A node has children if one has a value. -/
theorem hasChildren_iff (t : KeyTree κ α) :
    t.HasChildren ↔ ∃ k, (t.valueAt [k]).isSome = true := by
  constructor
  · intro h
    obtain ⟨k, c, hc⟩ := Children.exists_find?_of_ne_nil h
    exact ⟨k, by rw [valueAt_cons, hc]; rfl⟩
  · rintro ⟨k, hk⟩
    rw [valueAt_cons, Option.isSome_bind, Option.any_eq_true] at hk
    obtain ⟨c, hc, -⟩ := hk
    exact Children.ne_nil_of_find? hc

/-- A leaf is a node with a value and without children. -/
theorem leafAt_eq_some_iff (t : KeyTree κ α) (p : List κ) (v : α) :
    t.leafAt p = some v ↔ t.valueAt p = some v ∧ ∀ k, t.valueAt (p ++ [k]) = none := by
  -- a node is a leaf if none of its one-key extensions is there
  have hbelow : ∀ k, t.valueAt (p ++ [k]) = (t.get? p).bind fun c => c.valueAt [k] :=
    fun k => valueAt_append t p [k]
  simp only [hbelow]
  rw [leafAt, valueAt]
  cases t.get? p with
  | none => exact iff_of_false nofun fun h => nomatch h.1
  | some c =>
    obtain ⟨w, f⟩ := c
    cases f with
    | nil => exact ⟨fun h => ⟨h, fun _ => rfl⟩, fun h => h.1⟩
    | cons k w' cs rest =>
      have hfind : (Children.cons k w' cs rest).find? k = some ⟨w', cs⟩ := if_pos rfl
      refine iff_of_false nofun fun h => ?_
      have hk := h.2 k
      rw [Option.bind_some, valueAt_cons, hfind] at hk
      cases hk

/-- The node of a leaf is its value alone. -/
theorem get?_of_leafAt {t : KeyTree κ α} {p : List κ} {v : α} (h : t.leafAt p = some v) :
    t.get? p = some ⟨v, .nil⟩ := by
  obtain ⟨⟨w, f⟩, hc, hleaf⟩ := Option.bind_eq_some_iff.mp h
  cases f with
  | nil =>
    cases hleaf
    exact hc
  | cons k w' cs rest => cases hleaf

/-- The leaves are those of the children. -/
theorem leafAt_cons (t : KeyTree κ α) (k : κ) (p : List κ) :
    t.leafAt (k :: p) = (t.children.find? k).bind fun c => c.leafAt p := by
  rw [leafAt, get?_cons]
  cases t.children.find? k <;> rfl

theorem leafAt_nil_of_hasChildren {t : KeyTree κ α} (h : t.HasChildren) : t.leafAt [] = none := by
  obtain ⟨v, f⟩ := t
  cases f with
  | nil => exact absurd rfl h
  | cons k w cs rest => rfl

theorem hasChildren_of_leafAt {t : KeyTree κ α} {k : κ} {p : List κ} {v : α}
    (h : t.leafAt (k :: p) = some v) : t.HasChildren := by
  rw [leafAt_cons, Option.bind_eq_some_iff] at h
  obtain ⟨c, hc, -⟩ := h
  exact Children.ne_nil_of_find? hc

/-- What is assigned is there. -/
theorem get?_put_append {t d : KeyTree κ α} {p : List κ} (h : t.get? p = some d)
    (c : KeyTree κ α) (q : List κ) : (t.put p c).get? (p ++ q) = c.get? q := by
  induction p generalizing t with
  | nil => rfl
  | cons k p ih =>
    rw [get?_cons, Option.bind_eq_some_iff] at h
    obtain ⟨e, he, hd⟩ := h
    rw [put, he, List.cons_append]
    exact (get?_setChild_self t k (e.put p c) (p ++ q)).trans (ih hd)

/-- Nothing else changes, as far as values go. -/
theorem valueAt_put_of_not_prefix (t c : KeyTree κ α) {p q : List κ} (h : ¬ p <+: q) :
    (t.put p c).valueAt q = t.valueAt q := by
  induction p generalizing t q with
  | nil => exact absurd (List.nil_prefix) h
  | cons k p ih =>
    rw [put]
    cases hfind : t.children.find? k with
    | none => rfl
    | some d =>
      show (t.setChild k (d.put p c)).valueAt q = _
      cases q with
      | nil => rfl
      | cons k' q =>
        -- the two paths part at this key, or further down
        by_cases hk : k' = k
        · subst hk
          have hq : ¬ p <+: q := fun hpre => h (List.cons_prefix_cons.mpr ⟨rfl, hpre⟩)
          rw [valueAt_setChild_self, ih d hq, valueAt_cons, hfind]
          rfl
        · exact valueAt_setChild_of_ne t hk _ q

/-- A child that is set twice is the second one. -/
theorem setChild_setChild (t : KeyTree κ α) (key : κ) (c d : KeyTree κ α) :
    (t.setChild key c).setChild key d = t.setChild key d :=
  congrArg (mk t.value) (Children.insert_insert t.children key c d)

theorem Sorted.eraseChild_setChild {t : KeyTree κ α} (h : t.Sorted) (key : κ)
    (c : KeyTree κ α) : (t.setChild key c).eraseChild key = t.eraseChild key :=
  congrArg (mk t.value) (Children.Sorted.erase_insert_self h key c)

theorem hasChildren_setChild (t : KeyTree κ α) (key : κ) (c : KeyTree κ α) :
    (t.setChild key c).HasChildren := by
  intro hnil
  have hfind := Children.find?_insert_self t.children key c
  rw [show t.children.insert key c = .nil from hnil] at hfind
  cases hfind

/-- A node with children is not alone. -/
theorem hasChildren_put {t d c : KeyTree κ α} {p : List κ} (h : t.get? p = some d)
    (hc : c.HasChildren) : (t.put p c).HasChildren := by
  cases p with
  | nil => exact hc
  | cons k p =>
    rw [get?_cons, Option.bind_eq_some_iff] at h
    obtain ⟨e, he, -⟩ := h
    rw [put, he]
    exact hasChildren_setChild t k (e.put p c)

/-- Putting a node at a path keeps the order of the keys. -/
theorem Sorted.put {t c : KeyTree κ α} (h : t.Sorted) (p : List κ) (hc : c.Sorted) :
    (t.put p c).Sorted := by
  induction p generalizing t with
  | nil => exact hc
  | cons k p ih =>
    rw [KeyTree.put]
    cases hfind : t.children.find? k with
    | none => exact h
    | some d => exact Children.Sorted.insert h k (ih (Children.Sorted.find? h hfind))

/-- Below every node there is one without children. -/
theorem exists_leaf (t : KeyTree κ α) : ∃ p c, t.get? p = some c ∧ ¬ c.HasChildren := by
  obtain ⟨v, f⟩ := t
  induction f generalizing v with
  | nil => exact ⟨[], ⟨v, .nil⟩, rfl, fun h => h rfl⟩
  | cons k w cs rest ih _ =>
    obtain ⟨p, c, hc, hleaf⟩ := ih w
    refine ⟨k :: p, c, ?_, hleaf⟩
    have hfind : (Children.cons k w cs rest).find? k = some ⟨w, cs⟩ := if_pos rfl
    rw [get?_cons, hfind]
    exact hc

/-! ## Keys -/

/-- Every key below the root is one that `Q` allows. -/
def AllKeys (Q : κ → Prop) (t : KeyTree κ α) : Prop :=
  ∀ p, (t.valueAt p).isSome = true → ∀ k ∈ p, Q k

namespace AllKeys

variable {Q : κ → Prop} {t t' c : KeyTree κ α} {k key : κ} {v w : α} {cs rest : Children κ α}

theorem childless (Q : κ → Prop) (v : α) : AllKeys Q ⟨v, .nil⟩ := by
  intro p hp
  cases p with
  | nil => exact nofun
  | cons k p => cases hp

/-- The keys are those of the children, whatever the value. -/
theorem of_children (h : t.AllKeys Q) (heq : t'.children = t.children) : t'.AllKeys Q := by
  intro p hp
  cases p with
  | nil => exact nofun
  | cons k p =>
    refine h (k :: p) ?_
    rw [valueAt_cons, heq] at hp
    rw [valueAt_cons]
    exact hp

/-- The keys of a child, and of what is below it. -/
theorem child (h : t.AllKeys Q) (hc : t.children.find? k = some c) : Q k ∧ c.AllKeys Q := by
  have hbelow : ∀ p, (c.valueAt p).isSome = true → ∀ k' ∈ k :: p, Q k' := by
    intro p hp
    refine h (k :: p) ?_
    rw [valueAt_cons, hc]
    exact hp
  exact ⟨hbelow [] rfl k List.mem_cons_self, fun p hp k' hk =>
    hbelow p hp k' (List.mem_cons_of_mem k hk)⟩

theorem setChild (h : t.AllKeys Q) (hk : Q k) (hc : c.AllKeys Q) : (t.setChild k c).AllKeys Q := by
  intro p hp
  cases p with
  | nil => exact nofun
  | cons k' p =>
    by_cases heq : k' = k
    · subst heq
      rw [valueAt_setChild_self] at hp
      exact List.forall_mem_cons.mpr ⟨hk, hc p hp⟩
    · rw [valueAt_setChild_of_ne t heq] at hp
      exact h (k' :: p) hp

/-- The keys of the first child. -/
theorem first (h : AllKeys Q ⟨w, .cons key v cs rest⟩) : Q key ∧ AllKeys Q ⟨v, cs⟩ :=
  h.child (if_pos rfl)

/-- The keys of the other children. -/
theorem others (hsorted : (Children.cons key v cs rest).Sorted)
    (h : AllKeys Q ⟨w, .cons key v cs rest⟩) : AllKeys Q ⟨w, rest⟩ := by
  intro p hp
  cases p with
  | nil => exact nofun
  | cons k p =>
    refine h (k :: p) ?_
    rw [valueAt_cons] at hp ⊢
    cases hc : rest.find? k with
    | none =>
      rw [hc] at hp
      cases hp
    | some c => rwa [Children.find?_cons_of_find?_rest hsorted hc, ← hc]

end AllKeys

/-! ## Pruning -/

/-- A node below the root, on the way to a leaf, below which that leaf is the only one. -/
def DeadBranch (t : KeyTree κ α) (q p : List κ) : Prop :=
  p ≠ [] ∧ p <+: q ∧ ∀ r v, t.leafAt r = some v → p <+: r → r = q

/-- One leaf is taken away, and the branch that is dead without it, and nothing else. -/
structure Pruned (t : KeyTree κ α) (q : List κ) (t' : KeyTree κ α) : Prop where
  gone : ∀ p, t.DeadBranch q p → t'.valueAt p = none
  kept : ∀ p, ¬ t.DeadBranch q p → t'.valueAt p = t.valueAt p

/-- Every node is a leaf or above one. -/
theorem exists_leafAt_append {t : KeyTree κ α} {p : List κ} {v : α} (h : t.valueAt p = some v) :
    ∃ q w, t.leafAt (p ++ q) = some w := by
  rw [valueAt, Option.map_eq_some_iff] at h
  obtain ⟨c, hc, -⟩ := h
  obtain ⟨q, d, hd, hchildless⟩ := exists_leaf c
  obtain ⟨w, f⟩ := d
  obtain rfl : f = .nil := not_not.mp hchildless
  exact ⟨q, w, by rw [leafAt, get?_append, hc, Option.bind_some, hd]; rfl⟩

/-- Nothing is below a leaf. -/
theorem eq_of_leafAt_below {t : KeyTree κ α} {q r : List κ} {v w : α}
    (hq : t.leafAt q = some v) (hr : t.valueAt r = some w) (hpre : q <+: r) : r = q := by
  obtain ⟨s, rfl⟩ := hpre
  cases s with
  | nil => rw [List.append_nil]
  | cons k s =>
    obtain ⟨u, hu⟩ := valueAt_child_of_append hr
    rw [((leafAt_eq_some_iff t q v).mp hq).2 k] at hu
    cases hu

theorem valueAt_of_leafAt {t : KeyTree κ α} {q : List κ} {v : α} (h : t.leafAt q = some v) :
    t.valueAt q = some v := ((leafAt_eq_some_iff t q v).mp h).1

/-- A leaf is on its own dead branch. -/
theorem deadBranch_self (t : KeyTree κ α) {q : List κ} (hq : q ≠ []) {v : α}
    (h : t.leafAt q = some v) : t.DeadBranch q q :=
  ⟨hq, List.prefix_refl q, fun _ _ hr hpre =>
    eq_of_leafAt_below h (valueAt_of_leafAt hr) hpre⟩

/-- The dead branch in a child. -/
theorem deadBranch_cons {t c : KeyTree κ α} {k : κ} (hc : t.children.find? k = some c)
    (q p : List κ) :
    t.DeadBranch (k :: q) (k :: p) ↔
      p <+: q ∧ ∀ r v, c.leafAt r = some v → p <+: r → r = q := by
  -- r) = c.leafAt r := by :: below the first key the leaves are the child's
  have hleaf : ∀ r, t.leafAt (k :: r) = c.leafAt r := by
    intro r
    rw [leafAt_cons, hc, Option.bind_some]
  constructor
  · intro ⟨_, hpre, honly⟩
    refine ⟨(List.cons_prefix_cons.mp hpre).2, fun r v hr hp => ?_⟩
    rw [← hleaf] at hr
    exact (List.cons.inj (honly (k :: r) v hr (List.cons_prefix_cons.mpr ⟨rfl, hp⟩))).2
  · intro ⟨hpre, honly⟩
    refine ⟨List.cons_ne_nil k p, List.cons_prefix_cons.mpr ⟨rfl, hpre⟩, fun r v hr hp => ?_⟩
    obtain ⟨s, rfl⟩ := hp
    rw [List.cons_append, hleaf] at hr
    rw [List.cons_append, honly _ v hr (List.prefix_append p s)]

/-- Where nothing but one leaf is below a node, the node is on the way to it. -/
theorem prefix_of_only_leaf {t : KeyTree κ α} {q p : List κ} {w : α}
    (honly : ∀ r v, t.leafAt r = some v → r = q) (hp : t.valueAt p = some w) : p <+: q := by
  obtain ⟨s, u, hleaf⟩ := exists_leafAt_append hp
  rw [← honly _ u hleaf]
  exact List.prefix_append p s

namespace Pruned

variable {t t' : KeyTree κ α} {q : List κ} {v : α}

/-- Only the child that the path leads through has to be looked at. -/
theorem of_cons {k : κ} (hvalue : t'.value = t.value)
    (haside : ∀ k' p, k' ≠ k → t'.valueAt (k' :: p) = t.valueAt (k' :: p))
    (hgone : ∀ p, t.DeadBranch (k :: q) (k :: p) → t'.valueAt (k :: p) = none)
    (hkept : ∀ p, ¬ t.DeadBranch (k :: q) (k :: p) → t'.valueAt (k :: p) = t.valueAt (k :: p)) :
    t.Pruned (k :: q) t' where
  gone p hdead := by
    cases p with
    | nil => exact absurd rfl hdead.1
    | cons k' p =>
      obtain ⟨rfl, -⟩ := List.cons_prefix_cons.mp hdead.2.1
      exact hgone p hdead
  kept p hlive := by
    cases p with
    | nil => exact congrArg some hvalue
    | cons k' p =>
      by_cases hk : k' = k
      · subst hk
        exact hkept p hlive
      · exact haside k' p hk

/-- Another leaf is below the child, which stays. -/
theorem setChild {c c' : KeyTree κ α} {k : κ} (h : c.Pruned q c')
    (hc : t.children.find? k = some c) (hother : ∃ r w, c.leafAt r = some w ∧ r ≠ q) :
    t.Pruned (k :: q) (t.setChild k c') := by
  have hiff : ∀ p, t.DeadBranch (k :: q) (k :: p) ↔ c.DeadBranch q p := by
    intro p
    rw [deadBranch_cons hc]
    refine ⟨fun hdead => ⟨?_, hdead⟩, fun hdead => hdead.2⟩
    rintro rfl
    obtain ⟨r, w, hr, hne⟩ := hother
    exact hne (hdead.2 r w hr List.nil_prefix)
  refine of_cons rfl (fun k' p hk => valueAt_setChild_of_ne t hk c' p) (fun p hdead => ?_)
    fun p hlive => ?_
  · rw [valueAt_setChild_self]
    exact h.gone p ((hiff p).mp hdead)
  · rw [valueAt_setChild_self, valueAt_cons, hc]
    exact h.kept p fun hdead => hlive ((hiff p).mpr hdead)

/-- The leaf is the only one below the child, which goes. -/
theorem eraseChild {c : KeyTree κ α} {k : κ} (h : t.Sorted) (hc : t.children.find? k = some c)
    (honly : ∀ r w, c.leafAt r = some w → r = q) : t.Pruned (k :: q) (t.eraseChild k) := by
  have hgone : ∀ p, (t.eraseChild k).valueAt (k :: p) = none := by
    intro p
    rw [valueAt_cons, KeyTree.eraseChild, Children.Sorted.find?_erase_self h]
    rfl
  refine of_cons rfl (fun k' p hk => ?_) (fun p _ => hgone p) fun p hlive => ?_
  · rw [valueAt_cons, KeyTree.eraseChild, Children.find?_erase_of_ne _ hk, valueAt_cons]
  · rw [hgone, valueAt_cons, hc, Option.bind_some, eq_comm, Option.eq_none_iff_forall_ne_some]
    intro w hw
    exact hlive ((deadBranch_cons hc q p).mpr
      ⟨prefix_of_only_leaf honly hw, fun r u hr _ => honly r u hr⟩)

/-- What is left after pruning is on no dead branch. -/
theorem not_deadBranch (h : t.Pruned q t') {p : List κ} (hp : t'.valueAt p = some v) :
    ¬ t.DeadBranch q p := by
  intro hdead
  rw [h.gone p hdead] at hp
  cases hp

/-- Below the root the leaves are the same but for the one taken away. -/
theorem leafAt_eq (h : t.Pruned q t') (hq : t.leafAt q = some v) {r : List κ} (hr : r ≠ []) :
    t'.leafAt r = if r = q then none else t.leafAt r := by
  apply Option.ext
  intro w
  by_cases heq : r = q
  · subst heq
    rw [if_pos rfl, leafAt_eq_some_iff, h.gone r (t.deadBranch_self hr hq)]
    exact iff_of_false (fun hw => nomatch hw.1) nofun
  · rw [if_neg heq, leafAt_eq_some_iff, leafAt_eq_some_iff]
    constructor
    · intro ⟨hw, hchildless⟩
      have hlive := h.not_deadBranch hw
      rw [h.kept r hlive] at hw
      refine ⟨hw, fun k => ?_⟩
      by_contra hk
      -- a child was there, and is gone
      have hdead : t.DeadBranch q (r ++ [k]) := by
        by_contra hlive'
        rw [← h.kept _ hlive', hchildless k] at hk
        exact hk rfl
      have hbegin : r <+: q := (List.prefix_append r [k]).trans hdead.2.1
      apply hlive
      refine ⟨hr, hbegin, ?_⟩
      rintro _ u hs ⟨s, rfl⟩
      cases s with
      | nil =>
        rw [List.append_nil] at hs
        exact absurd (((leafAt_eq_some_iff t r u).mp hs).2 k) hk
      | cons k' s =>
        obtain ⟨u', hu'⟩ := valueAt_child_of_append (valueAt_of_leafAt hs)
        have hdead' : t.DeadBranch q (r ++ [k']) := by
          by_contra hlive'
          rw [← h.kept _ hlive', hchildless k'] at hu'
          cases hu'
        exact hdead'.2.2 _ u hs ⟨s, (List.append_cons r k' s).symm⟩
    · intro ⟨hw, hchildless⟩
      -- a leaf other than `q` is on no dead branch
      have hlive : ¬ t.DeadBranch q r := fun hdead =>
        heq (hdead.2.2 r w ((leafAt_eq_some_iff t r w).mpr ⟨hw, hchildless⟩) (List.prefix_refl r))
      refine ⟨(h.kept r hlive).trans hw, fun k => ?_⟩
      by_cases hdead : t.DeadBranch q (r ++ [k])
      · exact h.gone _ hdead
      · rw [h.kept _ hdead, hchildless k]

/-- No node on the way to the leaf is left without children. -/
theorem leafAt_eq_none (h : t.Pruned q t') (hq : t.leafAt q = some v) {p : List κ} (hp : p ≠ [])
    (hpre : p <+: q) : t'.leafAt p = none := by
  rw [h.leafAt_eq hq hp]
  by_cases heq : p = q
  · rw [if_pos heq]
  · rw [if_neg heq]
    rw [Option.eq_none_iff_forall_ne_some]
    intro w hw
    exact heq (eq_of_leafAt_below hw (valueAt_of_leafAt hq) hpre).symm

/-- Something is left below the root exactly if there was another leaf. -/
theorem hasChildren_iff (h : t.Pruned q t') (hq : t.leafAt q = some v) :
    (q ≠ [] ∧ t'.HasChildren) ↔ ∃ r w, t.leafAt r = some w ∧ r ≠ q := by
  constructor
  · intro ⟨_, hchildren⟩
    obtain ⟨k, hk⟩ := (KeyTree.hasChildren_iff t').mp hchildren
    obtain ⟨u, hu⟩ := Option.isSome_iff_exists.mp hk
    obtain ⟨s, w, hw⟩ := exists_leafAt_append hu
    have hne : [k] ++ s ≠ [] := List.cons_ne_nil k s
    rw [h.leafAt_eq hq hne] at hw
    split_ifs at hw with heq
    exact ⟨[k] ++ s, w, hw, heq⟩
  · intro ⟨r, w, hw, hne⟩
    have hqne : q ≠ [] := by
      rintro rfl
      exact hne (eq_of_leafAt_below hq (valueAt_of_leafAt hw) List.nil_prefix)
    refine ⟨hqne, ?_⟩
    cases r with
    | nil =>
      exact absurd (eq_of_leafAt_below hw (valueAt_of_leafAt hq) List.nil_prefix).symm hne
    | cons k r =>
      have hleaf := h.leafAt_eq hq (List.cons_ne_nil k r)
      rw [if_neg hne, hw] at hleaf
      exact hasChildren_of_leafAt hleaf

end Pruned

end KeyTree
