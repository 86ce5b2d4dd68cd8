import GazeboRcll.Config.Node

/-!
# The leaves of a configuration tree

`enum_leafs` fills a map from path strings to the nodes without children. What it enters, in
which order, is `leavesFrom`. The root is no entry, also when nothing is below it.

`find?_enumLeafs`: in a tree whose keys have no '/', the map has for each path string the leaf at
the path.
-/

namespace GazeboRcll

/-- What the comparison of two nodes looks at: the name, and the members. -/
structure NamedValue where
  name : String
  value : NodeValue
deriving DecidableEq, Repr

/-- A `std::map` from path strings to nodes: a level of children with nothing below. -/
abbrev LeafMap := Children String NamedValue

/-- The string for a path. -/
def pathString (q : List String) : String := Strings.join '/' q

/-- `enum_leafs` for the children of a node. -/
def enumLeafsFrom (above : String) : Children String NodeValue → LeafMap → LeafMap
  | .nil, nodes => nodes
  | .cons key v .nil rest, nodes =>
    enumLeafsFrom above rest (nodes.insert (above ++ "/" ++ key) ⟨⟨key, v⟩, .nil⟩)
  | .cons key _ (.cons k w ds r) rest, nodes =>
    enumLeafsFrom above rest (enumLeafsFrom (above ++ "/" ++ key) (.cons k w ds r) nodes)

namespace Node

def enumLeafs (t : Node) : LeafMap := enumLeafsFrom "" t.children .nil

/-- The paths that lead below the root, to a node without children. -/
def leafPaths (t : Node) : Set (List String) := {q | q ≠ [] ∧ (t.leafAt q).isSome = true}

/-- No key has a '/': `str_split` makes none, and all keys come from it. -/
def Slashless (t : Node) : Prop :=
  ∀ p, (t.valueAt p).isSome = true → ∀ k ∈ p, '/' ∉ k.toList

end Node

/-! ## The leaves in their order -/

/-- The leaves below a node, with their paths. -/
def leavesFrom (above : List String) :
    Children String NodeValue → List (List String × NodeValue)
  | .nil => []
  | .cons key v .nil rest => (above ++ [key], v) :: leavesFrom above rest
  | .cons key _ (.cons k w ds r) rest =>
    leavesFrom (above ++ [key]) (.cons k w ds r) ++ leavesFrom above rest

/-- Enter a leaf in the map. -/
def LeafMap.add (nodes : LeafMap) (leaf : List String × NodeValue) : LeafMap :=
  nodes.insert (pathString leaf.1) ⟨⟨nameAt leaf.1, leaf.2⟩, .nil⟩

theorem pathString_concat (above : List String) (key : String) :
    pathString (above ++ [key]) = pathString above ++ "/" ++ key := by
  rw [pathString, Strings.join_append, Strings.join_singleton, String.append_assoc]
  rfl

/-- `enum_leafs` puts the leaves into a map one after the other. -/
theorem enumLeafsFrom_eq (above : List String) (cs : Children String NodeValue)
    (nodes : LeafMap) :
    enumLeafsFrom (pathString above) cs nodes = (leavesFrom above cs).foldl LeafMap.add nodes := by
  induction cs generalizing above nodes with
  | nil => rfl
  | cons key v cs rest ihc ihr =>
    cases cs with
    | nil =>
      rw [enumLeafsFrom, leavesFrom, List.foldl_cons, ihr, LeafMap.add, pathString_concat, nameAt,
        List.getLast?_concat]
      rfl
    | cons k w ds r =>
      rw [enumLeafsFrom, leavesFrom, List.foldl_append, ihr, ← pathString_concat, ihc]

section

variable {key : String} {u : NodeValue} {cs rest : Children String NodeValue}

/-- A path below a node goes through its first child, or through another one. -/
theorem leafAt_cons_iff (h : (Children.cons key u cs rest).Sorted) (w v : NodeValue)
    (q : List String) :
    (q ≠ [] ∧ KeyTree.leafAt ⟨w, .cons key u cs rest⟩ q = some v) ↔
      (∃ r, q = key :: r ∧ KeyTree.leafAt ⟨u, cs⟩ r = some v) ∨
        (q ≠ [] ∧ KeyTree.leafAt ⟨w, rest⟩ q = some v) := by
  cases q with
  | nil => simp
  | cons k r =>
    rw [KeyTree.leafAt_cons, KeyTree.leafAt_cons, Children.find?]
    by_cases hk : k = key
    · subst hk
      have hnone : rest.find? k = none := by
        rw [Children.find?_eq_none_iff]
        exact fun hmem => lt_irrefl k (h.1 k hmem)
      simp [hnone]
    · simp [hk]

/-- The leaves of the first child, in their order. -/
theorem leavesFrom_cons (above : List String) :
    leavesFrom above (.cons key u cs rest) =
      (if cs = .nil then [(above ++ [key], u)] else leavesFrom (above ++ [key]) cs) ++
        leavesFrom above rest := by
  cases cs with
  | nil =>
    rw [if_pos rfl]
    rfl
  | cons k w ds r =>
    rw [if_neg nofun]
    rfl

end

/-- The leaves in the list are those that paths lead to. -/
theorem mem_leavesFrom {above q : List String} {cs : Children String NodeValue} (h : cs.Sorted)
    (v w : NodeValue) :
    (q, v) ∈ leavesFrom above cs ↔
      ∃ r, q = above ++ r ∧ r ≠ [] ∧ KeyTree.leafAt ⟨w, cs⟩ r = some v := by
  induction cs generalizing above w with
  | nil =>
    refine iff_of_false List.not_mem_nil ?_
    rintro ⟨r, -, hr, hleaf⟩
    cases r with
    | nil => exact hr rfl
    | cons k r => cases hleaf
  | cons key u cs rest ihc ihr =>
    have hfirst : (q, v) ∈ (if cs = .nil then [(above ++ [key], u)]
          else leavesFrom (above ++ [key]) cs) ↔
        ∃ r, q = above ++ key :: r ∧ KeyTree.leafAt ⟨u, cs⟩ r = some v := by
      by_cases hcs : cs = .nil
      · subst hcs
        rw [if_pos rfl, List.mem_singleton, Prod.mk.injEq]
        constructor
        · rintro ⟨rfl, rfl⟩
          exact ⟨[], rfl, rfl⟩
        · rintro ⟨r, rfl, hleaf⟩
          cases r with
          | nil => exact ⟨rfl, (Option.some.inj hleaf).symm⟩
          | cons k r => cases hleaf
      · rw [if_neg hcs, ihc h.2.1 u]
        refine exists_congr fun r => ?_
        rw [List.append_assoc, List.singleton_append, and_congr_right_iff]
        intro _
        rw [and_iff_right_iff_imp]
        -- the first child is itself no leaf
        rintro hleaf rfl
        rw [KeyTree.leafAt_nil_of_hasChildren (t := ⟨u, cs⟩) hcs] at hleaf
        cases hleaf
    simp only [leafAt_cons_iff h, and_or_left, exists_or]
    rw [leavesFrom_cons, List.mem_append, hfirst, ihr h.2.2 w]
    refine or_congr_left ⟨?_, ?_⟩
    · rintro ⟨r, rfl, hleaf⟩
      exact ⟨_, rfl, r, rfl, hleaf⟩
    · rintro ⟨_, rfl, r, rfl, hleaf⟩
      exact ⟨r, rfl, hleaf⟩

/-! ## The map -/

namespace LeafMap

/-- The path strings of the map are those it had, and those of the leaves. -/
theorem mem_keys_foldl_add (l : List (List String × NodeValue)) (nodes : LeafMap)
    (path : String) :
    path ∈ (l.foldl add nodes).keys ↔
      path ∈ nodes.keys ∨ ∃ leaf ∈ l, pathString leaf.1 = path := by
  induction l generalizing nodes with
  | nil => simp
  | cons leaf l ih =>
    rw [List.foldl_cons, ih, add, Children.mem_keys_insert, List.exists_mem_cons_iff]
    grind

/-- What the map has for a path was entered for the path. -/
theorem of_find?_foldl_add {l : List (List String × NodeValue)} {nodes : LeafMap} {path : String}
    {n : KeyTree String NamedValue} (h : (l.foldl add nodes).find? path = some n) :
    nodes.find? path = some n ∨
      ∃ leaf ∈ l, pathString leaf.1 = path ∧ n = ⟨⟨nameAt leaf.1, leaf.2⟩, .nil⟩ := by
  induction l generalizing nodes with
  | nil => exact .inl h
  | cons leaf l ih =>
    rcases ih h with hnodes | ⟨leaf', hmem, hleaf⟩
    · by_cases hpath : path = pathString leaf.1
      · rw [add, hpath, Children.find?_insert_self] at hnodes
        exact .inr ⟨leaf, List.mem_cons_self, hpath.symm, (Option.some.inj hnodes).symm⟩
      · rw [add, Children.find?_insert_of_ne _ hpath] at hnodes
        exact .inl hnodes
    · exact .inr ⟨leaf', List.mem_cons_of_mem leaf hmem, hleaf⟩

theorem sorted_foldl_add {nodes : LeafMap} (h : nodes.Sorted)
    (l : List (List String × NodeValue)) : Children.Sorted (l.foldl add nodes) := by
  induction l generalizing nodes with
  | nil => exact h
  | cons leaf l ih => exact ih (Children.Sorted.insert h _ trivial)

end LeafMap

namespace Node

variable {t : Node}

/-- The leaves are put into an empty map. -/
theorem enumLeafs_eq (t : Node) :
    t.enumLeafs = (leavesFrom [] t.children).foldl LeafMap.add .nil :=
  enumLeafsFrom_eq [] t.children .nil

theorem sorted_enumLeafs (t : Node) : Children.Sorted t.enumLeafs := by
  have hnil : Children.Sorted (.nil : LeafMap) := trivial
  rw [enumLeafs_eq]
  exact LeafMap.sorted_foldl_add hnil _

/-- The leaves that are gone through are those of the tree. -/
theorem mem_leaves (h : t.Sorted) (q : List String) (v : NodeValue) :
    (q, v) ∈ leavesFrom [] t.children ↔ q ≠ [] ∧ t.leafAt q = some v := by
  rw [mem_leavesFrom h v t.value]
  simp

theorem mem_leafPaths {q : List String} :
    q ∈ t.leafPaths ↔ q ≠ [] ∧ (t.leafAt q).isSome = true := Iff.rfl

/-- The path strings of the map are those of the leaves. -/
theorem mem_keys_enumLeafs (h : t.Sorted) (path : String) :
    path ∈ t.enumLeafs.keys ↔ ∃ q ∈ t.leafPaths, pathString q = path := by
  rw [enumLeafs_eq, LeafMap.mem_keys_foldl_add]
  simp only [Children.keys, List.not_mem_nil, false_or, Prod.exists, mem_leaves h,
    mem_leafPaths, Option.isSome_iff_exists]
  grind

/-- A path string belongs to one path. -/
theorem pathString_inj {q r : List String} (hq : ∀ k ∈ q, '/' ∉ k.toList)
    (hr : ∀ k ∈ r, '/' ∉ k.toList) (h : pathString q = pathString r) : q = r :=
  Strings.join_inj hq hr h

/-- The keys on the way to a leaf have no '/'. -/
theorem Slashless.of_leafAt (h : t.Slashless) {q : List String} {v : NodeValue}
    (hv : t.leafAt q = some v) : ∀ k ∈ q, '/' ∉ k.toList := by
  apply h
  rw [((KeyTree.leafAt_eq_some_iff t q v).mp hv).1]
  rfl

/-- Where no key has a '/', a path string leads to its leaf. -/
theorem find?_enumLeafs (h : t.Sorted) (hslash : t.Slashless) {q : List String} (hq : q ≠ [])
    (hkeys : ∀ k ∈ q, '/' ∉ k.toList) :
    t.enumLeafs.find? (pathString q) =
      (t.leafAt q).map fun v => ⟨⟨nameAt q, v⟩, .nil⟩ := by
  cases hfind : t.enumLeafs.find? (pathString q) with
  | none =>
    cases hleaf : t.leafAt q with
    | none => rfl
    | some v =>
      have hmem : pathString q ∈ t.enumLeafs.keys :=
        (mem_keys_enumLeafs h _).mpr ⟨q, ⟨hq, by rw [hleaf]; rfl⟩, rfl⟩
      rw [← Children.isSome_find?_iff, hfind] at hmem
      cases hmem
  | some n =>
    rw [enumLeafs_eq] at hfind
    rcases LeafMap.of_find?_foldl_add hfind with hnil | ⟨⟨r, v⟩, hmem, hpath, rfl⟩
    · cases hnil
    · obtain ⟨hr, hleaf⟩ := (mem_leaves h r v).mp hmem
      obtain rfl := pathString_inj (hslash.of_leafAt hleaf) hkeys hpath
      rw [hleaf]
      rfl

end Node

end GazeboRcll
