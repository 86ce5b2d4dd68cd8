import GazeboRcll.Config.HostFile
import GazeboRcll.Config.Leafs
import Mathlib.Data.Set.Insert

/-!
# Erasing a value

`YamlConfigurationNode::erase` goes down a path and keeps the nodes it comes through on a stack.
Then it takes one after the other from the stack and erases the child it came from, until a node
still has children.

`erase_prunes`: what goes is the branch that is dead without the value, and nothing else.
-/

namespace GazeboRcll

namespace Node

/-- The first loop, from the node that `path` has led to: the stack with its top first, and the
node at the end of the path. A pointer to a node of the tree is the path to it. -/
def descend (fullPath : String) (n : Node) (path : List String) (qs : List (List String)) :
    List String → Except ConfigError (List (List String) × List String × Node)
  | [] => .ok (qs, path, n)
  | pel :: q =>
    match n.children.find? pel with
    | none => .error (.notFound (fullPath ++ "/" ++ pel))
    | some c => descend (fullPath ++ "/" ++ pel) c (path ++ [pel]) (path :: qs) q

/-- The second loop. -/
def ascend (t : Node) (child : List String) : List (List String) → Node
  | [] => t
  | en :: qs =>
    match t.get? en with
    | none => t
    | some n =>
      let n := n.eraseChild (nameAt child)
      let t := t.put en n
      if n.HasChildren then t else ascend t en qs

/-- `erase` as it is written, with what it leaves where it throws. -/
def eraseWithStack (t : Node) (path : String) : Thrown Node :=
  match descend "" t [] [] (strSplit path) with
  | .error e => (t, some e)
  | .ok (qs, child, n) =>
    if n.HasChildren then (t, some .eraseNonLeaf) else (t.ascend child qs, none)

/-! ## The stack -/

/-- The nodes above a path, the last one first. -/
def ancestors : List String → List (List String)
  | [] => []
  | pel :: q => (ancestors q).map (pel :: ·) ++ [[]]

/-- The way to a child goes through its parent. -/
theorem ancestors_concat (q : List String) (pel : String) :
    ancestors (q ++ [pel]) = q :: ancestors q := by
  induction q with
  | nil => rfl
  | cons k q ih => rw [List.cons_append, ancestors, ih, ancestors, List.map_cons, List.cons_append]

/-- Going down from a node collects the nodes above the one that is found. -/
theorem descend_eq (fullPath : String) (n : Node) (path : List String)
    (qs : List (List String)) (q : List String) :
    descend fullPath n path qs q =
      (n.findFrom fullPath q).map fun c => ((ancestors q).map (path ++ ·) ++ qs, path ++ q, c) := by
  induction q generalizing fullPath n path qs with
  | nil =>
    rw [descend, findFrom, List.append_nil]
    rfl
  | cons pel q ih =>
    rw [descend, findFrom]
    cases n.children.find? pel with
    | none => rfl
    | some c =>
      dsimp only
      rw [ih, ancestors, List.map_append, List.map_map]
      simp [Function.comp_def]

/-! ## One turn -/

variable {t n : Node} {q : List String} {v : NodeValue}

/-- A node stays if it is above the path and still has children. -/
theorem eraseFrom_cons {pel : String} {c : Node} (hc : t.children.find? pel = some c)
    (q : List String) :
    t.eraseFrom (pel :: q) =
      if q ≠ [] ∧ KeyTree.HasChildren (eraseFrom c q) then t.setChild pel (eraseFrom c q)
      else t.eraseChild pel := by
  rw [eraseFrom, hc]
  rfl

/-- To erase along a path is to erase its last element first, and to go on with the path above it
where nothing is left there. -/
theorem eraseFrom_concat (h : t.Sorted) (hn : t.get? q = some n) {pel : String}
    (hpel : (n.children.find? pel).isSome = true) :
    t.eraseFrom (q ++ [pel]) =
      if (n.eraseChild pel).HasChildren then t.put q (n.eraseChild pel)
      else eraseFrom (t.put q (n.eraseChild pel)) q := by
  induction q generalizing t with
  | nil =>
    obtain rfl : t = n := Option.some.inj hn
    obtain ⟨c, hc⟩ := Option.isSome_iff_exists.mp hpel
    rw [List.nil_append, eraseFrom_cons hc, if_neg fun hand => hand.1 rfl]
    split_ifs <;> rfl
  | cons k q ih =>
    rw [KeyTree.get?_cons, Option.bind_eq_some_iff] at hn
    obtain ⟨c, hc, hn⟩ := hn
    have hput : t.put (k :: q) (n.eraseChild pel) = t.setChild k (c.put q (n.eraseChild pel)) := by
      rw [KeyTree.put, hc]
      rfl
    rw [List.cons_append, eraseFrom_cons hc, hput, ih (Children.Sorted.find? h hc) hn]
    -- whether the child `k` goes as well depends on what is left in the node at the end of `q`
    by_cases hchildren : (n.eraseChild pel).HasChildren
    · rw [if_pos hchildren, if_pos hchildren,
        if_pos ⟨List.concat_ne_nil pel q, KeyTree.hasChildren_put hn hchildren⟩]
    · have hfind : (t.setChild k (c.put q (n.eraseChild pel))).children.find? k =
          some (c.put q (n.eraseChild pel)) := Children.find?_insert_self _ _ _
      rw [if_neg hchildren, if_neg hchildren, eraseFrom_cons hfind, KeyTree.setChild_setChild,
        h.eraseChild_setChild]
      cases q with
      | nil => rw [if_neg fun hand => hchildren hand.2, if_neg fun hand => hand.1 rfl]
      | cons k' q => simp only [List.cons_append, ne_eq, reduceCtorEq, not_false_eq_true, true_and]

/-- The second loop erases along the path. -/
theorem ascend_ancestors (h : t.Sorted) (hn : t.get? q = some n) :
    t.ascend q (ancestors q) = t.eraseFrom q := by
  induction q using List.reverseRecOn generalizing t n with
  | nil => rfl
  | append_singleton q pel ih =>
    obtain ⟨en, hen, hpel⟩ := KeyTree.get?_of_append hn
    have hfind : (en.children.find? pel).isSome = true := by
      rw [KeyTree.get?_cons, Option.bind_eq_some_iff] at hpel
      obtain ⟨c, hc, -⟩ := hpel
      rw [hc]
      rfl
    have hname : nameAt (q ++ [pel]) = pel := by
      rw [nameAt, List.getLast?_concat, Option.getD_some]
    have hself := KeyTree.get?_put_append hen (en.eraseChild pel) []
    rw [List.append_nil] at hself
    have hsorted : KeyTree.Sorted (t.put q (en.eraseChild pel)) :=
      h.put q ((h.get? hen).eraseChild pel)
    rw [eraseFrom_concat h hen hfind, ancestors_concat, ascend, hen]
    dsimp only
    rw [hname, ih hsorted hself]

/-- Only a leaf that is found is erased. -/
theorem erase_of_find {path : String} (hfind : t.find (strSplit path) = .ok n) :
    t.erase path =
      if n.HasChildren then .error .eraseNonLeaf else .ok (t.eraseFrom (strSplit path)) := by
  rw [erase, hfind]
  rfl

/-- The two loops together. -/
theorem eraseWithStack_eq (h : t.Sorted) (path : String) :
    t.eraseWithStack path =
      match t.erase path with
      | .ok t' => (t', none)
      | .error e => (t, some e) := by
  rw [eraseWithStack, descend_eq, show t.findFrom "" _ = t.find (strSplit path) from rfl]
  cases hfind : t.find (strSplit path) with
  | error e =>
    rw [erase, hfind]
    rfl
  | ok n =>
    rw [erase_of_find hfind]
    simp only [Except.map, List.nil_append, List.map_id', List.append_nil]
    rw [ascend_ancestors h ((find_eq_ok_iff t n _).mp hfind)]
    split_ifs <;> rfl

/-! ## What is left -/

/-- Erasing takes away the leaf, and the nodes above it that are left without children. -/
theorem pruned_eraseFrom (h : t.Sorted) (hq : t.leafAt q = some v) :
    t.Pruned q (t.eraseFrom q) := by
  induction q generalizing t with
  | nil => exact ⟨fun p hdead => absurd (List.prefix_nil.mp hdead.2.1) hdead.1, fun p _ => rfl⟩
  | cons pel q ih =>
    rw [KeyTree.leafAt_cons, Option.bind_eq_some_iff] at hq
    obtain ⟨c, hc, hq⟩ := hq
    have hpruned := ih (Children.Sorted.find? h hc) hq
    rw [eraseFrom_cons hc]
    by_cases hkept : q ≠ [] ∧ KeyTree.HasChildren (eraseFrom c q)
    · rw [if_pos hkept]
      exact hpruned.setChild hc ((hpruned.hasChildren_iff hq).mp hkept)
    · rw [if_neg hkept]
      refine .eraseChild h hc fun r w hr => ?_
      by_contra hne
      exact hkept ((hpruned.hasChildren_iff hq).mpr ⟨r, w, hr, hne⟩)

/-- Of the leaves, only the erased one is missing. -/
theorem leafPaths_of_pruned {t' : Node} (h : t.Pruned q t') (hq : t.leafAt q = some v) :
    leafPaths t' = t.leafPaths \ {q} := by
  ext r
  rw [Set.mem_sdiff, Set.mem_singleton_iff, mem_leafPaths, mem_leafPaths, and_assoc,
    and_congr_right_iff]
  intro hr
  rw [h.leafAt_eq hq hr]
  split_ifs with heq
  · simp [heq]
  · simp [heq]

/-- `erase` throws, because the path is not there or something is below it, and then the tree is
as it was. Or else it takes away the leaf, and the nodes above it but for the root below which
there was no other leaf; every other node stays as it is, and none without children is left on
the path. -/
theorem erase_prunes (t : Node) (h : t.Sorted) (path : String) :
    (∃ e, t.eraseWithStack path = (t, some e) ∧
      (t.get? (strSplit path) = none ∧ (∃ p, e = .notFound p) ∨
        (∃ n, t.get? (strSplit path) = some n ∧ n.HasChildren) ∧ e = .eraseNonLeaf)) ∨
      ∃ t', t.eraseWithStack path = (t', none) ∧
        leafPaths t' = t.leafPaths \ {strSplit path} ∧ t.Pruned (strSplit path) t' ∧
        ∀ p, p ≠ [] → p <+: strSplit path → p ∉ leafPaths t' := by
  rw [eraseWithStack_eq h]
  cases hfind : t.find (strSplit path) with
  | error e =>
    -- the path ends somewhere
    have herase : t.erase path = .error e := by
      rw [erase, hfind]
      rfl
    rw [herase]
    obtain ⟨p, pel, r, hsplit, -, hnone, rfl⟩ := findFrom_eq_error hfind
    refine .inl ⟨_, rfl, .inl ⟨?_, _, rfl⟩⟩
    rw [hsplit, List.append_cons, KeyTree.get?_append, hnone]
    rfl
  | ok n =>
    have hn : t.get? (strSplit path) = some n := (find_eq_ok_iff t n _).mp hfind
    rw [erase_of_find hfind]
    by_cases hchildren : n.HasChildren
    · rw [if_pos hchildren]
      exact .inl ⟨.eraseNonLeaf, rfl, .inr ⟨⟨n, hn, hchildren⟩, rfl⟩⟩
    -- a leaf is erased, with the nodes above that have no other child
    · obtain ⟨v, cs⟩ := n
      obtain rfl : cs = .nil := not_not.mp hchildren
      have hleaf : t.leafAt (strSplit path) = some v := by
        rw [KeyTree.leafAt, hn]
        rfl
      have hpruned := pruned_eraseFrom h hleaf
      rw [if_neg hchildren]
      refine .inr ⟨_, rfl, leafPaths_of_pruned hpruned hleaf, hpruned, fun p hp hpre hmem => ?_⟩
      rw [mem_leafPaths, hpruned.leafAt_eq_none hleaf hp hpre] at hmem
      cases hmem.2

/-- Two values under one name, and a third that has its branch for itself. -/
def erasable : Node :=
  ⟨.new, .cons "a" ⟨.map, "", []⟩ (.cons "b" ⟨.map, "", []⟩ (.cons "c" ⟨.uint32, "1", []⟩ .nil .nil)
    (.cons "d" ⟨.uint32, "2", []⟩ .nil .nil)) .nil⟩

/-- The branch to the leaf goes, the leaf beside it stays. -/
theorem erase_prunes_abc :
    ∃ t', erasable.eraseWithStack "/a/b/c" = (t', none) ∧ ["a", "b", "c"] ∉ leafPaths t' ∧
      ["a", "d"] ∈ leafPaths t' := by
  rcases erase_prunes erasable (by decide +kernel) "/a/b/c" with ⟨e, he, -⟩ | ⟨t', ht', hpaths, -⟩
  · have hnone : (erasable.eraseWithStack "/a/b/c").2 = none := by decide +kernel
    rw [he] at hnone
    cases hnone
  · have hsplit : strSplit "/a/b/c" = ["a", "b", "c"] := by decide +kernel
    rw [hsplit] at hpaths
    refine ⟨t', ht', ?_, ?_⟩
    · rw [hpaths]
      exact fun hmem => hmem.2 rfl
    · rw [hpaths]
      exact ⟨⟨by decide, by decide +kernel⟩, by decide⟩

end Node

end GazeboRcll
