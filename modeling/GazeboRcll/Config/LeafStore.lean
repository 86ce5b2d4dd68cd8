import GazeboRcll.Config.Erase
import GazeboRcll.Library.PathMap

/-!
# The host file as a flat store

What the setters and `erase` are for has nothing to do with a tree: there are values at paths, and
no path goes on below a value. To set a value takes away those above it, and throws if there are
some below; to erase one takes away that one.

`hostTree_refines`: the tree does the same in any run, with the same exceptions. The nodes in
between, which `find_or_insert` makes and `erase` takes away again, are not seen.
-/

namespace GazeboRcll

/-! ## The flat store -/

/-- The values of the host file. -/
abbrev LeafStore := PathMap String NodeValue

namespace LeafStore

/-- The value that a setter begins with. -/
def found (m : LeafStore) (q : List String) : NodeValue := (m.entry q).getD .new

/-- The path that an exception names, where nothing is found. -/
noncomputable def missingPath (m : LeafStore) (q : List String) : String :=
  pathString (m.missing [] q)

open Classical in
/-- Look a value up. -/
noncomputable def lookup (m : LeafStore) (path : String) : Except ConfigError NodeValue :=
  if m.Occupied (strSplit path) then .error (.notFound path)
  else
    match m.entry (strSplit path) with
    | some v => .ok v
    | none => .error (.notFound (m.missingPath (strSplit path)))

open Classical in
/-- Set or erase a value. -/
noncomputable def apply (m : LeafStore) : HostOp → LeafStore
  | .set path i =>
    let q := strSplit path
    if q = [] ∨ m.Occupied q then m else m.put q (i.write (nameAt q) (m.found q)).1
  | .erase path => m.erase (strSplit path)

open Classical in
/-- What is thrown then. -/
noncomputable def answer (m : LeafStore) : HostOp → Option ConfigError
  | .set path i =>
    let q := strSplit path
    if m.Occupied q then some (.nonLeaf path) else (i.write (nameAt q) (m.found q)).2
  | .erase path =>
    let q := strSplit path
    if m.Occupied q then some .eraseNonLeaf
    else if q = [] ∨ (m.entry q).isSome = true then none
    else some (.notFound (m.missingPath q))

end LeafStore

/-- The store after some operations, from an empty one. -/
noncomputable def hostStore (ops : List HostOp) : LeafStore :=
  ops.foldl LeafStore.apply PathMap.empty

namespace HostOp

def path : HostOp → String
  | set path _ => path
  | erase path => path

/-- What is thrown by an operation on the tree. -/
def thrown (t : Node) : HostOp → Option ConfigError
  | set path i => (t.setInput path i).2
  | erase path => (t.eraseWithStack path).2

end HostOp

/-! ## One operation -/

namespace Node

variable {t : Node} {path : String} {i : NodeInput} {q : List String}

/-- A path has values below it in the tree exactly if it has some in the map of its leaves. -/
theorem occupied_iff : t.Occupied path ↔ t.toPathMap.Occupied (strSplit path) := by
  rw [Occupied]
  cases hn : t.get? (strSplit path) with
  | none => exact iff_of_false (fun h => h rfl) (KeyTree.not_occupied_of_none hn)
  | some n =>
    constructor
    · intro h
      exact KeyTree.occupied_toPathMap_iff.mpr ⟨n, hn, h⟩
    · intro h
      obtain ⟨n', hn', h'⟩ := KeyTree.occupied_toPathMap_iff.mp h
      rw [hn] at hn'
      cases hn'
      exact h'

/-- A setter begins with the leaf at the path, if there is nothing below. -/
theorem foundAt_eq_found (h : ¬ t.Occupied path) (hq : strSplit path ≠ []) :
    t.foundAt (strSplit path) = LeafStore.found t.toPathMap (strSplit path) := by
  rw [LeafStore.found, KeyTree.entry_toPathMap t hq, foundAt, KeyTree.valueAt, KeyTree.leafAt]
  rw [Occupied] at h
  cases hn : t.get? (strSplit path) with
  | none => rfl
  | some n =>
    rw [hn] at h
    obtain ⟨v, f⟩ := n
    obtain rfl : f = .nil := not_not.mp h
    rfl

/-- The leaf after its value was set. -/
theorem leafAt_setInput_self (h : ¬ t.Occupied path) :
    (t.setInput path i).1.leafAt (strSplit path) =
      some (i.write (nameAt (strSplit path)) (t.foundAt (strSplit path))).1 :=
  leaf_eq_ok_iff.mp (leaf_setInput_self h)

/-- A node above the value that is set is no leaf any more. -/
theorem leafAt_setInput_above (h : ¬ t.Occupied path) {p : List String} (hp : p <+: strSplit path)
    (hne : p ≠ strSplit path) : (t.setInput path i).1.leafAt p = none := by
  obtain ⟨r, hr⟩ := hp
  cases r with
  | nil =>
    rw [List.append_nil] at hr
    exact absurd hr hne
  | cons k r =>
    have hself := KeyTree.valueAt_of_leafAt (leafAt_setInput_self (i := i) h)
    have hpre : p ++ [k] <+: strSplit path := ⟨r, by rw [List.append_assoc]; exact hr⟩
    obtain ⟨v, hv⟩ := KeyTree.valueAt_of_prefix hpre hself
    rw [Option.eq_none_iff_forall_ne_some]
    intro w hw
    have hnone := ((KeyTree.leafAt_eq_some_iff _ p w).mp hw).2 k
    rw [hv] at hnone
    cases hnone

/-- Setting a value leaves the leaves that are not above its path. -/
theorem leafAt_setInput_aside (h : ¬ t.Occupied path) {p : List String}
    (hp : ¬ p <+: strSplit path) : (t.setInput path i).1.leafAt p = t.leafAt p := by
  refine KeyTree.leafAt_congr (valueAt_setWith_aside h hp) fun k => ?_
  exact valueAt_setWith_aside h fun hpre => hp ((List.prefix_append p [k]).trans hpre)

/-- Setting a value in a tree sets it in the map of its leaves. -/
theorem toPathMap_setInput (t : Node) (path : String) (i : NodeInput) :
    (t.setInput path i).1.toPathMap = LeafStore.apply t.toPathMap (.set path i) := by
  rw [LeafStore.apply]
  by_cases hocc : t.Occupied path
  · obtain ⟨heq, hsome⟩ := setInput_of_occupied (i := i) hocc
    rw [if_pos (.inr (occupied_iff.mp hocc)), heq]
    refine KeyTree.toPathMap_congr fun p _ => KeyTree.leafAt_congr ?_ fun k => ?_
    · exact valueAt_findOrInsert_of_isSome hsome p
    · exact valueAt_findOrInsert_of_isSome hsome (p ++ [k])
  · have hocc' : ¬ t.toPathMap.Occupied (strSplit path) := fun h => hocc (occupied_iff.mpr h)
    by_cases hq : strSplit path = []
    · rw [if_pos (.inl hq)]
      refine KeyTree.toPathMap_congr fun p hp => leafAt_setInput_aside hocc ?_
      rw [hq]
      exact fun hpre => hp (List.prefix_nil.mp hpre)
    · rw [if_neg (not_or.mpr ⟨hq, hocc'⟩), ← foundAt_eq_found hocc hq]
      ext1
      funext p
      rw [PathMap.entry_put hocc']
      by_cases hp : p = []
      · subst hp
        rw [if_neg (Ne.symm hq), if_pos List.nil_prefix]
        rfl
      · rw [KeyTree.entry_toPathMap _ hp, KeyTree.entry_toPathMap _ hp]
        -- the path itself, a node above it, or one that the setter does not come to
        by_cases hself : p = strSplit path
        · rw [if_pos hself, hself]
          exact leafAt_setInput_self hocc
        · rw [if_neg hself]
          by_cases hpre : p <+: strSplit path
          · rw [if_pos hpre]
            exact leafAt_setInput_above hocc hpre hself
          · rw [if_neg hpre]
            exact leafAt_setInput_aside hocc hpre

/-- Setting a value in a tree throws what the map of its leaves answers. -/
theorem thrown_setInput (hq : strSplit path ≠ []) :
    (t.setInput path i).2 = LeafStore.answer t.toPathMap (.set path i) := by
  rw [LeafStore.answer]
  by_cases hocc : t.Occupied path
  · rw [if_pos (occupied_iff.mp hocc), setInput]
    cases hn : t.get? (strSplit path) with
    | none =>
      rw [Occupied, hn] at hocc
      exact absurd rfl hocc
    | some n =>
      rw [Occupied, hn] at hocc
      rw [setWith_of_hasChildren hn hocc]
  · rw [if_neg fun h => hocc (occupied_iff.mpr h), ← foundAt_eq_found hocc hq, setInput,
      setWith_of_childless hocc]

/-- The path of an exception is the one that is missing in the store. -/
theorem missing_of_find_error {e : ConfigError} (h : t.find q = .error e) :
    e = .notFound (LeafStore.missingPath t.toPathMap q) ∧ t.get? q = none := by
  obtain ⟨p, pel, r, rfl, hsome, hnone, rfl⟩ := findFrom_eq_error h
  have hnot : ¬ t.toPathMap.Reaches ([] ++ (p ++ [pel])) := by
    rw [List.nil_append, KeyTree.reaches_toPathMap_iff (by simp), KeyTree.valueAt, hnone]
    exact Bool.false_ne_true
  have hreach : ∀ x, x ≠ [] → x <+: p → t.toPathMap.Reaches ([] ++ x) := by
    intro x hx hpre
    rw [List.nil_append, KeyTree.reaches_toPathMap_iff hx]
    obtain ⟨n, hn⟩ := Option.isSome_iff_exists.mp hsome
    have hp : t.valueAt p = some n.value := by rw [KeyTree.valueAt, hn]; rfl
    obtain ⟨w, hw⟩ := KeyTree.valueAt_of_prefix hpre hp
    rw [hw]
    rfl
  constructor
  · rw [LeafStore.missingPath, PathMap.missing_eq hreach hnot, List.nil_append, pathString,
      String.empty_append]
  · rw [List.append_cons, KeyTree.get?_append, hnone]
    rfl

/-- Where a path leads: nowhere, to a node with something below it, or to a leaf. -/
theorem find_cases (t : Node) (q : List String) :
    (t.find q = .error (.notFound (LeafStore.missingPath t.toPathMap q)) ∧ t.get? q = none) ∨
      (∃ n, t.find q = .ok n ∧ n.HasChildren ∧ t.toPathMap.Occupied q) ∨
        ∃ v, t.find q = .ok ⟨v, .nil⟩ ∧ t.leafAt q = some v := by
  cases hfind : t.find q with
  | error e =>
    obtain ⟨rfl, hnone⟩ := missing_of_find_error hfind
    exact .inl ⟨rfl, hnone⟩
  | ok n =>
    have hn : t.get? q = some n := (find_eq_ok_iff t n q).mp hfind
    right
    by_cases hchildren : n.HasChildren
    · exact .inl ⟨n, rfl, hchildren, KeyTree.occupied_toPathMap_iff.mpr ⟨n, hn, hchildren⟩⟩
    · obtain ⟨v, f⟩ := n
      obtain rfl : f = .nil := not_not.mp hchildren
      refine .inr ⟨v, rfl, ?_⟩
      rw [KeyTree.leafAt, hn]
      rfl

/-- What a lookup gives depends on the leaves alone. -/
theorem leaf_eq_lookup (t : Node) (hq : strSplit path ≠ []) :
    t.leaf path = LeafStore.lookup t.toPathMap path := by
  rw [LeafStore.lookup, leaf, KeyTree.entry_toPathMap t hq]
  rcases find_cases t (strSplit path) with
    ⟨hfind, hnone⟩ | ⟨n, hfind, hchildren, hocc⟩ | ⟨v, hfind, hleaf⟩
  · rw [hfind, if_neg (KeyTree.not_occupied_of_none hnone), KeyTree.leafAt, hnone]
    rfl
  · rw [hfind, if_pos hocc]
    exact if_pos hchildren
  · rw [hfind, if_neg (KeyTree.not_occupied_of_leafAt hleaf), hleaf]
    rfl

/-- Where there is no leaf to erase, the tree stays and there is none in the store. -/
theorem erase_eq_error_or (h : t.Sorted) (path : String) :
    (∃ e, t.erase path = .error e ∧ t.toPathMap.entry (strSplit path) = none ∧
        LeafStore.answer t.toPathMap (.erase path) = some e) ∨
      ∃ t', t.erase path = .ok t' ∧ t'.toPathMap = t.toPathMap.erase (strSplit path) ∧
        LeafStore.answer t.toPathMap (.erase path) = none := by
  rw [LeafStore.answer]
  rcases find_cases t (strSplit path) with
    ⟨hfind, hnone⟩ | ⟨n, hfind, hchildren, hocc⟩ | ⟨v, hfind, hleaf⟩
  · -- the root is always there, so the path is not empty
    have hne : strSplit path ≠ [] := by
      intro heq
      rw [heq] at hnone
      cases hnone
    have hentry : t.toPathMap.entry (strSplit path) = none := by
      rw [KeyTree.entry_toPathMap t hne, KeyTree.leafAt, hnone]
      rfl
    left
    refine ⟨_, by rw [erase, hfind]; rfl, hentry, ?_⟩
    rw [if_neg (KeyTree.not_occupied_of_none hnone), hentry]
    exact if_neg (not_or.mpr ⟨hne, Bool.false_ne_true⟩)
  · rw [erase_of_find hfind, if_pos hchildren, if_pos hocc]
    exact .inl ⟨_, rfl, hocc.entry_eq_none, rfl⟩
  · rw [erase_of_find hfind, if_neg fun hchildren => hchildren rfl,
      if_neg (KeyTree.not_occupied_of_leafAt hleaf)]
    right
    refine ⟨_, rfl, (pruned_eraseFrom h hleaf).toPathMap_eq hleaf, if_pos ?_⟩
    by_cases hne : strSplit path = []
    · exact .inl hne
    · rw [KeyTree.entry_toPathMap t hne, hleaf]
      exact .inr rfl

end Node

namespace HostOp

variable {t : Node}

/-- One step of the tree is one step of the store. -/
theorem toPathMap_run (h : t.Sorted) (op : HostOp) :
    (op.run t).toPathMap = LeafStore.apply t.toPathMap op := by
  cases op with
  | set path i => exact Node.toPathMap_setInput t path i
  | erase path =>
    rw [run, LeafStore.apply]
    rcases Node.erase_eq_error_or h path with ⟨e, herase, hnone, -⟩ | ⟨t', herase, hmap, -⟩
    · rw [herase]
      exact (PathMap.erase_of_none hnone).symm
    · rw [herase]
      exact hmap

/-- The step throws what it throws on the store. -/
theorem thrown_eq_answer (h : t.Sorted) {op : HostOp} (hop : strSplit op.path ≠ []) :
    op.thrown t = LeafStore.answer t.toPathMap op := by
  cases op with
  | set path i => exact Node.thrown_setInput hop
  | erase path =>
    rw [thrown, Node.eraseWithStack_eq h]
    rcases Node.erase_eq_error_or h path with ⟨e, herase, -, hanswer⟩ | ⟨t', herase, -, hanswer⟩
    · rw [herase, hanswer]
    · rw [herase, hanswer]

end HostOp

/-! ## Runs -/

/-- The leaves of the tree after a run are the values of the store. -/
theorem toPathMap_hostTree (ops : List HostOp) : (hostTree ops).toPathMap = hostStore ops := by
  induction ops using List.reverseRecOn with
  | nil => exact KeyTree.toPathMap_childless _
  | append_singleton ops op ih =>
    have hrun := HostOp.toPathMap_run (sorted_hostTree ops) op
    rw [ih] at hrun
    rw [hostTree, hostStore, List.foldl_concat, List.foldl_concat]
    exact hrun

/-- After any calls of setters and of `erase`, also of ones that threw, the leaves of the host file
are the values of the store after the same calls, and the next call throws what it throws on the
store. -/
theorem hostTree_refines (ops : List HostOp) (op : HostOp) (hop : strSplit op.path ≠ []) :
    (hostTree (ops ++ [op])).toPathMap = LeafStore.apply (hostStore ops) op ∧
      op.thrown (hostTree ops) = LeafStore.answer (hostStore ops) op := by
  constructor
  · rw [toPathMap_hostTree, hostStore, List.foldl_concat]
    rfl
  · rw [HostOp.thrown_eq_answer (sorted_hostTree ops) hop, toPathMap_hostTree]

/-- A path above a value has no value of its own to erase. -/
theorem hostTree_refines_aboveValue :
    LeafStore.answer (hostStore [.set "/a/b" (.scalar "1"), .erase "/c"]) (.erase "/a") =
      some .eraseNonLeaf := by
  have hrefines := hostTree_refines [.set "/a/b" (.scalar "1"), .erase "/c"] (.erase "/a")
    (by decide)
  rw [← hrefines.2]
  decide

/-- The keys of the host tree have no '/'. -/
theorem slashless_hostTree (ops : List HostOp) : (hostTree ops).Slashless :=
  fun p hp k hk => (named_hostTree ops p hp k hk).2

/-- What the iterators have for a path string is the value of the store at the path. -/
theorem find?_enumLeafs_hostTree (ops : List HostOp) (s : String) (n : KeyTree String NamedValue) :
    (hostTree ops).enumLeafs.find? s = some n ↔
      ∃ q v, (hostStore ops).entry q = some v ∧ pathString q = s ∧ n = ⟨⟨nameAt q, v⟩, .nil⟩ := by
  rw [← toPathMap_hostTree]
  constructor
  · intro hfind
    rw [Node.enumLeafs_eq] at hfind
    rcases LeafMap.of_find?_foldl_add hfind with hnil | ⟨⟨q, v⟩, hmem, hpath, rfl⟩
    · cases hnil
    · obtain ⟨hq, hleaf⟩ := (Node.mem_leaves (sorted_hostTree ops) q v).mp hmem
      refine ⟨q, v, ?_, hpath, rfl⟩
      rw [KeyTree.entry_toPathMap _ hq, hleaf]
  · intro ⟨q, v, hentry, hpath, hn⟩
    have hq : q ≠ [] := by
      rintro rfl
      cases hentry
    rw [KeyTree.entry_toPathMap _ hq] at hentry
    have hkeys := (slashless_hostTree ops).of_leafAt hentry
    rw [← hpath, Node.find?_enumLeafs (sorted_hostTree ops) (slashless_hostTree ops) hq hkeys,
      hentry, hn]
    rfl

/-- Lookups and iterators see the store after any run: a lookup gives the value that is there, or
throws with the same path, and an iterator comes to each value once, by the string for its
path. -/
theorem store_seen (ops : List HostOp) :
    (∀ path, strSplit path ≠ [] → (hostTree ops).leaf path = (hostStore ops).lookup path) ∧
      (∀ s n, (hostTree ops).enumLeafs.find? s = some n ↔ ∃ q v,
        (hostStore ops).entry q = some v ∧ pathString q = s ∧ n = ⟨⟨nameAt q, v⟩, .nil⟩) ∧
      (hostTree ops).enumLeafs.keys.Nodup := by
  refine ⟨fun path hpath => ?_, find?_enumLeafs_hostTree ops, ?_⟩
  · rw [Node.leaf_eq_lookup _ hpath, toPathMap_hostTree]
  · exact (Node.sorted_enumLeafs (hostTree ops)).nodup_keys

/-- A value below another one takes its place. -/
theorem store_seen_belowValue :
    (hostStore [.set "/a" (.scalar "1"), .set "/a/b" (.scalar "2")]).lookup "/a/b" =
      .ok ⟨.uint32, "2", []⟩ := by
  have hseen := (store_seen [.set "/a" (.scalar "1"), .set "/a/b" (.scalar "2")]).1 "/a/b"
    (by decide)
  rw [← hseen]
  decide

end GazeboRcll
