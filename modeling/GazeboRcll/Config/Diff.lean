import GazeboRcll.Config.CompoundKeys
import GazeboRcll.Config.Setters

/-!
# The differences of two configurations

`YamlConfigurationNode::diff` enumerates the leaves of both trees and compares those with the same
path by `operator!=`, which looks at the name, the type and the text, and not at the elements of
a list.

* `sameLookups_iff_seenAlike`: what the lookups of two trees have to do with their nodes.
* `exactDiff_iff`: for which trees the list of changes is exact.
-/

namespace GazeboRcll

/-- `operator!=`. -/
def NamedValue.differs (m n : NamedValue) : Bool :=
  m.name ≠ n.name || m.value.type ≠ n.value.type || m.value.scalar ≠ n.value.scalar

namespace Node

/-- `diff`, with both passes in the order of the path strings. -/
def diff (a b : Node) : List String :=
  let na := a.enumLeafs
  let nb := b.enumLeafs
  (na.keys.filter fun path =>
    match na.find? path, nb.find? path with
    | some m, some n => m.value.differs n.value
    | some _, none => true
    | none, _ => false) ++
  nb.keys.filter fun path => (na.find? path).isNone

/-- What the list of changes is for. -/
structure ExactDiff (a b : Node) : Prop where
  mem : ∀ path, path ∈ diff a b ↔
    ∃ q, (q ∈ a.leafPaths ∨ q ∈ b.leafPaths) ∧ a.leafAt q ≠ b.leafAt q ∧ pathString q = path
  nodup : (diff a b).Nodup
  empty : diff a b = [] ↔ SameLookups a b
  symm : ∀ path, path ∈ diff a b ↔ path ∈ diff b a

/-- Two leaves at one path that have the same type and text have the same list. -/
def ListsAgree (a b : Node) : Prop :=
  ∀ q v w, q ≠ [] → a.leafAt q = some v → b.leafAt q = some w →
    v.type = w.type → v.scalar = w.scalar → v.list = w.list

/-- A lookup of the path is the same in both trees, as far as it gets. -/
def SeenAlike (a b : Node) (p : List String) : Prop :=
  ((a.valueAt p).isSome ↔ (b.valueAt p).isSome) ∧
    (a.leafAt p).map NodeValue.visible = (b.leafAt p).map NodeValue.visible

end Node

/-- A configuration tree: a `std::map` has its keys in order, and no key has a '/'. -/
structure ConfigTree where
  node : Node
  sorted : node.Sorted
  slashless : node.Slashless

/-- What a document is read into. -/
def ConfigTree.ofDocument {doc : YamlDoc} {t : Node} (h : Node.readConfigDoc doc = .ok t) :
    ConfigTree :=
  ⟨t, Node.sorted_readConfigDoc h, Node.slashless_readConfigDoc h⟩

namespace Node

variable {a b : Node} {path : String} {q : List String}

/-! ## Both passes -/

/-- A path is in the list of changes unless both trees have a leaf there and the two do not differ.
-/
theorem mem_diff_iff :
    path ∈ diff a b ↔
      (path ∈ a.enumLeafs.keys ∨ path ∈ b.enumLeafs.keys) ∧
        ∀ m n, a.enumLeafs.find? path = some m → b.enumLeafs.find? path = some n →
          m.value.differs n.value = true := by
  rw [diff, List.mem_append, List.mem_filter, List.mem_filter, ← Children.isSome_find?_iff,
    ← Children.isSome_find?_iff]
  cases a.enumLeafs.find? path <;> cases b.enumLeafs.find? path <;> simp

/-- The second pass adds only paths that the first one has not seen. -/
theorem nodup_diff (a b : Node) : (diff a b).Nodup := by
  rw [diff]
  refine List.nodup_append.mpr ⟨(sorted_enumLeafs a).nodup_keys.filter _,
    (sorted_enumLeafs b).nodup_keys.filter _, ?_⟩
  rintro path ha _ hb rfl
  have hnone := (List.mem_filter.mp hb).2
  have hkey := (List.mem_filter.mp ha).1
  rw [← Children.isSome_find?_iff] at hkey
  rw [Option.isNone_iff_eq_none] at hnone
  rw [hnone] at hkey
  cases hkey

theorem differs_comm (m n : NamedValue) : m.differs n = n.differs m := by
  rw [NamedValue.differs, NamedValue.differs]
  simp only [ne_comm]

theorem mem_diff_comm : path ∈ diff a b ↔ path ∈ diff b a := by
  rw [mem_diff_iff, mem_diff_iff, or_comm]
  refine and_congr_right fun _ => ⟨fun h m n hm hn => ?_, fun h m n hm hn => ?_⟩
  · rw [differs_comm]
    exact h n m hn hm
  · rw [differs_comm]
    exact h n m hn hm

/-! ## Lookups -/

theorem toOption_leaf (t : Node) (path : String) :
    (t.leaf path).toOption = t.leafAt (strSplit path) := by
  cases hleaf : t.leafAt (strSplit path) with
  | some v =>
    rw [leaf_eq_ok_iff.mpr hleaf]
    rfl
  | none =>
    cases h : t.leaf path with
    | error e => rfl
    | ok v =>
      rw [leaf_eq_ok_iff.mp h] at hleaf
      cases hleaf

/-- A path that is there, and no leaf. -/
theorem leaf_of_find {t n : Node} (hn : t.find (strSplit path) = .ok n)
    (hleaf : t.leafAt (strSplit path) = none) : t.leaf path = .error (.notFound path) := by
  rw [leaf, hn]
  show (if n.HasChildren then _ else _) = _
  by_cases hchildren : n.HasChildren
  · rw [if_pos hchildren]
  · have hok : t.leaf path = .ok n.value := by
      rw [leaf, hn]
      exact if_neg hchildren
    rw [leaf_eq_ok_iff.mp hok] at hleaf
    cases hleaf

/-- A lookup that does not find a node throws what `find` throws. -/
theorem leaf_of_find_error {t : Node} {e : ConfigError} (he : t.find (strSplit path) = .error e) :
    t.leaf path = .error e := by
  rw [leaf, he]
  rfl

/-- A key that no path string needs to have. -/
theorem isItem_x : Strings.IsItem '/' "x" := ⟨by decide, by decide⟩

/-- A lookup of a path of which only the last element may be missing. -/
theorem leaf_eq_error_of_above {p : List String} {k : String} {e : ConfigError}
    (hsplit : strSplit path = p ++ [k]) (ha : (a.valueAt p).isSome = true)
    (he : a.leaf path = .error e) : e = .notFound path ∨ e = .notFound (pathString (p ++ [k])) := by
  cases hfind : a.find (strSplit path) with
  | ok n =>
    have hleaf : a.leafAt (strSplit path) = none := by
      rw [← toOption_leaf, he]
      rfl
    rw [leaf_of_find hfind hleaf] at he
    exact .inl (Except.error.inj he).symm
  | error e' =>
    rw [leaf_of_find_error hfind] at he
    cases he
    obtain ⟨p', pel, r, hp', -, hnone, rfl⟩ := findFrom_eq_error hfind
    -- the search stopped at the last element: every one before it leads to a node
    have hpre : p' ++ [pel] <+: p ++ [k] :=
      ⟨r, (List.append_cons p' pel r).symm.trans (hp'.symm.trans hsplit)⟩
    rcases List.prefix_concat_iff.mp hpre with heq | hpre
    · rw [heq]
      exact .inr rfl
    · obtain ⟨v, hv⟩ := Option.isSome_iff_exists.mp ha
      obtain ⟨w, hw⟩ := KeyTree.valueAt_of_prefix hpre hv
      rw [(KeyTree.valueAt_eq_none_iff _ _).mpr hnone] at hw
      cases hw

/-- Where a node is in one tree only, a lookup of a path below it fails at different elements. -/
theorem valueAt_isSome_of_leaf_eq {p : List String} (hp : ∀ k ∈ p, Strings.IsItem '/' k)
    (h : ∀ path, (a.leaf path).map NodeValue.visible = (b.leaf path).map NodeValue.visible)
    (ha : (a.valueAt p).isSome = true) : (b.valueAt p).isSome = true := by
  by_contra hb
  rw [Option.not_isSome_iff_eq_none, KeyTree.valueAt_eq_none_iff] at hb
  have hitems : ∀ k ∈ p ++ ["x"], Strings.IsItem '/' k := by
    intro k hk
    rcases List.mem_append.mp hk with hk | hk
    · exact hp k hk
    · rw [List.mem_singleton.mp hk]
      exact isItem_x
  have hsplit : strSplit (pathString (p ++ ["x"])) = p ++ ["x"] := Strings.split_join hitems
  have heq := h (pathString (p ++ ["x"]))
  cases hfind : b.find (strSplit (pathString (p ++ ["x"]))) with
  | ok n =>
    have hn := (find_eq_ok_iff b n _).mp hfind
    rw [hsplit, KeyTree.get?_append, hb] at hn
    cases hn
  | error e =>
    rw [leaf_of_find_error hfind] at heq
    cases ha' : a.leaf (pathString (p ++ ["x"])) with
    | ok v =>
      rw [ha'] at heq
      cases heq
    | error e' =>
      rw [ha'] at heq
      obtain rfl : e' = e := Except.error.inj heq
      -- `a` misses at most the last element, so the text of the error names the whole path,
      -- and a search of `b` that stopped above it would have named a shorter one
      have hlast := leaf_eq_error_of_above hsplit ha ha'
      rw [or_self] at hlast
      obtain ⟨p', pel, r, hp', hsome, -, he⟩ := findFrom_eq_error hfind
      rw [hsplit] at hp'
      have hpath : pathString (p' ++ [pel]) = pathString (p ++ ["x"]) := by
        rw [hlast, ConfigError.notFound.injEq] at he
        rw [he]
        rfl
      have hconcat : p' ++ [pel] = p ++ ["x"] := by
        refine pathString_inj (fun k hk => (hitems k ?_).2) (fun k hk => (hitems k hk).2) hpath
        rw [hp', List.append_cons]
        exact List.mem_append_left r hk
      rw [(List.append_inj' hconcat rfl).1, hb] at hsome
      cases hsome

/-- Lookups reach the paths without empty keys, and of these they tell whether a node is there, and
what is seen of a leaf. -/
theorem sameLookups_iff_seenAlike :
    SameLookups a b ↔ ∀ p, (∀ k ∈ p, Strings.IsItem '/' k) → SeenAlike a b p := by
  rw [sameLookups_iff]
  constructor
  · intro h p hp
    refine ⟨⟨valueAt_isSome_of_leaf_eq hp h,
      valueAt_isSome_of_leaf_eq hp fun path => (h path).symm⟩, ?_⟩
    have hpath := congrArg Except.toOption (h (pathString p))
    have hmap : ∀ x : Except ConfigError NodeValue,
        (x.map NodeValue.visible).toOption = x.toOption.map NodeValue.visible := by
      intro x
      cases x <;> rfl
    rwa [hmap, hmap, toOption_leaf, toOption_leaf,
      show strSplit (pathString p) = p from Strings.split_join hp] at hpath
  · intro h path
    have hitems : ∀ k ∈ strSplit path, Strings.IsItem '/' k :=
      fun k hk => Strings.isItem_of_mem_split hk
    have hsome : ∀ p, p <+: strSplit path → ((a.valueAt p).isSome ↔ (b.valueAt p).isSome) :=
      fun p hp => (h p fun k hk => hitems k (hp.subset hk)).1
    have hvisible := (h _ hitems).2
    -- both lookups end in an exception, at a node or at a leaf
    cases ha : a.find (strSplit path) with
    | error e =>
      rw [leaf_of_find_error ha, leaf_of_find_error (findFrom_error hsome "" e ha)]
    | ok n =>
      cases hb : b.find (strSplit path) with
      | error e =>
        have herror := findFrom_error (fun p hp => (hsome p hp).symm) "" e hb
        rw [show a.findFrom "" _ = a.find (strSplit path) from rfl, ha] at herror
        cases herror
      | ok n' =>
        cases hv : a.leafAt (strSplit path) with
        | none =>
          rw [hv, Option.map_none, eq_comm, Option.map_eq_none_iff] at hvisible
          rw [leaf_of_find ha hv, leaf_of_find hb hvisible]
        | some v =>
          rw [hv, Option.map_some, eq_comm, Option.map_eq_some_iff] at hvisible
          obtain ⟨w, hw, hvisible⟩ := hvisible
          rw [leaf_eq_ok_iff.mpr hv, leaf_eq_ok_iff.mpr hw]
          exact congrArg Except.ok hvisible.symm

end Node

namespace ConfigTree

variable {a b : ConfigTree} {q : List String}

/-- The keys on the way to a leaf have no '/'. -/
theorem keys_of_mem_leafPaths (a : ConfigTree) (h : q ∈ a.node.leafPaths) :
    ∀ k ∈ q, '/' ∉ k.toList := by
  obtain ⟨v, hv⟩ := Option.isSome_iff_exists.mp h.2
  exact a.slashless.of_leafAt hv

/-- A leaf path is reported if one of the trees does not have the leaf, or if type or text
differ. -/
theorem pathString_mem_diff_iff (h : q ∈ a.node.leafPaths ∨ q ∈ b.node.leafPaths) :
    pathString q ∈ Node.diff a.node b.node ↔
      ∀ v w, a.node.leafAt q = some v → b.node.leafAt q = some w →
        v.type ≠ w.type ∨ v.scalar ≠ w.scalar := by
  have hq : q ≠ [] := h.elim And.left And.left
  have hkeys : ∀ k ∈ q, '/' ∉ k.toList :=
    h.elim a.keys_of_mem_leafPaths b.keys_of_mem_leafPaths
  have hmem : pathString q ∈ a.node.enumLeafs.keys ∨ pathString q ∈ b.node.enumLeafs.keys :=
    h.imp (fun ha => (Node.mem_keys_enumLeafs a.sorted _).mpr ⟨q, ha, rfl⟩)
      fun hb => (Node.mem_keys_enumLeafs b.sorted _).mpr ⟨q, hb, rfl⟩
  rw [Node.mem_diff_iff, and_iff_right hmem, Node.find?_enumLeafs a.sorted a.slashless hq hkeys,
    Node.find?_enumLeafs b.sorted b.slashless hq hkeys]
  constructor
  · intro hdiffers v w hv hw
    rw [hv, hw] at hdiffers
    simpa [NamedValue.differs] using hdiffers _ _ rfl rfl
  · intro hdiffers m n hm hn
    obtain ⟨v, hv, rfl⟩ := Option.map_eq_some_iff.mp hm
    obtain ⟨w, hw, rfl⟩ := Option.map_eq_some_iff.mp hn
    simpa [NamedValue.differs] using hdiffers v w hv hw

/-- Only leaf paths are reported. -/
theorem mem_diff_iff (path : String) :
    path ∈ Node.diff a.node b.node ↔
      ∃ q, (q ∈ a.node.leafPaths ∨ q ∈ b.node.leafPaths) ∧
        (∀ v w, a.node.leafAt q = some v → b.node.leafAt q = some w →
          v.type ≠ w.type ∨ v.scalar ≠ w.scalar) ∧ pathString q = path := by
  constructor
  · intro hpath
    have hkeys := (Node.mem_diff_iff.mp hpath).1
    rw [Node.mem_keys_enumLeafs a.sorted, Node.mem_keys_enumLeafs b.sorted] at hkeys
    have hleaf : ∃ q, (q ∈ a.node.leafPaths ∨ q ∈ b.node.leafPaths) ∧ pathString q = path := by
      rcases hkeys with ⟨q, hq, heq⟩ | ⟨q, hq, heq⟩
      · exact ⟨q, .inl hq, heq⟩
      · exact ⟨q, .inr hq, heq⟩
    obtain ⟨q, hq, rfl⟩ := hleaf
    exact ⟨q, hq, (pathString_mem_diff_iff hq).mp hpath, rfl⟩
  · rintro ⟨q, hq, hdiffers, rfl⟩
    exact (pathString_mem_diff_iff hq).mpr hdiffers

/-- The right paths are reported exactly if no two lists differ in their elements only. -/
theorem mem_diff_exact_iff :
    (∀ path, path ∈ Node.diff a.node b.node ↔
      ∃ q, (q ∈ a.node.leafPaths ∨ q ∈ b.node.leafPaths) ∧
        a.node.leafAt q ≠ b.node.leafAt q ∧ pathString q = path) ↔
      Node.ListsAgree a.node b.node := by
  constructor
  · intro hexact q v w hq hv hw htype hscalar
    by_contra hlist
    have hleaf : q ∈ a.node.leafPaths ∨ q ∈ b.node.leafPaths := .inl ⟨hq, by rw [hv]; rfl⟩
    have hne : a.node.leafAt q ≠ b.node.leafAt q := by
      rw [hv, hw]
      intro heq
      exact hlist (congrArg NodeValue.list (Option.some.inj heq))
    -- a list that differs alone would be reported, and the comparison does not see it
    have hmem := (hexact (pathString q)).mpr ⟨q, hleaf, hne, rfl⟩
    rcases (pathString_mem_diff_iff hleaf).mp hmem v w hv hw with h | h
    · exact h htype
    · exact h hscalar
  · intro hlists path
    rw [mem_diff_iff]
    refine exists_congr fun q => and_congr_right fun hleaf => and_congr_left fun _ => ?_
    have hq : q ≠ [] := hleaf.elim And.left And.left
    constructor
    · intro hdiffers heq
      -- two leaves that are the same do not differ in anything
      have hsome : ∃ v, a.node.leafAt q = some v := by
        rcases hleaf with h | h
        · exact Option.isSome_iff_exists.mp h.2
        · rw [heq]
          exact Option.isSome_iff_exists.mp h.2
      obtain ⟨v, hv⟩ := hsome
      rcases hdiffers v v hv (heq ▸ hv) with h | h
      · exact h rfl
      · exact h rfl
    · intro hne v w hv hw
      by_contra hsame
      rw [not_or, not_not, not_not] at hsame
      apply hne
      rw [hv, hw, Option.some_inj]
      obtain ⟨type, scalar, list⟩ := v
      obtain ⟨type', scalar', list'⟩ := w
      rw [NodeValue.mk.injEq]
      exact ⟨hsame.1, hsame.2, hlists q _ _ hq hv hw hsame.1 hsame.2⟩

/-- Nothing is reported if all leaves are the same. -/
theorem diff_eq_nil_iff (hlists : Node.ListsAgree a.node b.node) :
    Node.diff a.node b.node = [] ↔ ∀ q, q ≠ [] → a.node.leafAt q = b.node.leafAt q := by
  rw [List.eq_nil_iff_forall_not_mem]
  constructor
  · intro hnone q hq
    by_contra hne
    have hleaf : q ∈ a.node.leafPaths ∨ q ∈ b.node.leafPaths := by
      cases hv : a.node.leafAt q with
      | some v => exact .inl ⟨hq, by rw [hv]; rfl⟩
      | none =>
        rw [hv] at hne
        exact .inr ⟨hq, Option.isSome_iff_ne_none.mpr (Ne.symm hne)⟩
    exact hnone _ ((mem_diff_exact_iff.mpr hlists (pathString q)).mpr ⟨q, hleaf, hne, rfl⟩)
  · intro hsame path hmem
    obtain ⟨q, hleaf, hne, -⟩ := (mem_diff_exact_iff.mpr hlists path).mp hmem
    exact hne (hsame q (hleaf.elim And.left And.left))

/-- No lookup gets to a path that has a '/' in a key, or sees a node there. -/
theorem sameLookups_iff :
    SameLookups a.node b.node ↔ ∀ p, (∀ k ∈ p, k ≠ "") → Node.SeenAlike a.node b.node p := by
  rw [Node.sameLookups_iff_seenAlike]
  refine ⟨fun h p hp => ?_, fun h p hp => h p fun k hk => (hp k hk).1⟩
  by_cases hslash : ∀ k ∈ p, '/' ∉ k.toList
  · exact h p fun k hk => ⟨hp k hk, hslash k hk⟩
  · have hnone : ∀ t : ConfigTree, t.node.valueAt p = none := by
      intro t
      by_contra hsome
      exact hslash (t.slashless p (Option.isSome_iff_ne_none.mpr hsome))
    have hleaf : ∀ t : ConfigTree, t.node.leafAt p = none := by
      intro t
      rw [KeyTree.leafAt, (KeyTree.valueAt_eq_none_iff _ _).mp (hnone t)]
      rfl
    rw [Node.SeenAlike, hnone a, hnone b, hleaf a, hleaf b]
    exact ⟨Iff.rfl, rfl⟩

/-- With the same leaves below the root, only the roots themselves can look different. -/
theorem sameLookups_iff_of_leaves
    (h : ∀ q, q ≠ [] → a.node.leafAt q = b.node.leafAt q) :
    SameLookups a.node b.node ↔
      (a.node.leafAt []).map NodeValue.visible = (b.node.leafAt []).map NodeValue.visible := by
  have hsome : ∀ {t t' : Node}, (∀ q, q ≠ [] → t.leafAt q = t'.leafAt q) → ∀ p,
      (t.valueAt p).isSome = true → (t'.valueAt p).isSome = true := by
    intro t t' hsame p hp
    cases p with
    | nil => rfl
    | cons k p =>
      obtain ⟨v, hv⟩ := Option.isSome_iff_exists.mp hp
      obtain ⟨q, w, hw⟩ := KeyTree.exists_leafAt_append hv
      have hne : k :: p ++ q ≠ [] := List.cons_ne_nil k _
      rw [hsame _ hne] at hw
      obtain ⟨u, hu⟩ :=
        KeyTree.valueAt_of_prefix (List.prefix_append (k :: p) q) (KeyTree.valueAt_of_leafAt hw)
      rw [hu]
      rfl
  rw [sameLookups_iff]
  refine ⟨fun hseen => (hseen [] nofun).2, fun hroot p _ => ⟨⟨hsome h p, hsome ?_ p⟩, ?_⟩⟩
  · exact fun q hq => (h q hq).symm
  · cases p with
    | nil => exact hroot
    | cons k p => rw [h _ (List.cons_ne_nil k p)]

end ConfigTree

/-- The list of changes is exact if and only if no two lists differ in their elements only, two
roots without anything below look the same to lookups, and where some leaf differs there is also
something different that a lookup can reach: a text that was kept under a list, and what is below
an empty key, is out of its reach. -/
theorem exactDiff_iff (a b : ConfigTree) :
    Node.ExactDiff a.node b.node ↔
      Node.ListsAgree a.node b.node ∧
      ((∀ q, q ≠ [] → a.node.leafAt q = b.node.leafAt q) →
        (a.node.leafAt []).map NodeValue.visible = (b.node.leafAt []).map NodeValue.visible) ∧
      ((∃ q, q ≠ [] ∧ a.node.leafAt q ≠ b.node.leafAt q) →
        ∃ p, (∀ k ∈ p, k ≠ "") ∧ ¬ Node.SeenAlike a.node b.node p) := by
  have hsplit : Node.ExactDiff a.node b.node ↔ Node.ListsAgree a.node b.node ∧
      (Node.diff a.node b.node = [] ↔ SameLookups a.node b.node) := by
    rw [← ConfigTree.mem_diff_exact_iff]
    constructor
    · intro h
      exact ⟨h.mem, h.empty⟩
    · intro ⟨hmem, hempty⟩
      exact ⟨hmem, Node.nodup_diff _ _, hempty, fun _ => Node.mem_diff_comm⟩
  rw [hsplit]
  refine and_congr_right fun hlists => ?_
  rw [ConfigTree.diff_eq_nil_iff hlists]
  have hreach : (∃ p, (∀ k ∈ p, k ≠ "") ∧ ¬ Node.SeenAlike a.node b.node p) ↔
      ¬ SameLookups a.node b.node := by
    rw [ConfigTree.sameLookups_iff]
    simp only [not_forall, exists_prop]
  rw [hreach]
  by_cases hsame : ∀ q, q ≠ [] → a.node.leafAt q = b.node.leafAt q
  · rw [← ConfigTree.sameLookups_iff_of_leaves hsame]
    grind
  · have hdiffers : ∃ q, q ≠ [] ∧ a.node.leafAt q ≠ b.node.leafAt q := by
      simpa only [not_forall, exists_prop] using hsame
    grind

/-- A tree with one leaf. -/
def ConfigTree.ofLeaf (key : String) (v : NodeValue) (h : '/' ∉ key.toList) : ConfigTree where
  node := ⟨⟨.map, "", []⟩, .cons key v .nil .nil⟩
  sorted := ⟨nofun, trivial, trivial⟩
  slashless := by
    intro p hp k hk
    cases p with
    | nil => cases hk
    | cons k' p =>
      rw [KeyTree.valueAt_cons, Children.find?] at hp
      split_ifs at hp with heq
      · cases p with
        | nil => rwa [List.mem_singleton.mp hk, heq]
        | cons k'' p => cases hp
      · cases hp

/-- Lists are not compared, and so an element that changes is no change. -/
theorem diff_misses_list :
    ¬ ∀ a b : ConfigTree, Node.ExactDiff a.node b.node := by
  intro h
  have hmem := ((h (.ofLeaf "a" ⟨.sequence, "", ["1"]⟩ (by decide))
    (.ofLeaf "a" ⟨.sequence, "", ["2"]⟩ (by decide))).mem "/a").mpr
      ⟨["a"], .inl ⟨by decide, by decide +kernel⟩, by decide +kernel, by decide +kernel⟩
  revert hmem
  decide +kernel

end GazeboRcll
