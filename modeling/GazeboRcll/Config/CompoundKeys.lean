import GazeboRcll.Config.Leafs
import GazeboRcll.Config.Visits

/-!
# Where the entries of a document are found

`read_config_doc` splits a key that has a '/', and takes any other key as it is. A lookup gets a C
string, splits the whole path, and leaves out what is empty. So a node below an empty key is never
found, nor is one whose path has a null character, and a key that has only slashes has no element
to insert. What is in a map whose node is there already is not looked at.

No two entries need to have different paths here.

* `findsEntries_iff`: which documents have all their entries where lookups find them.
-/

namespace GazeboRcll

/-- What a lookup is given for the entry. -/
def Item.fullKey (i : Item) : String := Strings.join '/' (i.keys ++ [i.key])

/-- No other entry uses the path of this one as its path, or as the beginning of it. -/
def Isolated (l : List Item) (i : Item) : Prop :=
  i ∈ l ∧ l.countP (fun x => i.path.isPrefixOf x.path) = 1

/-! ## What is promised -/

namespace Node

/-- A lookup returns the node that was made for the entry. -/
def Finds (t : Node) (i : Item) : Prop :=
  let q := strSplit (Strings.cString i.fullKey)
  q = i.path ∧ ∃ n, t.find q = .ok n ∧ i.Makes n

/-- A map is read, and every entry that has its path for itself is found, or an exception is
thrown. -/
def FindsEntries (es : Entries) : Prop :=
  match readEntries new es with
  | .ok t => ∀ i, Isolated (es.items [] [] []) i → t.Finds i
  | .error err => err.IsFawkesException

end Node

namespace Entries

/-- An entry is refused, and all that are looked at before it are fit. -/
def Throws (es : Entries) : Prop :=
  ∃ vs v ws, es.visits [] [] [] [] = vs ++ v :: ws ∧ (∀ u ∈ vs, u.Fit) ∧ v.Fit ∧
    v.Refused (kindAt v.path [] .other vs)

/-- Every entry that is looked at is fit, and every entry that has its path for itself is looked
at, not below an empty key, and without a null character in its path. -/
structure Reachable (es : Entries) : Prop where
  fit : ∀ v ∈ es.visits [] [] [] [], v.Fit
  reached : ∀ i, Isolated (es.items [] [] []) i →
    (∃ v ∈ es.visits [] [] [] [], v.item = i) ∧ "" ∉ i.path ∧ Strings.nul ∉ i.fullKey.toList

end Entries

open Node

/-! ## What is thrown -/

section

variable {P : List (List String)} {K : List String → NodeKind} {v : Visit} {vs ws : List Visit}
  {e : ConfigError}

/-- Where reading has stopped for a `fawkes::Exception`, an entry was refused, and all before it
are fit. -/
theorem Stopped.isFawkesException_iff (h : Stopped e P K vs) :
    e.IsFawkesException ↔ ∃ as v bs, vs = as ++ v :: bs ∧ (∀ u ∈ as, u.Fit) ∧ v.Fit ∧
      v.Refused (kindAt v.path P (K v.path) as) := by
  induction h with
  | here vs h =>
    rw [h.fawkes]
    constructor
    · intro hfit
      refine ⟨[], _, vs, rfl, nofun, hfit, ?_⟩
      exact not_not.mp fun hnot => h.not_passes ⟨hfit, hnot⟩
    · rintro ⟨_ | ⟨u, as⟩, v, bs, heq, hfit, hv, -⟩
      · obtain ⟨rfl, -⟩ := List.cons.inj heq
        exact hv
      · obtain ⟨rfl, -⟩ := List.cons.inj heq
        exact hfit _ List.mem_cons_self
  | later hpass h ih =>
    rw [ih]
    constructor
    · rintro ⟨as, v, bs, rfl, hfit, hv, hrefused⟩
      exact ⟨_ :: as, v, bs, rfl, List.forall_mem_cons.mpr ⟨hpass.1, hfit⟩, hv, hrefused⟩
    · rintro ⟨_ | ⟨u, as⟩, v, bs, heq, hfit, hv, hrefused⟩
      · obtain ⟨rfl, -⟩ := List.cons.inj heq
        exact absurd hrefused hpass.2
      · obtain ⟨rfl, rfl⟩ := List.cons.inj heq
        exact ⟨as, v, bs, rfl, (List.forall_mem_cons.mp hfit).2, hv, hrefused⟩

/-- Where all that is looked at is fit, nothing but a `fawkes::Exception` is thrown. -/
theorem Stopped.isFawkesException (h : Stopped e P K vs) (hfit : ∀ v ∈ vs, v.Fit) :
    e.IsFawkesException := by
  induction h with
  | here vs h => exact h.fawkes.mpr (hfit _ List.mem_cons_self)
  | later hpass h ih => exact ih (List.forall_mem_cons.mp hfit).2

/-- Of the visits in which nothing is thrown, none is refused. -/
theorem Passed.not_refused (h : Passed P K (vs ++ v :: ws)) :
    ¬v.Refused (kindAt v.path P (K v.path) vs) := by
  obtain ⟨-, hpass, -⟩ := passed_append.mp h
  exact hpass.2

end

/-! ## Lookups -/

/-- A lookup leaves out the empty key that an insertion keeps. -/
theorem strSplit_eq_filter_keyPath (key : String) :
    strSplit key = (keyPath key).filter (· ≠ "") := by
  rw [keyPath]
  split_ifs with hslash
  · refine (List.filter_eq_self.mpr fun k hk => ?_).symm
    exact decide_eq_true (Strings.isItem_of_mem_split hk).1
  · rw [strSplit, Strings.split_of_not_mem hslash]
    by_cases hkey : key = "" <;> simp [hkey]

/-- The path of an entry is put together from the keys on the way to it. -/
theorem path_of_mem_items {es : Entries} {above : List (List String)} {keys : List String}
    {i : Item} (hi : i ∈ es.items (keys.flatMap keyPath) above keys) :
    i.path = (i.keys ++ [i.key]).flatMap keyPath := by
  induction es generalizing above keys with
  | nil => cases hi
  | leaf key value rest ih =>
    rcases List.mem_cons.mp hi with rfl | hi
    · rw [List.flatMap_append, List.flatMap_singleton]
    · exact ih hi
  | map key entries rest ihe ih =>
    have hpath : keys.flatMap keyPath ++ keyPath key = (keys ++ [key]).flatMap keyPath := by
      rw [List.flatMap_append, List.flatMap_singleton]
    rcases List.mem_cons.mp hi with rfl | hi
    · exact hpath
    · rcases List.mem_append.mp hi with hi | hi
      · rw [hpath] at hi
        exact ihe hi
      · exact ih hi

theorem path_of_mem_docItems {es : Entries} {i : Item} (hi : i ∈ es.items [] [] []) :
    i.path = (i.keys ++ [i.key]).flatMap keyPath := by
  have hpre : ([] : List String) = ([] : List String).flatMap keyPath := rfl
  exact path_of_mem_items (hpre ▸ hi)

namespace Item

variable {i : Item}

/-- A lookup leaves out what is empty. -/
theorem strSplit_fullKey (hi : i.path = (i.keys ++ [i.key]).flatMap keyPath) :
    strSplit i.fullKey = i.path.filter (· ≠ "") := by
  rw [hi, List.filter_flatMap, fullKey, strSplit, Strings.split_join_flatMap]
  congr 1
  funext key
  exact strSplit_eq_filter_keyPath key

/-- And it ends at the first null character. -/
theorem strSplit_cString_eq_iff (hi : i.path = (i.keys ++ [i.key]).flatMap keyPath) :
    strSplit (Strings.cString i.fullKey) = i.path ↔
      "" ∉ i.path ∧ Strings.nul ∉ i.fullKey.toList := by
  have hfilter : i.path.filter (· ≠ "") = i.path ↔ "" ∉ i.path := by
    rw [List.filter_eq_self]
    simp only [decide_eq_true_eq, ne_eq]
    exact ⟨fun h hmem => h "" hmem rfl, fun h k hk heq => h (heq ▸ hk)⟩
  have hcut := Strings.split_cString_eq_iff (by decide : '/' ≠ Strings.nul) i.fullKey
  rw [← hcut]
  constructor
  · intro heq
    have hempty : "" ∉ i.path := fun hmem => by
      rw [← heq] at hmem
      exact (Strings.isItem_of_mem_split hmem).1 rfl
    refine ⟨hempty, ?_⟩
    show strSplit (Strings.cString i.fullKey) = strSplit i.fullKey
    rw [heq, strSplit_fullKey hi, hfilter.mpr hempty]
  · rintro ⟨hempty, heq⟩
    rw [strSplit, heq]
    show strSplit i.fullKey = i.path
    rw [strSplit_fullKey hi, hfilter.mpr hempty]

end Item

/-! ## Entries that have their path for themselves -/

/-- Nothing but the entry itself goes on from its path. -/
theorem Isolated.unique {l : List Item} {i x : Item} (h : Isolated l i)
    (hx : x ∈ l) (hpre : i.path <+: x.path) : x = i := by
  obtain ⟨hi, hone⟩ := h
  rw [List.countP_eq_length_filter, List.length_eq_one_iff] at hone
  obtain ⟨y, hy⟩ := hone
  have hxy : x ∈ [y] := hy ▸ List.mem_filter.mpr ⟨hx, List.isPrefixOf_iff_prefix.mpr hpre⟩
  have hiy : i ∈ [y] :=
    hy ▸ List.mem_filter.mpr ⟨hi, List.isPrefixOf_iff_prefix.mpr (List.prefix_refl _)⟩
  rw [List.mem_singleton.mp hxy, List.mem_singleton.mp hiy]

/-- Among the visits its path is used once, by the entry. -/
theorem Isolated.usesOf_visits {es : Entries} {v : Visit}
    (h : Isolated (es.items [] [] []) v.item) (hv : v ∈ es.visits [] [] [] []) :
    usesOf v.path ((es.visits [] [] [] []).map Visit.path) = 1 := by
  have hpos := usesOf_pos (List.mem_map_of_mem hv) (List.prefix_refl v.path)
  have hle := (es.visits_sublist_items [] [] [] []).countP_le
    (p := fun x : Item => v.path.isPrefixOf x.path)
  have hmap : usesOf v.path ((es.visits [] [] [] []).map Visit.path) =
      ((es.visits [] [] [] []).map Visit.item).countP fun x => v.path.isPrefixOf x.path := by
    rw [usesOf, List.countP_map, List.countP_map]
    rfl
  have hone := h.2
  rw [Visit.path] at *
  omega

theorem Item.Makes.eq_childless {i : Item} {n : Node} (h : i.Makes n) : n = ⟨n.value, .nil⟩ := by
  unfold Makes at h
  cases hvalue : i.value with
  | none =>
    rw [hvalue] at h
    obtain rfl : n = newMap := h
    rfl
  | some value =>
    rw [hvalue] at h
    exact (YamlLeaf.of_read_eq_ok h).2.1

section

variable {es : Entries} {t : Node} {i : Item}

/-- Where there is a node at its path, the entry was looked at. -/
theorem Isolated.exists_visit (h : Isolated (es.items [] [] []) i)
    (hread : VisitsRead new t [] [] (fun _ => .other) (es.visits [] [] [] []))
    (hsome : (t.valueAt i.path).isSome = true) : ∃ v ∈ es.visits [] [] [] [], v.item = i := by
  have hused : ∃ v ∈ es.visits [] [] [] [], i.path <+: v.path := by
    by_cases hpath : i.path = []
    · -- the root is the beginning of every path, also of that of the first visit
      have hne : es.visits [] [] [] [] ≠ [] := by
        intro hnil
        have hes := (Entries.visits_eq_nil_iff [] [] [] [] es).mp hnil
        rw [hes] at h
        cases h.1
      obtain ⟨v, vs, hv⟩ := List.exists_cons_of_ne_nil hne
      rw [hv, hpath]
      exact ⟨v, List.mem_cons_self, List.nil_prefix⟩
    · obtain ⟨x, hx, hpre⟩ := (hread.nodes.isSome_iff i.path hpath).mp hsome
      obtain ⟨v, hv, rfl⟩ := List.mem_map.mp hx
      exact ⟨v, hv, hpre⟩
  obtain ⟨v, hv, hpre⟩ := hused
  have hmem := (es.visits_sublist_items [] [] [] []).subset (List.mem_map_of_mem hv)
  exact ⟨v, hv, h.unique hmem hpre⟩

/-- Nothing is below the node of the entry. -/
theorem Isolated.get?_eq {v : Visit} (h : Isolated (es.items [] [] []) v.item)
    (hv : v ∈ es.visits [] [] [] [])
    (hread : VisitsRead new t [] [] (fun _ => .other) (es.visits [] [] [] [])) :
    ∃ n, v.item.Makes n ∧ t.get? v.path = some n := by
  obtain ⟨n, hmakes, hvalue⟩ := hread.value v hv not_used_nil (h.usesOf_visits hv) v.path rfl
  refine ⟨n, hmakes, ?_⟩
  rw [hmakes.eq_childless]
  apply KeyTree.get?_of_leafAt
  refine (KeyTree.leafAt_eq_some_iff t _ _).mpr ⟨hvalue, fun k => ?_⟩
  by_contra hne
  have hk : v.path ++ [k] ≠ [] := List.append_ne_nil_of_right_ne_nil _ (List.cons_ne_nil k [])
  obtain ⟨x, hx, hpre⟩ :=
    (hread.nodes.isSome_iff _ hk).mp (Option.isSome_iff_ne_none.mpr hne)
  obtain ⟨w, hw, rfl⟩ := List.mem_map.mp hx
  rw [List.nil_append] at hpre
  have hmem := (es.visits_sublist_items [] [] [] []).subset (List.mem_map_of_mem hw)
  have heq := h.unique hmem ((List.prefix_append _ [k]).trans hpre)
  have hlen := hpre.length_le
  rw [Visit.path, Visit.path, heq, List.length_append, List.length_singleton] at hlen
  omega

/-- Where nothing was thrown, an entry is found exactly if it was looked at, is not below an empty
key, and has no null character in its path. -/
theorem Isolated.finds_iff (h : Isolated (es.items [] [] []) i)
    (hread : VisitsRead new t [] [] (fun _ => .other) (es.visits [] [] [] [])) :
    t.Finds i ↔ (∃ v ∈ es.visits [] [] [] [], v.item = i) ∧ "" ∉ i.path ∧
      Strings.nul ∉ i.fullKey.toList := by
  have hcut := Item.strSplit_cString_eq_iff (path_of_mem_docItems h.1)
  rw [Finds]
  constructor
  · rintro ⟨hpath, n, hn, -⟩
    rw [hpath, find_eq_ok_iff] at hn
    refine ⟨h.exists_visit hread ?_, hcut.mp hpath⟩
    rw [KeyTree.valueAt, hn]
    rfl
  · rintro ⟨⟨v, hv, rfl⟩, hfound⟩
    obtain ⟨n, hmakes, hn⟩ := h.get?_eq hv hread
    have hpath := hcut.mpr hfound
    refine ⟨hpath, n, ?_, hmakes⟩
    rw [hpath, find_eq_ok_iff]
    exact hn

end

/-- No element of a key has a '/'. -/
theorem not_mem_of_mem_keyPath {key k : String} (h : k ∈ keyPath key) : '/' ∉ k.toList := by
  rw [keyPath] at h
  split_ifs at h with hslash
  · exact (Strings.isItem_of_mem_split h).2
  · rwa [List.mem_singleton.mp h]

/-- The tree of a document has no key with a '/'. -/
theorem Node.slashless_readConfigDoc {doc : YamlDoc} {t : Node} (h : readConfigDoc doc = .ok t) :
    t.Slashless := by
  intro p hp k hk
  have hne : p ≠ [] := List.ne_nil_of_mem hk
  cases doc with
  | leaf value =>
    cases hcheck : value.checkTag "root" new.value with
    | error e =>
      rw [readConfigDoc, hcheck] at h
      cases h
    | ok u =>
      rw [readConfigDoc, hcheck] at h
      cases h
      obtain ⟨k', p, rfl⟩ := List.exists_cons_of_ne_nil hne
      cases hp
  | map es =>
    have hread := nodes_new.readEntries_eq_ok [] [] h
    obtain ⟨x, hx, hpre⟩ := (hread.nodes.isSome_iff p hne).mp hp
    obtain ⟨v, hv, rfl⟩ := List.mem_map.mp hx
    have hitem := (es.visits_sublist_items [] [] [] []).subset (List.mem_map_of_mem hv)
    rw [List.nil_append, Visit.path, path_of_mem_docItems hitem] at hpre
    obtain ⟨key, -, hkey⟩ := List.mem_flatMap.mp (hpre.subset hk)
    exact not_mem_of_mem_keyPath hkey

end GazeboRcll
