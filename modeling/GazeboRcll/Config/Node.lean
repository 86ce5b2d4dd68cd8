import GazeboRcll.Config.Scalar
import GazeboRcll.Library.KeyTree
import GazeboRcll.Library.Strings

/-!
# The configuration tree

`YamlConfigurationNode` with its children: finding, inserting, setting and erasing along a
path. The name of a node is the key it has with its parent, "root" at the root, so it is not
kept a second time.

`Node.valueAt_findOrInsert_above`, `Node.valueAt_findOrInsert_aside` and the same for `setWith` say
what an operation makes of the values in the tree.
-/

namespace GazeboRcll

abbrev Node := KeyTree String NodeValue

/-- `fawkes::str_split` and `fawkes::str_split_to_queue`. -/
def strSplit (path : String) : List String := Strings.split '/' path

/-- `name_` of the node that a path leads to. -/
def nameAt (q : List String) : String := q.getLast?.getD "root"

/-- What a node has to tell: the elements of a list, or the text. -/
inductive Reading where
  | text (s : String)
  | list (l : List String)
deriving DecidableEq, Repr

def NodeValue.reading (v : NodeValue) : Reading :=
  if v.type = .sequence then .list v.list else .text v.scalar

namespace Node

/-- A node with a name only. -/
def new : Node := ⟨.new, .nil⟩

/-- A root node without anything. -/
def root : Node := ⟨⟨.unknown, "", []⟩, .nil⟩

def addChild (t : Node) (p : String) (n : Node) : Node :=
  { value := { t.value with type := .map }, children := t.children.insert p n }

/-- The loop of `find`, from a node that `path` has led to. -/
def findFrom (path : String) (n : Node) : List String → Except ConfigError Node
  | [] => .ok n
  | pel :: q =>
    match n.children.find? pel with
    | none => .error (.notFound (path ++ "/" ++ pel))
    | some c => findFrom (path ++ "/" ++ pel) c q

def find (n : Node) (q : List String) : Except ConfigError Node := n.findFrom "" q

/-- The tree with the path in it, and the node at the path. -/
def findOrInsert (n : Node) : List String → Node × Node
  | [] => (n, n)
  | pel :: q =>
    match n.children.find? pel with
    | none =>
      let r := findOrInsert new q
      (n.addChild pel r.1, r.2)
    | some c =>
      let r := findOrInsert c q
      (n.setChild pel r.1, r.2)

/-- What `set_value` and `set_list` have in common. -/
def setWith (t : Node) (path : String) (f : String → NodeValue → Thrown NodeValue) :
    Thrown Node :=
  let q := strSplit path
  let r := t.findOrInsert q
  if r.2.HasChildren then (r.1, some (.nonLeaf path))
  else
    let v := f (nameAt q) r.2.value
    (r.1.put q { r.2 with value := v.1 }, v.2)

/-- `set_value`, with the value as a text already. -/
def setValue (t : Node) (path s : String) : Thrown Node :=
  t.setWith path fun name v => v.setScalar name s

def setList (t : Node) (path : String) (l : List String) : Thrown Node :=
  t.setWith path fun _ v => (v.setScalarList l, none)

/-- The erasing loop: the node at the path goes, and every node above it that has no
children then. -/
def eraseFrom (n : Node) : List String → Node
  | [] => n
  | pel :: q =>
    match n.children.find? pel with
    | none => n
    | some c =>
      let c := eraseFrom c q
      if q ≠ [] ∧ c.HasChildren then n.setChild pel c
      else { n with children := n.children.erase pel }

def erase (t : Node) (path : String) : Except ConfigError Node := do
  let q := strSplit path
  let n ← t.find q
  if n.HasChildren then .error .eraseNonLeaf else .ok (t.eraseFrom q)

/-! ## Finding -/

variable {t : Node}

theorem findFrom_eq_ok_iff (path : String) (t n : Node) (q : List String) :
    t.findFrom path q = .ok n ↔ t.get? q = some n := by
  induction q generalizing t path with
  | nil =>
    rw [findFrom, KeyTree.get?_nil, Option.some_inj]
    exact ⟨fun h => Except.ok.inj h, fun h => congrArg _ h⟩
  | cons pel q ih =>
    rw [findFrom, KeyTree.get?_cons]
    cases t.children.find? pel with
    | none => exact iff_of_false nofun nofun
    | some c => exact ih (path ++ "/" ++ pel) c

/-- `find` returns the node that is at the path. -/
theorem find_eq_ok_iff (t n : Node) (q : List String) : t.find q = .ok n ↔ t.get? q = some n :=
  findFrom_eq_ok_iff "" t n q

/-- The exception names the path up to the element that is missing. -/
theorem findFrom_eq_error {above : String} {q : List String} {e : ConfigError}
    (h : t.findFrom above q = .error e) :
    ∃ p pel r, q = p ++ pel :: r ∧ (t.get? p).isSome = true ∧ t.get? (p ++ [pel]) = none ∧
      e = .notFound (above ++ Strings.join '/' (p ++ [pel])) := by
  induction q generalizing t above with
  | nil => cases h
  | cons pel q ih =>
    have hjoin : above ++ "/" ++ pel = above ++ Strings.join '/' [pel] := by
      rw [Strings.join_singleton, String.append_assoc]
      rfl
    rw [findFrom] at h
    cases hc : t.children.find? pel with
    | none =>
      rw [hc] at h
      refine ⟨[], pel, q, rfl, rfl, ?_, ?_⟩
      · rw [List.nil_append, KeyTree.get?_cons, hc]
        rfl
      · rw [List.nil_append, ← hjoin]
        exact (Except.error.inj h).symm
    | some c =>
      rw [hc] at h
      obtain ⟨p, k, r, rfl, hsome, hnone, rfl⟩ := ih h
      refine ⟨pel :: p, k, r, rfl, ?_, ?_, ?_⟩
      · rw [KeyTree.get?_cons, hc]
        exact hsome
      · rw [List.cons_append, KeyTree.get?_cons, hc]
        exact hnone
      · rw [hjoin, String.append_assoc, ← Strings.join_append]
        rfl

/-- Which elements of a path are found does not depend on the values. -/
theorem findFrom_error {t' : Node} {q : List String}
    (h : ∀ p, p <+: q → ((t.valueAt p).isSome ↔ (t'.valueAt p).isSome)) (path : String)
    (e : ConfigError) (he : t.findFrom path q = .error e) : t'.findFrom path q = .error e := by
  induction q generalizing t t' path with
  | nil => cases he
  | cons pel q ih =>
    have hpel := h [pel] (List.cons_prefix_cons.mpr ⟨rfl, List.nil_prefix⟩)
    rw [KeyTree.valueAt_cons, KeyTree.valueAt_cons] at hpel
    rw [findFrom] at he ⊢
    cases hfind : t.children.find? pel with
    | none =>
      rw [hfind] at he hpel
      cases hfind' : t'.children.find? pel with
      | none => exact he
      | some c' =>
        rw [hfind'] at hpel
        exact absurd (hpel.mpr rfl) Bool.false_ne_true
    | some c =>
      rw [hfind] at he hpel
      cases hfind' : t'.children.find? pel with
      | none =>
        rw [hfind'] at hpel
        exact absurd (hpel.mp rfl) Bool.false_ne_true
      | some c' =>
        refine ih (fun p hp => ?_) _ he
        have hp' := h (pel :: p) (List.cons_prefix_cons.mpr ⟨rfl, hp⟩)
        rwa [KeyTree.valueAt_cons, KeyTree.valueAt_cons, hfind, hfind'] at hp'

/-! ## Inserting -/

/-- Below a child that was added is what it brings along. -/
theorem valueAt_addChild_self (t : Node) (k : String) (n : Node) (p : List String) :
    (t.addChild k n).valueAt (k :: p) = n.valueAt p :=
  KeyTree.valueAt_setChild_self t k n p

/-- Adding a child leaves the others as they are. -/
theorem valueAt_addChild_of_ne (t : Node) {k k' : String} (h : k' ≠ k) (n : Node)
    (p : List String) : (t.addChild k n).valueAt (k' :: p) = t.valueAt (k' :: p) :=
  KeyTree.valueAt_setChild_of_ne t h n p

/-- The node that is there, or a new one. -/
theorem findOrInsert_snd (t : Node) (q : List String) :
    (t.findOrInsert q).2 = (t.get? q).getD new := by
  have hnew : ∀ q, (new.findOrInsert q).2 = new := by
    intro q
    induction q with
    | nil => rfl
    | cons pel q ih => exact ih
  induction q generalizing t with
  | nil => rfl
  | cons pel q ih =>
    rw [findOrInsert, KeyTree.get?_cons]
    cases t.children.find? pel with
    | none => exact hnew q
    | some c => exact ih c

/-- The node that is returned is in the tree. -/
theorem get?_findOrInsert_self (t : Node) (q : List String) :
    (t.findOrInsert q).1.get? q = some (t.findOrInsert q).2 := by
  induction q generalizing t with
  | nil => rfl
  | cons pel q ih =>
    rw [findOrInsert]
    cases t.children.find? pel with
    | none => exact (KeyTree.get?_setChild_self t pel _ q).trans (ih new)
    | some c => exact (KeyTree.get?_setChild_self t pel _ q).trans (ih c)

theorem valueAt_new_cons (k : String) (p : List String) : new.valueAt (k :: p) = none := rfl

/-- Away from the path nothing changes. -/
theorem valueAt_findOrInsert_aside (t : Node) {p q : List String} (h : ¬ p <+: q) :
    (t.findOrInsert q).1.valueAt p = t.valueAt p := by
  induction q generalizing t p with
  | nil => rfl
  | cons pel q ih =>
    cases p with
    | nil => exact absurd List.nil_prefix h
    | cons k p =>
      rw [findOrInsert]
      by_cases hk : k = pel
      · subst hk
        have hp : ¬ p <+: q := fun hpre => h (List.cons_prefix_cons.mpr ⟨rfl, hpre⟩)
        have hne : p ≠ [] := by
          rintro rfl
          exact hp List.nil_prefix
        rw [KeyTree.valueAt_cons t]
        cases t.children.find? k with
        | none =>
          refine (valueAt_addChild_self t k _ p).trans ((ih new hp).trans ?_)
          cases p with
          | nil => exact absurd rfl hne
          | cons k' p => exact valueAt_new_cons k' p
        | some c => exact (KeyTree.valueAt_setChild_self t k _ p).trans (ih c hp)
      · cases t.children.find? pel with
        | none => exact valueAt_addChild_of_ne t hk _ p
        | some c => exact KeyTree.valueAt_setChild_of_ne t hk _ p

/-- A node above the one inserted is there afterwards, and a map if its child was not. -/
theorem valueAt_findOrInsert_above (t : Node) (p : List String) (k : String)
    (q : List String) :
    (t.findOrInsert (p ++ k :: q)).1.valueAt p =
      some (match t.valueAt (p ++ [k]) with
        | some _ => (t.valueAt p).getD .new
        | none => { (t.valueAt p).getD .new with type := .map }) := by
  induction p generalizing t with
  | nil =>
    rw [List.nil_append, findOrInsert, List.nil_append, KeyTree.valueAt_cons]
    cases t.children.find? k <;> rfl
  | cons pel p ih =>
    rw [List.cons_append, findOrInsert, List.cons_append, KeyTree.valueAt_cons t pel,
      KeyTree.valueAt_cons t pel]
    cases t.children.find? pel with
    | none =>
      refine (valueAt_addChild_self t pel _ p).trans ((ih new).trans ?_)
      have hnone : new.valueAt (p ++ [k]) = none := by cases p <;> rfl
      have hgetD : (new.valueAt p).getD .new = NodeValue.new := by cases p <;> rfl
      rw [hnone, hgetD]
      rfl
    | some c => exact (KeyTree.valueAt_setChild_self t pel _ p).trans (ih c)

/-- A path that is there already stays as it is. -/
theorem valueAt_findOrInsert_of_isSome {q : List String} (h : (t.valueAt q).isSome)
    (p : List String) : (t.findOrInsert q).1.valueAt p = t.valueAt p := by
  by_cases hp : p <+: q
  · obtain ⟨r, rfl⟩ := hp
    cases r with
    | nil =>
      have hself := get?_findOrInsert_self t (p ++ [])
      rw [findOrInsert_snd, List.append_nil] at hself
      rw [List.append_nil] at h ⊢
      obtain ⟨n, hn⟩ := Option.isSome_iff_exists.mp ((Option.isSome_map.symm.trans h))
      rw [KeyTree.valueAt, KeyTree.valueAt, hself, hn]
      rfl
    | cons k r =>
      have hpre : p ++ [k] <+: p ++ k :: r := ⟨r, List.append_cons p k r ▸ rfl⟩
      obtain ⟨v, hv⟩ := Option.isSome_iff_exists.mp h
      obtain ⟨w, hw⟩ := KeyTree.valueAt_of_prefix hpre hv
      obtain ⟨u, hu⟩ := KeyTree.valueAt_of_prefix (List.prefix_append p (k :: r)) hv
      rw [valueAt_findOrInsert_above, hw, hu]
      rfl
  · exact valueAt_findOrInsert_aside t hp

theorem sorted_new : new.Sorted := trivial

theorem sorted_addChild (h : t.Sorted) (k : String) {n : Node} (hn : n.Sorted) :
    (t.addChild k n).Sorted := KeyTree.Sorted.setChild h k hn

/-- Inserting a node keeps the order of the keys. -/
theorem sorted_findOrInsert (h : t.Sorted) (q : List String) :
    (t.findOrInsert q).1.Sorted ∧ (t.findOrInsert q).2.Sorted := by
  induction q generalizing t with
  | nil => exact ⟨h, h⟩
  | cons pel q ih =>
    rw [findOrInsert]
    cases hfind : t.children.find? pel with
    | none => exact ⟨sorted_addChild h pel (ih sorted_new).1, (ih sorted_new).2⟩
    | some c =>
      have hc : c.Sorted := Children.Sorted.find? h hfind
      exact ⟨KeyTree.Sorted.setChild h pel (ih hc).1, (ih hc).2⟩

/-! ## Setting -/

variable {path : String} {f : String → NodeValue → Thrown NodeValue}

/-- The value that a setter finds at a path, or the one of the node that it inserts. -/
def foundAt (t : Node) (q : List String) : NodeValue := (t.valueAt q).getD .new

theorem value_getD (t : Node) (q : List String) : ((t.get? q).getD new).value = t.foundAt q := by
  rw [foundAt, KeyTree.valueAt]
  cases t.get? q <;> rfl

/-- A path with something below cannot be set. -/
theorem setWith_of_hasChildren {n : Node} (hn : t.get? (strSplit path) = some n)
    (hc : n.HasChildren) :
    t.setWith path f = ((t.findOrInsert (strSplit path)).1, some (.nonLeaf path)) := by
  have hsnd : (t.findOrInsert (strSplit path)).2 = n := by
    rw [findOrInsert_snd, hn]
    rfl
  rw [setWith, hsnd]
  exact if_pos hc

/-- Setting a value at a node without children. -/
theorem setWith_of_childless (h : ¬ KeyTree.HasChildren ((t.get? (strSplit path)).getD new)) :
    t.setWith path f =
      ((t.findOrInsert (strSplit path)).1.put (strSplit path)
        ⟨(f (nameAt (strSplit path)) (t.foundAt (strSplit path))).1, .nil⟩,
        (f (nameAt (strSplit path)) (t.foundAt (strSplit path))).2) := by
  have hnil : KeyTree.children ((t.get? (strSplit path)).getD new) = .nil := not_not.mp h
  rw [setWith, findOrInsert_snd]
  refine (if_neg h).trans ?_
  dsimp only
  rw [value_getD, hnil]

/-- The value that was set is there. -/
theorem valueAt_setWith_self (h : ¬ KeyTree.HasChildren ((t.get? (strSplit path)).getD new)) :
    (t.setWith path f).1.valueAt (strSplit path) =
      some (f (nameAt (strSplit path)) (t.foundAt (strSplit path))).1 := by
  rw [setWith_of_childless h]
  have hput := KeyTree.get?_put_append (get?_findOrInsert_self t (strSplit path))
    ⟨(f (nameAt (strSplit path)) (t.foundAt (strSplit path))).1, .nil⟩ []
  rw [List.append_nil] at hput
  rw [KeyTree.valueAt, hput]
  rfl

/-- Setting changes the values along the path only. -/
theorem valueAt_setWith_aside
    (h : ¬ KeyTree.HasChildren ((t.get? (strSplit path)).getD new)) {p : List String}
    (hp : ¬ p <+: strSplit path) :
    (t.setWith path f).1.valueAt p = t.valueAt p := by
  rw [setWith_of_childless h]
  by_cases hq : strSplit path <+: p
  · obtain ⟨r, rfl⟩ := hq
    cases r with
    | nil =>
      rw [List.append_nil] at hp
      exact absurd (List.prefix_refl _) hp
    | cons k r =>
      rw [KeyTree.valueAt,
        KeyTree.get?_put_append (get?_findOrInsert_self t (strSplit path)), KeyTree.valueAt_append]
      cases hn : t.get? (strSplit path) with
      | none => rfl
      | some n =>
        rw [hn] at h
        obtain ⟨v, cs⟩ := n
        obtain rfl : cs = .nil := not_not.mp h
        rfl
  · rw [KeyTree.valueAt_put_of_not_prefix _ _ hq]
    exact valueAt_findOrInsert_aside t hp

/-- Above the path the values are those of `find_or_insert`. -/
theorem valueAt_setWith_above (h : ¬ KeyTree.HasChildren ((t.get? (strSplit path)).getD new))
    {p : List String} (hp : p <+: strSplit path) (hne : p ≠ strSplit path) :
    (t.setWith path f).1.valueAt p = (t.findOrInsert (strSplit path)).1.valueAt p := by
  rw [setWith_of_childless h]
  refine KeyTree.valueAt_put_of_not_prefix _ _ fun hpre => hne ?_
  exact hp.eq_of_length_le hpre.length_le

/-- Where the path is there already, only its own value changes. -/
theorem valueAt_setWith_of_ne (h : ¬ KeyTree.HasChildren ((t.get? (strSplit path)).getD new))
    (hsome : (t.valueAt (strSplit path)).isSome = true) {p : List String}
    (hne : p ≠ strSplit path) : (t.setWith path f).1.valueAt p = t.valueAt p := by
  by_cases hp : p <+: strSplit path
  · rw [valueAt_setWith_above h hp hne]
    exact valueAt_findOrInsert_of_isSome hsome p
  · exact valueAt_setWith_aside h hp

end Node

end GazeboRcll
