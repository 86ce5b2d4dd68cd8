import GazeboRcll.Config.Document

/-!
# Looking up and setting configuration values

The lookups of `YamlConfiguration` read the tree of the whole configuration, `root_`; a setter
changes this tree, then the tree of the host file, `host_root_`, and then writes the file. Each
of the three may throw, and what was changed before stays changed.
-/

namespace GazeboRcll

open YamlUtils

namespace Node

/-! ## Lookups -/

/-- What all lookups begin with: the node at a path, without children. -/
def leaf (t : Node) (path : String) : Except ConfigError NodeValue := do
  let n ← t.find (strSplit path)
  if n.HasChildren then .error (.notFound path) else .ok n.value

def exists? (t : Node) (path : String) : Bool :=
  match t.leaf path with
  | .ok _ => true
  | .error _ => false

end Node

/-- `Type::to_string`. -/
def NodeType.toString : NodeType → String
  | none => "NONE"
  | uint32 => "unsigned int"
  | int32 => "int"
  | float => "float"
  | bool => "bool"
  | string => "string"
  | sequence => "SEQUENCE"
  | map => "MAP"
  | unknown => "UNKNOWN"

namespace Node

def getType (t : Node) (path : String) : Except ConfigError String := do
  let v ← t.leaf path
  .ok v.type.toString

/-- `get_value_as`. -/
def getValueAs {T : Type} (convert : String → Option T) (t : Node) (path : String) :
    Except ConfigError T := do
  let v ← t.leaf path
  v.getValue (nameAt (strSplit path)) convert

/-- `get_list`. -/
def getListAs {T : Type} (convert : String → Option T) (t : Node) (path : String) :
    Except ConfigError (List T) := do
  let v ← t.leaf path
  v.getList (nameAt (strSplit path)) convert

def getUint := getValueAs convertUInt
def getInt := getValueAs convertInt
def getBool := getValueAs convertBool
def getString := getValueAs convertString
def getUints := getListAs convertUInt
def getInts := getListAs convertInt
def getBools := getListAs convertBool
def getStrings := getListAs convertString

end Node

/-! ## Setters -/

/-- What `access` with `W_OK` says of a file: it may be written, it does not exist, or anything
else. -/
inductive WriteAccess where
  | granted | missing | refused
deriving DecidableEq, Repr

structure YamlConfiguration where
  root : Node
  hostRoot : Node
  hostFile : String

open Strings (cString)

namespace YamlConfiguration

/-- `write_host_file`, as far as it may throw. -/
def writeHostFile (access : String → WriteAccess) (c : YamlConfiguration) : Option ConfigError :=
  if c.hostFile = "" then some .noHostFile
  else if access c.hostFile = .refused then some .cannotWriteHostFile
  else none

/-- What the setters have in common. -/
def setBoth (access : String → WriteAccess) (c : YamlConfiguration) (f : Node → Thrown Node) :
    Thrown YamlConfiguration :=
  let r := f c.root
  let c := { c with root := r.1 }
  match r.2 with
  | some e => (c, some e)
  | none =>
    let h := f c.hostRoot
    let c := { c with hostRoot := h.1 }
    match h.2 with
    | some e => (c, some e)
    | none => (c, c.writeHostFile access)

variable (access : String → WriteAccess) (c : YamlConfiguration) (path : String)

def setUint (u : UInt32) : Thrown YamlConfiguration :=
  c.setBoth access fun t => t.setValue path u.toNat.repr

def setInt (i : Int32) : Thrown YamlConfiguration :=
  c.setBoth access fun t => t.setValue path (toString i.toInt)

def setBool (b : Bool) : Thrown YamlConfiguration :=
  c.setBoth access fun t => t.setValue path (boolToString b)

/-- Both overloads: the one for `std::string` passes `c_str()` to the other one. -/
def setString (s : String) : Thrown YamlConfiguration :=
  c.setBoth access fun t => t.setValue path (cString s)

def setUints (u : List UInt32) : Thrown YamlConfiguration :=
  c.setBoth access fun t => t.setList path (u.map fun u => u.toNat.repr)

def setInts (i : List Int32) : Thrown YamlConfiguration :=
  c.setBoth access fun t => t.setList path (i.map fun i => toString i.toInt)

def setBools (b : List Bool) : Thrown YamlConfiguration :=
  c.setBoth access fun t => t.setList path (b.map boolToString)

def setStrings (s : List String) : Thrown YamlConfiguration :=
  c.setBoth access fun t => t.setList path s

/-- `set_strings` with `const char *`: there is no `to_string` for these, they are converted to
`bool`. -/
def setCStrings (s : List String) : Thrown YamlConfiguration :=
  c.setBoth access fun t => t.setList path (s.map fun _ => boolToString true)

end YamlConfiguration

/-- A call of a setter. `set_float` and `set_floats` change the trees as `set_string` and
`set_strings` with the texts of the numbers do. -/
inductive Setter where
  | uint (u : UInt32)
  | int (i : Int32)
  | bool (b : Bool)
  | string (s : String)
  | uints (u : List UInt32)
  | ints (i : List Int32)
  | bools (b : List Bool)
  | strings (s : List String)
  | cStrings (s : List String)
deriving DecidableEq

/-- What a setter hands to a node. -/
inductive NodeInput where
  | scalar (s : String)
  | list (l : List String)
deriving DecidableEq, Repr

namespace Setter

def run (access : String → WriteAccess) (c : YamlConfiguration) (path : String) :
    Setter → Thrown YamlConfiguration
  | uint u => c.setUint access path u
  | int i => c.setInt access path i
  | bool b => c.setBool access path b
  | string s => c.setString access path s
  | uints u => c.setUints access path u
  | ints i => c.setInts access path i
  | bools b => c.setBools access path b
  | strings s => c.setStrings access path s
  | cStrings s => c.setCStrings access path s

/-- The matching getter returns what was set. -/
def Gets (t : Node) (path : String) : Setter → Prop
  | uint u => t.getUint path = .ok u.toNat
  | int i => t.getInt path = .ok i.toInt
  | bool b => t.getBool path = .ok b
  | string s => t.getString path = .ok s
  | uints u => t.getUints path = .ok (u.map UInt32.toNat)
  | ints i => t.getInts path = .ok (i.map Int32.toInt)
  | bools b => t.getBools path = .ok b
  | strings s => t.getStrings path = .ok s
  | cStrings s => t.getStrings path = .ok s

def input : Setter → NodeInput
  | uint u => .scalar u.toNat.repr
  | int i => .scalar (toString i.toInt)
  | bool b => .scalar (boolToString b)
  | string s => .scalar (cString s)
  | uints u => .list (u.map fun u => u.toNat.repr)
  | ints i => .list (i.map fun i => toString i.toInt)
  | bools b => .list (b.map boolToString)
  | strings s => .list s
  | cStrings s => .list (s.map fun _ => boolToString true)

/-- The value can be read back from what is handed to the node. -/
def Faithful : Setter → Prop
  | string s => cString s = s
  | cStrings s => ∀ x ∈ s, x = boolToString true
  | _ => True

end Setter

namespace NodeInput

def write (name : String) (v : NodeValue) : NodeInput → Thrown NodeValue
  | scalar s => v.setScalar name s
  | list l => (v.setScalarList l, none)

end NodeInput

/-! ## What lookups see -/

/-- The part of a value that lookups can tell. -/
def NodeValue.visible (v : NodeValue) : NodeType × Reading := (v.type, v.reading)

/-- The names of the types are different. -/
theorem NodeType.toString_inj {a b : NodeType} (h : a.toString = b.toString) : a = b := by
  revert h
  cases a <;> cases b <;> decide

/-- Every lookup of every path gives the same. The lookups of the source take C strings, so that
keys with a null character are out of their reach. -/
structure SameLookups (t t' : Node) : Prop where
  exist : ∀ path, t.exists? path = t'.exists? path
  type : ∀ path, t.getType path = t'.getType path
  value : ∀ {T : Type} (convert : String → Option T) path,
    t.getValueAs convert path = t'.getValueAs convert path
  list : ∀ {T : Type} (convert : String → Option T) path,
    t.getListAs convert path = t'.getListAs convert path

namespace NodeValue

variable {v w : NodeValue} {T : Type}

/-- Leaves that look alike have the same value. -/
theorem getValue_congr (h : v.visible = w.visible) (name : String)
    (convert : String → Option T) : v.getValue name convert = w.getValue name convert := by
  obtain ⟨htype, hread⟩ := Prod.mk.inj h
  rw [getValue, getValue, ← htype]
  by_cases hseq : v.type = .sequence
  · rw [if_pos hseq, if_pos hseq]
  · rw [reading, reading, ← htype, if_neg hseq, if_neg hseq] at hread
    rw [if_neg hseq, if_neg hseq, Reading.text.inj hread]

/-- Leaves that look alike have the same list. -/
theorem getList_congr (h : v.visible = w.visible) (name : String)
    (convert : String → Option T) : v.getList name convert = w.getList name convert := by
  obtain ⟨htype, hread⟩ := Prod.mk.inj h
  rw [getList, getList, ← htype]
  by_cases hseq : v.type = .sequence
  · rw [reading, reading, ← htype, if_pos hseq, if_pos hseq] at hread
    rw [if_pos hseq, if_pos hseq, Reading.list.inj hread]
  · rw [if_neg hseq, if_neg hseq]

theorem mapM_convertString (l : List String) : l.mapM convertString = some l := by
  induction l with
  | nil => rfl
  | cons s l ih =>
    rw [List.mapM_cons, ih]
    rfl

/-- The type, the text and the list show the visible part. -/
theorem visible_eq (htype : v.type = w.type) (name : String)
    (hvalue : v.getValue name convertString = w.getValue name convertString)
    (hlist : v.getList name convertString = w.getList name convertString) :
    v.visible = w.visible := by
  rw [visible, visible, reading, reading, ← htype]
  rw [getValue, getValue, ← htype] at hvalue
  rw [getList, getList, ← htype, mapM_convertString, mapM_convertString] at hlist
  by_cases hseq : v.type = .sequence
  · rw [if_pos hseq, if_pos hseq] at hlist
    rw [if_pos hseq, if_pos hseq, Except.ok.inj hlist]
  · rw [if_neg hseq, if_neg hseq] at hvalue
    rw [if_neg hseq, if_neg hseq, Except.ok.inj hvalue]

end NodeValue

namespace Node

variable {t t' : Node} {path : String} {v : NodeValue}

/-- A lookup finds the leaves of the tree. -/
theorem leaf_eq_ok_iff : t.leaf path = .ok v ↔ t.leafAt (strSplit path) = some v := by
  rw [KeyTree.leafAt]
  cases hfind : t.find (strSplit path) with
  | error e =>
    have hnone : t.get? (strSplit path) = none := by
      by_contra hne
      obtain ⟨n, hn⟩ := Option.ne_none_iff_exists'.mp hne
      rw [(find_eq_ok_iff t n _).mpr hn] at hfind
      cases hfind
    rw [leaf, hfind, hnone]
    exact iff_of_false (fun h => by cases h) (fun h => by cases h)
  | ok n =>
    rw [leaf, hfind, (find_eq_ok_iff t n _).mp hfind]
    obtain ⟨w, f⟩ := n
    cases f with
    | nil =>
      show Except.ok w = Except.ok v ↔ some w = some v
      exact ⟨fun h => congrArg some (Except.ok.inj h), fun h => congrArg _ (Option.some.inj h)⟩
    | cons k w' cs rest => exact iff_of_false (fun h => by cases h) (fun h => by cases h)

/-- Trees with the same nodes, which lookups cannot tell apart. -/
theorem leaf_congr
    (h : ∀ p, (t.valueAt p).map NodeValue.visible = (t'.valueAt p).map NodeValue.visible)
    (path : String) :
    (t.leaf path).map NodeValue.visible = (t'.leaf path).map NodeValue.visible := by
  -- the same nodes are there, so the same paths are found
  have hsome : ∀ p, (t.valueAt p).isSome = true ↔ (t'.valueAt p).isSome = true := by
    intro p
    rw [← Option.isSome_map (f := NodeValue.visible), h p, Option.isSome_map]
  cases hfind : t.find (strSplit path) with
  | error e =>
    have hfind' := findFrom_error (fun p _ => hsome p) "" e hfind
    rw [leaf, leaf, hfind, show t'.find (strSplit path) = .error e from hfind']
  | ok n =>
    have hn : t.get? (strSplit path) = some n := (find_eq_ok_iff t n _).mp hfind
    cases hfind' : t'.find (strSplit path) with
    | error e =>
      have herror := findFrom_error (fun p _ => (hsome p).symm) "" e hfind'
      have hfind'' : t.find (strSplit path) = .error e := herror
      rw [hfind] at hfind''
      cases hfind''
    | ok n' =>
      have hn' : t'.get? (strSplit path) = some n' := (find_eq_ok_iff t' n' _).mp hfind'
      have hvalue := h (strSplit path)
      rw [KeyTree.valueAt, KeyTree.valueAt, hn, hn'] at hvalue
      -- and they have children in both trees or in neither
      have hchildren : n.HasChildren ↔ n'.HasChildren := by
        rw [KeyTree.hasChildren_iff, KeyTree.hasChildren_iff]
        refine exists_congr fun k => ?_
        have hk := hsome (strSplit path ++ [k])
        rwa [KeyTree.valueAt_append, KeyTree.valueAt_append, hn, hn'] at hk
      rw [leaf, leaf, hfind, hfind']
      show Except.map _ (if n.HasChildren then _ else _) =
        Except.map _ (if n'.HasChildren then _ else _)
      by_cases hc : n.HasChildren
      · rw [if_pos hc, if_pos (hchildren.mp hc)]
      · rw [if_neg hc, if_neg (fun hc' => hc (hchildren.mpr hc'))]
        exact congrArg Except.ok (Option.some.inj hvalue)

/-- What is computed from the visible part of a value. -/
theorem bind_congr {α : Type} {x y : Except ConfigError NodeValue}
    (h : x.map NodeValue.visible = y.map NodeValue.visible) {f : NodeValue → Except ConfigError α}
    (hf : ∀ v w, v.visible = w.visible → f v = f w) : x >>= f = y >>= f := by
  cases x with
  | error e =>
    cases y with
    | error e' =>
      have herror : e = e' := Except.error.inj h
      rw [herror]
    | ok w => cases h
  | ok v =>
    cases y with
    | error e' => cases h
    | ok w => exact hf v w (Except.ok.inj h)

/-- The lookups are the same if what they can tell of each leaf is. -/
theorem sameLookups_iff : SameLookups t t' ↔
    ∀ path, (t.leaf path).map NodeValue.visible = (t'.leaf path).map NodeValue.visible := by
  constructor
  · intro h path
    have hexist := h.exist path
    have htype := h.type path
    have hvalue := h.value convertString path
    have hlist := h.list convertString path
    rw [exists?, exists?] at hexist
    rw [getType, getType] at htype
    rw [getValueAs, getValueAs] at hvalue
    rw [getListAs, getListAs] at hlist
    cases hv : t.leaf path with
    -- the exception is told apart by `get_type`
    | error e =>
      rw [hv] at hexist htype
      cases hw : t'.leaf path with
      | error e' =>
        rw [hw] at htype
        have herror : e = e' := Except.error.inj htype
        rw [herror]
      | ok w =>
        rw [hw] at hexist
        cases hexist
    | ok v =>
      rw [hv] at hexist htype hvalue hlist
      cases hw : t'.leaf path with
      | error e =>
        rw [hw] at hexist
        cases hexist
      | ok w =>
        rw [hw] at htype hvalue hlist
        -- type, text and list are seen by one lookup each
        have hvisible : v.visible = w.visible :=
          NodeValue.visible_eq (NodeType.toString_inj (Except.ok.inj htype)) _ hvalue hlist
        exact congrArg Except.ok hvisible
  · intro h
    refine ⟨fun path => ?_, fun path => ?_, fun convert path => ?_, fun convert path => ?_⟩
    · have hpath := h path
      rw [exists?, exists?]
      cases hv : t.leaf path with
      | error e =>
        cases hw : t'.leaf path with
        | error e' => rfl
        | ok w =>
          rw [hv, hw] at hpath
          cases hpath
      | ok v =>
        cases hw : t'.leaf path with
        | error e' =>
          rw [hv, hw] at hpath
          cases hpath
        | ok w => rfl
    · exact bind_congr (h path) fun v w hvw =>
        congrArg (fun p => Except.ok (NodeType.toString p.1)) hvw
    · exact bind_congr (h path) fun v w hvw => NodeValue.getValue_congr hvw _ convert
    · exact bind_congr (h path) fun v w hvw => NodeValue.getList_congr hvw _ convert

end Node

/-! ## One tree -/

namespace NodeInput

variable {name : String} {v : NodeValue}

/-- The node can take the value: a type can be determined for it. -/
def Taken (name : String) (v : NodeValue) : NodeInput → Prop
  | scalar s => ∃ type, { v with scalar := s }.determineScalarType name = .ok type
  | list _ => True

/-- The node has the value already, as far as lookups can tell. Where no type is found for a
text, the text is set nevertheless, but lookups do not see it in a list. -/
def Kept (name : String) (v : NodeValue) : NodeInput → Prop
  | scalar s =>
    match { v with scalar := s }.determineScalarType name with
    | .ok type => v.type = type ∧ v.scalar = s
    | .error _ => v.type = .sequence ∨ v.scalar = s
  | list l => v.type = .sequence ∧ v.list = l

/-- Writing throws unless the value is taken. -/
theorem write_snd_eq_none_iff (i : NodeInput) : (i.write name v).2 = none ↔ i.Taken name v := by
  cases i with
  | list l => exact iff_of_true rfl trivial
  | scalar s =>
    rw [write, NodeValue.setScalar, Taken]
    cases { v with scalar := s }.determineScalarType name with
    | ok type => exact iff_of_true rfl ⟨type, rfl⟩
    | error e =>
      refine iff_of_false (fun h => by cases h) fun h => ?_
      obtain ⟨type, h⟩ := h
      cases h

/-- A leaf looks the same after writing if it was like what is written. -/
theorem visible_write_iff (i : NodeInput) :
    (i.write name v).1.visible = v.visible ↔ i.Kept name v := by
  cases i with
  | list l =>
    show (NodeType.sequence, Reading.list l) = (v.type, v.reading) ↔ _
    rw [Kept, Prod.mk.injEq, NodeValue.reading]
    constructor
    · rintro ⟨htype, hread⟩
      rw [if_pos htype.symm] at hread
      exact ⟨htype.symm, (Reading.list.inj hread).symm⟩
    · rintro ⟨htype, hlist⟩
      rw [if_pos htype, hlist]
      exact ⟨htype.symm, rfl⟩
  | scalar s =>
    rw [write, NodeValue.setScalar, Kept]
    cases htype : { v with scalar := s }.determineScalarType name with
    | ok type =>
      -- a text is read back as a scalar, whatever the node was before
      have hne := NodeValue.ne_sequence_of_determineScalarType htype
      have hread : (NodeValue.mk type s v.list).reading = .text s := if_neg hne
      show (type, (NodeValue.mk type s v.list).reading) = (v.type, v.reading) ↔
        v.type = type ∧ v.scalar = s
      rw [hread, Prod.mk.injEq, NodeValue.reading]
      constructor
      · rintro ⟨rfl, hscalar⟩
        rw [if_neg hne] at hscalar
        exact ⟨rfl, (Reading.text.inj hscalar).symm⟩
      · rintro ⟨rfl, rfl⟩
        rw [if_neg hne]
        exact ⟨rfl, rfl⟩
    | error e =>
      -- the new text is there, but under the old type
      show (v.type, (NodeValue.mk v.type s v.list).reading) = (v.type, v.reading) ↔
        v.type = .sequence ∨ v.scalar = s
      rw [Prod.mk.injEq, NodeValue.reading, NodeValue.reading]
      by_cases hseq : v.type = .sequence
      · rw [if_pos hseq, if_pos hseq]
        exact iff_of_true ⟨rfl, rfl⟩ (.inl hseq)
      · rw [if_neg hseq, if_neg hseq, Reading.text.injEq]
        exact ⟨fun h => .inr h.2.symm, fun h => ⟨rfl, (h.resolve_left hseq).symm⟩⟩

end NodeInput

namespace Node

variable {t : Node} {path : String} {i : NodeInput}

/-- Something is below the path, so that it cannot be set. -/
def Occupied (t : Node) (path : String) : Prop :=
  KeyTree.HasChildren ((t.get? (strSplit path)).getD new)

/-- The setter goes through on this tree. -/
def Takes (t : Node) (path : String) (i : NodeInput) : Prop :=
  ¬ t.Occupied path ∧ i.Taken (nameAt (strSplit path)) (t.foundAt (strSplit path))

/-- `set_value` and `set_list`. -/
def setInput (t : Node) (path : String) (i : NodeInput) : Thrown Node :=
  t.setWith path fun name v => i.write name v

/-- Setting a value throws unless the path takes it. -/
theorem setInput_snd_eq_none_iff : (t.setInput path i).2 = none ↔ t.Takes path i := by
  by_cases h : t.Occupied path
  · refine iff_of_false ?_ fun ht => ht.1 h
    cases hn : t.get? (strSplit path) with
    | none =>
      rw [Occupied, hn] at h
      exact absurd rfl h
    | some n =>
      rw [Occupied, hn] at h
      rw [setInput, setWith_of_hasChildren hn h]
      exact nofun
  · rw [setInput, setWith_of_childless h, Takes, ← i.write_snd_eq_none_iff]
    exact (and_iff_right h).symm

/-- A path that is occupied is left alone. -/
theorem sameLookups_of_occupied (h : t.Occupied path) :
    SameLookups t (t.setInput path i).1 := by
  cases hn : t.get? (strSplit path) with
  | none =>
    rw [Occupied, hn] at h
    exact absurd rfl h
  | some n =>
    rw [Occupied, hn] at h
    have hsome : (t.valueAt (strSplit path)).isSome = true := by
      rw [KeyTree.valueAt, hn]
      rfl
    rw [setInput, setWith_of_hasChildren hn h, sameLookups_iff]
    exact leaf_congr fun p => by rw [valueAt_findOrInsert_of_isSome hsome]

/-- Nothing is below a path that is not occupied. -/
theorem valueAt_below (h : ¬ t.Occupied path) (k : String) :
    t.valueAt (strSplit path ++ [k]) = none := by
  rw [KeyTree.valueAt_append]
  cases hn : t.get? (strSplit path) with
  | none => rfl
  | some n =>
    rw [Occupied, hn] at h
    obtain ⟨v, f⟩ := n
    obtain rfl : f = .nil := not_not.mp h
    rfl

theorem not_prefix_of_concat {q : List String} (k : String) : ¬ q ++ [k] <+: q := by
  intro hpre
  have hlen := hpre.length_le
  rw [List.length_append] at hlen
  exact absurd hlen (by simp)

/-- A lookup of the path that was set. -/
theorem leaf_setInput_self (h : ¬ t.Occupied path) :
    (t.setInput path i).1.leaf path =
      .ok (i.write (nameAt (strSplit path)) (t.foundAt (strSplit path))).1 := by
  rw [leaf_eq_ok_iff, KeyTree.leafAt_eq_some_iff]
  refine ⟨valueAt_setWith_self h, fun k => ?_⟩
  rw [setInput, valueAt_setWith_aside h (not_prefix_of_concat k)]
  exact valueAt_below h k

/-- A path that can be set looks the same afterwards only if it was a leaf with this value. -/
theorem sameLookups_setInput_iff (h : ¬ t.Occupied path) :
    SameLookups t (t.setInput path i).1 ↔
      ∃ v, t.leafAt (strSplit path) = some v ∧ i.Kept (nameAt (strSplit path)) v := by
  rw [sameLookups_iff]
  constructor
  · intro hsame
    have hpath := hsame path
    rw [leaf_setInput_self h] at hpath
    cases hv : t.leaf path with
    | error e =>
      rw [hv] at hpath
      cases hpath
    | ok v =>
      have hleaf := leaf_eq_ok_iff.mp hv
      have hfound : t.foundAt (strSplit path) = v := by
        rw [foundAt, ((t.leafAt_eq_some_iff _ v).mp hleaf).1]
        rfl
      rw [hv, hfound] at hpath
      exact ⟨v, hleaf, i.visible_write_iff.mp (Except.ok.inj hpath).symm⟩
  · rintro ⟨v, hleaf, hkept⟩
    have hvalue := ((t.leafAt_eq_some_iff _ v).mp hleaf).1
    have hfound : t.foundAt (strSplit path) = v := by
      rw [foundAt, hvalue]
      rfl
    refine leaf_congr fun p => ?_
    by_cases hp : p = strSplit path
    · rw [hp, setInput, valueAt_setWith_self h, hvalue, hfound]
      exact congrArg some (i.visible_write_iff.mpr hkept).symm
    · rw [setInput, valueAt_setWith_of_ne h (by rw [hvalue]; rfl) hp]

/-- The other leaves stay if none of them is above the path. -/
theorem others_kept_iff (h : ¬ t.Occupied path) :
    (∀ path', strSplit path' ≠ strSplit path → strSplit path' ≠ [] →
        ∀ v, t.leaf path' = .ok v →
          ((t.setInput path i).1.leaf path').map NodeValue.visible = .ok v.visible) ↔
      ∀ p, p ≠ [] → p <+: strSplit path → p ≠ strSplit path → t.leafAt p = none := by
  constructor
  · intro hkept p hp hpre hne
    by_contra hsome
    obtain ⟨v, hv⟩ := Option.ne_none_iff_exists'.mp hsome
    have hsplit : strSplit (Strings.join '/' p) = p :=
      Strings.split_join fun item hitem => Strings.isItem_of_mem_split (hpre.subset hitem)
    have hafter := hkept (Strings.join '/' p) (by rw [hsplit]; exact hne) (by rw [hsplit]; exact hp)
      v (leaf_eq_ok_iff.mpr (by rw [hsplit]; exact hv))
    cases hw : (t.setInput path i).1.leaf (Strings.join '/' p) with
    | error e =>
      rw [hw] at hafter
      cases hafter
    | ok w =>
      -- the path goes on below `p` now
      rw [leaf_eq_ok_iff, hsplit, KeyTree.leafAt_eq_some_iff] at hw
      obtain ⟨r, hr⟩ := hpre
      cases r with
      | nil =>
        rw [List.append_nil] at hr
        exact hne hr
      | cons k r =>
        have hself := valueAt_setWith_self (f := fun name v => i.write name v) h
        rw [← hr] at hself
        have hpk : p ++ [k] <+: p ++ k :: r := ⟨r, by rw [List.append_assoc]; rfl⟩
        obtain ⟨u, hu⟩ := KeyTree.valueAt_of_prefix hpk hself
        have hnone : (t.setInput path i).1.valueAt (p ++ [k]) = none := hw.2 k
        rw [setInput, hu] at hnone
        cases hnone
  · intro hfree path' hne hnil v hv
    rw [leaf_eq_ok_iff, KeyTree.leafAt_eq_some_iff] at hv
    have hnot : ¬ strSplit path' <+: strSplit path := by
      intro hpre
      have hnone := hfree _ hnil hpre hne
      rw [(t.leafAt_eq_some_iff _ v).mpr hv] at hnone
      cases hnone
    have hleaf : (t.setInput path i).1.leaf path' = .ok v := by
      rw [leaf_eq_ok_iff, KeyTree.leafAt_eq_some_iff, setInput,
        valueAt_setWith_aside h hnot]
      refine ⟨hv.1, fun k => ?_⟩
      rw [valueAt_setWith_aside h fun hpre =>
        hnot ((List.prefix_append _ [k]).trans hpre)]
      exact hv.2 k
    rw [hleaf]
    rfl

/-! ## Reading back -/

/-- A text that was set is returned by the getters that can convert it. -/
theorem getValueAs_setInput {T : Type} {s : String} {x : T} (ht : t.Takes path (.scalar s))
    {convert : String → Option T} (hx : convert s = some x) :
    (t.setInput path (.scalar s)).1.getValueAs convert path = .ok x := by
  obtain ⟨h, type, htype⟩ := ht
  have hne := NodeValue.ne_sequence_of_determineScalarType htype
  rw [getValueAs, leaf_setInput_self h, NodeInput.write, NodeValue.setScalar, htype]
  exact NodeValue.getValue_eq_ok hne hx

/-- A list that was set is returned by the getters that can convert its elements. -/
theorem getListAs_setInput {T : Type} {l : List String} {xs : List T} (h : ¬ t.Occupied path)
    {convert : String → Option T} (hxs : l.mapM convert = some xs) :
    (t.setInput path (.list l)).1.getListAs convert path = .ok xs := by
  rw [getListAs, leaf_setInput_self h]
  exact NodeValue.getList_eq_ok (v := NodeValue.setScalarList l _) rfl hxs

end Node

/-- What every element is converted back to, the list is. -/
theorem mapM_map_eq_some {α T : Type} {f : α → String} {g : α → T} {convert : String → Option T}
    (h : ∀ a, convert (f a) = some (g a)) (l : List α) :
    (l.map f).mapM convert = some (l.map g) := by
  induction l with
  | nil => rfl
  | cons a l ih =>
    rw [List.map_cons, List.mapM_cons, h, ih]
    rfl

theorem convertUInt_toNat (u : UInt32) : convertUInt u.toNat.repr = some u.toNat :=
  convertUInt_repr u.toNat_lt

theorem convertInt_toInt (i : Int32) : convertInt (toString i.toInt) = some i.toInt :=
  convertInt_toString i.le_toInt i.toInt_lt

/-- Where the tree takes the value, the getter returns it, unless the text of it is another. -/
theorem Setter.gets_iff {t : Node} {path : String} {s : Setter} (h : t.Takes path s.input) :
    s.Gets (t.setInput path s.input).1 path ↔ s.Faithful := by
  cases s with
  | uint u => exact iff_of_true (Node.getValueAs_setInput h (convertUInt_toNat u)) trivial
  | int i => exact iff_of_true (Node.getValueAs_setInput h (convertInt_toInt i)) trivial
  | bool b => exact iff_of_true (Node.getValueAs_setInput h (convertBool_boolToString b)) trivial
  | string s =>
    -- the text ends at its first NUL
    have hget : (t.setInput path (.scalar (cString s))).1.getString path = .ok (cString s) :=
      Node.getValueAs_setInput h rfl
    show Node.getString _ path = .ok s ↔ cString s = s
    rw [show (Setter.string s).input = .scalar (cString s) from rfl, hget]
    exact ⟨fun heq => Except.ok.inj heq, fun heq => congrArg _ heq⟩
  | uints u =>
    exact iff_of_true (Node.getListAs_setInput h.1 (mapM_map_eq_some convertUInt_toNat u)) trivial
  | ints i =>
    exact iff_of_true (Node.getListAs_setInput h.1 (mapM_map_eq_some convertInt_toInt i)) trivial
  | bools b =>
    have hget := Node.getListAs_setInput h.1 (mapM_map_eq_some convertBool_boolToString b)
    rw [List.map_id'] at hget
    exact iff_of_true hget trivial
  | strings s =>
    exact iff_of_true (Node.getListAs_setInput h.1 (NodeValue.mapM_convertString s)) trivial
  | cStrings s =>
    -- each pointer is written as a truth value
    have hget : (t.setInput path (.list (s.map fun _ => boolToString true))).1.getStrings path =
        .ok (s.map fun _ => boolToString true) :=
      Node.getListAs_setInput h.1 (NodeValue.mapM_convertString _)
    show Node.getStrings _ path = .ok s ↔ ∀ x ∈ s, x = boolToString true
    rw [show (Setter.cStrings s).input = .list (s.map fun _ => boolToString true) from rfl, hget]
    constructor
    · intro heq x hx
      have hlist : (s.map fun _ => boolToString true) = s := Except.ok.inj heq
      rw [← hlist, List.mem_map] at hx
      obtain ⟨_, -, rfl⟩ := hx
      rfl
    · intro hall
      have hlist : (s.map fun _ => boolToString true) = s := by
        rw [List.map_congr_left (g := id) fun x hx => (hall x hx).symm, List.map_id]
      rw [hlist]

/-! ## A setter is atomic and local -/

/-- What is expected of a call of a setter: it throws and nothing looks different, or the value
is read back and every other leaf is as it was. The root is no leaf: `enum_leafs` begins with its
children. -/
def Atomic (access : String → WriteAccess) (c : YamlConfiguration) (path : String) (s : Setter) :
    Prop :=
  (∃ e, (s.run access c path).2 = some e ∧ SameLookups c.root (s.run access c path).1.root) ∨
    (s.run access c path).2 = none ∧ s.Gets (s.run access c path).1.root path ∧
      ∀ path', strSplit path' ≠ strSplit path → strSplit path' ≠ [] →
        ∀ v, c.root.leaf path' = .ok v →
          ((s.run access c path).1.root.leaf path').map NodeValue.visible = .ok v.visible

/-- All three steps of a setter go through. -/
def GoesThrough (access : String → WriteAccess) (c : YamlConfiguration) (path : String)
    (i : NodeInput) : Prop :=
  c.root.Takes path i ∧ c.hostRoot.Takes path i ∧ c.hostFile ≠ "" ∧ access c.hostFile ≠ .refused

/-- When it is so: the path has something below; or all steps go through, no leaf is above the
path, and the value is the one handed to the tree; or some step does not go through, but the leaf
at the path has the value already. -/
def Settable (access : String → WriteAccess) (c : YamlConfiguration) (path : String)
    (s : Setter) : Prop :=
  c.root.Occupied path ∨
    (GoesThrough access c path s.input ∧ s.Faithful ∧
      ∀ p, p ≠ [] → p <+: strSplit path → p ≠ strSplit path → c.root.leafAt p = none) ∨
    (¬ GoesThrough access c path s.input ∧ ∃ v, c.root.leafAt (strSplit path) = some v ∧
      s.input.Kept (nameAt (strSplit path)) v)

namespace YamlConfiguration

variable {access : String → WriteAccess} {c : YamlConfiguration} {f : Node → Thrown Node}
  {e : ConfigError}

/-- `root_` is changed first: if this throws, the host tree is not touched. -/
theorem setBoth_of_root_thrown (h : (f c.root).2 = some e) :
    c.setBoth access f = ({ c with root := (f c.root).1 }, some e) := by
  simp only [setBoth, h]

/-- `root_` stays changed when changing the host tree throws. -/
theorem setBoth_of_host_thrown (h : (f c.root).2 = none) (h' : (f c.hostRoot).2 = some e) :
    c.setBoth access f =
      ({ c with root := (f c.root).1, hostRoot := (f c.hostRoot).1 }, some e) := by
  simp only [setBoth, h, h']

/-- The file is written last. -/
theorem setBoth_of_none (h : (f c.root).2 = none) (h' : (f c.hostRoot).2 = none) :
    c.setBoth access f =
      ({ c with root := (f c.root).1, hostRoot := (f c.hostRoot).1 }, c.writeHostFile access) := by
  simp only [setBoth, h, h']
  rfl

/-- Writing throws without a file name, and for a file that must not be written. -/
theorem writeHostFile_eq_none_iff :
    c.writeHostFile access = none ↔ c.hostFile ≠ "" ∧ access c.hostFile ≠ .refused := by
  rw [writeHostFile]
  by_cases hfile : c.hostFile = ""
  · rw [if_pos hfile]
    exact iff_of_false nofun fun h => h.1 hfile
  · rw [if_neg hfile]
    by_cases haccess : access c.hostFile = .refused
    · rw [if_pos haccess]
      exact iff_of_false nofun fun h => h.2 haccess
    · rw [if_neg haccess]
      exact iff_of_true rfl ⟨hfile, haccess⟩

end YamlConfiguration

/-- All setters change both trees in the same way. -/
theorem Setter.run_eq (access : String → WriteAccess) (c : YamlConfiguration) (path : String)
    (s : Setter) :
    s.run access c path = c.setBoth access fun t => t.setInput path s.input := by
  cases s <;> rfl

/-- What a setter does to `root_` does not depend on what comes later. -/
theorem root_run (access : String → WriteAccess) (c : YamlConfiguration) (path : String)
    (s : Setter) : (s.run access c path).1.root = (c.root.setInput path s.input).1 := by
  rw [s.run_eq]
  cases h : (c.root.setInput path s.input).2 with
  | some e =>
    rw [YamlConfiguration.setBoth_of_root_thrown (f := fun t => t.setInput path s.input) h]
  | none =>
    cases h' : (c.hostRoot.setInput path s.input).2 with
    | some e =>
      rw [YamlConfiguration.setBoth_of_host_thrown (f := fun t => t.setInput path s.input) h h']
    | none =>
      rw [YamlConfiguration.setBoth_of_none (f := fun t => t.setInput path s.input) h h']

/-- A setter does not throw if all three of its steps go through. -/
theorem run_snd_eq_none_iff (access : String → WriteAccess) (c : YamlConfiguration)
    (path : String) (s : Setter) :
    (s.run access c path).2 = none ↔ GoesThrough access c path s.input := by
  rw [s.run_eq, GoesThrough, ← Node.setInput_snd_eq_none_iff, ← Node.setInput_snd_eq_none_iff,
    ← YamlConfiguration.writeHostFile_eq_none_iff]
  cases h : (c.root.setInput path s.input).2 with
  | some e =>
    rw [YamlConfiguration.setBoth_of_root_thrown (f := fun t => t.setInput path s.input) h]
    exact iff_of_false nofun nofun
  | none =>
    cases h' : (c.hostRoot.setInput path s.input).2 with
    | some e =>
      rw [YamlConfiguration.setBoth_of_host_thrown (f := fun t => t.setInput path s.input) h h']
      exact iff_of_false nofun nofun
    | none =>
      rw [YamlConfiguration.setBoth_of_none (f := fun t => t.setInput path s.input) h h']
      exact ⟨fun hw => ⟨rfl, rfl, hw⟩, fun hw => hw.2.2⟩

/-- A setter is atomic and local exactly where the path is settable. -/
theorem atomic_iff (access : String → WriteAccess) (c : YamlConfiguration) (path : String)
    (s : Setter) : Atomic access c path s ↔ Settable access c path s := by
  rw [Atomic, Settable, root_run, run_snd_eq_none_iff]
  by_cases hocc : c.root.Occupied path
  -- an inner node: the setter throws before it writes
  · refine iff_of_true (.inl ?_) (.inl hocc)
    have hthrown : (s.run access c path).2 ≠ none := by
      rw [Ne, run_snd_eq_none_iff]
      exact fun h => h.1.1 hocc
    obtain ⟨e, he⟩ := Option.ne_none_iff_exists'.mp hthrown
    exact ⟨e, he, Node.sameLookups_of_occupied hocc⟩
  · rw [or_iff_right hocc, ← Node.sameLookups_setInput_iff hocc]
    by_cases hthrough : GoesThrough access c path s.input
    -- the setter goes through: the getter and the other leaves decide
    · have hnone : (s.run access c path).2 = none :=
        (run_snd_eq_none_iff access c path s).mpr hthrough
      rw [hnone, Setter.gets_iff hthrough.1, Node.others_kept_iff hocc]
      constructor
      · rintro (⟨e, he, -⟩ | ⟨-, hgets, hothers⟩)
        · cases he
        · exact .inl ⟨hthrough, hgets, hothers⟩
      · rintro (⟨-, hgets, hothers⟩ | ⟨hnot, -⟩)
        · exact .inr ⟨hthrough, hgets, hothers⟩
        · exact absurd hthrough hnot
    -- it throws later on: what was written must not be seen
    · have hthrown : (s.run access c path).2 ≠ none := by
        rw [Ne, run_snd_eq_none_iff]
        exact hthrough
      obtain ⟨e, he⟩ := Option.ne_none_iff_exists'.mp hthrown
      constructor
      · rintro (⟨e', -, hsame⟩ | ⟨hgoes, -⟩)
        · exact .inr ⟨hthrough, hsame⟩
        · exact absurd hgoes hthrough
      · rintro (⟨hgoes, -⟩ | ⟨-, hsame⟩)
        · exact absurd hgoes hthrough
        · exact .inl ⟨e, he, hsame⟩

/-- Without a host file a setter throws when the value is set already. -/
theorem set_without_host_file :
    ∃ access c path s, ¬ Atomic access c path s := by
  refine ⟨fun _ => .granted, ⟨Node.root, Node.root, ""⟩, "/a", .uint 1, fun h => ?_⟩
  rcases h with ⟨e, -, hsame⟩ | ⟨hnone, -⟩
  · have hexist := hsame.exist "/a"
    revert hexist
    decide
  · revert hnone
    decide

end GazeboRcll
