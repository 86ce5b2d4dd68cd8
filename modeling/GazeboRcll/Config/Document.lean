import GazeboRcll.Config.Node

/-!
# Reading a configuration document

`YamlConfiguration::read_config_doc`. A document is a tree of entries; the key of an entry may
be a path, along which the missing nodes are made. An entry whose node is there already only
sets the text of the node, and what the entry contains is not looked at.
-/

namespace GazeboRcll

/-- An element of a YAML sequence: its tag, and the string that it is, if it is one. -/
structure YamlElement where
  tag : String
  text : Option String
deriving DecidableEq, Repr

/-- A YAML node that is no map. -/
inductive YamlLeaf where
  | null
  | scalar (tag text : String)
  | sequence (elements : List YamlElement)
deriving DecidableEq, Repr

/-- The entries of a YAML map, in their order. -/
inductive Entries where
  | nil
  | leaf (key : String) (value : YamlLeaf) (rest : Entries)
  | map (key : String) (entries rest : Entries)

/-- A YAML document. -/
inductive YamlDoc where
  | leaf (value : YamlLeaf)
  | map (entries : Entries)

namespace YamlLeaf

/-- `Scalar()`. -/
def text : YamlLeaf → String
  | scalar _ text => text
  | _ => ""

def isScalar : YamlLeaf → Bool
  | scalar _ _ => true
  | _ => false

/-- The members of a node that is made from a YAML node. -/
def construct (name : String) : YamlLeaf → Except ConfigError NodeValue
  | null => .ok ⟨.none, "", []⟩
  | scalar _ text => do
    let type ← NodeValue.determineScalarType name ⟨.unknown, text, []⟩
    .ok ⟨type, text, []⟩
  | sequence elements =>
    match elements.mapM YamlElement.text with
    | some l => .ok ⟨.sequence, "", l⟩
    | none => .error .badElement

def isFrameStart (c : Char) : Bool := c.isAlpha || c = '_'

def isFrameChar (c : Char) : Bool := c.isAlphanum || c = '_' || c = '-'

/-- The rest of a frame, in the middle of an element. -/
def isFrameRest : List Char → Bool
  | [] => true
  | '/' :: c :: cs => isFrameStart c && isFrameRest cs
  | c :: cs => isFrameChar c && isFrameRest cs

/-- `FRAME_REGEX`. -/
def isFrame : List Char → Bool
  | '/' :: c :: cs => isFrameStart c && isFrameRest cs
  | _ => false

/-- What `read_config_doc` does with a YAML node that is no map. Every part of `URL_REGEX` may
be absent, so that every text is a URL. -/
def checkTag (name : String) (v : NodeValue) : YamlLeaf → Except ConfigError Unit
  | scalar tag text =>
    if tag = "tag:fawkesrobotics.org,cfg/tcp-port" ∨ tag = "tag:fawkesrobotics.org,cfg/udp-port"
    then
      match v.getValue name YamlUtils.convertUInt with
      | .error _ => .error .portNotUnsigned
      | .ok p => if p = 0 ∨ 65535 ≤ p then .error (.portOutOfRange p) else .ok ()
    else if tag = "tag:fawkesrobotics.org,cfg/frame" then
      -- `regexec` is given the C string
      let scalar := Strings.cString text
      if isFrame scalar.toList then .ok () else .error (.notFrame scalar)
    else .ok ()
  | _ => .ok ()

/-- A node made from a YAML node, with the tag checked. -/
def read (value : YamlLeaf) (name : String) : Except ConfigError Node := do
  let v ← value.construct name
  value.checkTag name v
  .ok ⟨v, .nil⟩

end YamlLeaf

/-- The elements of a key. -/
def keyPath (key : String) : List String := if '/' ∈ key.toList then strSplit key else [key]

namespace Node

/-- An entry at the node `in` it belongs to: the text for a node that is there, or else the
new node. -/
def enter (isScalar : Bool) (text : String) (fresh : String → Except ConfigError Node)
    (key : String) (n : Node) : Except ConfigError Node :=
  match n.children.find? key with
  | some tmp =>
    if tmp.value.type.isScalar && !isScalar then .error (.scalarOverwritten key)
    else
      (tmp.value.setScalar key text).toExcept.map fun v => n.setChild key { tmp with value := v }
  | none => (fresh key).map (n.addChild key)

/-- An entry, from the node that the document is read into. -/
def atKey (t : Node) (key : String) (f : String → Node → Except ConfigError Node) :
    Except ConfigError Node :=
  match (keyPath key).getLast? with
  | none => .error .emptyKey
  | some last =>
    let dirs := (keyPath key).dropLast
    let r := t.findOrInsert dirs
    (f last r.2).map (r.1.put dirs)

/-- The loop of `read_config_doc` over a map. -/
def readEntries (t : Node) : Entries → Except ConfigError Node
  | .nil => .ok t
  | .leaf key value rest => do
    let t ← t.atKey key (enter value.isScalar value.text value.read)
    readEntries t rest
  | .map key entries rest => do
    let t ← t.atKey key (enter false "" fun _ => readEntries ⟨⟨.map, "", []⟩, .nil⟩ entries)
    readEntries t rest

/-- `read_config_doc` without a node. -/
def readConfigDoc : YamlDoc → Except ConfigError Node
  | .leaf value => (value.checkTag "root" new.value).map fun _ => new
  | .map entries => readEntries new entries

/-! ## One entry -/

variable {t t' c : Node} {key last text : String} {dirs q : List String} {isScalar : Bool}
  {fresh : String → Except ConfigError Node}

/-- The node above the last element is looked up or made, and changed by `f`. -/
theorem atKey_eq (hkey : keyPath key = dirs ++ [last])
    (f : String → Node → Except ConfigError Node) :
    t.atKey key f = (f last ((t.get? dirs).getD new)).map ((t.findOrInsert dirs).1.put dirs) := by
  rw [atKey, hkey, List.getLast?_concat, List.dropLast_concat]
  show (f last (t.findOrInsert dirs).2).map _ = _
  rw [findOrInsert_snd]

/-- A key without an element has no last one. -/
theorem atKey_nil (hkey : keyPath key = []) (f : String → Node → Except ConfigError Node) :
    t.atKey key f = .error .emptyKey := by
  rw [atKey, hkey]
  rfl

theorem get?_concat (t : Node) (dirs : List String) (last : String) :
    t.get? (dirs ++ [last]) = (((t.get? dirs).getD new).children.find? last) := by
  rw [KeyTree.get?_append]
  cases t.get? dirs with
  | none => rfl
  | some n =>
    show (n.children.find? last).bind (fun c => some c) = n.children.find? last
    cases n.children.find? last <;> rfl

/-- What is below a node that is put is what it brings along. -/
theorem valueAt_put_append {d : Node} {p : List String} (h : t.get? p = some d) (c : Node)
    (q : List String) : (t.put p c).valueAt (p ++ q) = c.valueAt q :=
  congrArg (Option.map KeyTree.value) (KeyTree.get?_put_append h c q)

/-- An entry that only changes the value of its node. -/
theorem atKey_of_setChild {f : String → Node → Except ConfigError Node} {tmp : Node}
    {v : NodeValue} (hkey : keyPath key = dirs ++ [last])
    (htmp : t.get? (dirs ++ [last]) = some tmp)
    (hf : ∀ n : Node, n.children.find? last = some tmp →
      f last n = .ok (n.setChild last { tmp with value := v })) :
    ∃ t', t.atKey key f = .ok t' ∧
      (∀ p, p ≠ dirs ++ [last] → t'.valueAt p = t.valueAt p) ∧
      t'.valueAt (dirs ++ [last]) = some v := by
  obtain ⟨n, hn, hlast⟩ := KeyTree.get?_of_append htmp
  have hfind : n.children.find? last = some tmp := by
    rw [get?_concat, hn] at htmp
    exact htmp
  have hself := get?_findOrInsert_self t dirs
  have hsome : (t.valueAt dirs).isSome = true := by
    rw [KeyTree.valueAt, hn]
    rfl
  rw [atKey_eq hkey, hn, Option.getD_some, hf n hfind]
  refine ⟨_, rfl, fun p hp => ?_, ?_⟩
  -- a path that differs below the directory, or leaves it
  · by_cases hpre : dirs <+: p
    · obtain ⟨r, rfl⟩ := hpre
      rw [valueAt_put_append hself, KeyTree.valueAt_append, hn, Option.bind_some]
      cases r with
      | nil => rfl
      | cons k r =>
        by_cases hk : k = last
        · subst hk
          rw [KeyTree.valueAt_setChild_self, KeyTree.valueAt_cons, hfind]
          cases r with
          | nil => exact absurd rfl hp
          | cons k' r => rfl
        · exact KeyTree.valueAt_setChild_of_ne n hk _ r
    · rw [KeyTree.valueAt_put_of_not_prefix _ _ hpre]
      exact valueAt_findOrInsert_of_isSome hsome p
  · rw [valueAt_put_append hself, KeyTree.valueAt_setChild_self]
    rfl

/-- What an entry makes of the value of a node that is there. -/
def setFound (isScalar : Bool) (text key : String) (v : NodeValue) : Except ConfigError NodeValue :=
  if v.type.isScalar && !isScalar then .error (.scalarOverwritten key)
  else (v.setScalar key text).toExcept

/-- An entry that finds its node sets its text. -/
theorem enter_of_some {n tmp : Node} (hfind : n.children.find? key = some tmp) :
    enter isScalar text fresh key n =
      (setFound isScalar text key tmp.value).map fun v =>
        n.setChild key { tmp with value := v } := by
  rw [enter, hfind, setFound]
  dsimp only
  split_ifs <;> rfl

/-- The entry has found its node, and sets its text. -/
theorem atKey_enter_of_some {tmp : Node} {v : NodeValue}
    (fresh : String → Except ConfigError Node) (hkey : keyPath key = dirs ++ [last])
    (htmp : t.get? (dirs ++ [last]) = some tmp)
    (hv : setFound isScalar text last tmp.value = .ok v) :
    ∃ t', t.atKey key (enter isScalar text fresh) = .ok t' ∧
      (∀ p, p ≠ dirs ++ [last] → t'.valueAt p = t.valueAt p) ∧
      t'.valueAt (dirs ++ [last]) = some v := by
  refine atKey_of_setChild hkey htmp fun n hfind => ?_
  rw [enter_of_some hfind, hv]
  rfl

/-- What is thrown for a node that is there comes out of `read_config_doc`. -/
theorem atKey_enter_of_some_error {tmp : Node} {e : ConfigError}
    (fresh : String → Except ConfigError Node) (hkey : keyPath key = dirs ++ [last])
    (htmp : t.get? (dirs ++ [last]) = some tmp)
    (he : setFound isScalar text last tmp.value = .error e) :
    t.atKey key (enter isScalar text fresh) = .error e := by
  have hfind := (get?_concat t dirs last).symm.trans htmp
  rw [atKey_eq hkey, enter_of_some hfind, he]
  rfl

/-- A node was put at the end of a path. A node above it becomes a map when it gets its first
child on the path. -/
structure Grafted (t t' : Node) (q : List String) (c : Node) : Prop where
  below : ∀ r, t'.valueAt (q ++ r) = c.valueAt r
  above : ∀ p k r, q = p ++ k :: r → t'.valueAt p = some (match t.valueAt (p ++ [k]) with
    | some _ => (t.valueAt p).getD .new
    | none => { (t.valueAt p).getD .new with type := .map })
  aside : ∀ p, ¬ p <+: q → ¬ q <+: p → t'.valueAt p = t.valueAt p

theorem Grafted.valueAt_self (h : Grafted t t' q c) : t'.valueAt q = some c.value := by
  have hbelow := h.below []
  rw [List.append_nil] at hbelow
  exact hbelow

/-- A path leads into the new node, or to a node above it, or elsewhere. -/
theorem path_cases (p q : List String) :
    (∃ r, p = q ++ r) ∨ (∃ k r, q = p ++ k :: r) ∨ ¬ p <+: q ∧ ¬ q <+: p := by
  by_cases hqp : q <+: p
  · obtain ⟨r, rfl⟩ := hqp
    exact .inl ⟨r, rfl⟩
  · by_cases hpq : p <+: q
    · obtain ⟨r, rfl⟩ := hpq
      cases r with
      | nil => exact absurd (List.prefix_refl _) (List.append_nil p ▸ hqp)
      | cons k r => exact .inr (.inl ⟨k, r, rfl⟩)
    · exact .inr (.inr ⟨hpq, hqp⟩)

/-- The entry makes its node. -/
theorem atKey_enter_of_none (isScalar : Bool) (text : String)
    (hkey : keyPath key = dirs ++ [last]) (hnone : t.get? (dirs ++ [last]) = none)
    (hfresh : fresh last = .ok c) :
    ∃ t', t.atKey key (enter isScalar text fresh) = .ok t' ∧
      Grafted t t' (dirs ++ [last]) c := by
  have hfind : ((t.get? dirs).getD new).children.find? last = none := by
    rw [← get?_concat]
    exact hnone
  have henter : enter isScalar text fresh last ((t.get? dirs).getD new) =
      .ok (addChild ((t.get? dirs).getD new) last c) := by
    rw [enter, hfind, hfresh]
    rfl
  have hself := get?_findOrInsert_self t dirs
  rw [atKey_eq hkey, henter]
  refine ⟨_, rfl, ⟨fun r => ?_, fun p k r hr => ?_, fun p hpre hpre' => ?_⟩⟩
  -- below the path there is what was read
  · rw [List.append_assoc, valueAt_put_append hself]
    exact valueAt_addChild_self _ last c r
  · rcases List.eq_nil_or_concat' r with rfl | ⟨r, x, rfl⟩
    · -- the new node is right below
      obtain ⟨rfl, hlast⟩ := List.append_inj' hr rfl
      obtain rfl := List.singleton_inj.mp hlast
      have hput := valueAt_put_append hself (addChild ((t.get? dirs).getD new) last c) []
      rw [List.append_nil] at hput
      rw [hput, (t.valueAt_eq_none_iff _).mpr hnone]
      show some { ((t.get? dirs).getD new).value with type := .map } = _
      rw [value_getD]
      rfl
    -- the nodes above are those that `findOrInsert` has left
    · have hdirs : dirs = p ++ k :: r := by
        rw [← List.cons_append, ← List.append_assoc] at hr
        exact (List.append_inj' hr rfl).1
      have hp : ¬ dirs <+: p := by
        intro hpre
        have hlen := hpre.length_le
        rw [hdirs, List.length_append, List.length_cons] at hlen
        omega
      rw [KeyTree.valueAt_put_of_not_prefix _ _ hp, hdirs]
      exact valueAt_findOrInsert_above t p k r
  -- any other path: what was there is left
  · by_cases hp : dirs <+: p
    -- beside it in the same directory
    · obtain ⟨r, rfl⟩ := hp
      rw [valueAt_put_append hself, KeyTree.valueAt_append]
      cases r with
      | nil => exact absurd (List.prefix_append_of_prefix (by rw [List.append_nil])) hpre
      | cons k r =>
        have hk : k ≠ last := by
          rintro rfl
          exact hpre' ⟨r, by rw [List.append_assoc]; rfl⟩
        rw [valueAt_addChild_of_ne _ hk]
        cases t.get? dirs <;> rfl
    · rw [KeyTree.valueAt_put_of_not_prefix _ _ hp]
      exact valueAt_findOrInsert_aside t fun hpd =>
        hpre (hpd.trans (List.prefix_append dirs [last]))

/-- What is thrown while a node is made comes out of `read_config_doc`. -/
theorem atKey_enter_of_none_error {e : ConfigError} (hkey : keyPath key = dirs ++ [last])
    (hnone : t.get? (dirs ++ [last]) = none) (hfresh : fresh last = .error e) :
    t.atKey key (enter isScalar text fresh) = .error e := by
  have hfind : ((t.get? dirs).getD new).children.find? last = none := by
    rw [← get?_concat]
    exact hnone
  rw [atKey_eq hkey, enter, hfind, hfresh]
  rfl

/-- What an entry does: it finds its node, or makes it. -/
inductive Entered (t t' : Node) (q : List String) (isScalar : Bool) (text : String)
    (fresh : Except ConfigError Node) : Prop where
  | found (v v' : NodeValue) (hv : t.valueAt q = some v)
    (hset : setFound isScalar text (nameAt q) v = .ok v')
    (hsame : ∀ p, p ≠ q → t'.valueAt p = t.valueAt p) (hv' : t'.valueAt q = some v')
  | made (c : Node) (hnone : t.valueAt q = none) (hfresh : fresh = .ok c)
    (hgraft : Grafted t t' q c)

theorem exists_concat (hq : q ≠ []) : ∃ dirs, q = dirs ++ [nameAt q] := by
  rcases List.eq_nil_or_concat' q with rfl | ⟨dirs, last, rfl⟩
  · exact absurd rfl hq
  · refine ⟨dirs, ?_⟩
    rw [nameAt, List.getLast?_concat]
    rfl

/-- What an entry throws comes from its node that is there, or from the one that it makes. -/
theorem of_atKey_eq_error {e : ConfigError} (hne : keyPath key ≠ [])
    (h : t.atKey key (enter isScalar text fresh) = .error e) :
    (∃ v, t.valueAt (keyPath key) = some v ∧
      setFound isScalar text (nameAt (keyPath key)) v = .error e) ∨
    t.valueAt (keyPath key) = none ∧ fresh (nameAt (keyPath key)) = .error e := by
  obtain ⟨dirs, hkey⟩ := exists_concat hne
  generalize nameAt (keyPath key) = last at *
  rw [hkey]
  cases htmp : t.get? (dirs ++ [last]) with
  | some tmp =>
    refine .inl ⟨tmp.value, by rw [KeyTree.valueAt, htmp]; rfl, ?_⟩
    cases hv : setFound isScalar text last tmp.value with
    | error e' =>
      rw [atKey_enter_of_some_error fresh hkey htmp hv] at h
      cases h
      rfl
    | ok v =>
      obtain ⟨u, hu, -⟩ := atKey_enter_of_some fresh hkey htmp hv
      rw [hu] at h
      cases h
  | none =>
    refine .inr ⟨(t.valueAt_eq_none_iff _).mpr htmp, ?_⟩
    cases hc : fresh last with
    | error e' =>
      rw [atKey_enter_of_none_error hkey htmp hc] at h
      exact h
    | ok c =>
      obtain ⟨u, hu, -⟩ := atKey_enter_of_none isScalar text hkey htmp hc
      rw [hu] at h
      cases h

/-- What an entry makes of the tree. -/
theorem atKey_entered (ht : t.atKey key (enter isScalar text fresh) = .ok t') :
    keyPath key ≠ [] ∧
      Entered t t' (keyPath key) isScalar text (fresh (nameAt (keyPath key))) := by
  have hne : keyPath key ≠ [] := by
    intro hnil
    rw [atKey_nil hnil] at ht
    cases ht
  obtain ⟨dirs, hkey⟩ := exists_concat hne
  generalize hlast : nameAt (keyPath key) = last at *
  refine ⟨hne, ?_⟩
  cases htmp : t.get? (dirs ++ [last]) with
  -- as `operator[]` does: the child that is there, or a new one
  | some tmp =>
    cases hv : setFound isScalar text last tmp.value with
    | error e =>
      rw [atKey_enter_of_some_error fresh hkey htmp hv] at ht
      cases ht
    | ok v =>
      obtain ⟨u, hu, hsame, hvalue⟩ := atKey_enter_of_some fresh hkey htmp hv
      rw [hu] at ht
      cases ht
      rw [← hkey] at htmp hsame hvalue
      exact .found tmp.value v (by rw [KeyTree.valueAt, htmp]; rfl) (by rw [hlast]; exact hv)
        hsame hvalue
  | none =>
    cases hfresh : fresh last with
    | error e =>
      rw [atKey_enter_of_none_error hkey htmp hfresh] at ht
      cases ht
    | ok c =>
      obtain ⟨u, hu, hgraft⟩ := atKey_enter_of_none isScalar text hkey htmp hfresh
      rw [hu] at ht
      cases ht
      rw [← hkey] at htmp hgraft
      exact .made c ((t.valueAt_eq_none_iff _).mpr htmp) rfl hgraft

/-- A map whose entries are read anew. -/
def newMap : Node := ⟨⟨.map, "", []⟩, .nil⟩

end Node

/-! ## The entries of a document -/

/-- An entry somewhere in a document: its full path, the paths of the entries it is inside of,
the innermost first, the keys of these, the outermost first, its own key, and its value unless
it is a map. -/
structure Item where
  path : List String
  above : List (List String)
  keys : List String
  key : String
  value : Option YamlLeaf

/-- All the entries of a map, on every level. -/
def Entries.items (pre : List String) (above : List (List String)) (keys : List String) :
    Entries → List Item
  | .nil => []
  | .leaf key value rest =>
    ⟨pre ++ keyPath key, above, keys, key, some value⟩ :: items pre above keys rest
  | .map key entries rest =>
    ⟨pre ++ keyPath key, above, keys, key, none⟩ ::
      (items (pre ++ keyPath key) ((pre ++ keyPath key) :: above) (keys ++ [key]) entries ++
        items pre above keys rest)

/-- Their full paths. -/
def Entries.paths (pre : List String) : Entries → List (List String)
  | .nil => []
  | .leaf key _ rest => (pre ++ keyPath key) :: paths pre rest
  | .map key entries rest =>
    (pre ++ keyPath key) :: (paths (pre ++ keyPath key) entries ++ paths pre rest)

/-- The paths of the entries. -/
theorem Entries.map_path_items (pre : List String) (above : List (List String))
    (keys : List String) (es : Entries) :
    (es.items pre above keys).map Item.path = es.paths pre := by
  induction es generalizing pre above keys with
  | nil => rfl
  | leaf key value rest ih => exact congrArg _ (ih pre above keys)
  | map key entries rest ihe ih =>
    rw [items, List.map_cons, List.map_append, ihe, ih]
    rfl

namespace Node

variable {t t' : Node} {key : String} {value : YamlLeaf}

/-! ## The order of the children -/

/-- Changing a node at a key keeps the order of the keys. -/
theorem sorted_atKey {f : String → Node → Except ConfigError Node} (h : t.Sorted)
    (hf : ∀ key n n', n.Sorted → f key n = .ok n' → n'.Sorted)
    (ht : t.atKey key f = .ok t') : t'.Sorted := by
  rw [atKey] at ht
  cases hlast : (keyPath key).getLast? with
  | none =>
    rw [hlast] at ht
    cases ht
  | some last =>
    rw [hlast] at ht
    dsimp only at ht
    have hinsert := sorted_findOrInsert h (keyPath key).dropLast
    cases hn : f last (t.findOrInsert (keyPath key).dropLast).2 with
    | error e =>
      rw [hn] at ht
      cases ht
    | ok n =>
      rw [hn] at ht
      cases ht
      exact KeyTree.Sorted.put hinsert.1 _ (hf last _ n hinsert.2 hn)

theorem sorted_enter {text : String} {isScalar : Bool} {fresh : String → Except ConfigError Node}
    {n n' : Node} (h : n.Sorted) (hfresh : ∀ c, fresh key = .ok c → c.Sorted)
    (hn : enter isScalar text fresh key n = .ok n') : n'.Sorted := by
  rw [enter] at hn
  cases htmp : n.children.find? key with
  | none =>
    rw [htmp] at hn
    dsimp only at hn
    cases hc : fresh key with
    | error e =>
      rw [hc] at hn
      cases hn
    | ok c =>
      rw [hc] at hn
      cases hn
      exact sorted_addChild h key (hfresh c hc)
  | some tmp =>
    rw [htmp] at hn
    dsimp only at hn
    split_ifs at hn
    have hsorted : tmp.Sorted := Children.Sorted.find? h htmp
    cases hv : (tmp.value.setScalar key text).toExcept with
    | error e =>
      rw [hv] at hn
      cases hn
    | ok v =>
      rw [hv] at hn
      cases hn
      exact KeyTree.Sorted.setChild h key hsorted

theorem sorted_read {name : String} {c : Node} (h : value.read name = .ok c) : c.Sorted := by
  obtain ⟨v, -, h⟩ := exists_of_bind_eq_ok h
  obtain ⟨-, -, h⟩ := exists_of_bind_eq_ok h
  cases h
  trivial

theorem sorted_readEntries {es : Entries} (h : t.Sorted) (ht : Node.readEntries t es = .ok t') :
    t'.Sorted := by
  induction es generalizing t t' with
  | nil =>
    cases ht
    exact h
  | leaf key value rest ih =>
    rw [Node.readEntries] at ht
    obtain ⟨u, hu, ht⟩ := exists_of_bind_eq_ok ht
    exact ih (sorted_atKey h (fun _ _ _ hn => sorted_enter hn fun _ => sorted_read) hu) ht
  | map key entries rest ihe ih =>
    rw [Node.readEntries] at ht
    obtain ⟨u, hu, ht⟩ := exists_of_bind_eq_ok ht
    have hmap : newMap.Sorted := trivial
    exact ih (sorted_atKey h (fun _ _ _ hn => sorted_enter hn fun _ => ihe hmap) hu) ht

/-- The tree of a document has each key once. -/
theorem sorted_readConfigDoc {doc : YamlDoc} (h : readConfigDoc doc = .ok t) : t.Sorted := by
  cases doc with
  | leaf value =>
    cases hcheck : value.checkTag "root" new.value with
    | error e =>
      rw [readConfigDoc, hcheck] at h
      cases h
    | ok u =>
      rw [readConfigDoc, hcheck] at h
      cases h
      exact sorted_new
  | map entries => exact sorted_readEntries sorted_new h

end Node

end GazeboRcll
