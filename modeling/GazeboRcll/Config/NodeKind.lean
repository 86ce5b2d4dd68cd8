import GazeboRcll.Config.Document
import GazeboRcll.Library.Loop

/-!
# Kinds of nodes, and what is thrown for a value

Whether the text of a node that is there can be set depends on the kind of the node, and whether a
node can be made from a YAML node is seen from the YAML node.

* `NodeValue.of_setScalar_eq_ok`, `NodeValue.of_setScalar_eq_error`: setting a text.
* `YamlLeaf.of_read_eq_ok`, `YamlLeaf.of_read_eq_error`: making a node.
-/

namespace GazeboRcll

/-- A `fawkes::Exception`: neither an access beyond the end of a vector, nor the exception of the
YAML library for a list element that is no string. -/
def ConfigError.IsFawkesException : ConfigError → Prop
  | .emptyKey | .badElement => False
  | _ => True

/-- What a node is for an entry that finds it: a scalar, a list with that first element, or
something else. -/
inductive NodeKind where
  | scalar
  | list (first : Option String)
  | other
deriving DecidableEq

namespace NodeKind

/-- The text can be set. The type of a list comes from its first element, and `get_int` throws for
a list. -/
def Takes (text : String) : NodeKind → Prop
  | list first => ∀ s, first = some s → YamlUtils.convertUInt s = none
  | _ => scalarType text ≠ none

/-- The kind after the text was set. -/
def set : NodeKind → NodeKind
  | list none => other
  | _ => scalar

end NodeKind

namespace NodeValue

variable {v v' : NodeValue} {name s : String} {e : ConfigError}

def kind (v : NodeValue) : NodeKind :=
  if v.type.isScalar then .scalar else if v.type = .sequence then .list v.list.head? else .other

theorem kind_of_isScalar (h : v.type.isScalar = true) : v.kind = .scalar := if_pos h

theorem kind_eq_scalar_iff (v : NodeValue) : v.kind = .scalar ↔ v.type.isScalar = true := by
  rw [kind]
  split_ifs with hscalar hsequence
  · exact iff_of_true rfl hscalar
  · exact iff_of_false nofun hscalar
  · exact iff_of_false nofun hscalar

/-- Whether a text can be set at a node that is no list depends on the text. -/
theorem takes_kind_of_ne_sequence (h : v.type ≠ .sequence) (s : String) :
    v.kind.Takes s ↔ scalarType s ≠ none := by
  rw [kind, if_neg h]
  split_ifs <;> rfl

/-- A node that is no list is a scalar after its text was set. -/
theorem set_kind_of_ne_sequence (h : v.type ≠ .sequence) : v.kind.set = .scalar := by
  rw [kind, if_neg h]
  split_ifs <;> rfl

theorem kind_of_sequence (h : v.type = .sequence) : v.kind = .list v.list.head? := by
  rw [kind, h]
  rfl

/-- The type that comes from the first element of a list is one of a scalar. -/
theorem isScalar_elementType (first : String) : (elementType first).isScalar = true := by
  rw [elementType]
  split_ifs <;> rfl

/-- A text that could be set. -/
theorem of_setScalar_eq_ok (h : (v.setScalar name s).toExcept = .ok v') :
    v.kind.Takes s ∧ v'.kind = v.kind.set := by
  by_cases hsequence : v.type = .sequence
  · rw [setScalar, determineScalarType_of_sequence (v := { v with scalar := s }) hsequence] at h
    rw [kind_of_sequence hsequence]
    cases hhead : v.list.head? with
    | none =>
      rw [hhead] at h
      cases h
      refine ⟨fun y hy => ?_, rfl⟩
      cases hy
    | some x =>
      rw [hhead] at h
      dsimp only at h
      split_ifs at h with huint
      · cases h
      · cases h
        refine ⟨fun y hy => ?_, kind_of_isScalar (isScalar_elementType x)⟩
        cases hy
        exact Option.not_isSome_iff_eq_none.mp huint
  · rw [setScalar_of_ne_sequence hsequence] at h
    rw [takes_kind_of_ne_sequence hsequence, set_kind_of_ne_sequence hsequence]
    cases htype : scalarType s with
    | none =>
      rw [htype] at h
      cases h
    | some type =>
      rw [htype] at h
      cases h
      exact ⟨Option.some_ne_none type, kind_of_isScalar (isScalar_of_scalarType htype)⟩

/-- A text that could not be set. -/
theorem of_setScalar_eq_error (h : (v.setScalar name s).toExcept = .error e) :
    ¬v.kind.Takes s ∧ e.IsFawkesException := by
  by_cases hsequence : v.type = .sequence
  · rw [setScalar, determineScalarType_of_sequence (v := { v with scalar := s }) hsequence] at h
    rw [kind_of_sequence hsequence]
    cases hhead : v.list.head? with
    | none =>
      rw [hhead] at h
      cases h
    | some x =>
      rw [hhead] at h
      dsimp only at h
      split_ifs at h with huint
      · cases h
        refine ⟨fun htakes => ?_, trivial⟩
        rw [htakes x rfl] at huint
        cases huint
      · cases h
  · rw [setScalar_of_ne_sequence hsequence] at h
    rw [takes_kind_of_ne_sequence hsequence]
    cases htype : scalarType s with
    | none =>
      rw [htype] at h
      cases h
      exact ⟨not_not_intro rfl, trivial⟩
    | some type =>
      rw [htype] at h
      cases h

end NodeValue

/-! ## Values that can be read -/

namespace YamlLeaf

variable {value : YamlLeaf} {name tag text : String} {v : NodeValue} {e : ConfigError}

/-- The text passes the check of its tag. -/
def TagFits (tag text : String) : Prop :=
  if tag = "tag:fawkesrobotics.org,cfg/tcp-port" ∨ tag = "tag:fawkesrobotics.org,cfg/udp-port" then
    ∃ p, YamlUtils.convertUInt text = some p ∧ 0 < p ∧ p < 65535
  else tag = "tag:fawkesrobotics.org,cfg/frame" → isFrame (Strings.cString text).toList = true

/-- A node can be made from it. -/
def Readable : YamlLeaf → Prop
  | null => True
  | scalar tag text => scalarType text ≠ none ∧ TagFits tag text
  | sequence elements => ∀ x ∈ elements, x.text ≠ none

/-- If it is a list, all its elements are strings. -/
def OfStrings : YamlLeaf → Prop
  | sequence elements => ∀ x ∈ elements, x.text ≠ none
  | _ => True

/-- The kind of the node that is made from it. -/
def kind : YamlLeaf → NodeKind
  | null => .other
  | scalar _ _ => .scalar
  | sequence elements => .list (elements.head?.bind YamlElement.text)

/-- Nothing is thrown for a text that passes the check of its tag. -/
theorem checkTag_eq_ok_iff (h : v.type ≠ .sequence) (hv : v.scalar = text) :
    (scalar tag text).checkTag name v = .ok () ↔ TagFits tag text := by
  rw [checkTag, TagFits]
  split_ifs with hport hframe
  · rw [NodeValue.getValue, if_neg h, hv]
    cases YamlUtils.convertUInt text with
    | none =>
      apply iff_of_false
      · intro heq
        cases heq
      · rintro ⟨q, hq, -⟩
        cases hq
    | some p =>
      dsimp only
      split_ifs with hrange
      · apply iff_of_false
        · intro heq
          cases heq
        · rintro ⟨q, hq, hpos, hlt⟩
          cases hq
          omega
      · exact iff_of_true rfl ⟨p, rfl, by omega, by omega⟩
  · dsimp only
    split_ifs with hmatch
    · exact iff_of_true rfl fun _ => hmatch
    · apply iff_of_false
      · intro heq
        cases heq
      · exact fun hfits => hmatch (hfits hframe)
  · exact iff_of_true rfl fun heq => absurd heq hframe

/-- A check that fails throws a `fawkes::Exception`. -/
theorem isFawkesException_of_checkTag (h : value.checkTag name v = .error e) :
    e.IsFawkesException := by
  cases value with
  | null => cases h
  | scalar tag text =>
    rw [checkTag] at h
    split at h
    · split at h
      · cases h
        trivial
      · split_ifs at h
        cases h
        trivial
    · dsimp only at h
      split_ifs at h
      cases h
      trivial
  | sequence elements => cases h

/-- Reading a scalar: its type first, then its tag. -/
theorem read_scalar (tag text name : String) :
    (scalar tag text).read name =
      match scalarType text with
      | none => .error (.valueOrType name)
      | some type =>
        ((scalar tag text).checkTag name ⟨type, text, []⟩).map fun _ =>
          ⟨⟨type, text, []⟩, .nil⟩ := by
  have hne : (⟨.unknown, text, []⟩ : NodeValue).type ≠ .sequence :=
    show NodeType.unknown ≠ .sequence by decide
  rw [read, construct, NodeValue.determineScalarType_of_ne_sequence hne]
  show (((scalarType text).elim _ _ : Except ConfigError NodeType) >>= _) >>= _ = _
  cases scalarType text with
  | none => rfl
  | some type =>
    show (scalar tag text).checkTag name ⟨type, text, []⟩ >>= _ = Except.map _ _
    cases (scalar tag text).checkTag name ⟨type, text, []⟩ <;> rfl

theorem read_sequence (elements : List YamlElement) (name : String) :
    (sequence elements).read name =
      match elements.mapM YamlElement.text with
      | some l => .ok ⟨⟨.sequence, "", l⟩, .nil⟩
      | none => .error .badElement := by
  rw [read, construct]
  cases elements.mapM YamlElement.text <;> rfl

/-- The first element of a list of strings. -/
theorem head?_of_mapM {elements : List YamlElement} {l : List String}
    (h : elements.mapM YamlElement.text = some l) :
    l.head? = elements.head?.bind YamlElement.text := by
  cases elements with
  | nil =>
    cases h
    rfl
  | cons x elements =>
    rw [List.mapM_cons] at h
    obtain ⟨s, hs, h⟩ := Option.bind_eq_some_iff.mp h
    obtain ⟨l', -, h⟩ := Option.bind_eq_some_iff.mp h
    cases h
    exact hs.symm

/-- The type of a text is none of a list. -/
theorem ne_sequence_of_scalarType {type : NodeType} (h : scalarType text = some type) :
    type ≠ .sequence := by
  rintro rfl
  cases isScalar_of_scalarType h

/-- A node that could be made has no children, and is of the kind of the value. -/
theorem of_read_eq_ok {c : Node} (h : value.read name = .ok c) :
    value.Readable ∧ c = ⟨c.value, .nil⟩ ∧ c.value.kind = value.kind := by
  cases value with
  | null =>
    cases h
    exact ⟨trivial, rfl, rfl⟩
  | scalar tag text =>
    rw [read_scalar] at h
    cases htype : scalarType text with
    | none =>
      rw [htype] at h
      cases h
    | some type =>
      rw [htype] at h
      dsimp only at h
      cases hcheck : (scalar tag text).checkTag name ⟨type, text, []⟩ with
      | error e =>
        rw [hcheck] at h
        cases h
      | ok u =>
        rw [hcheck] at h
        cases h
        refine ⟨⟨by rw [htype]; nofun, ?_⟩, rfl, NodeValue.kind_of_isScalar
          (isScalar_of_scalarType htype)⟩
        exact (checkTag_eq_ok_iff (v := ⟨type, text, []⟩) (ne_sequence_of_scalarType htype)
          rfl).mp hcheck
  | sequence elements =>
    rw [read_sequence] at h
    cases hmap : elements.mapM YamlElement.text with
    | none =>
      rw [hmap] at h
      cases h
    | some l =>
      rw [hmap] at h
      cases h
      refine ⟨fun x hx => ?_, rfl, congrArg NodeKind.list (head?_of_mapM hmap)⟩
      have hsome : (elements.mapM YamlElement.text).isSome = true := by rw [hmap]; rfl
      exact Option.isSome_iff_ne_none.mp ((Loop.mapM_isSome_iff elements).mp hsome x hx)

/-- A node that could not be made; only an element that is no string throws another exception. -/
theorem of_read_eq_error (h : value.read name = .error e) :
    ¬value.Readable ∧ e ≠ .emptyKey ∧ (e.IsFawkesException ↔ value.OfStrings) := by
  have hfawkes : ∀ e : ConfigError, e.IsFawkesException → e ≠ .emptyKey := by
    rintro e he rfl
    exact he
  cases value with
  | null => cases h
  | scalar tag text =>
    rw [read_scalar] at h
    cases htype : scalarType text with
    | none =>
      rw [htype] at h
      cases h
      exact ⟨fun hread => hread.1 htype, nofun, iff_of_true trivial trivial⟩
    | some type =>
      rw [htype] at h
      dsimp only at h
      cases hcheck : (scalar tag text).checkTag name ⟨type, text, []⟩ with
      | ok u =>
        rw [hcheck] at h
        cases h
      | error e' =>
        rw [hcheck] at h
        cases h
        -- the tag is checked after the type
        have hthrown := isFawkesException_of_checkTag hcheck
        refine ⟨fun hread => ?_, hfawkes e hthrown, iff_of_true hthrown trivial⟩
        rw [(checkTag_eq_ok_iff (v := ⟨type, text, []⟩) (ne_sequence_of_scalarType htype)
          rfl).mpr hread.2] at hcheck
        cases hcheck
  | sequence elements =>
    rw [read_sequence] at h
    cases hmap : elements.mapM YamlElement.text with
    | some l =>
      rw [hmap] at h
      cases h
    | none =>
      rw [hmap] at h
      cases h
      -- a list with an element that is no scalar
      have hnot : ¬∀ x ∈ elements, x.text ≠ none := by
        intro hall
        have hsome := (Loop.mapM_isSome_iff (f := YamlElement.text) elements).mpr fun x hx =>
          Option.isSome_iff_ne_none.mpr (hall x hx)
        rw [hmap] at hsome
        cases hsome
      exact ⟨hnot, nofun, iff_of_false id hnot⟩

end YamlLeaf

end GazeboRcll
