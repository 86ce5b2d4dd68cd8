import GazeboRcll.Config.Document

/-!
# The type of a scalar and its getter

`determine_scalar_type` tries the converters one after the other, and for a text that is an
`unsigned int` it calls `get_int`. A text may be the one and not the other, and a node that was a
list converts the first element of the list instead of the text. Then no type is found, or one
whose getter fails (`setScalar_getter_iff`).
-/

namespace GazeboRcll

open YamlUtils

/-- `convert` to `float`, without the value. -/
def convertFloat (input : String) : Option Unit := if convertsFloat input then some () else none

namespace NodeType

/-- The getter that belongs to a type converts a text. -/
def Converts (s : String) : NodeType → Prop
  | uint32 => (convertUInt s).isSome
  | int32 => (convertInt s).isSome
  | float => (convertFloat s).isSome
  | bool => (convertBool s).isSome
  | string => (convertString s).isSome
  | none | map | sequence | unknown => False

end NodeType

namespace NodeValue

/-- `get_uint`, `get_int`, `get_float`, `get_bool` or `get_string`, the one that belongs to the
type of the node, returns a value. -/
def GetterSucceeds (name : String) (v : NodeValue) : Prop :=
  match v.type with
  | .uint32 => ∃ u, v.getValue name convertUInt = .ok u
  | .int32 => ∃ i, v.getValue name convertInt = .ok i
  | .float => ∃ f, v.getValue name convertFloat = .ok f
  | .bool => ∃ b, v.getValue name convertBool = .ok b
  | .string => ∃ s, v.getValue name convertString = .ok s
  | .none | .map | .sequence | .unknown => False

/-- An integer of 32 bits, with the sign taken off, is an `int`. -/
def FitsInt (s : String) : Prop :=
  ∀ z, NumGet.readInteger s = some z → z.natAbs < 4294967296 →
    -2147483648 ≤ z ∧ z < 2147483648

/-- The first element of a list is no unsigned number, and the text is what the element is. -/
def FitsList (l : List String) (s : String) : Prop :=
  ∃ first, l.head? = some first ∧ convertUInt first = none ∧
    if (convertInt first).isSome then (convertInt s).isSome = true
    else if convertsFloat first then convertsFloat s = true
    else (convertBool first).isSome → (convertBool s).isSome = true

/-! ## Getters -/

variable {v : NodeValue} {name s : String}

/-- A getter returns unless the node is a list or its text cannot be converted. -/
theorem exists_getValue_iff {T : Type} (convert : String → Option T) :
    (∃ t, v.getValue name convert = .ok t) ↔
      v.type ≠ .sequence ∧ (convert v.scalar).isSome = true := by
  rw [getValue]
  by_cases hseq : v.type = .sequence
  · rw [if_pos hseq]
    refine iff_of_false ?_ fun h => h.1 hseq
    intro h
    cases h.choose_spec
  · rw [if_neg hseq]
    cases convert v.scalar with
    | none =>
      apply iff_of_false
      · intro h
        cases h.choose_spec
      · intro h
        cases h.2
    | some t => exact iff_of_true ⟨t, rfl⟩ ⟨hseq, rfl⟩

/-- The getter of the type of a node returns if its text can be converted to this type. -/
theorem getterSucceeds_iff (v : NodeValue) (name : String) :
    v.GetterSucceeds name ↔ v.type.Converts v.scalar := by
  obtain ⟨type, scalar, list⟩ := v
  rw [GetterSucceeds]
  cases type <;> simp [exists_getValue_iff, NodeType.Converts]

/-! ## Outside of a list -/

/-- A type is found unless the text is an unsigned number that is no `int`. -/
theorem exists_scalarType_iff (s : String) : (∃ type, scalarType s = some type) ↔ FitsInt s := by
  rw [scalarType, FitsInt, convertUInt, convertInt]
  cases hz : NumGet.readInteger s with
  | none =>
    apply iff_of_true
    · simp only [Option.bind_none, Option.isSome_none, Bool.false_eq_true, if_false]
      split_ifs <;> exact ⟨_, rfl⟩
    · intro i hi
      cases hi
  | some z =>
    simp only [Option.bind_some, Option.some.injEq, forall_eq']
    by_cases hsize : z.natAbs < 4294967296
    · by_cases hint : -2147483648 ≤ z ∧ z < 2147483648
      · simp [hsize, hint]
      · simp [hsize, hint]
    · have hint : ¬ (-2147483648 ≤ z ∧ z < 2147483648) := by omega
      simp only [if_neg hint, Option.isSome_none, Bool.false_eq_true, if_false,
        hsize, false_implies, iff_true]
      split_ifs <;> exact ⟨_, rfl⟩

/-- A text can be converted to the type that is found for it. -/
theorem converts_of_scalarType {type : NodeType} (h : scalarType s = some type) :
    type.Converts s := by
  rw [scalarType] at h
  by_cases huint : (convertUInt s).isSome = true
  · rw [if_pos huint, Option.map_eq_some_iff] at h
    obtain ⟨i, hi, rfl⟩ := h
    split_ifs
    · exact huint
    · show (convertInt s).isSome = true
      rw [hi]
      rfl
  · rw [if_neg huint] at h
    split_ifs at h with hint hfloat hbool
    · cases h
      exact hint
    · cases h
      show (convertFloat s).isSome = true
      rw [convertFloat, if_pos hfloat]
      rfl
    · cases h
      exact hbool
    · cases h
      rfl

/-- At a node that is no list, the getter returns for every text but a number too large. -/
theorem setScalar_getter_iff_of_ne_sequence (h : v.type ≠ .sequence) (name s : String) :
    (∃ w, v.setScalar name s = (w, none) ∧ w.GetterSucceeds name) ↔ FitsInt s := by
  rw [setScalar_of_ne_sequence h, ← exists_scalarType_iff]
  cases htype : scalarType s with
  | none =>
    apply iff_of_false
    · rintro ⟨w, hw, -⟩
      cases hw
    · rintro ⟨type, ht⟩
      cases ht
  | some type =>
    refine iff_of_true ⟨⟨type, s, v.list⟩, rfl, ?_⟩ ⟨type, rfl⟩
    rw [getterSucceeds_iff]
    exact converts_of_scalarType htype

/-! ## In a list -/

/-- What it takes to convert a text to the type that comes from the first element of a list. -/
theorem converts_elementType (first s : String) :
    (elementType first).Converts s ↔
      if (convertInt first).isSome then (convertInt s).isSome = true
      else if convertsFloat first then convertsFloat s = true
      else (convertBool first).isSome → (convertBool s).isSome = true := by
  rw [elementType]
  split_ifs with hint hfloat hbool
  · rfl
  · show (convertFloat s).isSome = true ↔ _
    rw [convertFloat]
    split_ifs with hs <;> simp [hs]
  · simp [NodeType.Converts, hbool]
  · simp [NodeType.Converts, convertString, hbool]

/-- At a list, the getter returns for the texts that fit its first element. -/
theorem setScalar_getter_iff_of_sequence (h : v.type = .sequence) (name s : String) :
    (∃ w, v.setScalar name s = (w, none) ∧ w.GetterSucceeds name) ↔ FitsList v.list s := by
  have hdetermine := determineScalarType_of_sequence (v := { v with scalar := s }) h name
  rw [setScalar, hdetermine, FitsList]
  cases v.list.head? with
  | none =>
    apply iff_of_false
    · rintro ⟨w, hw, hgetter⟩
      cases hw
      exact hgetter
    · rintro ⟨first, hfirst, -⟩
      cases hfirst
  | some first =>
    dsimp only
    by_cases huint : (convertUInt first).isSome = true
    · rw [if_pos huint]
      apply iff_of_false
      · rintro ⟨w, hw, -⟩
        cases hw
      · rintro ⟨first', hfirst, hnone, -⟩
        cases hfirst
        rw [hnone] at huint
        cases huint
    · rw [if_neg huint]
      simp only [Prod.mk.injEq, and_true, exists_eq_left', Option.some.injEq,
        getterSucceeds_iff, converts_elementType]
      rw [Option.not_isSome_iff_eq_none] at huint
      simp [huint]

end NodeValue

/-! ## Setting and loading -/

/-- The text is set without an exception, with a type whose getter succeeds, exactly if an
integer of 32 bits in it is an `int`; on a list it depends on the first element. A text that is
loaded is set on a new node. -/
theorem setScalar_getter_iff (name tag s : String) (v : NodeValue) :
    ((∃ w, v.setScalar name s = (w, none) ∧ w.GetterSucceeds name) ↔
      (v.type ≠ .sequence ∧ NodeValue.FitsInt s ∨
        v.type = .sequence ∧ NodeValue.FitsList v.list s)) ∧
    ((∃ w, (YamlLeaf.scalar tag s).construct name = .ok w ∧ w.GetterSucceeds name) ↔
      NodeValue.FitsInt s) := by
  constructor
  · by_cases hseq : v.type = .sequence
    · rw [NodeValue.setScalar_getter_iff_of_sequence hseq]
      simp [hseq]
    · rw [NodeValue.setScalar_getter_iff_of_ne_sequence hseq]
      simp [hseq]
  · rw [← NodeValue.setScalar_getter_iff_of_ne_sequence (v := ⟨.unknown, "", []⟩) nofun name s,
      YamlLeaf.construct, NodeValue.setScalar]
    cases NodeValue.determineScalarType name ⟨.unknown, s, []⟩ with
    | error e =>
      apply iff_of_false
      · rintro ⟨w, hw, -⟩
        cases hw
      · rintro ⟨w, hw, -⟩
        cases hw
    | ok type =>
      dsimp only
      constructor
      · rintro ⟨w, hw, hgetter⟩
        cases hw
        exact ⟨_, rfl, hgetter⟩
      · rintro ⟨w, hw, hgetter⟩
        cases hw
        exact ⟨_, rfl, hgetter⟩

/-- The text of an `unsigned int` that `set_uint` hands on is no `int`. -/
theorem uint_without_type :
    ¬ ∀ (name s : String) (v : NodeValue),
      ∃ w, v.setScalar name s = (w, none) ∧ w.GetterSucceeds name := by
  intro h
  obtain ⟨w, hw, -⟩ := h "a" "3000000000" ⟨.uint32, "1", []⟩
  have hthrown : (NodeValue.setScalar "a" "3000000000" ⟨.uint32, "1", []⟩).2 =
      some (.valueOrType "a") := by
    decide +kernel
  rw [hw] at hthrown
  cases hthrown

end GazeboRcll
