import GazeboRcll.Library.NumGet
import Mathlib.Data.String.Basic
import Mathlib.Data.Int.Notation
import Mathlib.Data.Nat.Notation
import Mathlib.Tactic.Common

/-!
# The value of a configuration node

A `YamlConfigurationNode` keeps its scalar as a text and a type found out from the text.
The conversions, `determine_scalar_type`, and the members that read and write the value.

`determineScalarType_of_ne_sequence`: outside a list the type is a function of the text,
`scalarType`, which fails for an unsigned number that is too large for an `int`.
-/

namespace GazeboRcll

/-- `YamlConfigurationNode::Type`. -/
inductive NodeType where
  | none | uint32 | int32 | float | bool | string | map | sequence | unknown
deriving DecidableEq, Repr

/-- What the configuration code throws, with the arguments of the message. -/
inductive ConfigError where
  /-- "YamlConfiguration: value of %s is a list". -/
  | isList (name : String)
  /-- "YamlConfiguration: value of %s is not a list". -/
  | isNotList (name : String)
  /-- "YamlConfig: value or type error on %s". -/
  | valueOrType (name : String)
  /-- `ConfigEntryNotFoundException`. -/
  | notFound (path : String)
  /-- "YamlConfig: cannot erase non-leaf value". -/
  | eraseNonLeaf
  /-- "YamlConfig: cannot set value on non-leaf path node %s". -/
  | nonLeaf (path : String)
  /-- "YamlConfig: cannot overwrite scalar value %s with non-scalar". -/
  | overwriteScalar (name : String)
  /-- "YamlConfig: scalar %s cannot be overwritten by non-scalar". -/
  | scalarOverwritten (name : String)
  /-- The conversion of a list element to `std::string` has failed. -/
  | badElement
  /-- `pel.back()` of a key without elements. -/
  | emptyKey
  /-- "YamlConfig: Invalid TCP/UDP port number (not an unsigned int)". -/
  | portNotUnsigned
  /-- "YamlConfig: Invalid TCP/UDP port number (%u out of allowed range)". -/
  | portOutOfRange (port : ℕ)
  /-- "YamlConfig: %s is not a valid frame ID". -/
  | notFrame (scalar : String)
  /-- "YamlConfig: no host config file specified". -/
  | noHostFile
  /-- "YamlConfig: cannot write host file". -/
  | cannotWriteHostFile
  /-- "YamlConfig: cannot access file %s". -/
  | cannotAccess (filename : String)
  /-- "Failed to parse %s line %i column %i: %s". -/
  | parseFailed (filename : String)
  /-- The meta document has a form that `read_meta_doc` cannot go through. -/
  | badMetaDoc
  /-- "YamlConfig: Only one host-specific file can be specified". -/
  | secondHostFile
  /-- "YamlConfig: invalid empty include". -/
  | emptyInclude
  /-- "YamlConfig: Failed to stat directory %s". -/
  | statFailed (dirname : String)
  /-- "YamlConfig: %s is not a directory". -/
  | notDirectory (dirname : String)
  /-- "YamlConfig: failed to open directory %s". -/
  | openDirFailed (dirname : String)
  /-- "YamlConfig: includes are not allowed in host document". -/
  | includeInHostFile
deriving DecidableEq, Repr

/-- What an operation on a state of type `σ` leaves, and what it has thrown. -/
abbrev Thrown (σ : Type) := σ × Option ConfigError

/-- The state, where nothing was thrown. -/
def Thrown.toExcept {σ : Type} (r : Thrown σ) : Except ConfigError σ :=
  match r.2 with
  | none => .ok r.1
  | some e => .error e

/-- What has gone through went through step by step. -/
theorem exists_of_bind_eq_ok {ε α β : Type} {x : Except ε α} {f : α → Except ε β} {b : β}
    (h : x >>= f = .ok b) : ∃ a, x = .ok a ∧ f a = .ok b := by
  cases x with
  | error e => cases h
  | ok a => exact ⟨a, rfl, h⟩

/-- An exception comes from the first step or from the rest. -/
theorem of_bind_eq_error {ε α β : Type} {x : Except ε α} {f : α → Except ε β} {e : ε}
    (h : x >>= f = .error e) : x = .error e ∨ ∃ a, x = .ok a ∧ f a = .error e := by
  cases x with
  | error e' =>
    cases h
    exact .inl rfl
  | ok a => exact .inr ⟨a, rfl, h⟩

/-! ## Conversions -/

namespace YamlUtils

def isLower (c : Char) : Bool := 'a' ≤ c && c ≤ 'z'

def isUpper (c : Char) : Bool := 'A' ≤ c && c ≤ 'Z'

def toLower (c : Char) : Char := if isUpper c then .ofNat (c.toNat + 97 - 65) else c

/-- Upper case, lower case or capitalized. -/
def isFlexibleCase (s : String) : Bool :=
  match s.toList with
  | [] => true
  | c :: rest => (c :: rest).all isLower || (isUpper c && (rest.all isLower || rest.all isUpper))

/-- The table `names`, the true name first. -/
def boolNames : List (String × String) :=
  [("y", "n"), ("yes", "no"), ("true", "false"), ("on", "off")]

/-- `convert` to `bool`. -/
def convertBool (input : String) : Option Bool :=
  if isFlexibleCase input then
    let lower := String.ofList (input.toList.map toLower)
    boolNames.findSome? fun names =>
      if names.1 = lower then some true else if names.2 = lower then some false else none
  else none

/-- `convert` to `std::string`. -/
def convertString (input : String) : Option String := some input

/-- `convert` to `unsigned int`: a number with a sign is negated as an unsigned one. -/
def convertUInt (input : String) : Option ℕ :=
  (NumGet.readInteger input).bind fun z =>
    if z.natAbs < 4294967296 then some (z % 4294967296).toNat else none

/-- `convert` to `int`. -/
def convertInt (input : String) : Option ℤ :=
  (NumGet.readInteger input).bind fun z =>
    if -2147483648 ≤ z ∧ z < 2147483648 then some z else none

/-- Whether `convert` to `float` succeeds, infinities and undefined numbers included. -/
def convertsFloat (input : String) : Bool :=
  NumGet.readsFloat input
    || [".inf", ".Inf", ".INF", "+.inf", "+.Inf", "+.INF"].contains input
    || ["-.inf", "-.Inf", "-.INF"].contains input
    || [".nan", ".NaN", ".NAN"].contains input

end YamlUtils

open YamlUtils

/-! ## The members of a node -/

/-- `type_`, `scalar_value_` and `list_values_`. -/
structure NodeValue where
  type : NodeType
  scalar : String
  list : List String
deriving DecidableEq, Repr

def NodeType.isScalar : NodeType → Bool
  | uint32 | int32 | float | bool | string => true
  | _ => false

namespace NodeValue

/-- A node of which only the name is given. -/
def new : NodeValue := ⟨.none, "", []⟩

/-- The text that `is_type` converts, if there is one: the first element stands for a list. -/
def typeText (v : NodeValue) : Option String :=
  if v.type = .sequence then v.list.head? else some v.scalar

def isType {T : Type} (v : NodeValue) (convert : String → Option T) : Bool :=
  (v.typeText.bind convert).isSome

/-- `is_type<float>`. -/
def isFloat (v : NodeValue) : Bool := v.typeText.any convertsFloat

def getValue {T : Type} (name : String) (convert : String → Option T) (v : NodeValue) :
    Except ConfigError T :=
  if v.type = .sequence then .error (.isList name)
  else
    match convert v.scalar with
    | some t => .ok t
    | none => .error (.valueOrType name)

def getList {T : Type} (name : String) (convert : String → Option T) (v : NodeValue) :
    Except ConfigError (List T) :=
  if v.type = .sequence then
    match v.list.mapM convert with
    | some ts => .ok ts
    | none => .error (.valueOrType name)
  else .error (.isNotList name)

def determineScalarType (name : String) (v : NodeValue) : Except ConfigError NodeType :=
  if v.isType convertUInt then do
    let i ← v.getValue name convertInt
    .ok (if 0 ≤ i then .uint32 else .int32)
  else if v.isType convertInt then .ok .int32
  else if v.isFloat then .ok .float
  else if v.isType convertBool then .ok .bool
  else if v.isType convertString then .ok .string
  else .ok .unknown

/-- The text is there before the type is determined. -/
def setScalar (name s : String) (v : NodeValue) : Thrown NodeValue :=
  let v := { v with scalar := s }
  match v.determineScalarType name with
  | .ok type => ({ v with type := type }, none)
  | .error e => (v, some e)

def setScalarList (l : List String) (v : NodeValue) : NodeValue :=
  { v with list := l, type := .sequence }

end NodeValue

/-- The type of a text that is not in a list. -/
def scalarType (s : String) : Option NodeType :=
  if (convertUInt s).isSome then
    (convertInt s).map fun i => if 0 ≤ i then .uint32 else .int32
  else if (convertInt s).isSome then some .int32
  else if convertsFloat s then some .float
  else if (convertBool s).isSome then some .bool
  else some .string

/-- The type that is found for a text is one of a scalar. -/
theorem isScalar_of_scalarType {s : String} {type : NodeType} (h : scalarType s = some type) :
    type.isScalar = true := by
  rw [scalarType] at h
  split_ifs at h
  · rw [Option.map_eq_some_iff] at h
    obtain ⟨i, -, rfl⟩ := h
    by_cases hi : 0 ≤ i
    · rw [if_pos hi]
      rfl
    · rw [if_neg hi]
      rfl
  all_goals
    cases h
    rfl

namespace NodeValue

variable {v v' : NodeValue} {name s : String}

/-- The type of a node that is no list is found from its text. -/
theorem determineScalarType_of_ne_sequence (h : v.type ≠ .sequence) (name : String) :
    v.determineScalarType name =
      (scalarType v.scalar).elim (.error (.valueOrType name)) .ok := by
  have htext : v.typeText = some v.scalar := if_neg h
  have htype : ∀ {T : Type} (convert : String → Option T),
      v.isType convert = (convert v.scalar).isSome := by
    intro T convert
    rw [isType, htext]
    rfl
  have hfloat : v.isFloat = convertsFloat v.scalar := by
    rw [isFloat, htext]
    rfl
  rw [determineScalarType, scalarType, htype, htype, htype, htype, hfloat, getValue, if_neg h]
  by_cases huint : (convertUInt v.scalar).isSome = true
  · rw [if_pos huint, if_pos huint]
    cases convertInt v.scalar <;> rfl
  · rw [if_neg huint, if_neg huint]
    split_ifs <;> first | rfl | contradiction

/-- The type of an element that is no unsigned number. -/
def elementType (first : String) : NodeType :=
  if (convertInt first).isSome then .int32
  else if convertsFloat first then .float
  else if (convertBool first).isSome then .bool
  else .string

/-- In a list the type comes from the first element, and `get_int` throws. -/
theorem determineScalarType_of_sequence (h : v.type = .sequence) (name : String) :
    v.determineScalarType name =
      match v.list.head? with
      | none => .ok .unknown
      | some first =>
        if (convertUInt first).isSome then .error (.isList name) else .ok (elementType first) := by
  have htext : v.typeText = v.list.head? := if_pos h
  rw [determineScalarType, isType, isType, isType, isType, isFloat, htext, getValue, if_pos h]
  cases v.list.head? with
  | none => rfl
  | some first =>
    dsimp only [Option.bind_some, Option.any_some]
    rw [elementType]
    split_ifs <;> first | rfl | contradiction

/-- A text that can be converted is returned. -/
theorem getValue_eq_ok {T : Type} {convert : String → Option T} {t : T}
    (h : v.type ≠ .sequence) (ht : convert v.scalar = some t) :
    v.getValue name convert = .ok t := by
  rw [getValue, if_neg h, ht]

/-- A list of which every element can be converted is returned. -/
theorem getList_eq_ok {T : Type} {convert : String → Option T} {ts : List T}
    (h : v.type = .sequence) (hts : v.list.mapM convert = some ts) :
    v.getList name convert = .ok ts := by
  rw [getList, if_pos h, hts]

/-- What `set_scalar` does to a node that is no list. -/
theorem setScalar_of_ne_sequence (h : v.type ≠ .sequence) (name s : String) :
    v.setScalar name s =
      (scalarType s).elim (⟨v.type, s, v.list⟩, some (.valueOrType name))
        fun type => (⟨type, s, v.list⟩, none) := by
  have hdetermine : ({ v with scalar := s } : NodeValue).determineScalarType name =
      (scalarType s).elim (.error (.valueOrType name)) .ok :=
    determineScalarType_of_ne_sequence (v := { v with scalar := s }) h name
  rw [setScalar, hdetermine]
  cases scalarType s <;> rfl

/-- No text has the type of a list. -/
theorem ne_sequence_of_determineScalarType {type : NodeType}
    (h : v.determineScalarType name = .ok type) : type ≠ .sequence := by
  rw [determineScalarType] at h
  split_ifs at h
  · obtain ⟨i, -, h⟩ := exists_of_bind_eq_ok h
    cases h
    by_cases hi : 0 ≤ i
    · rw [if_pos hi]
      decide
    · rw [if_neg hi]
      decide
  all_goals
    cases h
    decide

end NodeValue

/-! ## Texts of values -/

/-- `StringConversions::to_string` of a `bool`, and of a pointer, which is converted to one. -/
def boolToString (b : Bool) : String := if b then "true" else "false"

/-- A truth value is read back from its text. -/
theorem convertBool_boolToString (b : Bool) : convertBool (boolToString b) = some b := by
  cases b <;> decide

/-- A number below 2^32 is read back from its digits. -/
theorem convertUInt_repr {n : ℕ} (h : n < 4294967296) : convertUInt n.repr = some n := by
  have hmod : (n : ℤ) % 4294967296 = n := by omega
  rw [convertUInt, NumGet.readInteger_repr, Option.bind_some, if_pos (by omega), hmod]
  rfl

/-- A number of 32 bits with a sign is read back from its text. -/
theorem convertInt_toString {z : ℤ} (hge : -2147483648 ≤ z) (hlt : z < 2147483648) :
    convertInt (toString z) = some z := by
  rw [convertInt, NumGet.readInteger_toString, Option.bind_some, if_pos ⟨hge, hlt⟩]

end GazeboRcll
