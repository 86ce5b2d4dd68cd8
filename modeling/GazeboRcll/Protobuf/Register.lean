import GazeboRcll.Library.LTS
import GazeboRcll.Library.Multimap
import GazeboRcll.Protobuf.Peer
import Mathlib.Data.String.Basic

/-!
# The message register

`MessageRegister` keeps one prototype for every message type, under the ids that the type has
in its enum `CompType`, and under its name. The referee box interface fills it from a directory
of proto files.

* `load_isOk_iff` and `load_registers`: which directories can be loaded, and what is registered
  then.
* `typed_messages_arrive`: messages that are sent by their type come out as what they were.
* `names_follow_ids`: the two maps in any sequence of calls.

The descriptors and the parser of the protobuf library are parameters.
-/

namespace GazeboRcll

/-! ## Message types -/

/-- What a `google::protobuf::Descriptor` is asked for. -/
structure Descriptor where
  fullName : String
  /-- The values of the enum `CompType` and their numbers, if the message type has one. -/
  compType : Option (List (String × ℤ))
deriving DecidableEq, Repr

/-- A `google::protobuf::DescriptorPool`. -/
structure DescriptorPool where
  findMessageTypeByName : String → Option Descriptor
  fullName_of_find : ∀ name desc, findMessageTypeByName name = some desc → desc.fullName = name

/-- The generated pool, and the one of the importer where there is one. -/
structure Pools where
  generated : DescriptorPool
  imported : Option DescriptorPool

/-- `std::logic_error` and `std::runtime_error`; none of them is the other. -/
inductive RegisterError where
  | logicError (what : String)
  | runtimeError (what : String)
deriving DecidableEq, Repr

abbrev KeyType := UInt16 × UInt16

/-- `MessageRegister::create_msg`, by the type of the message. -/
def Pools.createMsg (pools : Pools) (msgType : String) : Option Descriptor :=
  match pools.generated.findMessageTypeByName msgType with
  | some desc => some desc
  | none => pools.imported.bind fun pool => pool.findMessageTypeByName msgType

/-- `MessageRegister::key_from_desc`, as in `ProtobufStreamClient::send` of a message alone. -/
def keyFromDesc (desc : Descriptor) : Except RegisterError KeyType :=
  match desc.compType with
  | none => .error (.logicError "Message does not have CompType enum")
  | some values =>
    match values.lookup "COMP_ID", values.lookup "MSG_TYPE" with
    | some compId, some msgType =>
      if compId < 0 ∨ compId > 65535 then .error (.logicError "Message has invalid COMP_ID")
      else if msgType < 0 ∨ msgType > 65535 then
        .error (.logicError "Message has invalid MSG_TYPE")
      else .ok (.ofNat compId.toNat, .ofNat msgType.toNat)
    | _, _ => .error (.logicError "Message CompType enum hs no COMP_ID or MSG_TYPE value")

/-! ## The two maps -/

/-- `message_by_comp_type_` and `message_by_typename_`: a prototype is its type. -/
structure TypeMaps where
  messageByCompType : KeyType → Option Descriptor
  messageByTypename : String → Option Descriptor

namespace TypeMaps

def empty : TypeMaps where
  messageByCompType _ := none
  messageByTypename _ := none

/-- `Message type 2000:103` -/
def typeText (key : KeyType) : String :=
  "Message type " ++ toString key.1.toNat ++ ":" ++ toString key.2.toNat

/-- The end of all three `add_message_type`, and all of the one that is given the ids. -/
def add (maps : TypeMaps) (key : KeyType) (desc : Descriptor) : Except RegisterError TypeMaps :=
  if (maps.messageByCompType key).isSome then
    .error (.runtimeError (typeText key ++ " already registered"))
  else
    .ok {
      messageByCompType := Function.update maps.messageByCompType key (some desc)
      messageByTypename := Function.update maps.messageByTypename desc.fullName (some desc) }

/-- `add_message_type<MT>()`. -/
def addMessageType (maps : TypeMaps) (desc : Descriptor) : Except RegisterError TypeMaps :=
  match keyFromDesc desc with
  | .error e => .error e
  | .ok key => maps.add key desc

/-- `add_message_type` of a type by its name. -/
def addMessageTypeNamed (pools : Pools) (maps : TypeMaps) (msgType : String) :
    Except RegisterError TypeMaps :=
  match pools.createMsg msgType with
  | none => .error (.runtimeError "Unknown message type")
  | some desc => maps.addMessageType desc

def removeMessageType (maps : TypeMaps) (key : KeyType) : TypeMaps :=
  match maps.messageByCompType key with
  | none => maps
  | some desc =>
    { messageByCompType := Function.update maps.messageByCompType key none
      messageByTypename := Function.update maps.messageByTypename desc.fullName none }

/-- `new_message_for` of the ids, by the type of the message. -/
def newMessageFor (maps : TypeMaps) (key : KeyType) : Except RegisterError Descriptor :=
  match maps.messageByCompType key with
  | none => .error (.runtimeError (typeText key ++ " not registered"))
  | some desc => .ok desc

/-- `new_message_for` of a name. -/
def newMessageForName (pools : Pools) (maps : TypeMaps) (fullName : String) :
    Except RegisterError Descriptor :=
  match maps.messageByTypename fullName with
  | some desc => .ok desc
  | none =>
    match pools.createMsg fullName with
    | some desc => .ok desc
    | none => .error (.runtimeError "Message type not registered")

end TypeMaps

/-! ## The constructor with proto paths -/

/-- An entry of a directory: its name, and the message types of the file where the importer can
read it. -/
structure ProtoEntry where
  name : String
  messageTypes : Option (List Descriptor)

/-- `fnmatch` with `*.proto`. -/
def ProtoEntry.isProto (e : ProtoEntry) : Bool :=
  Strings.endsWith e.name ".proto"

/-- `message_by_comp_type_` and so on, and `failed_to_load_types_`. -/
structure Loaded where
  maps : TypeMaps
  failures : Multimap String String

/-- A type without `CompType` is passed over, one that is not well formed is noted; whatever else
goes wrong leaves the constructor. -/
def Loaded.type (pools : Pools) (s : Loaded) (desc : Descriptor) : Except RegisterError Loaded :=
  if desc.compType = none then .ok s
  else
    match s.maps.addMessageTypeNamed pools desc.fullName with
    | .ok maps => .ok { s with maps := maps }
    | .error (.logicError what) => .ok { s with failures := s.failures.insert desc.fullName what }
    | .error e => .error e

def Loaded.types (pools : Pools) : Loaded → List Descriptor → Except RegisterError Loaded
  | s, [] => .ok s
  | s, desc :: descs =>
    match s.type pools desc with
    | .error e => .error e
    | .ok s => s.types pools descs

/-- The files of a directory in the order in which they are read; `none` where one cannot be
imported, and its null pointer is used. -/
def Loaded.files (pools : Pools) : Loaded → List ProtoEntry → Option (Except RegisterError Loaded)
  | s, [] => some (.ok s)
  | s, e :: es =>
    if e.isProto then
      e.messageTypes.bind fun descs =>
        match s.types pools descs with
        | .error err => some (.error err)
        | .ok s => s.files pools es
    else s.files pools es

/-- `MessageRegister::MessageRegister` with proto paths. A directory that cannot be opened is
passed over. -/
def loadProtoPath (pools : Pools) (dirs : List (Option (List ProtoEntry))) :
    Option (Except RegisterError Loaded) :=
  Loaded.files pools ⟨.empty, .empty⟩ (dirs.flatMap fun dir => dir.getD [])

/-! ## What can be loaded -/

/-- The ids and the prototype with which a type of a file is registered. -/
def entered (pools : Pools) (desc : Descriptor) : Option (KeyType × Descriptor) :=
  if desc.compType = none then none
  else
    (pools.createMsg desc.fullName).bind fun d =>
      (keyFromDesc d).toOption.map fun key => (key, d)

/-- The entry of a type of a file in the map of failures. -/
def noted (pools : Pools) (desc : Descriptor) : Option (String × String) :=
  if desc.compType = none then none
  else
    (pools.createMsg desc.fullName).bind fun d =>
      match keyFromDesc d with
      | .error (.logicError what) => some (desc.fullName, what)
      | _ => none

/-- A type with `CompType` that no pool knows. -/
def Unknown (pools : Pools) (desc : Descriptor) : Prop :=
  desc.compType ≠ none ∧ pools.createMsg desc.fullName = none

instance (pools : Pools) (desc : Descriptor) : Decidable (Unknown pools desc) :=
  inferInstanceAs (Decidable (_ ∧ _))

theorem keyFromDesc_error {desc : Descriptor} {e : RegisterError}
    (h : keyFromDesc desc = .error e) : ∃ what, e = .logicError what := by
  rw [keyFromDesc] at h
  split at h
  · exact ⟨_, (Except.error.inj h).symm⟩
  · split at h
    · split_ifs at h
      · exact ⟨_, (Except.error.inj h).symm⟩
      · exact ⟨_, (Except.error.inj h).symm⟩
    · exact ⟨_, (Except.error.inj h).symm⟩

/-- One type of a file: passed over, noted, registered, or the end of the constructor. -/
inductive TypeCase (pools : Pools) (s : Loaded) (desc : Descriptor) : Prop where
  | skipped (henter : entered pools desc = none) (hnote : noted pools desc = none)
      (hknown : ¬Unknown pools desc) (htype : s.type pools desc = .ok s)
  | noted (what : String) (henter : entered pools desc = none)
      (hnote : noted pools desc = some (desc.fullName, what)) (hknown : ¬Unknown pools desc)
      (htype : s.type pools desc =
        .ok { s with failures := s.failures.insert desc.fullName what })
  | entered (key : KeyType) (d : Descriptor) (henter : entered pools desc = some (key, d))
      (hnote : noted pools desc = none) (hknown : ¬Unknown pools desc)
      (htype : s.type pools desc = (s.maps.add key d).map fun maps => { s with maps := maps })
  | unknown (hunknown : Unknown pools desc)
      (htype : s.type pools desc = .error (.runtimeError "Unknown message type"))

theorem type_cases (pools : Pools) (s : Loaded) (desc : Descriptor) :
    TypeCase pools s desc := by
  by_cases hnone : desc.compType = none
  · exact .skipped (if_pos hnone) (if_pos hnone) (fun h => h.1 hnone) (if_pos hnone)
  · cases hcreate : pools.createMsg desc.fullName with
    | none =>
      refine .unknown ⟨hnone, hcreate⟩ ?_
      rw [Loaded.type, if_neg hnone, TypeMaps.addMessageTypeNamed, hcreate]
    | some d =>
      have hknown : ¬Unknown pools desc := fun h => by simp [h.2] at hcreate
      cases hkey : keyFromDesc d with
      | error e =>
        -- `add_message_type` throws a `logic_error`, which the loop notes
        obtain ⟨what, rfl⟩ := keyFromDesc_error hkey
        refine .noted what ?_ ?_ hknown ?_
        · rw [GazeboRcll.entered, if_neg hnone, hcreate, Option.bind_some, hkey]
          rfl
        · rw [GazeboRcll.noted, if_neg hnone, hcreate, Option.bind_some, hkey]
        · rw [Loaded.type, if_neg hnone, TypeMaps.addMessageTypeNamed, hcreate]
          simp only [TypeMaps.addMessageType, hkey]
      | ok key =>
        refine .entered key d ?_ ?_ hknown ?_
        · rw [GazeboRcll.entered, if_neg hnone, hcreate, Option.bind_some, hkey]
          rfl
        · rw [GazeboRcll.noted, if_neg hnone, hcreate, Option.bind_some, hkey]
        · rw [Loaded.type, if_neg hnone, TypeMaps.addMessageTypeNamed, hcreate]
          simp only [TypeMaps.addMessageType, hkey, TypeMaps.add]
          split_ifs <;> rfl

/-- The ids of a prototype are kept apart from those of all others. -/
theorem add_cases (maps : TypeMaps) (key : KeyType) (d : Descriptor) :
    (∃ other, maps.messageByCompType key = some other) ∧
        maps.add key d =
          .error (.runtimeError (TypeMaps.typeText key ++ " already registered")) ∨
      maps.messageByCompType key = none ∧ ∃ maps', maps.add key d = .ok maps' ∧
        maps'.messageByCompType = Function.update maps.messageByCompType key (some d) := by
  rw [TypeMaps.add]
  cases hkey : maps.messageByCompType key with
  | none => exact .inr ⟨rfl, _, rfl, rfl⟩
  | some other => exact .inl ⟨⟨other, rfl⟩, rfl⟩

/-- The types of some files that are registered, with their ids. -/
def enteredKeys (pools : Pools) (descs : List Descriptor) : List KeyType :=
  (descs.filterMap (entered pools)).map Prod.fst

theorem enteredKeys_cons_of_none {pools : Pools} {desc : Descriptor} (descs : List Descriptor)
    (h : entered pools desc = none) :
    enteredKeys pools (desc :: descs) = enteredKeys pools descs := by
  rw [enteredKeys, List.filterMap_cons_none h]
  rfl

theorem enteredKeys_cons_of_some {pools : Pools} {desc d : Descriptor} {key : KeyType}
    (descs : List Descriptor) (h : entered pools desc = some (key, d)) :
    enteredKeys pools (desc :: descs) = key :: enteredKeys pools descs := by
  rw [enteredKeys, List.filterMap_cons_some h]
  rfl

/-- All types can be read into a register exactly if every one is known and no two of them, one
of the register included, have the same ids. -/
theorem types_isOk_iff (pools : Pools) (s : Loaded) (descs : List Descriptor) :
    (s.types pools descs).isOk = true ↔
      (∀ desc ∈ descs, ¬Unknown pools desc) ∧ (enteredKeys pools descs).Nodup ∧
        ∀ key ∈ enteredKeys pools descs, s.maps.messageByCompType key = none := by
  induction descs generalizing s with
  | nil => simp [Loaded.types, enteredKeys, Except.isOk, Except.toBool]
  | cons desc descs ih =>
    rw [Loaded.types, List.forall_mem_cons]
    cases type_cases pools s desc with
    | skipped henter hnote hknown htype =>
      rw [htype, enteredKeys_cons_of_none descs henter]
      show (Loaded.types pools s descs).isOk = true ↔ _
      rw [ih]
      simp only [hknown, not_false_eq_true, true_and]
    | noted what henter hnote hknown htype =>
      rw [htype, enteredKeys_cons_of_none descs henter]
      show (Loaded.types pools _ descs).isOk = true ↔ _
      rw [ih]
      simp only [hknown, not_false_eq_true, true_and]
    | unknown hunknown htype =>
      rw [htype]
      exact iff_of_false Bool.false_ne_true fun h => h.1.1 hunknown
    | entered key d henter hnote hknown htype =>
      rw [htype, enteredKeys_cons_of_some descs henter, List.nodup_cons, List.forall_mem_cons]
      rcases add_cases s.maps key d with ⟨⟨other, hother⟩, hadd⟩ | ⟨hfree, maps, hadd, hmaps⟩
      · rw [hadd]
        refine iff_of_false Bool.false_ne_true fun h => ?_
        simp [hother] at h
      · rw [hadd]
        show (Loaded.types pools { s with maps := maps } descs).isOk = true ↔ _
        rw [ih]
        -- the key of the first type is taken for all further ones
        have hupdate : (∀ k ∈ enteredKeys pools descs, maps.messageByCompType k = none) ↔
            key ∉ enteredKeys pools descs ∧
              ∀ k ∈ enteredKeys pools descs, s.maps.messageByCompType k = none := by
          rw [hmaps]
          constructor
          · intro hall
            have hnot : key ∉ enteredKeys pools descs := by
              intro hmem
              simpa using hall key hmem
            refine ⟨hnot, fun k hk => ?_⟩
            have hne : k ≠ key := fun heq => hnot (heq ▸ hk)
            rw [← hall k hk, Function.update_of_ne hne]
          · rintro ⟨hnot, hall⟩ k hk
            have hne : k ≠ key := fun heq => hnot (heq ▸ hk)
            rw [Function.update_of_ne hne]
            exact hall k hk
        simp only [hupdate, hknown, hfree, not_false_eq_true, true_and]
        tauto

/-- What has been read is there under its ids, and what could not be registered is noted, one
type after the other. -/
theorem types_eq_ok {pools : Pools} {s s' : Loaded} {descs : List Descriptor}
    (h : s.types pools descs = .ok s') :
    (∀ key d, s'.maps.messageByCompType key = some d ↔
      s.maps.messageByCompType key = some d ∨ (key, d) ∈ descs.filterMap (entered pools)) ∧
      s'.failures = s.failures.insertAll (descs.filterMap (noted pools)) := by
  induction descs generalizing s with
  | nil =>
    obtain rfl := Except.ok.inj h
    simp [Multimap.insertAll]
  | cons desc descs ih =>
    rw [Loaded.types] at h
    cases type_cases pools s desc with
    | skipped henter hnote hknown htype =>
      rw [htype] at h
      rw [List.filterMap_cons_none henter, List.filterMap_cons_none hnote]
      exact ih h
    | noted what henter hnote hknown htype =>
      rw [htype] at h
      obtain ⟨hmaps, hfailures⟩ := ih h
      rw [List.filterMap_cons_none henter, List.filterMap_cons_some hnote]
      exact ⟨hmaps, hfailures⟩
    -- a type that no pool knows throws out of the loop
    | unknown hunknown htype =>
      rw [htype] at h
      cases h
    | entered key d henter hnote hknown htype =>
      rw [htype] at h
      rw [List.filterMap_cons_some henter, List.filterMap_cons_none hnote]
      rcases add_cases s.maps key d with ⟨-, hadd⟩ | ⟨hfree, maps, hadd, hmaps⟩
      -- so does an id that is taken
      · rw [hadd] at h
        cases h
      · rw [hadd] at h
        obtain ⟨hfound, hfailures⟩ := ih h
        refine ⟨fun k d' => ?_, hfailures⟩
        rw [hfound, List.mem_cons, Prod.mk.injEq]
        show maps.messageByCompType k = some d' ∨ _ ↔ _
        rw [hmaps]
        -- the new entry, and those that are left
        by_cases hk : k = key
        · rw [hk, Function.update_self, hfree, Option.some.injEq]
          simp only [true_and, reduceCtorEq, false_or, eq_comm]
        · rw [Function.update_of_ne hk]
          simp only [hk, false_and, false_or]

/-! ## Directories -/

/-- The entries of the directories that can be opened. -/
def protoFiles (dirs : List (Option (List ProtoEntry))) : List ProtoEntry :=
  (dirs.flatMap fun dir => dir.getD []).filter ProtoEntry.isProto

/-- The message types of some files in the order in which they are read. -/
def messageTypes (files : List ProtoEntry) : List Descriptor :=
  files.flatMap fun e => e.messageTypes.getD []

theorem types_append (pools : Pools) (s : Loaded) (descs descs' : List Descriptor) :
    s.types pools (descs ++ descs') =
      match s.types pools descs with
      | .error e => .error e
      | .ok s => s.types pools descs' := by
  induction descs generalizing s with
  | nil => rfl
  | cons desc descs ih =>
    rw [List.cons_append, Loaded.types, Loaded.types]
    cases s.type pools desc with
    | error e => rfl
    | ok s => exact ih s

/-- Files one after the other are as good as their message types, unless one of them cannot be
imported. -/
theorem files_eq_ok_iff (pools : Pools) (s s' : Loaded) (es : List ProtoEntry) :
    s.files pools es = some (.ok s') ↔
      (∀ e ∈ es.filter ProtoEntry.isProto, e.messageTypes.isSome) ∧
        s.types pools (messageTypes (es.filter ProtoEntry.isProto)) = .ok s' := by
  induction es generalizing s with
  | nil =>
    simp [Loaded.files, Loaded.types, messageTypes]
  | cons e es ih =>
    rw [Loaded.files]
    by_cases hproto : e.isProto
    · rw [if_pos hproto, List.filter_cons_of_pos hproto, List.forall_mem_cons]
      cases htypes : e.messageTypes with
      | none => simp
      | some descs =>
        have hcons : messageTypes (e :: es.filter ProtoEntry.isProto) =
            descs ++ messageTypes (es.filter ProtoEntry.isProto) := by
          rw [messageTypes, List.flatMap_cons, htypes]
          rfl
        rw [hcons, types_append, Option.bind_some]
        cases s.types pools descs with
        | error err => simp
        | ok s =>
          show Loaded.files pools s es = some (.ok s') ↔ _
          rw [ih]
          simp
    · rw [if_neg hproto, List.filter_cons_of_neg (by simpa using hproto)]
      exact ih s

/-- The constructor comes to its end exactly if all files can be imported, every type with
`CompType` is known and no two that can be registered have the same ids. -/
theorem load_isOk_iff (pools : Pools) (dirs : List (Option (List ProtoEntry))) :
    (∃ s, loadProtoPath pools dirs = some (.ok s)) ↔
      (∀ e ∈ protoFiles dirs, e.messageTypes.isSome) ∧
        (∀ desc ∈ messageTypes (protoFiles dirs), ¬Unknown pools desc) ∧
          (enteredKeys pools (messageTypes (protoFiles dirs))).Nodup := by
  have hok : ∀ r : Except RegisterError Loaded, (∃ s, r = .ok s) ↔ r.isOk = true := by
    intro r
    cases r with
    | error e => exact iff_of_false (fun ⟨s, hs⟩ => by cases hs) Bool.false_ne_true
    | ok s => exact iff_of_true ⟨s, rfl⟩ rfl
  have hempty : ∀ key ∈ enteredKeys pools (messageTypes (protoFiles dirs)),
      TypeMaps.empty.messageByCompType key = none := fun _ _ => rfl
  simp only [loadProtoPath, files_eq_ok_iff, exists_and_left, hok, types_isOk_iff]
  constructor
  · rintro ⟨himported, hknown, hnodup, -⟩
    exact ⟨himported, hknown, hnodup⟩
  · rintro ⟨himported, hknown, hnodup⟩
    exact ⟨himported, hknown, hnodup, hempty⟩

theorem newMessageFor_of_load {pools : Pools} {dirs : List (Option (List ProtoEntry))}
    {s : Loaded} (h : loadProtoPath pools dirs = some (.ok s)) (key : KeyType) (d : Descriptor) :
    s.maps.newMessageFor key = .ok d ↔
      (key, d) ∈ (messageTypes (protoFiles dirs)).filterMap (entered pools) := by
  have hget : s.maps.newMessageFor key = .ok d ↔ s.maps.messageByCompType key = some d := by
    rw [TypeMaps.newMessageFor]
    cases s.maps.messageByCompType key with
    | none => simp
    | some other => simp
  rw [hget, (types_eq_ok ((files_eq_ok_iff pools _ s _).mp h).2).1]
  show TypeMaps.empty.messageByCompType key = some d ∨ _ ↔ _
  simp [TypeMaps.empty, protoFiles]

/-- After that exactly the well-formed types are registered, each under its own ids, and exactly
the others are noted with what is wrong with them, sorted by their names, and under one name in
the order of the files. -/
theorem load_registers {pools : Pools} {dirs : List (Option (List ProtoEntry))} {s : Loaded}
    (h : loadProtoPath pools dirs = some (.ok s)) :
    (∀ key d, s.maps.newMessageFor key = .ok d ↔
      (key, d) ∈ (messageTypes (protoFiles dirs)).filterMap (entered pools)) ∧
      (s.failures.entries.map Prod.fst).Pairwise (· ≤ ·) ∧
      ∀ name, s.failures.equalRange name =
        (((messageTypes (protoFiles dirs)).filterMap (noted pools)).filter fun e =>
          e.1 = name).map Prod.snd := by
  refine ⟨newMessageFor_of_load h, s.failures.sorted, fun name => ?_⟩
  rw [(types_eq_ok ((files_eq_ok_iff pools _ s _).mp h).2).2, Multimap.equalRange_insertAll]
  rfl

/-- The pool of some message types; of two with one name it has the first. -/
def DescriptorPool.ofTypes (descs : List Descriptor) : DescriptorPool where
  findMessageTypeByName name := descs.find? fun desc => desc.fullName = name
  fullName_of_find name desc h := by simpa using List.find?_some h

/-- The ids of two message types, a type without ids of its own, and one with an id that is too
large. -/
def someTypes : List Descriptor :=
  [⟨"llsf_msgs.BeaconSignal", some [("COMP_ID", 2000), ("MSG_TYPE", 1)]⟩,
    ⟨"llsf_msgs.Time", none⟩,
    ⟨"llsf_msgs.GameState", some [("COMP_ID", 2000), ("MSG_TYPE", 20)]⟩,
    ⟨"llsf_msgs.Large", some [("COMP_ID", 70000), ("MSG_TYPE", 1)]⟩]

/-- They are found in a directory next to a file of another kind. -/
def someDirs : List (Option (List ProtoEntry)) :=
  [none, some [⟨"README", none⟩, ⟨"All.proto", some someTypes⟩]]

def somePools : Pools := ⟨.ofTypes [], some (.ofTypes someTypes)⟩

theorem exists_load_some : ∃ s, loadProtoPath somePools someDirs = some (.ok s) := by
  have hok : (loadProtoPath somePools someDirs).map Except.isOk = some true := by decide
  rw [Option.map_eq_some_iff] at hok
  obtain ⟨r, hr, hisOk⟩ := hok
  cases r with
  | error e => cases hisOk
  | ok s => exact ⟨s, hr⟩

theorem load_registers_some :
    ∃ s, loadProtoPath somePools someDirs = some (.ok s) ∧
      s.maps.newMessageFor (2000, 20) =
        .ok ⟨"llsf_msgs.GameState", some [("COMP_ID", 2000), ("MSG_TYPE", 20)]⟩ ∧
      s.failures.equalRange "llsf_msgs.Large" = ["Message has invalid COMP_ID"] := by
  obtain ⟨s, hs⟩ := exists_load_some
  obtain ⟨hfound, -, hfailures⟩ := load_registers hs
  exact ⟨s, hs, (hfound _ _).mpr (by decide), (hfailures _).trans (by decide)⟩

/-- One file in two directories: the second time its types are there already. -/
example : (loadProtoPath somePools (someDirs ++ someDirs)).map Except.isOk = some false := by
  decide

/-! ## Messages by their type -/

section

variable {Msg : Type} (desc : Msg → Descriptor) (serializeToString : Msg → Option Bytes)
  (parseFromArray : Descriptor → Bytes → Option Msg)

/-- `send` of a message alone gets so far as to a frame. -/
structure Sends (m : Msg) (out : OutMessage) : Prop where
  key : keyFromDesc (desc m) = .ok (out.componentId, out.msgType)
  body : serializeToString m = some out.body

/-- The register as those who receive see it. -/
def TypeMaps.register (maps : TypeMaps) : MessageRegister Msg where
  registered componentId msgType :=
    (maps.messageByCompType (.ofNat componentId, .ofNat msgType)).isSome
  parseFromArray componentId msgType body :=
    (maps.messageByCompType (.ofNat componentId, .ofNat msgType)).bind fun d =>
      parseFromArray d body

variable {desc serializeToString parseFromArray}

theorem deserialize_handed {maps : TypeMaps} {m : Msg} {out : OutMessage}
    (hsends : Sends desc serializeToString m out)
    (hparse : ∀ m body, serializeToString m = some body → parseFromArray (desc m) body = some m)
    (hregistered : maps.newMessageFor (out.componentId, out.msgType) = .ok (desc m)) :
    (maps.register parseFromArray).deserialize out.handed = .ok m := by
  have hfound : maps.messageByCompType (.ofNat out.handed.componentId, .ofNat out.handed.msgType) =
      some (desc m) := by
    show maps.messageByCompType (.ofNat out.componentId.toNat, .ofNat out.msgType.toNat) = _
    rw [UInt16.ofNat_toNat, UInt16.ofNat_toNat]
    rw [TypeMaps.newMessageFor] at hregistered
    cases hget : maps.messageByCompType (out.componentId, out.msgType) with
    | none => simp [hget] at hregistered
    | some d => simpa [hget] using hregistered
  have hbody : parseFromArray (desc m) out.handed.body = some m := hparse m _ hsends.body
  simp only [MessageRegister.deserialize, TypeMaps.register, hfound, Option.isSome_some, if_true,
    Option.bind_some, hbody]

/-- What `sig_rcvd_` or `sig_recv_failed_` is given for a frame. -/
def TypeMaps.receive (maps : TypeMaps) (parseFromArray : Descriptor → Bytes → Option Msg)
    (c : DeserializeCall) : ℕ × ℕ × Except String Msg :=
  (c.handed.componentId, c.handed.msgType,
    (maps.register parseFromArray).deserialize c.handed)

/-- Messages that are sent by their types come out in order and as what they were, under the ids
of their types, where the receiver has loaded these types from its directories and knows them by
their names. -/
theorem typed_messages_arrive (heap : Heap) (halloc : ∀ n, heap.alloc n = true) (v : FrameVersion)
    (hparse : ∀ m body, serializeToString m = some body → parseFromArray (desc m) body = some m)
    {pools : Pools} {dirs : List (Option (List ProtoEntry))} {s : Loaded}
    (hload : loadProtoPath pools dirs = some (.ok s))
    {sent : List (Msg × QueueEntry × OutMessage)}
    (hsent : ∀ x ∈ sent, Sends desc serializeToString x.1 x.2.2 ∧
      desc x.1 ∈ messageTypes (protoFiles dirs) ∧
      pools.createMsg (desc x.1).fullName = some (desc x.1)) :
    ((Receiver.start heap).receive heap v (sendFrames v (sent.map Prod.snd))).1.map
        (s.maps.receive parseFromArray) =
      sent.map fun x => (x.2.2.componentId.toNat, x.2.2.msgType.toNat, .ok x.1) := by
  have hframes := (receiveN_frames halloc v (sent.map Prod.snd) (length_le_sendFrames v _)
    (Receiver.start heap)).1
  have hdelivered : ∀ x ∈ sent, (s.maps.register parseFromArray).deserialize x.2.2.handed =
      .ok x.1 := by
    intro x hx
    obtain ⟨hsends, hmem, hknown⟩ := hsent x hx
    have hcomp : (desc x.1).compType ≠ none := by
      intro hnone
      have hkey := hsends.key
      rw [keyFromDesc, hnone] at hkey
      cases hkey
    have hentered : entered pools (desc x.1) =
        some ((x.2.2.componentId, x.2.2.msgType), desc x.1) := by
      rw [entered, if_neg hcomp, hknown, Option.bind_some, hsends.key]
      rfl
    apply deserialize_handed hsends hparse
    exact (newMessageFor_of_load hload _ _).mpr (List.mem_filterMap.mpr ⟨_, hmem, hentered⟩)
  have hreceive : s.maps.receive parseFromArray =
      (fun h : Handed => (h.componentId, h.msgType,
        (s.maps.register parseFromArray).deserialize h)) ∘ DeserializeCall.handed := rfl
  rw [hreceive, ← List.map_map]
  show List.map _ (List.map _ (Receiver.receiveN heap v _ _ _).1) = _
  rw [hframes, List.map_map, List.map_map]
  apply List.map_congr_left
  intro x hx
  show (x.2.2.handed.componentId, x.2.2.handed.msgType, _) = _
  rw [hdelivered x hx]
  rfl

end

/-- A game state with one byte, and a parser that takes what is as long as the type wants. -/
theorem typed_messages_arrive_gameState :
    let heap : Heap := ⟨fun _ => true, fun _ => 0⟩
    let mem : QueueEntry := ⟨[], ⟨7, 7, 7, 7, []⟩, ⟨[], [], []⟩, ⟨[], []⟩⟩
    ∃ s, loadProtoPath somePools someDirs = some (.ok s) ∧
      ((Receiver.start heap).receive heap .V2 (sendFrame .V2 mem ⟨2000, 20, [5], by decide⟩)).1.map
          (s.maps.receive fun _ body => if body.length = 1 then body.head? else none) =
        [(2000, 20, .ok 5)] := by
  intro heap mem
  obtain ⟨s, hs⟩ := exists_load_some
  refine ⟨s, hs, ?_⟩
  let gameState : Descriptor :=
    ⟨"llsf_msgs.GameState", some [("COMP_ID", 2000), ("MSG_TYPE", 20)]⟩
  have harrives := @typed_messages_arrive UInt8 (fun _ => gameState) (fun m => some [m])
    (fun _ body => if body.length = 1 then body.head? else none) heap (fun _ => rfl) .V2
    (fun m body h => by obtain rfl := Option.some.inj h; rfl) somePools someDirs s hs
    [(5, mem, ⟨2000, 20, [5], by decide⟩)]
    (by
      intro x hx
      obtain rfl := List.mem_singleton.mp hx
      exact ⟨⟨by decide, rfl⟩, by decide, by decide⟩)
  simpa [sendFrames] using harrives

/-! ## The two maps -/

inductive RegisterOp where
  /-- `add_message_type<MT>` with ids. -/
  | add (key : KeyType) (desc : Descriptor)
  /-- `add_message_type<MT>` without. -/
  | addMessageType (desc : Descriptor)
  | addMessageTypeNamed (msgType : String)
  | removeMessageType (key : KeyType)
deriving DecidableEq, Repr

/-- A call that throws changes nothing. -/
def TypeMaps.apply (pools : Pools) (maps : TypeMaps) : RegisterOp → TypeMaps
  | .add key desc => (maps.add key desc).toOption.getD maps
  | .addMessageType desc => (maps.addMessageType desc).toOption.getD maps
  | .addMessageTypeNamed msgType => (maps.addMessageTypeNamed pools msgType).toOption.getD maps
  | .removeMessageType key => maps.removeMessageType key

/-- A register from its construction on. -/
def registerSystem (pools : Pools) : LTS TypeMaps RegisterOp where
  init maps := maps = .empty
  next maps op := some (maps.apply pools op)

/-- Who is found by name has this name, and is registered under some ids. -/
def TypeMaps.NamesFollow (maps : TypeMaps) : Prop :=
  ∀ name desc, maps.messageByTypename name = some desc → desc.fullName = name ∧
    ∃ key other, maps.messageByCompType key = some other ∧ other.fullName = name

namespace TypeMaps

variable {maps maps' : TypeMaps} {key : KeyType} {desc : Descriptor}

theorem NamesFollow.add (h : maps.NamesFollow) (hadd : maps.add key desc = .ok maps') :
    maps'.NamesFollow := by
  rw [TypeMaps.add] at hadd
  split_ifs at hadd with htaken
  obtain rfl := Except.ok.inj hadd
  have hfree : maps.messageByCompType key = none := by simpa using htaken
  intro name d hd
  simp only at hd ⊢
  by_cases hname : name = desc.fullName
  · rw [hname, Function.update_self] at hd
    obtain rfl := Option.some.inj hd
    exact ⟨hname.symm, key, desc, Function.update_self _ _ _, hname.symm⟩
  · rw [Function.update_of_ne hname] at hd
    obtain ⟨hfull, k, other, hk, hother⟩ := h name d hd
    have hne : k ≠ key := by
      rintro rfl
      rw [hfree] at hk
      cases hk
    exact ⟨hfull, k, other, (Function.update_of_ne hne _ _).trans hk, hother⟩

theorem NamesFollow.addMessageType (h : maps.NamesFollow)
    (hadd : maps.addMessageType desc = .ok maps') : maps'.NamesFollow := by
  rw [TypeMaps.addMessageType] at hadd
  split at hadd
  · cases hadd
  · exact h.add hadd

theorem NamesFollow.addMessageTypeNamed {pools : Pools} {msgType : String} (h : maps.NamesFollow)
    (hadd : maps.addMessageTypeNamed pools msgType = .ok maps') : maps'.NamesFollow := by
  rw [TypeMaps.addMessageTypeNamed] at hadd
  split at hadd
  · cases hadd
  · exact h.addMessageType hadd

theorem NamesFollow.removeMessageType (h : maps.NamesFollow) (key : KeyType) :
    (maps.removeMessageType key).NamesFollow := by
  rw [TypeMaps.removeMessageType]
  cases hkey : maps.messageByCompType key with
  | none => exact h
  | some desc =>
    intro name d hd
    simp only at hd ⊢
    by_cases hname : name = desc.fullName
    · rw [hname, Function.update_self] at hd
      cases hd
    · rw [Function.update_of_ne hname] at hd
      obtain ⟨hfull, k, other, hk, hother⟩ := h name d hd
      have hne : k ≠ key := by
        rintro rfl
        rw [hkey] at hk
        obtain rfl := Option.some.inj hk
        exact hname hother.symm
      exact ⟨hfull, k, other, (Function.update_of_ne hne _ _).trans hk, hother⟩

theorem NamesFollow.toOption_getD {r : Except RegisterError TypeMaps} (h : maps.NamesFollow)
    (hr : ∀ maps', r = .ok maps' → maps'.NamesFollow) :
    (r.toOption.getD maps).NamesFollow := by
  cases r with
  | error e => exact h
  | ok maps' => exact hr maps' rfl

/-- Every call on the register keeps the names with the ids. -/
theorem NamesFollow.apply (pools : Pools) (h : maps.NamesFollow) (op : RegisterOp) :
    (maps.apply pools op).NamesFollow := by
  cases op with
  | add key desc => exact h.toOption_getD fun _ hadd => h.add hadd
  | addMessageType desc => exact h.toOption_getD fun _ hadd => h.addMessageType hadd
  | addMessageTypeNamed msgType => exact h.toOption_getD fun _ hadd => h.addMessageTypeNamed hadd
  | removeMessageType key => exact h.removeMessageType key

end TypeMaps

/-- In any sequence of calls a message that is made for a name is of the type of this name. It
comes from a pool if the register does not have the name, and otherwise from the register, where
a type of this name is registered under some ids. -/
theorem names_follow_ids {pools : Pools} {maps : TypeMaps}
    (h : (registerSystem pools).Reachable maps) {name : String} {desc : Descriptor}
    (hnew : maps.newMessageForName pools name = .ok desc) :
    desc.fullName = name ∧
      (maps.messageByTypename name = none ∧ pools.createMsg name = some desc ∨
        maps.messageByTypename name = some desc ∧
          ∃ key other, maps.newMessageFor key = .ok other ∧ other.fullName = name) := by
  -- every map of a reachable register was written by `add`
  have hfollow : maps.NamesFollow := by
    refine LTS.Reach.invariant (P := TypeMaps.NamesFollow) ?_ ?_ h
    · rintro _ rfl name desc hnone
      cases hnone
    · rintro maps op maps' hmaps - hnext
      obtain rfl := Option.some.inj hnext
      exact hmaps.apply pools op
  rw [TypeMaps.newMessageForName] at hnew
  cases hfound : maps.messageByTypename name with
  | some d =>
    simp only [hfound, Except.ok.injEq] at hnew
    rw [← hnew]
    obtain ⟨hfull, key, other, hkey, hother⟩ := hfollow name d hfound
    exact ⟨hfull, .inr ⟨rfl, key, other, by rw [TypeMaps.newMessageFor, hkey], hother⟩⟩
  | none =>
    simp only [hfound] at hnew
    cases hcreate : pools.createMsg name with
    | none => simp [hcreate] at hnew
    | some d =>
      simp only [hcreate, Except.ok.injEq] at hnew
      rw [hnew]
      refine ⟨?_, .inl ⟨rfl, rfl⟩⟩
      -- the generated pool is asked first, then the imported ones
      rw [Pools.createMsg] at hcreate
      cases hgenerated : pools.generated.findMessageTypeByName name with
      | some d' =>
        simp only [hgenerated, Option.some.injEq] at hcreate
        rw [← hnew, ← hcreate]
        exact pools.generated.fullName_of_find name d' hgenerated
      | none =>
        simp only [hgenerated, Option.bind_eq_some_iff] at hcreate
        obtain ⟨pool, -, hfind⟩ := hcreate
        rw [← hnew]
        exact pool.fullName_of_find name d hfind

/-- A type is registered twice and removed once: it is found by its name no longer, nor by the
ids of the one that was removed. -/
theorem names_follow_ids_removed :
    ∃ maps, (registerSystem somePools).Reachable maps ∧
      (maps.newMessageFor (1, 2)).isOk = true ∧ maps.messageByTypename "llsf_msgs.Time" = none ∧
      ∃ desc, maps.newMessageForName somePools "llsf_msgs.Time" = .ok desc ∧
        desc.fullName = "llsf_msgs.Time" := by
  obtain ⟨maps, hreach, hp⟩ := LTS.exists_reachable
    (T := registerSystem somePools) (s := .empty)
    (l := [.add (1, 2) ⟨"llsf_msgs.Time", none⟩, .add (1, 3) ⟨"llsf_msgs.Time", none⟩,
      .removeMessageType (1, 3)])
    (p := fun maps => decide ((maps.newMessageFor (1, 2)).isOk = true ∧
      maps.messageByTypename "llsf_msgs.Time" = none ∧
      maps.newMessageForName somePools "llsf_msgs.Time" = .ok ⟨"llsf_msgs.Time", none⟩))
    rfl (by decide)
  obtain ⟨hids, hname, hnew⟩ := of_decide_eq_true hp
  exact ⟨maps, hreach, hids, hname, _, hnew, (names_follow_ids hreach hnew).1⟩

end GazeboRcll
