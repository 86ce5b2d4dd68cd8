import GazeboRcll.MpsPlacement
import GazeboRcll.Mps.Station

/-!
# The class of a machine

`MpsPlacement` chooses the SDF type of a machine, and `MpsLoader` the class of its station, by
the first of several tags that the name contains, in different orders. The constructor of every
station starts the OPC UA server of the machine, whose endpoint is known for the fourteen
machines of the field only, so that all other names with a tag end in an exception
(`kinds_agree`).
-/

namespace GazeboRcll

/-! ## The endpoint of a machine -/

/-- The names of `OpcUaConfig::get_endpoint` with what it appends to the address. -/
def endpoints : List (String × String) :=
  [("C-BS", "4840/"), ("C-CS1", "4841/"), ("C-CS2", "4842/"), ("C-RS1", "4843/"),
    ("C-RS2", "4844/"), ("C-DS", "4845/"), ("C-SS", "4846/"), ("M-BS", "4850/"),
    ("M-CS1", "4851/"), ("M-CS2", "4852/"), ("M-RS1", "4853/"), ("M-RS2", "4854/"),
    ("M-DS", "4855/"), ("M-SS", "4856")]

/-- What a constructor throws: `MachineTypeException`, or what comes from elsewhere. -/
inductive StationException (ε : Type) where
  | machineType
  | other (e : ε)
deriving DecidableEq, Repr

/-- `OpcUaConfig::get_endpoint`. -/
def getEndpoint {ε : Type} (name : String) : Except (StationException ε) String :=
  match endpoints.lookup name with
  | some port => .ok ("opc.tcp://localhost:" ++ port)
  | none => .error .machineType

/-- `OpcUaConfig::get_URI`. -/
def Station.getURI (station : Station) : String :=
  "urn://ll.robocup.org/gazebo/" ++
    match station with
    | .base => "base"
    | .ring => "ring"
    | .cap => "cap"
    | .delivery => "delivery"
    | .storage => "storage"

/-! ## The constructors -/

/-- What the constructors do beside looking up the endpoint, which may throw: they read the
configuration, speak to Gazebo and to the OPC UA library, and spawn the first workpieces. -/
structure StationSetup (ε : Type) where
  /-- `Mps::Mps` for a machine. -/
  mps (name : String) : Except ε Unit
  /-- The rest of a class's constructor from `opcua_server_.Start()` on. -/
  start (station : Station) (name endpoint uri : String) : Except ε Unit

/-- The constructors of the five classes: the base class, then `Mps::start_server` with the
`station_` of the class, then what is left. -/
def construct {ε : Type} (setup : StationSetup ε) (station : Station) (name : String) :
    Except (StationException ε) Unit := do
  (setup.mps name).mapError .other
  let endpoint ← getEndpoint name
  (setup.start station name endpoint station.getURI).mapError .other

/-- The tags of the loader, in its order. -/
def stationTags : List (String × Station) :=
  [("BS", .base), ("SS", .storage), ("CS", .cap), ("RS", .ring), ("DS", .delivery)]

/-- The machine type that the loader detects. -/
def detectedType (name : String) : Option Station :=
  (stationTags.find? fun type => (Strings.find name type.1).isSome).map Prod.snd

/-- `MpsLoader::Load`: the class of the station that is constructed. -/
def mpsLoaderLoad {ε : Type} (setup : StationSetup ε) (name : String) :
    Except (StationException ε) (Option Station) :=
  match detectedType name with
  | none => .ok none
  | some station => do
    construct setup station name
    return some station

/-- The SDF type of each class. -/
def Station.sdfType : Station → String
  | .base => "mps_base"
  | .ring => "mps_ring"
  | .cap => "mps_cap"
  | .delivery => "mps_delivery"
  | .storage => "mps_storage"

/-- The names of the machines on the field. -/
def machineNames : List String := endpoints.map Prod.fst

/-! ## Both choices -/

/-- Both chains ask for the same tags. -/
theorem detectedType_eq_none_iff (name : String) :
    detectedType name = none ↔ mpsType name = none := by
  rw [mpsType, detectedType, Option.map_eq_none_iff, Option.map_eq_none_iff,
    List.find?_eq_none, List.find?_eq_none]
  unfold mpsTypes stationTags
  simp only [List.forall_mem_cons, List.not_mem_nil, false_implies, implies_true, and_true]
  tauto

/-- On the names of the field the order of the tags does not matter. -/
theorem mpsType_of_mem {name : String} (h : name ∈ machineNames) :
    ∃ station, detectedType name = some station ∧ mpsType name = some station.sdfType := by
  have hall : ∀ name ∈ machineNames, (detectedType name).isSome ∧
      mpsType name = (detectedType name).map Station.sdfType := by
    decide +kernel
  obtain ⟨hsome, htype⟩ := hall name h
  obtain ⟨station, hstation⟩ := Option.isSome_iff_exists.mp hsome
  rw [hstation, Option.map_some] at htype
  exact ⟨station, hstation, htype⟩

section

variable {ε : Type} {setup : StationSetup ε} {name : String}

theorem getEndpoint_of_mem (h : name ∈ machineNames) :
    ∃ endpoint, (getEndpoint name : Except (StationException ε) String) = .ok endpoint := by
  have hall : ∀ name ∈ machineNames, (endpoints.lookup name).isSome := by decide +kernel
  obtain ⟨port, hport⟩ := Option.isSome_iff_exists.mp (hall name h)
  exact ⟨_, by rw [getEndpoint, hport]⟩

theorem getEndpoint_of_not_mem (h : name ∉ machineNames) :
    (getEndpoint name : Except (StationException ε) String) = .error .machineType := by
  have hnone : endpoints.lookup name = none := by
    rw [List.lookup_eq_none_iff]
    intro entry hmem
    rw [bne_iff_ne]
    rintro rfl
    exact h (List.mem_map_of_mem hmem)
  rw [getEndpoint, hnone]

/-- With an endpoint only what the constructor does beside looking it up can fail. -/
theorem construct_of_endpoint {endpoint : String}
    (h : (getEndpoint name : Except (StationException ε) String) = .ok endpoint)
    (station : Station) :
    (do
      construct setup station name
      return some station) = (do
        setup.mps name
        setup.start station name endpoint station.getURI
        return some station : Except ε (Option Station)).mapError .other := by
  rw [construct, h]
  cases setup.mps name with
  | error e => rfl
  | ok _ =>
    dsimp only [Except.mapError, bind, Except.bind]
    cases setup.start station name endpoint station.getURI <;> rfl

/-- Without one the server is not started. -/
theorem construct_of_not_mem (h : name ∉ machineNames) (station : Station) :
    (do
      construct setup station name
      return some station) = (do
        (setup.mps name).mapError .other
        .error .machineType) := by
  rw [construct, getEndpoint_of_not_mem h]
  cases setup.mps name <;> rfl

theorem construct_ne_none (station : Station) :
    (do
      construct setup station name
      return some station) ≠ .ok none := by
  cases construct setup station name <;> nofun

end

/-- For the machines of the field the loader goes through the constructor of the kind that was
placed. For any other name with a tag an SDF type is chosen and the constructor throws. A name
without a kind for one of them has none for the other. -/
theorem kinds_agree {ε : Type} (setup : StationSetup ε) (name : String) :
    (name ∈ machineNames → ∃ station endpoint, mpsType name = some station.sdfType ∧
      (getEndpoint name : Except (StationException ε) String) = .ok endpoint ∧
      mpsLoaderLoad setup name = (do
        setup.mps name
        setup.start station name endpoint station.getURI
        return some station : Except ε (Option Station)).mapError .other) ∧
    (name ∉ machineNames → HasKnownTag name → (mpsType name).isSome ∧
      mpsLoaderLoad setup name = (do
        (setup.mps name).mapError .other
        .error .machineType)) ∧
    (mpsType name = none ↔ mpsLoaderLoad setup name = .ok none) := by
  refine ⟨fun hmem => ?_, fun hmem hknown => ?_, ?_⟩
  · obtain ⟨station, hdetected, htype⟩ := mpsType_of_mem hmem
    obtain ⟨endpoint, hendpoint⟩ := getEndpoint_of_mem (ε := ε) hmem
    refine ⟨station, endpoint, htype, hendpoint, ?_⟩
    rw [mpsLoaderLoad, hdetected]
    exact construct_of_endpoint hendpoint station
  · refine ⟨(mpsType_isSome_iff name).mpr hknown, ?_⟩
    -- the constructor throws before the server is started
    have hdetected := (detectedType_eq_none_iff name).not.mpr hknown.mpsType_ne_none
    obtain ⟨station, hstation⟩ := Option.ne_none_iff_exists'.mp hdetected
    rw [mpsLoaderLoad, hstation]
    exact construct_of_not_mem hmem station
  · rw [← detectedType_eq_none_iff, mpsLoaderLoad]
    cases detectedType name with
    | none => exact iff_of_true rfl rfl
    | some station => exact iff_of_false nofun (construct_ne_none station)

/-- A base station without a team gets an SDF file, and none is constructed. -/
theorem kinds_differ :
    ¬ ∀ (setup : StationSetup Unit) (name type : String), mpsType name = some type →
      ∃ station, station.sdfType = type ∧ mpsLoaderLoad setup name = .ok (some station) := by
  intro h
  obtain ⟨station, -, hload⟩ :=
    h ⟨fun _ => .ok (), fun _ _ _ _ => .ok ()⟩ "BS" "mps_base" (by decide)
  exact absurd hload (by cases station <;> decide)

end GazeboRcll
