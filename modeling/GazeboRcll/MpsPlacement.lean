import GazeboRcll.Library.LTS
import GazeboRcll.Library.Loop
import GazeboRcll.Library.Strings
import GazeboRcll.Messages
import Mathlib.Algebra.Field.Basic
import Mathlib.Algebra.Order.Field.Rat
import Mathlib.Data.List.Nodup
import Mathlib.Data.List.TakeWhile
import Mathlib.Tactic.Common

/-!
# Placing the machines on the field

`MpsPlacementPlugin` spawns a machine for every entry of the referee box's machine
information, once the game has started and some time has passed. It keeps the names of the
machines it has spawned, and stops listening when there are fourteen of them. The factory
message gets the name and the SDF text as C strings, the list of names gets the whole name.

* `placed_iff`: for which messages every machine that can be placed is placed, and for
  which ones the order of their machines does not matter.
* `spawned_once`: no machine is spawned twice or too early in the runs that spawn only
  machines without a NUL in their names, and in no others.
-/

namespace GazeboRcll

/-! ## Zones -/

/-- `Zone_Name`, such as `C_Z18`. -/
def Zone.name (zone : Zone) : List Char :=
  [if zone.team = .CYAN then 'C' else 'M', '_', 'Z', Char.ofNat (48 + zone.x),
    Char.ofNat (48 + zone.y)]

/-- `(int)c - '0'`. -/
def digit (c : Char) : ℤ := c.toNat - 48

theorem digit_ofNat : ∀ {n : ℕ}, n < 9 → digit (Char.ofNat (48 + n)) = n := by
  decide

/-- The configuration of `plugins/mps-placement` and the files the plugin reads. -/
structure MpsPlacementConfig (K : Type) where
  waitTimeBeforePlacement : ℤ
  zoneHeight : K
  zoneWidth : K
  /-- `M_PI`. -/
  pi : K
  /-- `getenv("GAZEBO_RCLL")`. -/
  gazeboRcll : String
  /-- The text of the file at a path, if it can be opened. -/
  file : String → Option String

/-- The parts of a machine's pose that are not zero. -/
structure MpsPose (K : Type) where
  coordX : K
  coordY : K
  ori : K
deriving DecidableEq, Repr

/-- `MPS_COUNT`. -/
def MPS_COUNT : ℕ := 14

namespace MpsPlacementConfig

variable {K : Type}

/-- Where the SDF file of a type is. -/
def sdfPath (cfg : MpsPlacementConfig K) (mpsType : String) : String :=
  cfg.gazeboRcll ++ "/models/" ++ mpsType ++ "/model.sdf"

/-- The SDF text of a type with its name replaced; `none` where the file cannot be opened
or does not name the type. -/
def newSdf (cfg : MpsPlacementConfig K) (mpsType mpsName : String) : Option String :=
  (cfg.file (cfg.sdfPath mpsType)).bind fun rawSdf =>
    (Strings.find rawSdf mpsType).map fun namePos =>
      Strings.replace rawSdf namePos mpsType.length mpsName

variable [Field K]

/-- The middle of a zone, from the characters of its name; `none` for an undefined zone
color. -/
def zoneCoord (cfg : MpsPlacementConfig K) (zone : List Char) : Option (K × K) :=
  let coordX := digit (zone.getD 3 '0') - cfg.zoneWidth / (2 : ℕ)
  let coordY := digit (zone.getD 4 '0') - cfg.zoneHeight / (2 : ℕ)
  match zone.head? with
  | some 'C' => some (coordX, coordY)
  -- the magenta half lies below 0
  | some 'M' => some (coordX * -1, coordY)
  | _ => none

/-- `rotation` in degrees, turned by a right angle from the referee box's to Gazebo's. -/
def orientation (cfg : MpsPlacementConfig K) (rotation : ℕ) : K :=
  cfg.pi * rotation / (180 : ℕ) - cfg.pi / (2 : ℕ)

/-- The middle of a zone from its coordinates, mirrored for the magenta half. -/
def zoneCenter (cfg : MpsPlacementConfig K) (zone : Zone) : K × K :=
  ((zone.x - cfg.zoneWidth / (2 : ℕ)) * (if zone.team = .CYAN then 1 else -1),
    zone.y - cfg.zoneHeight / (2 : ℕ))

/-- The name of a zone carries its coordinates. -/
theorem zoneCoord_name (cfg : MpsPlacementConfig K) (zone : Zone) :
    cfg.zoneCoord zone.name = some (cfg.zoneCenter zone) := by
  have hvalid := zone.valid
  have hx : digit (Char.ofNat (48 + zone.x)) = zone.x := digit_ofNat (by omega)
  have hy : digit (Char.ofNat (48 + zone.y)) = zone.y := digit_ofNat (by omega)
  cases hteam : zone.team <;> simp [zoneCoord, zoneCenter, Zone.name, hx, hy, hteam]

end MpsPlacementConfig

/-! ## Types of machines -/

/-- The tags in the names of machines with the types they stand for, in the order in which
the plugin looks for them. -/
def mpsTypes : List (String × String) :=
  [("BS", "mps_base"), ("CS", "mps_cap"), ("RS", "mps_ring"), ("DS", "mps_delivery"),
    ("SS", "mps_storage")]

/-- The type of a machine; `none` for an unknown one. -/
def mpsType (mpsName : String) : Option String :=
  (mpsTypes.find? fun type => (Strings.find mpsName type.1).isSome).map Prod.snd

/-- The name contains one of the tags. -/
def HasKnownTag (mpsName : String) : Prop :=
  ∃ tag ∈ ["BS", "CS", "RS", "DS", "SS"], tag.toList <:+: mpsName.toList

theorem mpsType_isSome_iff (mpsName : String) : (mpsType mpsName).isSome ↔ HasKnownTag mpsName := by
  have htags : ["BS", "CS", "RS", "DS", "SS"] = mpsTypes.map Prod.fst := rfl
  rw [mpsType, Option.isSome_map, List.find?_isSome, HasKnownTag, htags]
  simp only [Strings.find_isSome_iff, List.mem_map, exists_exists_and_eq_and]

theorem HasKnownTag.mpsType_ne_none {mpsName : String} (h : HasKnownTag mpsName) :
    mpsType mpsName ≠ none :=
  Option.isSome_iff_ne_none.mp ((mpsType_isSome_iff mpsName).mpr h)

/-! ## The plugin -/

/-- A message of the factory publisher, with the machine whose turn published it. -/
structure SpawnedMps (K : Type) where
  mpsName : String
  spawnMpsMsg : Factory (MpsPose K)

/-- The members of the plugin and what it published, oldest first. -/
structure MpsPlacement (K : Type) where
  machinesPlaced : Bool
  isGameStarted : Bool
  placedMachines : List String
  factoryPub : List (SpawnedMps K)

namespace MpsPlacement

variable {K : Type}

/-- `MpsPlacementPlugin::Load`. -/
def load : MpsPlacement K where
  machinesPlaced := false
  isGameStarted := false
  placedMachines := []
  factoryPub := []

/-- `MpsPlacementPlugin::Reset`. -/
def reset (p : MpsPlacement K) : MpsPlacement K := { p with machinesPlaced := false }

/-- `MpsPlacementPlugin::on_game_state_msg`. -/
def onGameStateMsg (msg : GameState) (p : MpsPlacement K) : MpsPlacement K :=
  if p.isGameStarted = false ∧ msg.phase ≠ .PRE_GAME then { p with isGameStarted := true } else p

/-- `MpsPlacementPlugin::mps_is_placed`. -/
def mpsIsPlaced (p : MpsPlacement K) (mpsName : String) : Bool :=
  p.placedMachines.any (mpsName == ·)

/-- The end of the loop body: publish a message and note the name. -/
def spawn (mpsName newSdf : String) (pose : MpsPose K) (p : MpsPlacement K) : MpsPlacement K :=
  { p with
    -- the message is set through `c_str()`, the name is kept as it is
    factoryPub := p.factoryPub ++
      [⟨mpsName, ⟨Strings.cString newSdf, Strings.cString mpsName, pose⟩⟩]
    placedMachines := p.placedMachines ++ [mpsName] }

section

variable [Field K]

/-- The body of the loop in `on_machine_info_msg`. -/
def placeMachine (cfg : MpsPlacementConfig K) (p : MpsPlacement K) (machine : MachineMsg) :
    Loop.Turn (MpsPlacement K) :=
  let mpsName := machine.name.getD ""
  if p.mpsIsPlaced mpsName then .next p
  else if machine.name.isNone then .next p
  else
    match machine.zone with
    | none => .next p
    | some zone =>
      match cfg.zoneCoord zone.name with
      | none => .leave p
      | some (coordX, coordY) =>
        match mpsType mpsName with
        -- an unknown type ends the loop, where a missing name or zone ends the turn
        | none => .leave p
        | some type =>
          match cfg.newSdf type mpsName with
          | none => .leave p
          | some sdf =>
            .next (p.spawn mpsName sdf ⟨coordX, coordY, cfg.orientation machine.rotation⟩)

/-- `MpsPlacementPlugin::on_machine_info_msg` at a simulation time. -/
def onMachineInfoMsg [LinearOrder K] (cfg : MpsPlacementConfig K) (time : K) (msg : MachineInfo)
    (p : MpsPlacement K) : MpsPlacement K :=
  if p.machinesPlaced ∨ p.isGameStarted = false ∨ time < cfg.waitTimeBeforePlacement then p
  else
    match Loop.forEach (placeMachine cfg) p msg.machines with
    | .leave p => p
    | .next p =>
      if p.placedMachines.length ≠ MPS_COUNT then p else { p with machinesPlaced := true }

end

end MpsPlacement

/-- What happens around the plugin. -/
inductive PlacementEvent (K : Type) where
  | machineInfo (time : K) (msg : MachineInfo)
  | gameState (msg : GameState)
  | reset

def PlacementEvent.perform {K : Type} [Field K] [LinearOrder K] (cfg : MpsPlacementConfig K) :
    PlacementEvent K → MpsPlacement K → MpsPlacement K
  | .machineInfo time msg, p => p.onMachineInfoMsg cfg time msg
  | .gameState msg, p => p.onGameStateMsg msg
  | .reset, p => p.reset

/-- A game state past the phase PRE_GAME. -/
def PlacementEvent.startsGame {K : Type} : PlacementEvent K → Bool
  | .gameState msg => decide (msg.phase ≠ .PRE_GAME)
  | .machineInfo _ _ | .reset => false

/-- Whether the game was seen to start. -/
def gameSeen {K : Type} : Monitor (MpsPlacement K) (PlacementEvent K) Bool where
  start _ := false
  observe seen _ l _ := seen || l.startsGame

/-- The plugin from its loading on. -/
def placementSystem {K : Type} [Field K] [LinearOrder K] (cfg : MpsPlacementConfig K) :
    LTS (MpsPlacement K) (PlacementEvent K) where
  init p := p = .load
  next p l := some (l.perform cfg p)

/-! ## One machine -/

/-- A name with a known tag and a zone. -/
def MachineMsg.Placeable (machine : MachineMsg) (mpsName : String) : Prop :=
  machine.name = some mpsName ∧ machine.zone.isSome ∧ HasKnownTag mpsName

theorem MachineMsg.Placeable.unique {machine : MachineMsg} {mpsName name : String}
    (h : machine.Placeable mpsName) (h' : machine.Placeable name) : name = mpsName :=
  Option.some.inj (h'.1.symm.trans h.1)

/-- A name of no known type that is not placed, and a zone. -/
def MachineMsg.unknown (machine : MachineMsg) (placed : List String) : Bool :=
  machine.name.any fun mpsName =>
    machine.zone.isSome && (mpsType mpsName).isNone && !placed.contains mpsName

/-- The SDF file of every type can be read and names the type. -/
def MpsPlacementConfig.SdfReadable {K : Type} (cfg : MpsPlacementConfig K) : Prop :=
  ∀ type ∈ mpsTypes, ∃ rawSdf ∈ cfg.file (cfg.sdfPath type.2), type.2.toList <:+: rawSdf.toList

instance {K : Type} (cfg : MpsPlacementConfig K) : Decidable cfg.SdfReadable :=
  inferInstanceAs (Decidable (∀ type ∈ mpsTypes, ∃ rawSdf ∈ _, _))

theorem MpsPlacementConfig.SdfReadable.newSdf_isSome {K : Type} {cfg : MpsPlacementConfig K}
    (h : cfg.SdfReadable) {mpsName type : String} (htype : mpsType mpsName = some type) :
    (cfg.newSdf type mpsName).isSome := by
  obtain ⟨entry, hentry, rfl⟩ := Option.map_eq_some_iff.mp htype
  obtain ⟨rawSdf, hfile, hnamed⟩ := h entry (List.mem_of_find?_eq_some hentry)
  rw [newSdf, hfile, Option.bind_some, Option.isSome_map, Strings.find_isSome_iff]
  exact hnamed

/-- The SDF text for a machine; `none` for an unknown type and for a file of no use. -/
def MpsPlacementConfig.sdfOf {K : Type} (cfg : MpsPlacementConfig K) (mpsName : String) :
    Option String :=
  (mpsType mpsName).bind fun type => cfg.newSdf type mpsName

/-- With usable files only the type decides. -/
theorem MpsPlacementConfig.SdfReadable.sdfOf_isSome {K : Type} {cfg : MpsPlacementConfig K}
    (h : cfg.SdfReadable) (mpsName : String) :
    (cfg.sdfOf mpsName).isSome = (mpsType mpsName).isSome := by
  rw [sdfOf]
  cases htype : mpsType mpsName with
  | none => rfl
  | some type =>
    rw [Option.bind_some, h.newSdf_isSome htype]
    rfl

/-- The machine has a name, a zone and an SDF text, so that its turn spawns it unless it is
placed. -/
def MachineMsg.Spawnable {K : Type} (cfg : MpsPlacementConfig K) (machine : MachineMsg)
    (mpsName : String) : Prop :=
  machine.name = some mpsName ∧ machine.zone.isSome ∧ (cfg.sdfOf mpsName).isSome

/-- The machine has a name that is not placed and a zone, and no SDF text. -/
def MachineMsg.stops {K : Type} (cfg : MpsPlacementConfig K) (placed : List String)
    (machine : MachineMsg) : Bool :=
  machine.name.any fun mpsName =>
    machine.zone.isSome && (cfg.sdfOf mpsName).isNone && !placed.contains mpsName

theorem MachineMsg.Spawnable.unique {K : Type} {cfg : MpsPlacementConfig K}
    {machine : MachineMsg} {mpsName name : String} (h : machine.Spawnable cfg mpsName)
    (h' : machine.Spawnable cfg name) : name = mpsName :=
  Option.some.inj (h'.1.symm.trans h.1)

/-- With usable files the machines that can be placed are spawned. -/
theorem MachineMsg.spawnable_iff {K : Type} {cfg : MpsPlacementConfig K} (h : cfg.SdfReadable)
    {machine : MachineMsg} {mpsName : String} :
    machine.Spawnable cfg mpsName ↔ machine.Placeable mpsName := by
  rw [Spawnable, Placeable, h.sdfOf_isSome, mpsType_isSome_iff]

/-- With usable files the unknown machines end the loop. -/
theorem MachineMsg.stops_eq_unknown {K : Type} {cfg : MpsPlacementConfig K}
    (h : cfg.SdfReadable) (placed : List String) (machine : MachineMsg) :
    machine.stops cfg placed = machine.unknown placed := by
  have hnone : ∀ mpsName, (cfg.sdfOf mpsName).isNone = (mpsType mpsName).isNone := fun mpsName => by
    rw [← Option.not_isSome, ← Option.not_isSome, h.sdfOf_isSome]
  simp only [stops, unknown, hnone]

namespace MpsPlacement

variable {K : Type} {p : MpsPlacement K} {machine : MachineMsg} {mpsName : String}

theorem mpsIsPlaced_iff : p.mpsIsPlaced mpsName ↔ mpsName ∈ p.placedMachines := by
  simp [mpsIsPlaced]

/-- A named machine with a zone and without a known type, unless it has been placed. -/
theorem unknown_iff {placed : List String} :
    machine.unknown placed ↔ ∃ mpsName, machine.name = some mpsName ∧
      (machine.zone.isSome ∧ mpsType mpsName = none) ∧ mpsName ∉ placed := by
  simp [MachineMsg.unknown, Option.any_eq_true]

/-- A machine that can be placed is not unknown. -/
theorem not_unknown_of_placeable (h : machine.Placeable mpsName) (placed : List String) :
    ¬ machine.unknown placed := by
  intro hunknown
  obtain ⟨name, hname, ⟨-, htype⟩, -⟩ := unknown_iff.mp hunknown
  obtain rfl : mpsName = name := Option.some.inj (h.1.symm.trans hname)
  exact h.2.2.mpsType_ne_none htype

theorem stops_iff {cfg : MpsPlacementConfig K} {placed : List String} :
    machine.stops cfg placed ↔ ∃ mpsName, machine.name = some mpsName ∧
      (machine.zone.isSome ∧ cfg.sdfOf mpsName = none) ∧ mpsName ∉ placed := by
  simp [MachineMsg.stops, Option.any_eq_true]

/-- Placing a machine with an SDF text leaves those that end the loop as they are. -/
theorem stops_concat {cfg : MpsPlacementConfig K} (machine : MachineMsg) (placed : List String)
    (hsdf : (cfg.sdfOf mpsName).isSome) :
    machine.stops cfg (placed ++ [mpsName]) = machine.stops cfg placed := by
  rw [Bool.eq_iff_iff, stops_iff, stops_iff]
  refine exists_congr fun name => and_congr_right fun _ => and_congr_right fun hnone => ?_
  have hne : name ≠ mpsName := by
    rintro rfl
    exact Option.isSome_iff_ne_none.mp hsdf hnone.2
  rw [List.mem_append, List.mem_singleton, or_iff_left hne]

/-! ### How far the loop gets -/

/-- The machines before the first unknown one. -/
def beforeUnknown (placed : List String) (machines : List MachineMsg) : List MachineMsg :=
  machines.takeWhile fun machine => !machine.unknown placed

theorem beforeUnknown_cons_of_unknown {placed : List String} (h : machine.unknown placed)
    (machines : List MachineMsg) : beforeUnknown placed (machine :: machines) = [] := by
  rw [beforeUnknown, List.takeWhile_cons_of_neg]
  rw [h, Bool.not_true]
  exact Bool.false_ne_true

theorem beforeUnknown_cons_of_not {placed : List String} (h : ¬ machine.unknown placed)
    (machines : List MachineMsg) :
    beforeUnknown placed (machine :: machines) = machine :: beforeUnknown placed machines := by
  rw [beforeUnknown, List.takeWhile_cons_of_pos, beforeUnknown]
  rw [Bool.not_eq_true', Bool.not_eq_true _ |>.mp h]

theorem beforeUnknown_eq_self {placed : List String} {machines : List MachineMsg}
    (h : ∀ machine ∈ machines, ¬ machine.unknown placed) :
    beforeUnknown placed machines = machines := by
  rw [beforeUnknown, List.takeWhile_eq_self_iff]
  intro machine hmem
  rw [Bool.not_eq_true', Bool.not_eq_true _ |>.mp (h machine hmem)]

/-- The machines before the first one that ends the loop. -/
def beforeStop (cfg : MpsPlacementConfig K) (placed : List String) (machines : List MachineMsg) :
    List MachineMsg :=
  machines.takeWhile fun machine => !machine.stops cfg placed

theorem beforeStop_eq_beforeUnknown {cfg : MpsPlacementConfig K} (hsdf : cfg.SdfReadable)
    (placed : List String) (machines : List MachineMsg) :
    beforeStop cfg placed machines = beforeUnknown placed machines := by
  simp only [beforeStop, beforeUnknown, MachineMsg.stops_eq_unknown hsdf]

theorem beforeStop_concat {cfg : MpsPlacementConfig K} (placed : List String)
    (machines : List MachineMsg) (hsdf : (cfg.sdfOf mpsName).isSome) :
    beforeStop cfg (placed ++ [mpsName]) machines = beforeStop cfg placed machines := by
  simp only [beforeStop, stops_concat _ placed hsdf]

/-! ### What the plugin remembers -/

/-- The names of the machines for which a factory message was published. -/
def published (p : MpsPlacement K) : List String := p.factoryPub.map SpawnedMps.mpsName

/-- The names in the factory messages. -/
def cloneModelNames (p : MpsPlacement K) : List String :=
  p.factoryPub.map fun spawned => spawned.spawnMpsMsg.cloneModelName

/-- The plugin knows for which machines it published, and published for none twice. The
messages carry what is left of the names as C strings. -/
structure Recorded (p : MpsPlacement K) : Prop where
  published : p.published = p.placedMachines
  nodup : p.placedMachines.Nodup
  cloneModelNames : p.cloneModelNames = p.placedMachines.map Strings.cString

/-- A spawned machine is recorded. -/
theorem Recorded.spawn (h : p.Recorded) {newSdf : String} {pose : MpsPose K}
    (hmem : mpsName ∉ p.placedMachines) : (p.spawn mpsName newSdf pose).Recorded where
  published := by
    show (p.factoryPub ++ [_]).map SpawnedMps.mpsName = _
    rw [List.map_append, ← MpsPlacement.published, h.published]
    rfl
  nodup := by
    show (p.placedMachines ++ [mpsName]).Nodup
    rw [← List.concat_eq_append]
    exact h.nodup.concat hmem
  cloneModelNames := by
    show (p.factoryPub ++ [_]).map _ = (p.placedMachines ++ [mpsName]).map Strings.cString
    rw [List.map_append, List.map_append, ← h.cloneModelNames]
    rfl

theorem Recorded.withFlags (h : p.Recorded) (machinesPlaced isGameStarted : Bool) :
    { p with machinesPlaced := machinesPlaced, isGameStarted := isGameStarted }.Recorded :=
  ⟨h.published, h.nodup, h.cloneModelNames⟩

/-- The messages carry the names that are kept exactly if no name kept has a NUL. -/
theorem Recorded.cloneModelNames_eq_iff (h : p.Recorded) :
    p.cloneModelNames = p.placedMachines ↔
      ∀ mpsName ∈ p.placedMachines, Strings.nul ∉ mpsName.toList := by
  rw [h.cloneModelNames]
  constructor
  · intro heq mpsName hmem
    rw [← heq, List.mem_map] at hmem
    obtain ⟨name, -, rfl⟩ := hmem
    exact Strings.not_nul_mem_cString name
  · intro hnul
    have hwhole : ∀ mpsName ∈ p.placedMachines, Strings.cString mpsName = id mpsName :=
      fun mpsName hmem => Strings.cString_eq (hnul mpsName hmem)
    rw [List.map_congr_left hwhole, List.map_id]

/-- The invariant of the plugin; `seen` tells whether the game was seen to start. -/
structure Consistent (p : MpsPlacement K) (seen : Bool) : Prop where
  recorded : p.Recorded
  started : p.isGameStarted = seen
  early : p.isGameStarted = false → p.factoryPub = []
  latched : p.machinesPlaced = true → p.placedMachines.length = MPS_COUNT

theorem consistent_load : (load : MpsPlacement K).Consistent false :=
  ⟨⟨rfl, List.nodup_nil, rfl⟩, rfl, fun _ => rfl, nofun⟩

variable [Field K] {cfg : MpsPlacementConfig K}

/-! ### One turn -/

/-- A machine without a name or a zone, or one that is placed, is passed over. -/
theorem placeMachine_of_ignored
    (h : ∀ mpsName, machine.name = some mpsName → machine.zone.isSome →
      mpsName ∈ p.placedMachines) : placeMachine cfg p machine = .next p := by
  rw [placeMachine]
  cases hname : machine.name with
  | none => split <;> rfl
  | some mpsName =>
    cases hzone : machine.zone with
    | none =>
      split
      · rfl
      · split <;> rfl
    | some zone =>
      have hmem := h mpsName hname (by rw [hzone, Option.isSome_some])
      rw [Option.getD_some, if_pos (mpsIsPlaced_iff.mpr hmem)]

/-- A machine with a name and a zone that is not placed reaches the choice of its type. -/
theorem placeMachine_eq {zone : Zone} (hname : machine.name = some mpsName)
    (hplaced : mpsName ∉ p.placedMachines) (hzone : machine.zone = some zone) :
    placeMachine cfg p machine = (cfg.sdfOf mpsName).elim (.leave p) fun sdf =>
      .next (p.spawn mpsName sdf ⟨(cfg.zoneCenter zone).1, (cfg.zoneCenter zone).2,
        cfg.orientation machine.rotation⟩) := by
  rw [placeMachine, hname, Option.getD_some, if_neg (mpsIsPlaced_iff.not.mpr hplaced), hzone,
    Option.isNone_some, if_neg Bool.false_ne_true, MpsPlacementConfig.sdfOf]
  simp only [MpsPlacementConfig.zoneCoord_name]
  cases htype : mpsType mpsName with
  | none => rfl
  | some type =>
    rw [Option.bind_some]
    show (match cfg.newSdf type mpsName with | none => _ | some sdf => _) = _
    cases cfg.newSdf type mpsName <;> rfl

/-! ### The exits of the body -/

/-- A turn for a machine that does not end the loop, and is placed if it can be spawned,
changes nothing. -/
theorem placeMachine_of_skip (hstops : ¬ machine.stops cfg p.placedMachines)
    (hplaced : ∀ mpsName, machine.Spawnable cfg mpsName → mpsName ∈ p.placedMachines) :
    placeMachine cfg p machine = .next p := by
  refine placeMachine_of_ignored fun mpsName hname hzone => ?_
  by_cases hsdf : (cfg.sdfOf mpsName).isSome
  · exact hplaced mpsName ⟨hname, hzone, hsdf⟩
  · rw [Option.not_isSome_iff_eq_none] at hsdf
    by_contra hmem
    exact hstops (stops_iff.mpr ⟨mpsName, hname, ⟨hzone, hsdf⟩, hmem⟩)

/-- A machine without an SDF text ends the loop. -/
theorem placeMachine_of_stops (hstops : machine.stops cfg p.placedMachines) :
    placeMachine cfg p machine = .leave p := by
  obtain ⟨mpsName, hname, ⟨hzone, hnone⟩, hmem⟩ := stops_iff.mp hstops
  obtain ⟨zone, hzone⟩ := Option.isSome_iff_exists.mp hzone
  rw [placeMachine_eq hname hmem hzone, hnone]
  rfl

/-- A machine that can be spawned and is not placed is spawned. -/
theorem placeMachine_of_spawnable (h : machine.Spawnable cfg mpsName)
    (hmem : mpsName ∉ p.placedMachines) :
    ∃ sdf pose, placeMachine cfg p machine = .next (p.spawn mpsName sdf pose) := by
  obtain ⟨hname, hzone, hsdf⟩ := h
  obtain ⟨zone, hzone⟩ := Option.isSome_iff_exists.mp hzone
  obtain ⟨sdf, hsdf⟩ := Option.isSome_iff_exists.mp hsdf
  rw [placeMachine_eq hname hmem hzone, hsdf]
  exact ⟨sdf, _, rfl⟩

/-- Whatever the files hold, a turn changes nothing or spawns a machine that is not placed. -/
theorem placeMachine_cases (cfg : MpsPlacementConfig K) (p : MpsPlacement K)
    (machine : MachineMsg) :
    (placeMachine cfg p machine).state = p ∨
      ∃ mpsName sdf pose, mpsName ∉ p.placedMachines ∧
        (placeMachine cfg p machine).state = p.spawn mpsName sdf pose := by
  by_cases hignored : ∀ mpsName, machine.name = some mpsName → machine.zone.isSome →
      mpsName ∈ p.placedMachines
  · rw [placeMachine_of_ignored hignored]
    exact .inl rfl
  · push Not at hignored
    obtain ⟨mpsName, hname, hzone, hmem⟩ := hignored
    obtain ⟨zone, hzone⟩ := Option.isSome_iff_exists.mp hzone
    rw [placeMachine_eq hname hmem hzone]
    cases cfg.sdfOf mpsName with
    | none => exact .inl rfl
    | some sdf => exact .inr ⟨mpsName, sdf, _, hmem, rfl⟩

/-! ## The loop -/

/-- The loop adds the machines that can be spawned and stand before the first one that ends
it. -/
theorem mem_forEach_iff (cfg : MpsPlacementConfig K) (machines : List MachineMsg)
    (p : MpsPlacement K) (mpsName : String) :
    mpsName ∈ (Loop.forEach (placeMachine cfg) p machines).state.placedMachines ↔
      mpsName ∈ p.placedMachines ∨
        ∃ machine ∈ beforeStop cfg p.placedMachines machines, machine.Spawnable cfg mpsName := by
  induction machines generalizing p with
  | nil => simp [Loop.forEach, Loop.Turn.state, beforeStop]
  | cons machine machines ih =>
    rw [beforeStop, List.takeWhile_cons]
    by_cases hstops : machine.stops cfg p.placedMachines
    · rw [Loop.forEach_cons_of_leave (placeMachine_of_stops hstops), hstops]
      simp [Loop.Turn.state]
    rw [Bool.not_eq_true _ |>.mp hstops, Bool.not_false, if_pos rfl, ← beforeStop,
      List.exists_mem_cons_iff]
    by_cases hskip : ∀ name, machine.Spawnable cfg name → name ∈ p.placedMachines
    · rw [Loop.forEach_cons_of_next (placeMachine_of_skip hstops hskip), ih, ← or_assoc,
        or_iff_left_of_imp (hskip mpsName)]
    · push Not at hskip
      obtain ⟨name, hspawnable, hmem⟩ := hskip
      obtain ⟨sdf, pose, hturn⟩ := placeMachine_of_spawnable hspawnable hmem
      have hname : machine.Spawnable cfg mpsName ↔ mpsName = name :=
        ⟨fun h => hspawnable.unique h, fun h => h ▸ hspawnable⟩
      rw [Loop.forEach_cons_of_next hturn, ih, spawn, beforeStop_concat _ _ hspawnable.2.2,
        List.mem_append, List.mem_singleton, or_assoc, hname]

/-- What every spawning of a machine that is not placed keeps holds after the loop. -/
theorem forEach_invariant {P : MpsPlacement K → Prop}
    (hspawn : ∀ p mpsName sdf pose, P p → mpsName ∉ p.placedMachines →
      P (p.spawn mpsName sdf pose))
    (hp : P p) (machines : List MachineMsg) :
    P (Loop.forEach (placeMachine cfg) p machines).state := by
  refine Loop.forEach_invariant (fun p machine hp => ?_) hp machines
  obtain heq | ⟨mpsName, sdf, pose, hmem, heq⟩ := placeMachine_cases cfg p machine
  · rw [heq]
    exact hp
  · rw [heq]
    exact hspawn p mpsName sdf pose hp hmem

/-! ## What holds in every state -/

/-- So are all that a message places. -/
theorem Recorded.forEach (h : p.Recorded) (machines : List MachineMsg) :
    (Loop.forEach (placeMachine cfg) p machines).state.Recorded :=
  forEach_invariant (fun _ _ _ _ hp hmem => hp.spawn hmem) h machines

variable [LinearOrder K] {time : K} {seen : Bool}

/-- The plugin listens to machine information. -/
def Enabled (cfg : MpsPlacementConfig K) (time : K) (p : MpsPlacement K) : Prop :=
  p.isGameStarted = true ∧ p.machinesPlaced = false ∧ cfg.waitTimeBeforePlacement ≤ time

instance (cfg : MpsPlacementConfig K) (time : K) (p : MpsPlacement K) :
    Decidable (p.Enabled cfg time) :=
  inferInstanceAs (Decidable (_ ∧ _ ∧ _))

theorem onMachineInfoMsg_of_not_enabled (h : ¬ p.Enabled cfg time) (msg : MachineInfo) :
    p.onMachineInfoMsg cfg time msg = p := by
  rw [onMachineInfoMsg, if_pos]
  rw [Enabled, not_and_or, not_and_or, Bool.not_eq_true, Bool.not_eq_false, not_le] at h
  tauto

/-- A message that gets through sets at most the latch after the loop. -/
theorem onMachineInfoMsg_of_enabled (h : p.Enabled cfg time) (msg : MachineInfo) :
    ∃ placed, (placed = true →
        (Loop.forEach (placeMachine cfg) p msg.machines).state.placedMachines.length
          = MPS_COUNT) ∧
      p.onMachineInfoMsg cfg time msg =
        { (Loop.forEach (placeMachine cfg) p msg.machines).state with
          machinesPlaced := placed } := by
  obtain ⟨hstarted, hplaced, htime⟩ := h
  have hguard : ¬ (p.machinesPlaced ∨ p.isGameStarted = false
      ∨ time < cfg.waitTimeBeforePlacement) := by
    simp [hstarted, hplaced, htime]
  -- the loop leaves the latch, which is set after it
  have hlatch : (Loop.forEach (placeMachine cfg) p msg.machines).state.machinesPlaced = false :=
    forEach_invariant (P := fun p => p.machinesPlaced = false) (fun _ _ _ _ hp _ => hp) hplaced _
  have hsame : ∀ q : MpsPlacement K, q.machinesPlaced = false →
      q = { q with machinesPlaced := false } := by
    rintro ⟨_, _, _, _⟩ rfl
    rfl
  rw [onMachineInfoMsg, if_neg hguard]
  cases hloop : Loop.forEach (placeMachine cfg) p msg.machines with
  | leave q =>
    rw [hloop] at hlatch
    exact ⟨false, nofun, hsame q hlatch⟩
  | next q =>
    rw [hloop] at hlatch
    by_cases hcount : q.placedMachines.length = MPS_COUNT
    · exact ⟨true, fun _ => hcount, if_neg (not_not.mpr hcount)⟩
    · exact ⟨false, nofun, (if_pos hcount).trans (hsame q hlatch)⟩

/-- So it is after a message from the refbox. -/
theorem Consistent.machineInfo (h : p.Consistent seen) (msg : MachineInfo) :
    (p.onMachineInfoMsg cfg time msg).Consistent seen := by
  by_cases henabled : p.Enabled cfg time
  · obtain ⟨placed, hcount, heq⟩ := onMachineInfoMsg_of_enabled henabled msg
    have hrecorded : (Loop.forEach (placeMachine cfg) p msg.machines).state.Recorded :=
      h.recorded.forEach msg.machines
    have hstarted : (Loop.forEach (placeMachine cfg) p msg.machines).state.isGameStarted = true :=
      forEach_invariant (P := fun p => p.isGameStarted = true) (fun _ _ _ _ hp _ => hp) henabled.1 _
    rw [heq]
    refine ⟨hrecorded.withFlags _ _, ?_, fun hnot => ?_, hcount⟩
    · rw [← h.started, henabled.1]
      exact hstarted
    · have hfalse : true = false := hstarted.symm.trans hnot
      cases hfalse
  · rw [onMachineInfoMsg_of_not_enabled henabled]
    exact h

theorem Consistent.perform (h : p.Consistent seen) (l : PlacementEvent K) :
    (l.perform cfg p).Consistent (seen || l.startsGame) := by
  cases l with
  | machineInfo time msg =>
    rw [PlacementEvent.startsGame, Bool.or_false]
    exact h.machineInfo msg
  | gameState msg =>
    show (p.onGameStateMsg msg).Consistent (seen || decide (msg.phase ≠ .PRE_GAME))
    rw [onGameStateMsg]
    split_ifs with hstart
    · rw [decide_eq_true hstart.2, Bool.or_true]
      exact ⟨h.recorded.withFlags _ _, rfl, nofun, h.latched⟩
    · have hseen : (seen || decide (msg.phase ≠ .PRE_GAME)) = seen := by
        rw [not_and_or, Bool.not_eq_false, h.started] at hstart
        cases hstart with
        | inl hseen => rw [hseen, Bool.true_or]
        | inr hphase => rw [decide_eq_false hphase, Bool.or_false]
      rw [hseen]
      exact h
  | reset =>
    rw [PlacementEvent.startsGame, Bool.or_false]
    exact ⟨h.recorded.withFlags _ _, h.started, h.early, nofun⟩

/-- Only machine information that gets through leads to a message. -/
theorem enabled_of_published {l : PlacementEvent K}
    (h : (l.perform cfg p).factoryPub ≠ p.factoryPub) :
    ∃ time msg, l = .machineInfo time msg ∧ p.Enabled cfg time := by
  cases l with
  | machineInfo time msg =>
    refine ⟨time, msg, rfl, ?_⟩
    by_contra hnot
    exact h (by rw [PlacementEvent.perform, onMachineInfoMsg_of_not_enabled hnot])
  | gameState msg =>
    refine absurd ?_ h
    show (p.onGameStateMsg msg).factoryPub = p.factoryPub
    rw [onGameStateMsg]
    split_ifs <;> rfl
  | reset => exact absurd rfl h

end MpsPlacement

/-- The values of `cfg/config.yaml`, with the SDF files reduced to their first lines. -/
def shippedPlacement : MpsPlacementConfig ℚ where
  waitTimeBeforePlacement := 15
  zoneHeight := 1
  zoneWidth := 1
  pi := 884279719003555 / 281474976710656
  gazeboRcll := "/gazebo-rcll"
  file path := (mpsTypes.find? fun type =>
      path == "/gazebo-rcll/models/" ++ type.2 ++ "/model.sdf").map fun type =>
    "<sdf version=\"1.4\">\n  <model name=\"" ++ type.2 ++ "\">\n"

/-- An entry with a zone. -/
def zonedMachine (mpsName : String) : MachineMsg where
  name := some mpsName
  zone := some ⟨.CYAN, 5, 4, by decide⟩
  rotation := 90

/-- At most one message carries a name, the names in the messages are the names kept, nothing
is published before the game was seen to start and the waiting time has passed, and the latch
is set with fourteen machines only. -/
structure SpawnedOnce {K : Type} [Field K] [LinearOrder K] (cfg : MpsPlacementConfig K)
    (p : MpsPlacement K) (seen : Bool) : Prop where
  once : ∀ mpsName, p.cloneModelNames.count mpsName ≤ 1
  placed : p.cloneModelNames = p.placedMachines
  nodup : p.placedMachines.Nodup
  early : seen = false → p.factoryPub = []
  timely : ∀ l p', (placementSystem cfg).next p l = some p' → p'.factoryPub ≠ p.factoryPub →
    seen = true ∧ ∃ time msg, l = .machineInfo time msg ∧ cfg.waitTimeBeforePlacement ≤ time
  latched : p.machinesPlaced = true → p.placedMachines.length = MPS_COUNT

/-- If the event is machine information that gets through, the machines it spawns have no NUL
in their names. -/
def NamesWhole {K : Type} [Field K] [LinearOrder K] (cfg : MpsPlacementConfig K)
    (p : MpsPlacement K) : PlacementEvent K → Prop
  | .machineInfo time msg => p.Enabled cfg time →
    ∀ machine ∈ MpsPlacement.beforeStop cfg p.placedMachines msg.machines, ∀ mpsName,
      machine.Spawnable cfg mpsName → mpsName ∉ p.placedMachines → Strings.nul ∉ mpsName.toList
  | .gameState _ | .reset => True

namespace MpsPlacement

variable {K : Type} [Field K] [LinearOrder K] {cfg : MpsPlacementConfig K} {p : MpsPlacement K}
  {seen : Bool}

/-- What the plugin keeps is what is asked for, as long as no name kept has a NUL. -/
theorem Consistent.spawnedOnce_iff (h : p.Consistent seen) :
    SpawnedOnce cfg p seen ↔ ∀ mpsName ∈ p.placedMachines, Strings.nul ∉ mpsName.toList := by
  refine ⟨fun hspawned => h.recorded.cloneModelNames_eq_iff.mp hspawned.placed, fun hnul => ?_⟩
  have hplaced := h.recorded.cloneModelNames_eq_iff.mpr hnul
  refine ⟨?_, hplaced, h.recorded.nodup, ?_, ?_, h.latched⟩
  · rw [hplaced]
    exact List.nodup_iff_count_le_one.mp h.recorded.nodup
  · intro hseen
    exact h.early (h.started.trans hseen)
  · rintro l _ hs hpub
    cases hs
    obtain ⟨time, msg, hl, hstarted, -, htime⟩ := enabled_of_published hpub
    exact ⟨h.started.symm.trans hstarted, time, msg, hl, htime⟩

/-- The names kept after a step without a NUL stay so exactly if the step meets the
condition. -/
theorem nul_not_mem_perform_iff (l : PlacementEvent K)
    (hnul : ∀ mpsName ∈ p.placedMachines, Strings.nul ∉ mpsName.toList) :
    (∀ mpsName ∈ (l.perform cfg p).placedMachines, Strings.nul ∉ mpsName.toList) ↔
      NamesWhole cfg p l := by
  cases l with
  | machineInfo time msg =>
    rw [PlacementEvent.perform]
    by_cases henabled : p.Enabled cfg time
    · obtain ⟨placed, -, heq⟩ := onMachineInfoMsg_of_enabled henabled msg
      rw [heq]
      show (∀ mpsName ∈ (Loop.forEach (placeMachine cfg) p msg.machines).state.placedMachines,
        Strings.nul ∉ mpsName.toList) ↔ _
      simp only [mem_forEach_iff]
      constructor
      · rintro hafter - machine hmem mpsName hspawnable -
        exact hafter mpsName (.inr ⟨machine, hmem, hspawnable⟩)
      · rintro hwhole mpsName (hold | ⟨machine, hmem, hspawnable⟩)
        · exact hnul mpsName hold
        · by_cases hold : mpsName ∈ p.placedMachines
          · exact hnul mpsName hold
          · exact hwhole henabled machine hmem mpsName hspawnable hold
    · rw [onMachineInfoMsg_of_not_enabled henabled]
      exact iff_of_true hnul fun hen => absurd hen henabled
  | gameState msg =>
    have hsame : (PlacementEvent.perform cfg (.gameState msg) p).placedMachines
        = p.placedMachines := by
      rw [PlacementEvent.perform, onGameStateMsg]
      split_ifs <;> rfl
    rw [hsame]
    exact iff_of_true hnul trivial
  | reset => exact iff_of_true hnul trivial

/-- Names without a NUL meet the condition in every state. -/
theorem namesWhole_machineInfo (cfg : MpsPlacementConfig K) (p : MpsPlacement K) (time : K)
    {msg : MachineInfo}
    (h : ∀ machine ∈ msg.machines, ∀ mpsName ∈ machine.name, Strings.nul ∉ mpsName.toList) :
    NamesWhole cfg p (.machineInfo time msg) := by
  rintro - machine hmem mpsName hspawnable -
  exact h machine ((List.takeWhile_prefix _).subset hmem) mpsName hspawnable.1

end MpsPlacement

/-- In every run that spawns no machine with a NUL in its name no machine is spawned twice or
too early, and the first step that spawns one breaks this. -/
theorem spawned_once {K : Type} [Field K] [LinearOrder K] (cfg : MpsPlacementConfig K)
    {p : MpsPlacement K} {seen : Bool}
    (h : ((placementSystem cfg).watch gameSeen).Reach (fun s l => NamesWhole cfg s.1 l)
      (p, seen)) :
    SpawnedOnce cfg p seen ∧
      ∀ l, SpawnedOnce cfg (l.perform cfg p) (seen || l.startsGame) ↔ NamesWhole cfg p l := by
  have hinv : p.Consistent seen ∧ ∀ mpsName ∈ p.placedMachines, Strings.nul ∉ mpsName.toList := by
    refine LTS.Reach.watch_invariant (P := fun p seen => p.Consistent seen ∧ ∀ mpsName ∈
      p.placedMachines, Strings.nul ∉ mpsName.toList) ?_ ?_ h
    · rintro _ rfl
      exact ⟨MpsPlacement.consistent_load, nofun⟩
    · rintro p seen l _ ⟨hp, hnul⟩ hwhole hs
      cases hs
      exact ⟨hp.perform l, (MpsPlacement.nul_not_mem_perform_iff l hnul).mpr hwhole⟩
  obtain ⟨hp, hnul⟩ := hinv
  refine ⟨hp.spawnedOnce_iff.mpr hnul, fun l => ?_⟩
  rw [(hp.perform l).spawnedOnce_iff, MpsPlacement.nul_not_mem_perform_iff l hnul]

/-- Machine information before the game, too early in it, and in time for all machines. -/
def fieldEvents : List (PlacementEvent ℚ) :=
  [.machineInfo 20 ⟨[zonedMachine "C-BS"]⟩, .gameState ⟨.SETUP⟩,
    .machineInfo 10 ⟨[zonedMachine "C-BS"]⟩, .machineInfo 20 ⟨["C-BS", "C-CS1", "C-CS2", "C-RS1",
      "C-RS2", "C-DS", "C-SS", "C-CS1", "M-BS", "M-CS1", "M-CS2", "M-RS1", "M-RS2", "M-DS",
      "M-SS"].map zonedMachine⟩]

theorem spawned_once_fourteen :
    ∃ p seen, ((placementSystem shippedPlacement).watch gameSeen).Reach
        (fun s l => NamesWhole shippedPlacement s.1 l) (p, seen) ∧
      p.machinesPlaced = true ∧ p.placedMachines.length = 14 ∧
      p.cloneModelNames.count "C-CS1" = 1 := by
  have hwhole : ∀ l ∈ fieldEvents, ∀ s : MpsPlacement ℚ × Bool,
      NamesWhole shippedPlacement s.1 l := by
    intro l hl s
    rw [fieldEvents, List.mem_cons, List.mem_cons, List.mem_cons, List.mem_singleton] at hl
    obtain rfl | rfl | rfl | rfl := hl
    · exact MpsPlacement.namesWhole_machineInfo _ _ _ (by decide +kernel)
    · trivial
    · exact MpsPlacement.namesWhole_machineInfo _ _ _ (by decide +kernel)
    · exact MpsPlacement.namesWhole_machineInfo _ _ _ (by decide +kernel)
  obtain ⟨⟨p, seen⟩, hreach, hp⟩ :=
    LTS.exists_reach (T := (placementSystem shippedPlacement).watch gameSeen)
      (C := fun s l => NamesWhole shippedPlacement s.1 l) (s := (.load, false)) (l := fieldEvents)
      (p := fun p => decide (p.1.machinesPlaced = true ∧ p.1.cloneModelNames.count "C-CS1" ≠ 0))
      ⟨rfl, rfl⟩ (LTS.meets_of_forall hwhole _) (by decide +kernel)
  obtain ⟨hplaced, hcount⟩ : p.machinesPlaced = true ∧ p.cloneModelNames.count "C-CS1" ≠ 0 :=
    of_decide_eq_true hp
  obtain ⟨hspawned, -⟩ := spawned_once shippedPlacement hreach
  have hone := hspawned.once "C-CS1"
  exact ⟨p, seen, hreach, hplaced, hspawned.latched hplaced, by omega⟩

/-- Two machines whose names differ behind a NUL only are spawned under one name. -/
theorem spawned_twice :
    ¬ ∀ p seen, ((placementSystem shippedPlacement).watch gameSeen).Reachable (p, seen) →
      SpawnedOnce shippedPlacement p seen := by
  intro h
  obtain ⟨⟨p, seen⟩, hreach, hp⟩ :=
    LTS.exists_reachable (T := (placementSystem shippedPlacement).watch gameSeen)
      (s := (.load, false))
      (l := [.gameState ⟨.SETUP⟩,
        .machineInfo 20 ⟨["C-BS\x00a", "C-BS\x00b"].map zonedMachine⟩])
      (p := fun p => decide (p.1.cloneModelNames = ["C-BS", "C-BS"])) ⟨rfl, rfl⟩ (by decide +kernel)
  have honce := (h p seen hreach).once "C-BS"
  rw [of_decide_eq_true hp] at honce
  exact absurd honce (by decide)

/-! ## Which messages are placed completely -/

/-- Every machine that can be placed is placed or stands before the first unknown one. -/
def ListedInTime (placed : List String) (machines : List MachineMsg) : Prop :=
  ∀ machine ∈ machines, ∀ mpsName, machine.Placeable mpsName → mpsName ∈ placed ∨
    ∃ machine' ∈ MpsPlacement.beforeUnknown placed machines, machine'.Placeable mpsName

/-- No machine is unknown, or none is left to be placed. -/
def OrderFree (placed : List String) (machines : List MachineMsg) : Prop :=
  (∀ machine ∈ machines, ¬ machine.unknown placed) ∨
    ∀ machine ∈ machines, ∀ mpsName, machine.Placeable mpsName → mpsName ∈ placed

theorem OrderFree.perm {placed : List String} {machines machines' : List MachineMsg}
    (h : OrderFree placed machines) (hperm : machines'.Perm machines) :
    OrderFree placed machines' := by
  cases h with
  | inl hknown => exact .inl fun machine hmem => hknown machine (hperm.subset hmem)
  | inr hplaced => exact .inr fun machine hmem => hplaced machine (hperm.subset hmem)

theorem OrderFree.listedInTime {placed : List String} {machines : List MachineMsg}
    (h : OrderFree placed machines) : ListedInTime placed machines := by
  intro machine hmem mpsName hplaceable
  cases h with
  | inl hknown =>
    rw [MpsPlacement.beforeUnknown_eq_self hknown]
    exact .inr ⟨machine, hmem, hplaceable⟩
  | inr hplaced => exact .inl (hplaced machine hmem mpsName hplaceable)

namespace MpsPlacement

variable {K : Type} [Field K] [LinearOrder K] {cfg : MpsPlacementConfig K} {time : K}
  {p : MpsPlacement K}

/-- What has been published is recorded in every run. -/
theorem recorded_of_reachable (h : (placementSystem cfg).Reachable p) : p.Recorded := by
  have hinv : ∃ seen, p.Consistent seen := by
    refine LTS.Reach.invariant (P := fun p => ∃ seen, p.Consistent seen) ?_ ?_ h
    · rintro _ rfl
      exact ⟨false, consistent_load⟩
    · rintro p l _ ⟨seen, hp⟩ - hs
      cases hs
      exact ⟨_, hp.perform l⟩
  obtain ⟨_, hp⟩ := hinv
  exact hp.recorded

theorem mem_published_iff (hsdf : cfg.SdfReadable) (hrecorded : p.Recorded)
    (henabled : p.Enabled cfg time) (machines : List MachineMsg) (mpsName : String) :
    mpsName ∈ (p.onMachineInfoMsg cfg time ⟨machines⟩).published ↔
      mpsName ∈ p.published ∨
        ∃ machine ∈ beforeUnknown p.published machines, machine.Placeable mpsName := by
  obtain ⟨placed, -, heq⟩ := onMachineInfoMsg_of_enabled henabled ⟨machines⟩
  have hloop : (Loop.forEach (placeMachine cfg) p machines).state.Recorded :=
    hrecorded.forEach machines
  simp only [heq, hrecorded.published, ← beforeStop_eq_beforeUnknown hsdf,
    ← MachineMsg.spawnable_iff hsdf, ← mem_forEach_iff]
  rw [← hloop.published]
  rfl

/-- The message places all its machines exactly if they are listed in time. -/
theorem law_iff (hsdf : cfg.SdfReadable) (hrecorded : p.Recorded) (henabled : p.Enabled cfg time)
    (machines : List MachineMsg) :
    (∀ mpsName, mpsName ∈ (p.onMachineInfoMsg cfg time ⟨machines⟩).published ↔
        mpsName ∈ p.published ∨ ∃ machine ∈ machines, machine.Placeable mpsName) ↔
      ListedInTime p.published machines := by
  simp only [mem_published_iff hsdf hrecorded henabled]
  constructor
  · intro hlaw machine hmem mpsName hplaceable
    exact (hlaw mpsName).mpr (.inr ⟨machine, hmem, hplaceable⟩)
  · intro hlisted mpsName
    refine or_congr_right' fun hnot => ⟨?_, ?_⟩
    · rintro ⟨machine, hmem, hplaceable⟩
      exact ⟨machine, (List.takeWhile_prefix _).subset hmem, hplaceable⟩
    · rintro ⟨machine, hmem, hplaceable⟩
      exact (hlisted machine hmem mpsName hplaceable).resolve_left hnot

/-- An unknown machine and one to be placed, in both orders. -/
theorem orderFree_of_perm_published (hsdf : cfg.SdfReadable) (hrecorded : p.Recorded)
    (henabled : p.Enabled cfg time) {machines : List MachineMsg}
    (h : ∀ machines' : List MachineMsg, machines'.Perm machines → ∀ mpsName,
      mpsName ∈ (p.onMachineInfoMsg cfg time ⟨machines'⟩).published ↔
        mpsName ∈ (p.onMachineInfoMsg cfg time ⟨machines⟩).published) :
    OrderFree p.published machines := by
  by_contra hnot
  rw [OrderFree, not_or] at hnot
  push Not at hnot
  obtain ⟨⟨machine₁, hmem₁, hunknown⟩, machine₂, hmem₂, mpsName, hplaceable, hmissing⟩ := hnot
  have hfirst := h _ (List.perm_cons_erase hmem₁).symm mpsName
  have hlast := h _ (List.perm_cons_erase hmem₂).symm mpsName
  rw [mem_published_iff hsdf hrecorded henabled] at hfirst hlast
  rw [beforeUnknown_cons_of_unknown hunknown] at hfirst
  rw [beforeUnknown_cons_of_not (not_unknown_of_placeable hplaceable _)] at hlast
  -- with the unknown machine in front nothing is placed
  have hpublished := hfirst.mpr (hlast.mp (.inr ⟨machine₂, List.mem_cons_self, hplaceable⟩))
  simp [hmissing] at hpublished

end MpsPlacement

/-- A message places all its machines exactly if those that can be placed are placed or
listed before the first unknown one, and in all orders the same ones exactly if no machine
is unknown or none is left to be placed. -/
theorem placed_iff {K : Type} [Field K] [LinearOrder K] {cfg : MpsPlacementConfig K}
    (hsdf : cfg.SdfReadable) {p : MpsPlacement K} (h : (placementSystem cfg).Reachable p)
    {time : K} (henabled : p.Enabled cfg time) (machines : List MachineMsg) :
    ((∀ mpsName, mpsName ∈ (p.onMachineInfoMsg cfg time ⟨machines⟩).published ↔
        mpsName ∈ p.published ∨ ∃ machine ∈ machines, machine.Placeable mpsName) ↔
      ListedInTime p.published machines) ∧
    ((∀ machines' : List MachineMsg, machines'.Perm machines → ∀ mpsName,
        mpsName ∈ (p.onMachineInfoMsg cfg time ⟨machines'⟩).published ↔
          mpsName ∈ (p.onMachineInfoMsg cfg time ⟨machines⟩).published) ↔
      OrderFree p.published machines) := by
  have hrecorded := MpsPlacement.recorded_of_reachable h
  have hlaw := MpsPlacement.law_iff hsdf hrecorded henabled
  refine ⟨hlaw machines, MpsPlacement.orderFree_of_perm_published hsdf hrecorded henabled, ?_⟩
  intro hfree machines' hperm mpsName
  rw [(hlaw machines').mpr (hfree.perm hperm).listedInTime,
    (hlaw machines).mpr hfree.listedInTime]
  simp only [hperm.mem_iff]

theorem shippedPlacement_sdfReadable : shippedPlacement.SdfReadable := by
  decide +kernel

/-- The plugin in a game, before any machine. -/
def inGame : MpsPlacement ℚ := { MpsPlacement.load with isGameStarted := true }

theorem inGame_reachable : (placementSystem shippedPlacement).Reachable inGame :=
  .step (l := .gameState ⟨.SETUP⟩) (.init rfl) trivial rfl

theorem inGame_enabled : inGame.Enabled shippedPlacement 20 := by
  decide +kernel

/-- A message with a machine to place and one that is not known. -/
theorem placed_iff_two :
    OrderFree inGame.published [zonedMachine "M-RS1", ⟨some "C-XX", none, 0⟩] ∧
      ∀ mpsName, mpsName ∈ (inGame.onMachineInfoMsg shippedPlacement 20
          ⟨[zonedMachine "M-RS1", ⟨some "C-XX", none, 0⟩]⟩).published ↔
        mpsName ∈ inGame.published ∨
          ∃ machine ∈ [zonedMachine "M-RS1", ⟨some "C-XX", none, 0⟩],
            machine.Placeable mpsName := by
  have hfree : OrderFree inGame.published [zonedMachine "M-RS1", ⟨some "C-XX", none, 0⟩] :=
    .inl (by decide +kernel)
  exact ⟨hfree, (placed_iff shippedPlacement_sdfReadable inGame_reachable inGame_enabled
    _).1.mpr hfree.listedInTime⟩

/-- A machine of an unknown type in front keeps C-BS from being placed. -/
theorem dropped_after_unknown :
    shippedPlacement.SdfReadable ∧
      ¬ ∀ p time machines mpsName, (placementSystem shippedPlacement).Reachable p →
        p.Enabled shippedPlacement time →
        (mpsName ∈ (p.onMachineInfoMsg shippedPlacement time ⟨machines⟩).published ↔
          mpsName ∈ p.published ∨ ∃ machine ∈ machines, machine.Placeable mpsName) := by
  refine ⟨shippedPlacement_sdfReadable, fun h => ?_⟩
  have hlaw := h inGame 20 [zonedMachine "C-XX", zonedMachine "C-BS"] "C-BS" inGame_reachable
    inGame_enabled
  have hplaceable : (zonedMachine "C-BS").Placeable "C-BS" :=
    ⟨rfl, rfl, "BS", by decide, by decide +kernel⟩
  have hdropped : (inGame.onMachineInfoMsg shippedPlacement 20
      ⟨[zonedMachine "C-XX", zonedMachine "C-BS"]⟩).published = [] := by
    decide +kernel
  rw [hdropped] at hlaw
  exact List.not_mem_nil (hlaw.mpr (.inr ⟨_, by simp, hplaceable⟩))

end GazeboRcll
