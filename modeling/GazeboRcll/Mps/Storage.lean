import GazeboRcll.Library.Keyed
import GazeboRcll.Library.LTS
import GazeboRcll.Mps.Geometry
import Mathlib.Data.List.Induction

/-!
# The shelf of the storage station

`StorageStation` keeps a description of every slot of its shelf in one array. Messages and
configuration name a slot by three coordinates, and `getStorageIndex` flattens them with
the extents 2, 4 and 6 for coordinates that run up to 5, 3 and 1.

Every index is in range, but most slots share theirs with another one (`unaliased_iff`).
The array behaves as a map keyed by the coordinates exactly as long as no slot of these is
configured, filled or emptied (`shelf_faithful`).
-/

namespace GazeboRcll

/-! ## Slots -/

def SLOT_X_COUNT : ℤ := 2
def SLOT_Y_COUNT : ℤ := 4
def SLOT_Z_COUNT : ℤ := 6
def STORAGE_SIZE : ℕ := (SLOT_Z_COUNT * SLOT_Y_COUNT * SLOT_X_COUNT).toNat

/-- `llsf_msgs::SSSlot` with the ranges of its coordinates. -/
@[ext] structure SSSlot where
  x : ℕ
  y : ℕ
  z : ℕ
  hx : x ≤ 5
  hy : y ≤ 3
  hz : z ≤ 1
deriving DecidableEq, Repr

/-- `StorageStation::getStorageIndex`. -/
def getStorageIndex (x y z : ℤ) : ℤ := z * SLOT_X_COUNT * SLOT_Y_COUNT + y * SLOT_X_COUNT + x

/-- `storage_[index]` is an element of the array; `none` for an access out of bounds. -/
def storageAt (index : ℤ) : Option (Fin STORAGE_SIZE) :=
  if h : 0 ≤ index ∧ index < STORAGE_SIZE then some ⟨index.toNat, by omega⟩ else none

/-- A slot's index is within the storage. -/
theorem getStorageIndex_mem (c : SSSlot) :
    0 ≤ getStorageIndex c.x c.y c.z ∧ getStorageIndex c.x c.y c.z < STORAGE_SIZE := by
  obtain ⟨x, y, z, hx, hy, hz⟩ := c
  simp only [getStorageIndex, SLOT_X_COUNT, SLOT_Y_COUNT, SLOT_Z_COUNT, STORAGE_SIZE]
  omega

/-- The place of a slot in the array. -/
def SSSlot.index (c : SSSlot) : Fin STORAGE_SIZE :=
  ⟨(getStorageIndex c.x c.y c.z).toNat, by have := getStorageIndex_mem c; omega⟩

/-- A slot's index is an entry of the storage. -/
theorem storageAt_index (c : SSSlot) :
    storageAt (getStorageIndex c.x c.y c.z) = some c.index := dif_pos (getStorageIndex_mem c)

/-- The index of a slot, by its coordinates. -/
theorem SSSlot.index_val (c : SSSlot) : c.index.val = c.z * 8 + c.y * 2 + c.x := by
  simp only [index, getStorageIndex, SLOT_X_COUNT, SLOT_Y_COUNT]
  omega

/-! ## State -/

/-- `Storage`, the description of a slot. -/
structure Storage where
  puckName : String
  slotX : ℤ
  slotY : ℤ
  slotZ : ℤ
  hasPuck : Bool
  baseClr : Color
  ringColors : List Color
  capClr : Color
deriving DecidableEq, Repr

/-- The members of a storage station that concern its shelf, and the world. -/
structure StorageStation (Pose : Type) where
  storage : Fin STORAGE_SIZE → Storage
  storageCnt : ℤ
  puckOnConveyor : String
  world : World Pose

variable {Pose : Type}

namespace StorageStation

/-- The array as the constructor leaves it: the slots are emptied, the other members are
what they happen to be. -/
def empty (garbage : Fin STORAGE_SIZE → Storage) (world : World Pose) : StorageStation Pose where
  storage i := { garbage i with puckName := "", hasPuck := false, ringColors := [] }
  storageCnt := 0
  puckOnConveyor := ""
  world := world

/-! ## `init_storage` -/

/-- `(int)slotpos.at(i) - '0'`; `none` where `at` throws. -/
def digitAt (slotpos : String) (i : ℕ) : Option ℤ :=
  (slotpos.toList[i]?).map fun c => (c.toNat : ℤ) - '0'.toNat

/-- The colour of the base; an unknown one leaves what was there. -/
def readBaseClr (entry : String) (old : Color) : Color :=
  if entry = "BLACK" then .BLACK
  else if entry = "SILVER" then .SILVER
  else if entry = "RED" then .RED
  else old

/-- The colour of a ring; an unknown one is left out. -/
def readRingColor (entry : String) : Option Color :=
  if entry = "YELLOW" then some .YELLOW
  else if entry = "ORANGE" then some .ORANGE
  else if entry = "GREEN" then some .GREEN
  else if entry = "BLUE" then some .BLUE
  else none

/-- The colour of the cap; an unknown one leaves what was there. -/
def readCapClr (entry : String) (old : Color) : Color :=
  if entry = "BLACK" then .BLACK
  else if entry = "GRAY" then .GREY
  else if entry = "" then .NONE
  else old

/-- The assignments to one slot: the first entry of its list is the base, the last one the
cap, those between are rings. `none` where `at(0)` throws. -/
def describe (x y z : ℤ) : List String → Storage → Option Storage
  | [], _ => none
  | base :: rest, slot => some { slot with
      slotX := x
      slotY := y
      slotZ := z
      baseClr := readBaseClr base slot.baseClr
      ringColors := slot.ringColors ++ rest.dropLast.filterMap readRingColor
      capClr := readCapClr (rest.getLast?.getD base) slot.capClr
      hasPuck := true }

/-- One round of the loop in `StorageStation::init_storage`. -/
def initSlot (config : String → List String) (s : StorageStation Pose) (slotpos : String) :
    Option (StorageStation Pose) := do
  let x ← digitAt slotpos 0
  let y ← digitAt slotpos 1
  let z ← digitAt slotpos 2
  let i ← storageAt (getStorageIndex x y z)
  let slot ← describe x y z (config slotpos) (s.storage i)
  some { s with storage := Function.update s.storage i slot }

/-- `StorageStation::init_storage`; `config` gives the list of each configured slot. -/
def initStorage (config : String → List String) (slotIds : List String)
    (s : StorageStation Pose) : Option (StorageStation Pose) :=
  slotIds.foldlM (initSlot config) s

/-! ## `store_puck` and `retrieve_puck` -/

/-- `StorageStation::store_puck`. -/
def storePuck (puckName : String) (x y z : ℕ) (s : StorageStation Pose) :
    Option (StorageStation Pose) := do
  let i ← storageAt (getStorageIndex x y z)
  if (s.storage i).puckName = puckName then some s
  else if (s.storage i).puckName ≠ "" then some s
  else some { s with
    storageCnt := s.storageCnt + 1
    storage := Function.update s.storage i { s.storage i with puckName := puckName } }

/-- `StorageStation::retrieve_puck`; a workpiece without a model is a null pointer. -/
def retrievePuck (M : Machine Pose) (x y z : ℕ) (s : StorageStation Pose) :
    Option (StorageStation Pose) := do
  -- "X and Z is swapped", says the source, but they are not
  let i ← storageAt (getStorageIndex x y z)
  if (s.storage i).puckName = "" then some s
  else
    let wp ← s.world.modelByName (s.storage i).puckName
    some { s with
      world := { s.world with pose := Function.update s.world.pose wp (M.center .input) }
      puckOnConveyor := (s.storage i).puckName
      storage := Function.update s.storage i { s.storage i with puckName := "", hasPuck := false }
      storageCnt := s.storageCnt - 1 }

end StorageStation

/-! ## The shelf as a map -/

open StorageStation

/-- The slot that a configured id names by its first three characters. -/
def slotOf (slotpos : String) : Option SSSlot := do
  let x ← digitAt slotpos 0
  let y ← digitAt slotpos 1
  let z ← digitAt slotpos 2
  if h : (0 ≤ x ∧ x ≤ 5) ∧ (0 ≤ y ∧ y ≤ 3) ∧ (0 ≤ z ∧ z ≤ 1) then
    some ⟨x.toNat, y.toNat, z.toNat, by omega, by omega, by omega⟩
  else none

namespace Storage

/-- The description of a slot after it has been configured. -/
def configured (c : SSSlot) (entries : List String) (slot : Storage) : Storage :=
  (describe c.x c.y c.z entries slot).getD slot

/-- A slot after a workpiece has been offered to it: it keeps the one it has. -/
def filled (puckName : String) (slot : Storage) : Storage :=
  if slot.puckName = "" then { slot with puckName := puckName } else slot

/-- A slot after its workpiece has been taken. -/
def emptied (slot : Storage) : Storage :=
  if slot.puckName = "" then slot else { slot with puckName := "", hasPuck := false }

end Storage

namespace Storage

/-- Filling changes an empty slot only. -/
theorem filled_eq_iff (puckName : String) (slot : Storage) :
    slot.filled puckName = slot ↔ (slot.puckName = "" → puckName = "") := by
  unfold filled
  by_cases hempty : slot.puckName = ""
  · rw [if_pos hempty]
    constructor
    · intro heq _
      rw [← hempty, ← heq]
    · intro hname
      rw [hname hempty, ← hempty]
  · rw [if_neg hempty]
    exact iff_of_true rfl fun h => absurd h hempty

/-- Emptying changes a filled slot only. -/
theorem emptied_eq_iff (slot : Storage) : slot.emptied = slot ↔ slot.puckName = "" := by
  unfold emptied
  by_cases hempty : slot.puckName = ""
  · rw [if_pos hempty]
    exact iff_of_true rfl hempty
  · rw [if_neg hempty]
    refine iff_of_false (fun heq => hempty ?_) hempty
    rw [← heq]

/-- Filling does not touch `has_puck`. -/
theorem filled_hasPuck (puckName : String) (slot : Storage) :
    (slot.filled puckName).hasPuck = slot.hasPuck := by
  unfold filled
  split_ifs <;> rfl

/-- Nor does emptying raise it. -/
theorem hasPuck_of_emptied {slot : Storage} (h : slot.emptied.hasPuck = true) :
    slot.hasPuck = true := by
  unfold emptied at h
  split_ifs at h
  exact h

end Storage

/-- What a shelf is for: it holds something under each slot, and fetching from a slot
brings what that slot holds. -/
structure Shelf where
  slots : SSSlot → Storage
  fetched : String

namespace Shelf

def configure (config : String → List String) (shelf : Shelf) (slotpos : String) : Shelf :=
  match slotOf slotpos with
  | none => shelf
  | some c => { shelf with slots := Keyed.modify shelf.slots c (.configured c (config slotpos)) }

def store (puckName : String) (c : SSSlot) (shelf : Shelf) : Shelf :=
  { shelf with slots := Keyed.modify shelf.slots c (.filled puckName) }

def retrieve (c : SSSlot) (shelf : Shelf) : Shelf where
  slots := Keyed.modify shelf.slots c .emptied
  fetched := if (shelf.slots c).puckName = "" then shelf.fetched else (shelf.slots c).puckName

end Shelf

/-- The calls of a storage station, and changes of the world. -/
inductive ShelfCall (Pose : Type) where
  | initStorage (slotIds : List String)
  | storePuck (puckName : String) (c : SSSlot)
  | retrievePuck (c : SSSlot)
  | gazebo (w : World Pose)

def ShelfCall.perform (M : Machine Pose) (config : String → List String)
    (s : StorageStation Pose) : ShelfCall Pose → Option (StorageStation Pose)
  | .initStorage slotIds => s.initStorage config slotIds
  | .storePuck puckName c => s.storePuck puckName c.x c.y c.z
  | .retrievePuck c => s.retrievePuck M c.x c.y c.z
  | .gazebo w => some { s with world := w }

/-- A storage station from the construction of its array on. -/
def storageSystem (M : Machine Pose) (config : String → List String) :
    LTS (StorageStation Pose) (ShelfCall Pose) where
  init s := ∃ garbage world, s = .empty garbage world
  next := ShelfCall.perform M config

/-- The map that the calls would leave. -/
def shelf (config : String → List String) :
    Monitor (StorageStation Pose) (ShelfCall Pose) Shelf where
  start s := ⟨fun c => s.storage c.index, s.puckOnConveyor⟩
  observe g _ l _ := match l with
    | .initStorage slotIds => slotIds.foldl (Shelf.configure config) g
    | .storePuck puckName c => g.store puckName c
    | .retrievePuck c => g.retrieve c
    | .gazebo _ => g

/-- The configured ids name slots. -/
def NamesSlots : ShelfCall Pose → Prop
  | .initStorage slotIds => ∀ slotpos ∈ slotIds, (slotOf slotpos).isSome
  | _ => True

instance : DecidablePred (@NamesSlots Pose)
  | .initStorage _ => inferInstanceAs (Decidable (∀ _ ∈ _, _))
  | .storePuck .. | .retrievePuck _ | .gazebo _ => .isTrue trivial

/-- The array holds the map, and the workpiece fetched last is the right one. -/
structure Faithful (s : StorageStation Pose) (g : Shelf) : Prop where
  slots : Keyed.Agree SSSlot.index s.storage g.slots
  fetched : s.puckOnConveyor = g.fetched

/-- The slot shares its place in the array with no other one. -/
abbrev Unaliased (c : SSSlot) : Prop := Keyed.Alone SSSlot.index c

/-- Only slots that share their place with no other one are configured, filled or emptied. -/
def SparesAliased (s : StorageStation Pose) : ShelfCall Pose → Prop
  | .initStorage slotIds => ∀ slotpos ∈ slotIds, ∀ c ∈ slotOf slotpos, Unaliased c
  | .storePuck puckName c =>
    (s.storage c.index).puckName = "" → puckName ≠ "" → Unaliased c
  | .retrievePuck c => (s.storage c.index).puckName ≠ "" → Unaliased c
  | .gazebo _ => True

/-! ## Which slots share their place -/

/-- Two slots of one index are not kept apart. -/
theorem not_unaliased_of {c : SSSlot} (c' : SSSlot) (hx : c'.x ≠ c.x)
    (hidx : c'.z * 8 + c'.y * 2 + c'.x = c.z * 8 + c.y * 2 + c.x) : ¬ Unaliased c := by
  intro halone
  have heq : c'.index = c.index := Fin.ext (by rw [SSSlot.index_val, SSSlot.index_val, hidx])
  exact hx (congrArg SSSlot.x (halone c' heq))

/-- Only the two first and the two last places of those in use belong to one slot each. -/
theorem unaliased_iff (c : SSSlot) : Unaliased c ↔ c.index.val < 2 ∨ 18 ≤ c.index.val := by
  obtain ⟨x, y, z, hx, hy, hz⟩ := c
  have hval := SSSlot.index_val ⟨x, y, z, hx, hy, hz⟩
  dsimp only at hval
  constructor
  · intro halone
    by_contra hmid
    -- two steps along x lead to the place of one step along y
    by_cases hleft : 2 ≤ x ∧ y ≤ 2
    · exact not_unaliased_of ⟨x - 2, y + 1, z, by omega, by omega, hz⟩ (by dsimp only; omega)
        (by dsimp only; omega) halone
    · by_cases hright : x ≤ 3 ∧ 1 ≤ y
      · exact not_unaliased_of ⟨x + 2, y - 1, z, by omega, by omega, hz⟩ (by dsimp only; omega)
          (by dsimp only; omega) halone
      · -- at the ends of a row the other row of the shelf is met
        by_cases hz0 : z = 0
        · exact not_unaliased_of ⟨x - 4, 1, 1, by omega, by omega, by omega⟩
            (by dsimp only; omega) (by dsimp only; omega) halone
        · exact not_unaliased_of ⟨x + 2, 3, 0, by omega, by omega, by omega⟩
            (by dsimp only; omega) (by dsimp only; omega) halone
  · rintro hends ⟨x', y', z', hx', hy', hz'⟩ hidx
    have hval' := SSSlot.index_val ⟨x', y', z', hx', hy', hz'⟩
    rw [hidx] at hval'
    dsimp only at hval'
    simp only [SSSlot.mk.injEq]
    omega

instance : DecidablePred Unaliased := fun c => decidable_of_iff _ (unaliased_iff c).symm

instance (s : StorageStation Pose) : DecidablePred (SparesAliased s)
  | .initStorage _ => inferInstanceAs (Decidable (∀ _ ∈ _, ∀ _ ∈ _, _))
  | .storePuck .. => inferInstanceAs (Decidable (_ → _ → _))
  | .retrievePuck _ => inferInstanceAs (Decidable (_ → _))
  | .gazebo _ => .isTrue trivial

/-! ## The calls on the array -/

/-- A slot's name has its coordinates as digits. -/
theorem digits_of_slotOf {slotpos : String} {c : SSSlot} (h : slotOf slotpos = some c) :
    digitAt slotpos 0 = some (c.x : ℤ) ∧ digitAt slotpos 1 = some (c.y : ℤ) ∧
      digitAt slotpos 2 = some (c.z : ℤ) := by
  simp only [slotOf, Option.bind_eq_bind, Option.bind_eq_some_iff] at h
  obtain ⟨x, hx, y, hy, z, hz, h⟩ := h
  split_ifs at h with hrange
  obtain ⟨hx0, hy0, hz0⟩ := hrange
  cases h
  rw [hx, hy, hz, Int.toNat_of_nonneg hx0.1, Int.toNat_of_nonneg hy0.1,
    Int.toNat_of_nonneg hz0.1]
  exact ⟨rfl, rfl, rfl⟩

/-- One round of `init_storage` for a slot in range. -/
theorem initSlot_eq {config : String → List String} {s s' : StorageStation Pose}
    {slotpos : String} {c : SSSlot} (hc : slotOf slotpos = some c)
    (h : s.initSlot config slotpos = some s') :
    s' = { s with storage :=
        Keyed.modify s.storage c.index (.configured c (config slotpos)) } ∧
      config slotpos ≠ [] := by
  obtain ⟨hx, hy, hz⟩ := digits_of_slotOf hc
  simp only [initSlot, hx, hy, hz, storageAt_index, Option.bind_eq_bind, Option.bind_some,
    Option.bind_eq_some_iff] at h
  obtain ⟨slot, hslot, h⟩ := h
  have hconf : Storage.configured c (config slotpos) (s.storage c.index) = slot := by
    rw [Storage.configured, hslot, Option.getD_some]
  cases h
  refine ⟨by rw [Keyed.modify, hconf], fun hnil => ?_⟩
  rw [hnil] at hslot
  cases hslot

/-- Storing fills the slot's entry and changes the counters. -/
theorem storePuck_eq (puckName : String) (c : SSSlot) (s : StorageStation Pose) :
    ∃ cnt, s.storePuck puckName c.x c.y c.z = some { s with
      storageCnt := cnt
      storage := Keyed.modify s.storage c.index (.filled puckName) } := by
  unfold storePuck
  rw [storageAt_index]
  simp only [Option.bind_eq_bind, Option.bind_some]
  by_cases hempty : (s.storage c.index).puckName = ""
  · by_cases hsame : (s.storage c.index).puckName = puckName
    · -- a name that is empty itself
      refine ⟨s.storageCnt, ?_⟩
      have hfill : Storage.filled puckName (s.storage c.index) = s.storage c.index := by
        rw [Storage.filled, if_pos hempty, ← hsame]
      rw [if_pos hsame, Keyed.modify_of_eq hfill]
    · refine ⟨s.storageCnt + 1, ?_⟩
      rw [if_neg hsame, if_neg (not_not.mpr hempty), Keyed.modify, Storage.filled,
        if_pos hempty]
  · refine ⟨s.storageCnt, ?_⟩
    have hfill : Storage.filled puckName (s.storage c.index) = s.storage c.index := if_neg hempty
    rw [if_pos hempty, ite_self, Keyed.modify_of_eq hfill]

/-- Retrieving empties the slot's entry and puts its puck on the conveyor. -/
theorem retrievePuck_eq {M : Machine Pose} {c : SSSlot} {s s' : StorageStation Pose}
    (h : s.retrievePuck M c.x c.y c.z = some s') :
    s'.storage = Keyed.modify s.storage c.index .emptied ∧
      s'.puckOnConveyor = if (s.storage c.index).puckName = "" then s.puckOnConveyor
        else (s.storage c.index).puckName := by
  unfold retrievePuck at h
  rw [storageAt_index] at h
  simp only [Option.bind_eq_bind, Option.bind_some] at h
  by_cases hempty : (s.storage c.index).puckName = ""
  · have hkeep : (s.storage c.index).emptied = s.storage c.index := if_pos hempty
    rw [if_pos hempty] at h
    cases h
    rw [Keyed.modify_of_eq hkeep, if_pos hempty]
    exact ⟨rfl, rfl⟩
  · rw [if_neg hempty, Option.bind_eq_some_iff] at h
    obtain ⟨wp, -, h⟩ := h
    cases h
    rw [if_neg hempty, Keyed.modify, Storage.emptied, if_neg hempty]
    exact ⟨rfl, rfl⟩

/-! ## What a call leaves in the map -/

namespace Shelf

variable {config : String → List String} {shelf : Shelf} {slotpos : String} {c : SSSlot}

/-- The configuration of a slot changes that slot. -/
theorem configure_of_slotOf (h : slotOf slotpos = some c) :
    shelf.configure config slotpos =
      { shelf with slots := Keyed.modify shelf.slots c (.configured c (config slotpos)) } := by
  rw [configure, h]

/-- It leaves every other one. -/
theorem configure_slots_of_ne (h : slotOf slotpos ≠ some c) :
    (shelf.configure config slotpos).slots c = shelf.slots c := by
  cases hslot : slotOf slotpos with
  | none => rw [configure, hslot]
  | some c' =>
    have hne : c ≠ c' := fun heq => h (heq ▸ hslot)
    rw [configure_of_slotOf hslot]
    exact Keyed.modify_of_ne _ hne _

/-- The description names the slot that it is kept for. -/
def Describes (slot : Storage) (c : SSSlot) : Prop :=
  slot.hasPuck = true ∧ slot.slotX = c.x ∧ slot.slotY = c.y ∧ slot.slotZ = c.z

/-- An entry describes one slot at most. -/
theorem Describes.unique {slot : Storage} {c c' : SSSlot} (h : Describes slot c)
    (h' : Describes slot c') : c = c' := by
  obtain ⟨-, hx, hy, hz⟩ := h
  obtain ⟨-, hx', hy', hz'⟩ := h'
  ext <;> omega

/-- A configured entry describes its slot. -/
theorem describes_configured (c : SSSlot) {entries : List String} (h : entries ≠ [])
    (slot : Storage) : Describes (.configured c entries slot) c := by
  cases entries with
  | nil => exact absurd rfl h
  | cons base rest => exact ⟨rfl, rfl, rfl, rfl⟩

/-- `init_storage` describes the configured slots and leaves the others. -/
theorem foldl_configure (shelf : Shelf) (c : SSSlot) {slotIds : List String}
    (hconf : ∀ slotpos ∈ slotIds, config slotpos ≠ []) :
    (∀ slotpos ∈ slotIds, slotOf slotpos = some c →
        Describes ((slotIds.foldl (configure config) shelf).slots c) c) ∧
      ((∀ slotpos ∈ slotIds, slotOf slotpos ≠ some c) →
        (slotIds.foldl (configure config) shelf).slots c = shelf.slots c) := by
  induction slotIds using List.reverseRecOn with
  | nil => exact ⟨nofun, fun _ => rfl⟩
  | append_singleton slotIds last ih =>
    obtain ⟨hin, hout⟩ := ih fun slotpos hmem => hconf slotpos (List.mem_append_left _ hmem)
    rw [List.foldl_append, List.foldl_cons, List.foldl_nil]
    by_cases hlast : slotOf last = some c
    · refine ⟨fun _ _ _ => ?_, fun hno => absurd hlast (hno last (by simp))⟩
      rw [configure_of_slotOf hlast]
      dsimp only
      rw [Keyed.modify_self]
      exact describes_configured c (hconf last (by simp)) _
    · rw [configure_slots_of_ne hlast]
      refine ⟨fun slotpos hmem hslot => ?_, fun hno => hout fun slotpos hmem =>
        hno slotpos (List.mem_append_left _ hmem)⟩
      rcases List.mem_append.mp hmem with hmem | hmem
      · exact hin slotpos hmem hslot
      · rw [List.mem_singleton.mp hmem] at hslot
        exact absurd hslot hlast

end Shelf

/-! ## Runs -/

/-- Only slots with a place of their own hold configured workpieces. -/
def ConfiguredApart (g : Shelf) : Prop := ∀ c, (g.slots c).hasPuck = true → Unaliased c

/-- The storage is configured slot by slot. -/
theorem initStorage_cons {config : String → List String} {slotpos : String}
    {slotIds : List String} {s s' : StorageStation Pose}
    (h : s.initStorage config (slotpos :: slotIds) = some s') :
    ∃ t, s.initSlot config slotpos = some t ∧ t.initStorage config slotIds = some s' := by
  rw [initStorage, List.foldlM_cons, Option.bind_eq_bind, Option.bind_eq_some_iff] at h
  exact h

/-- A configuration that is read has an entry for each slot. -/
theorem initStorage_entries {config : String → List String} {slotIds : List String}
    {s s' : StorageStation Pose} (hnames : ∀ slotpos ∈ slotIds, (slotOf slotpos).isSome)
    (h : s.initStorage config slotIds = some s') : ∀ slotpos ∈ slotIds, config slotpos ≠ [] := by
  induction slotIds generalizing s with
  | nil => exact nofun
  | cons slotpos slotIds ih =>
    obtain ⟨t, hslot, hrest⟩ := initStorage_cons h
    obtain ⟨c, hc⟩ := Option.isSome_iff_exists.mp (hnames slotpos (by simp))
    intro other hmem
    rcases List.mem_cons.mp hmem with rfl | hmem
    · exact (initSlot_eq hc hslot).2
    · exact ih (fun other hmem => hnames other (List.mem_cons_of_mem _ hmem)) hrest other hmem

namespace Faithful

variable {M : Machine Pose} {config : String → List String} {s s' : StorageStation Pose} {g : Shelf}

/-- Slots with a place of their own can be configured. -/
theorem initStorage {slotIds : List String} (hf : Faithful s g)
    (hnames : ∀ slotpos ∈ slotIds, (slotOf slotpos).isSome)
    (hspares : ∀ slotpos ∈ slotIds, ∀ c ∈ slotOf slotpos, Unaliased c)
    (h : s.initStorage config slotIds = some s') :
    Faithful s' (slotIds.foldl (Shelf.configure config) g) := by
  induction slotIds generalizing s g with
  | nil =>
    cases h
    exact hf
  | cons slotpos slotIds ih =>
    obtain ⟨t, hslot, hrest⟩ := initStorage_cons h
    obtain ⟨c, hc⟩ := Option.isSome_iff_exists.mp (hnames slotpos (by simp))
    obtain ⟨rfl, -⟩ := initSlot_eq hc hslot
    refine ih ?_ (fun other hmem => hnames other (List.mem_cons_of_mem _ hmem))
      (fun other hmem => hspares other (List.mem_cons_of_mem _ hmem)) hrest
    rw [Shelf.configure_of_slotOf hc]
    exact ⟨hf.slots.modify (hspares slotpos (by simp) c hc) _, hf.fetched⟩

/-- Configuring a slot that shares its place spoils what the array says about another one. -/
theorem initStorage_spares {slotIds : List String} (ha : ConfiguredApart g)
    (hnames : ∀ slotpos ∈ slotIds, (slotOf slotpos).isSome)
    (h : s.initStorage config slotIds = some s')
    (hf' : Faithful s' (slotIds.foldl (Shelf.configure config) g)) :
    ∀ slotpos ∈ slotIds, ∀ c ∈ slotOf slotpos, Unaliased c := by
  intro slotpos hmem c hc c' hidx
  have hconf := initStorage_entries hnames h
  have hdesc := (Shelf.foldl_configure g c hconf).1 slotpos hmem hc
  -- both slots are described by the same entry of the array
  have hsame : (slotIds.foldl (Shelf.configure config) g).slots c'
      = (slotIds.foldl (Shelf.configure config) g).slots c := by
    rw [← hf'.slots c', ← hf'.slots c, hidx]
  by_cases hin : ∃ other ∈ slotIds, slotOf other = some c'
  · obtain ⟨other, hother, hc'⟩ := hin
    have hdesc' := (Shelf.foldl_configure g c' hconf).1 other hother hc'
    rw [hsame] at hdesc'
    exact hdesc'.unique hdesc
  · have hkeep := (Shelf.foldl_configure g c' hconf).2
      fun other hother hc' => hin ⟨other, hother, hc'⟩
    have hpuck : (g.slots c').hasPuck = true := by
      rw [← hkeep, hsame]
      exact hdesc.1
    exact (ha c' hpuck c hidx.symm).symm

/-- A call keeps array and map in agreement exactly if it spares the slots that share their
place. -/
theorem step_iff {l : ShelfCall Pose} (hf : Faithful s g) (ha : ConfiguredApart g)
    (hnames : NamesSlots l) (hs : l.perform M config s = some s') :
    Faithful s' ((shelf config).observe g s l s') ↔ SparesAliased s l := by
  cases l with
  | initStorage slotIds =>
    exact ⟨fun hf' => initStorage_spares ha hnames hs hf',
      fun hspares => hf.initStorage hnames hspares hs⟩
  | storePuck puckName c =>
    obtain ⟨cnt, heq⟩ := storePuck_eq puckName c s
    rw [ShelfCall.perform, heq] at hs
    cases hs
    -- a change keeps the array faithful if it changes nothing or its place is one slot's alone
    have hiff := hf.slots.modify_iff c (.filled puckName)
    rw [Storage.filled_eq_iff, ← hf.slots c] at hiff
    constructor
    · intro hf' hempty hname
      exact (hiff.mp hf'.slots).resolve_left fun h => hname (h hempty)
    · intro hspares
      refine ⟨hiff.mpr ?_, hf.fetched⟩
      by_cases hchange : (s.storage c.index).puckName = "" → puckName = ""
      · exact .inl hchange
      · obtain ⟨hempty, hname⟩ := Classical.not_imp.mp hchange
        exact .inr (hspares hempty hname)
  | retrievePuck c =>
    obtain ⟨hstorage, hconveyor⟩ := retrievePuck_eq hs
    have hiff := hf.slots.modify_iff c .emptied
    rw [Storage.emptied_eq_iff, ← hf.slots c, ← hstorage] at hiff
    -- what is fetched comes from this slot's place
    have hfetched : s'.puckOnConveyor = (g.retrieve c).fetched := by
      rw [hconveyor, hf.fetched, hf.slots c]
      rfl
    constructor
    · intro hf' hfull
      exact (hiff.mp hf'.slots).resolve_left hfull
    · intro hspares
      refine ⟨hiff.mpr ?_, hfetched⟩
      by_cases hempty : (s.storage c.index).puckName = ""
      · exact .inl hempty
      · exact .inr (hspares hempty)
  | gazebo w =>
    cases hs
    exact iff_of_true ⟨hf.slots, hf.fetched⟩ trivial

/-- A call that spares the aliased slots keeps the configured ones apart. -/
theorem configuredApart {l : ShelfCall Pose} (ha : ConfiguredApart g) (hnames : NamesSlots l)
    (hspares : SparesAliased s l) (hs : l.perform M config s = some s') :
    ConfiguredApart ((shelf config).observe g s l s') := by
  cases l with
  | initStorage slotIds =>
    intro c hc
    -- a slot has `has_puck` by this configuration or had it before
    have hconf := initStorage_entries hnames hs
    by_cases hin : ∃ slotpos ∈ slotIds, slotOf slotpos = some c
    · obtain ⟨slotpos, hmem, hslot⟩ := hin
      exact hspares slotpos hmem c hslot
    · refine ha c ?_
      rw [← (Shelf.foldl_configure g c hconf).2
        fun slotpos hmem hslot => hin ⟨slotpos, hmem, hslot⟩]
      exact hc
  | storePuck puckName c =>
    intro c' hc'
    by_cases heq : c' = c
    · subst heq
      refine ha c' ?_
      rw [← Storage.filled_hasPuck puckName, ← Keyed.modify_self g.slots c' (.filled puckName)]
      exact hc'
    · refine ha c' ?_
      rw [← Keyed.modify_of_ne g.slots heq (.filled puckName)]
      exact hc'
  | retrievePuck c =>
    intro c' hc'
    by_cases heq : c' = c
    · subst heq
      refine ha c' (Storage.hasPuck_of_emptied ?_)
      rw [← Keyed.modify_self g.slots c' .emptied]
      exact hc'
    · refine ha c' ?_
      rw [← Keyed.modify_of_ne g.slots heq .emptied]
      exact hc'
  | gazebo w => exact ha

end Faithful

/-- Every slot of a message has a place in the array; and along every run that spares the
slots which share their place the array is the map keyed by the coordinates, which a
further call leaves so exactly if it spares them too. -/
theorem shelf_faithful (M : Machine Pose) (config : String → List String)
    {s : StorageStation Pose} {g : Shelf}
    (h : ((storageSystem M config).watch (shelf config)).Reach
      (fun p l => NamesSlots l ∧ SparesAliased p.1 l) (s, g)) :
    (∀ c : SSSlot, 0 ≤ getStorageIndex c.x c.y c.z ∧
        getStorageIndex c.x c.y c.z < STORAGE_SIZE) ∧
      Faithful s g ∧
      ∀ l s', NamesSlots l → (storageSystem M config).next s l = some s' →
        (Faithful s' ((shelf config).observe g s l s') ↔ SparesAliased s l) := by
  have hinv : Faithful s g ∧ ConfiguredApart g := by
    refine LTS.Reach.watch_invariant (P := fun s g => Faithful s g ∧ ConfiguredApart g) ?_ ?_ h
    · rintro _ ⟨garbage, world, rfl⟩
      exact ⟨⟨fun _ => rfl, rfl⟩, nofun⟩
    · rintro s g l s' ⟨hf, ha⟩ ⟨hnames, hspares⟩ hs
      exact ⟨(hf.step_iff ha hnames hs).mpr hspares,
        Faithful.configuredApart ha hnames hspares hs⟩
  exact ⟨getStorageIndex_mem, hinv.1,
    fun l s' hnames hs => hinv.1.step_iff hinv.2 hnames hs⟩

/-- The station of the shipped configuration with an empty shelf. -/
def shippedStorage : StorageStation (Vec ℚ) :=
  .empty (fun _ => ⟨"", 0, 0, 0, false, .NONE, [], .NONE⟩)
    (.allAt ((shipped "C-SS").center .middle))

def shippedSlots (slotpos : String) : List String :=
  if slotpos = "000" then ["RED", "YELLOW", "BLACK"]
  else if slotpos = "100" then ["BLACK", "BLUE", "GRAY"]
  else if slotpos = "200" then ["SILVER", "GREEN", "BLACK"]
  else if slotpos = "300" then ["RED", "BLACK"]
  else if slotpos = "400" then ["BLACK", "ORANGE", "GRAY"]
  else if slotpos = "500" then ["SILVER", "BLUE", "GRAY"]
  else []

/-- The shelf of the shipped configuration. -/
abbrev shippedShelf : LTS (StorageStation (Vec ℚ) × Shelf) (ShelfCall (Vec ℚ)) :=
  (storageSystem (shipped "C-SS") shippedSlots).watch (shelf shippedSlots)

/-- A puck stored in the corner and retrieved. -/
theorem shelf_faithful_corner :
    ∃ s g, shippedShelf.Reach (fun p l => NamesSlots l ∧ SparesAliased p.1 l) (s, g) ∧
      s.puckOnConveyor = "puck_1" ∧ g.fetched = "puck_1" := by
  obtain ⟨⟨s, g⟩, hreach, hs⟩ :=
    LTS.exists_reach (T := shippedShelf) (C := fun p l => NamesSlots l ∧ SparesAliased p.1 l)
      (s := (shippedStorage, ⟨fun c => shippedStorage.storage c.index, ""⟩))
      (l := [.initStorage ["000", "100"], .storePuck "puck_1" ⟨1, 0, 0, by decide, by decide,
        by decide⟩, .retrievePuck ⟨1, 0, 0, by decide, by decide, by decide⟩])
      (p := fun p => decide (p.1.puckOnConveyor = "puck_1")) ⟨⟨_, _, rfl⟩, rfl⟩
      (by decide +kernel) (by decide +kernel)
  have hfetched : s.puckOnConveyor = "puck_1" := of_decide_eq_true hs
  have hfaithful := (shelf_faithful (shipped "C-SS") shippedSlots hreach).2.1
  exact ⟨s, g, hreach, hfetched, hfaithful.fetched ▸ hfetched⟩

/-- A workpiece stored under (2, 0, 0) is fetched from the empty slot (0, 1, 0). -/
theorem fetched_from_other_slot :
    ¬ ∀ s g, shippedShelf.Reach (fun _ l => NamesSlots l) (s, g) → Faithful s g := by
  intro h
  obtain ⟨⟨s, g⟩, hreach, hs⟩ :=
    LTS.exists_reach (T := shippedShelf) (C := fun _ l => NamesSlots l)
      (s := (shippedStorage, ⟨fun c => shippedStorage.storage c.index, ""⟩))
      (l := [.storePuck "puck_1" ⟨2, 0, 0, by decide, by decide, by decide⟩,
        .retrievePuck ⟨0, 1, 0, by decide, by decide, by decide⟩])
      (p := fun p => decide (p.1.puckOnConveyor ≠ p.2.fetched)) ⟨⟨_, _, rfl⟩, rfl⟩
      (by decide +kernel) (by decide +kernel)
  exact of_decide_eq_true hs (h s g hreach).fetched

end GazeboRcll
