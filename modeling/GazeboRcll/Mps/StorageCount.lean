import GazeboRcll.Library.Strings
import GazeboRcll.Mps.Runs
import GazeboRcll.Mps.Storage
import Mathlib.Data.List.FinRange

/-!
# What a storage station knows about its shelf

Beside the names of the workpieces on its shelf, a storage station marks the slots that are
filled (`has_puck`) and counts them (`storage_cnt`). The initial spawning gives names to marked
slots without counting them, and `store_puck` counts the workpiece it stores without marking its
slot. Mark and counter go by the names as long as neither happens (`booked_iff`).
-/

namespace GazeboRcll

/-! ## Slots by their index -/

namespace StorageStation

variable {Pose : Type}

/-- What `store_puck` does to a slot. -/
def storeIn (puckName : String) (s : StorageStation Pose) (i : Fin STORAGE_SIZE) :
    StorageStation Pose :=
  if (s.storage i).puckName = puckName then s
  else if (s.storage i).puckName ≠ "" then s
  else { s with
    storageCnt := s.storageCnt + 1
    storage := Function.update s.storage i { s.storage i with puckName := puckName } }

/-- What `retrieve_puck` does to a slot. -/
def takeFrom (M : Machine Pose) (s : StorageStation Pose) (i : Fin STORAGE_SIZE) :
    Option (StorageStation Pose) :=
  if (s.storage i).puckName = "" then some s
  else
    (s.world.modelByName (s.storage i).puckName).map fun wp => { s with
      world := { s.world with pose := Function.update s.world.pose wp (M.center .input) }
      puckOnConveyor := (s.storage i).puckName
      storage := Function.update s.storage i { s.storage i with puckName := "", hasPuck := false }
      storageCnt := s.storageCnt - 1 }

theorem storePuck_eq_storeIn (s : StorageStation Pose) (puckName : String) (x y z : ℕ) :
    s.storePuck puckName x y z = (storageAt (getStorageIndex x y z)).map (s.storeIn puckName) := by
  unfold storePuck
  cases storageAt (getStorageIndex x y z) with
  | none => rfl
  | some i =>
    simp only [Option.bind_eq_bind, Option.bind_some, Option.map_some, storeIn]
    split_ifs <;> rfl

theorem retrievePuck_eq_takeFrom (M : Machine Pose) (s : StorageStation Pose) (x y z : ℕ) :
    s.retrievePuck M x y z = (storageAt (getStorageIndex x y z)).bind (s.takeFrom M) := by
  unfold retrievePuck
  cases storageAt (getStorageIndex x y z) with
  | none => rfl
  | some i =>
    simp only [Option.bind_eq_bind, Option.bind_some, takeFrom]
    split_ifs
    · rfl
    · rw [Option.map_eq_bind]
      rfl

end StorageStation

/-! ## The station -/

/-- The members of a storage station. -/
structure StorageMachine (K : Type) where
  mps : Mps (Vec K)
  storage : Fin STORAGE_SIZE → Storage
  storageCnt : ℤ
  puckOnConveyor : String
  pucksSpawned : Bool
  createdTime : K

namespace StorageMachine

variable {K : Type}

/-- The part that the calls on the shelf work on. -/
def shelf (s : StorageMachine K) : StorageStation (Vec K) where
  storage := s.storage
  storageCnt := s.storageCnt
  puckOnConveyor := s.puckOnConveyor
  world := s.mps.world

def withShelf (s : StorageMachine K) (t : StorageStation (Vec K)) : StorageMachine K :=
  { s with
    storage := t.storage
    storageCnt := t.storageCnt
    puckOnConveyor := t.puckOnConveyor
    mps := { s.mps with world := t.world } }

/-- `StorageStation::store_puck`; `getStorageIndex` takes the coordinates as `int`. -/
def storePuck (puckName : String) (x y z : ℤ) (s : StorageMachine K) : Option (StorageMachine K) :=
  (storageAt (getStorageIndex x y z)).map fun i => s.withShelf (s.shelf.storeIn puckName i)

/-- `StorageStation::retrieve_puck`. -/
def retrievePuck (M : Machine (Vec K)) (x y z : ℤ) (s : StorageMachine K) :
    Option (StorageMachine K) :=
  (storageAt (getStorageIndex x y z)).bind fun i => (s.shelf.takeFrom M i).map s.withShelf

/-- `StorageStation::on_puck_msg`, which does without the one of `Mps`. -/
def onPuckMsg (M : Machine (Vec K)) (msg : PoseMsg (Vec K)) (s : StorageMachine K) :
    StorageMachine K :=
  if msg.name = s.puckOnConveyor ∧ M.puckIn .input msg.position = false then
    { s with puckOnConveyor := "" }
  else s

def publish (cmd : WorkpieceCommand) (s : StorageMachine K) : StorageMachine K :=
  { s with mps := { s.mps with puckCmdPub := s.mps.puckCmdPub ++ [cmd] } }

/-- `StorageStation::addRings`. -/
def addRings (puckName : String) (clrList : List Color) (s : StorageMachine K) :
    StorageMachine K :=
  clrList.foldl
    (fun s clr => s.publish { command := .ADD_RING, color := [clr], puckName := puckName }) s

/-- `StorageStation::addCap`. -/
def addCap (puck : String) (clr : Color) (s : StorageMachine K) : StorageMachine K :=
  s.publish { command := .ADD_CAP, color := [clr], puckName := puck }

/-- The first `i` for which `storage_[i]` has this name. -/
def slotOfName (puckName : String) (s : StorageMachine K) : Option (Fin STORAGE_SIZE) :=
  (List.finRange STORAGE_SIZE).find? fun i => (s.storage i).puckName = puckName

/-- `StorageStation::on_new_puck`; a workpiece without a model is a null pointer. -/
def onNewPuck (msg : NewPuck) (s : StorageMachine K) : Option (StorageMachine K) :=
  match s.slotOfName msg.puckName with
  | none => some s
  | some i => do
    let slot := s.storage i
    let s := { s with mps := s.mps.onNewPuck msg }
    let newPuck ← s.mps.world.modelByName msg.puckName
    let s := (s.addRings slot.puckName slot.ringColors).addCap newPuck slot.capClr
    s.storePuck newPuck slot.slotX slot.slotY slot.slotZ

variable [Field K]

def SHELF_POS_X : ℚ := 10
def SLOT_X_OFFSET : ℚ := 1 / 10
def SLOT_Y_OFFSET : ℚ := 2 / 10
def SLOT_Z_OFFSET : ℚ := 4 / 10

/-- `shelf_pos_y`, by the team in the name of the station. -/
def shelfPosY (name : String) : ℚ := if (Strings.find name "M-").isSome then 0 else 10

/-- `slot_x += 1` for an `int` passed as `uint32_t`. -/
def slotStep (x : ℤ) : ℕ := (UInt32.ofInt x + 1).toNat

/-- `StorageStation::get_slot_World_position`. -/
def getSlotWorldPosition (cfg : MpsConfig K) (name : String) (slot : Storage) : Vec K where
  x := (SHELF_POS_X + slotStep slot.slotX * SLOT_X_OFFSET + slotStep slot.slotZ * SLOT_Z_OFFSET : ℚ)
  y := (shelfPosY name + slotStep slot.slotY * SLOT_Y_OFFSET : ℚ)
  z := cfg.puckHeight * (1 / 2 : ℚ)

/-- One round of the loop in `OnUpdate`. -/
def spawnSlot (cfg : MpsConfig K) (M : Machine (Vec K)) (s : StorageMachine K)
    (i : Fin STORAGE_SIZE) : Option (StorageMachine K) :=
  let slot := s.storage i
  if slot.hasPuck = true then
    ((Mps.spawnPuck M (getSlotWorldPosition cfg M.name slot) slot.baseClr).run handle s.mps).map
      fun (mps, puckName) =>
        -- the slot stays marked
        if puckName = "" then { s with mps := mps }
        else { s with
          mps := mps
          storage := Function.update s.storage i { slot with puckName := puckName } }
  else some s

/-- The initial spawning is due. -/
def SpawnsNow [LinearOrder K] (time : K) (s : StorageMachine K) : Prop :=
  time - s.createdTime > (10 : ℚ) ∧ s.pucksSpawned = false

instance [LinearOrder K] (time : K) (s : StorageMachine K) : Decidable (s.SpawnsNow time) :=
  inferInstanceAs (Decidable (_ ∧ _))

/-- `StorageStation::OnUpdate`, without that of `Mps`, which leaves the shelf alone. -/
def onUpdate [LinearOrder K] (cfg : MpsConfig K) (M : Machine (Vec K)) (time : K)
    (s : StorageMachine K) : Option (StorageMachine K) :=
  if s.SpawnsNow time then
    ((List.finRange STORAGE_SIZE).foldlM (spawnSlot cfg M) s).map
      fun s => { s with pucksSpawned := true }
  else some s

end StorageMachine

/-! ## Runs -/

/-- What happens to a storage station. -/
inductive StorageEvent (K : Type) where
  | update (time : K)
  | newPuck (msg : NewPuck)
  | storePuck (puckName : String) (x y z : ℤ)
  | retrievePuck (x y z : ℤ)
  | puckMsg (msg : PoseMsg (Vec K))
  /-- Everything else, which leaves the shelf alone. -/
  | other (mps : Mps (Vec K))

section

variable {K : Type} [Field K] [LinearOrder K]

def StorageEvent.perform (cfg : MpsConfig K) (M : Machine (Vec K)) (s : StorageMachine K) :
    StorageEvent K → Option (StorageMachine K)
  | .update time => s.onUpdate cfg M time
  | .newPuck msg => s.onNewPuck msg
  | .storePuck puckName x y z => s.storePuck puckName x y z
  | .retrievePuck x y z => s.retrievePuck M x y z
  | .puckMsg msg => some (s.onPuckMsg M msg)
  | .other mps => some { s with mps := mps }

/-- A storage station from `init_storage` in its constructor on. -/
def storageMachineSystem (cfg : MpsConfig K) (M : Machine (Vec K))
    (config : String → List String) (slotIds : List String) :
    LTS (StorageMachine K) (StorageEvent K) where
  init s := s.pucksSpawned = false ∧ ∃ garbage world,
    (StorageStation.empty garbage world).initStorage config slotIds = some s.shelf
  next := StorageEvent.perform cfg M

end

/-! ## The names that the initial spawning gives -/

namespace StorageMachine

variable {K : Type} [Field K] {cfg : MpsConfig K} {M : Machine (Vec K)} {s s' : StorageMachine K}

/-- The colour of the base that a marked slot is to hold. -/
def markedClr (s : StorageMachine K) (i : Fin STORAGE_SIZE) : Option Color :=
  if (s.storage i).hasPuck = true then some (s.storage i).baseClr else none

/-- The name that a loop over the slots gives to one of them. -/
def spawnedName (M : Machine (Vec K)) (clr : Fin STORAGE_SIZE → Option Color) :
    List (Fin STORAGE_SIZE) → (ℕ → ℕ) → Fin STORAGE_SIZE → Option String
  | [], _, _ => none
  | i :: l, rolls, j =>
    match clr i with
    | none => spawnedName M clr l rolls j
    | some c =>
      if j = i then Mps.requestedName M (rolls 0) c
      else spawnedName M clr l (fun n => rolls (n + 1)) j

/-- The name that `OnUpdate` gives to a slot when it spawns. -/
def spawnName (M : Machine (Vec K)) (s : StorageMachine K) : Fin STORAGE_SIZE → Option String :=
  spawnedName M s.markedClr (List.finRange STORAGE_SIZE) s.mps.rolls

/-- A slot with the name that was spawned for it. -/
def rename (slot : Storage) : Option String → Storage
  | none => slot
  | some puckName => { slot with puckName := puckName }

@[simp] theorem rename_hasPuck (slot : Storage) (name : Option String) :
    (rename slot name).hasPuck = slot.hasPuck := by
  cases name <;> rfl

@[simp] theorem rename_baseClr (slot : Storage) (name : Option String) :
    (rename slot name).baseClr = slot.baseClr := by
  cases name <;> rfl

omit [Field K] in
theorem spawnedName_of_notMem {clr : Fin STORAGE_SIZE → Option Color} {l : List (Fin STORAGE_SIZE)}
    {j : Fin STORAGE_SIZE} (h : j ∉ l) (rolls : ℕ → ℕ) : spawnedName M clr l rolls j = none := by
  induction l generalizing rolls with
  | nil => rfl
  | cons i l ih =>
    rw [List.mem_cons, not_or] at h
    unfold spawnedName
    cases clr i with
    | none => exact ih h.2 rolls
    | some c =>
      dsimp only
      rw [if_neg h.1]
      exact ih h.2 _

omit [Field K] in
/-- Names are given to marked slots, and they are not empty. -/
theorem spawnedName_eq_some {clr : Fin STORAGE_SIZE → Option Color} {l : List (Fin STORAGE_SIZE)}
    {j : Fin STORAGE_SIZE} {rolls : ℕ → ℕ} {puckName : String}
    (h : spawnedName M clr l rolls j = some puckName) : clr j ≠ none ∧ puckName ≠ "" := by
  induction l generalizing rolls with
  | nil => cases h
  | cons i l ih =>
    unfold spawnedName at h
    cases hclr : clr i with
    | none =>
      rw [hclr] at h
      exact ih h
    | some c =>
      rw [hclr] at h
      dsimp only at h
      split_ifs at h with hj
      · refine ⟨by simp [hj, hclr], ?_⟩
        rintro rfl
        exact Mps.requestedName_ne_empty h
      · exact ih h

omit [Field K] in
theorem spawnName_eq_some {j : Fin STORAGE_SIZE} {puckName : String}
    (h : s.spawnName M j = some puckName) :
    (s.storage j).hasPuck = true ∧ puckName ≠ "" := by
  obtain ⟨hclr, hne⟩ := spawnedName_eq_some h
  unfold markedClr at hclr
  split_ifs at hclr with hmark
  · exact ⟨hmark, hne⟩
  · exact absurd rfl hclr

/-- One slot. -/
theorem spawnSlot_of_markedClr (cfg : MpsConfig K) (M : Machine (Vec K)) {i : Fin STORAGE_SIZE}
    {c : Color} (h : s.markedClr i = some c) :
    ∃ mps, spawnSlot cfg M s i = some { s with
        mps := mps
        storage := Function.update s.storage i
          (rename (s.storage i) (Mps.requestedName M (s.mps.rolls 0) c)) } ∧
      mps.rolls = fun n => s.mps.rolls (n + 1) := by
  unfold markedClr at h
  split_ifs at h with hmark
  cases h
  refine ⟨s.mps.spawnResult M (getSlotWorldPosition cfg M.name (s.storage i))
    (s.storage i).baseClr, ?_, rfl⟩
  unfold spawnSlot
  rw [if_pos hmark, Mps.run_spawnPuck]
  cases hname : Mps.requestedName M (s.mps.rolls 0) (s.storage i).baseClr with
  | none =>
    rw [rename, Function.update_eq_self]
    rfl
  | some puckName =>
    have hne : puckName ≠ "" := by
      rintro rfl
      exact Mps.requestedName_ne_empty hname
    show some (if puckName = "" then _ else _) = _
    rw [if_neg hne]
    rfl

theorem spawnSlot_of_unmarked {i : Fin STORAGE_SIZE} (h : s.markedClr i = none) :
    spawnSlot cfg M s i = some s := by
  unfold markedClr at h
  split_ifs at h with hmark
  exact if_neg hmark

/-- The loop over the slots renames the marked ones. -/
theorem foldlM_spawnSlot (cfg : MpsConfig K) (M : Machine (Vec K)) {l : List (Fin STORAGE_SIZE)}
    (hl : l.Nodup) (s : StorageMachine K) :
    ∃ mps, l.foldlM (spawnSlot cfg M) s = some { s with
      mps := mps
      storage := fun j => rename (s.storage j) (spawnedName M s.markedClr l s.mps.rolls j) } := by
  induction l generalizing s with
  | nil => exact ⟨s.mps, rfl⟩
  | cons i l ih =>
    -- each spawned place takes one roll
    obtain ⟨hi, hl⟩ := List.nodup_cons.mp hl
    rw [List.foldlM_cons]
    cases hclr : s.markedClr i with
    | none =>
      obtain ⟨mps, hrest⟩ := ih hl s
      refine ⟨mps, ?_⟩
      rw [spawnSlot_of_unmarked hclr, Option.bind_eq_bind, Option.bind_some, hrest]
      simp only [spawnedName, hclr]
    | some c =>
      obtain ⟨m', hslot, hrolls⟩ := spawnSlot_of_markedClr cfg M hclr
      set t : StorageMachine K := { s with
        mps := m'
        storage := Function.update s.storage i
          (rename (s.storage i) (Mps.requestedName M (s.mps.rolls 0) c)) } with ht
      -- spawning names a place, and leaves the marks
      have hmarks : t.markedClr = s.markedClr := by
        funext j
        unfold markedClr
        by_cases hj : j = i
        · subst hj
          simp [ht]
        · simp [ht, hj]
      obtain ⟨mps, hrest⟩ := ih hl t
      refine ⟨mps, ?_⟩
      rw [hslot, Option.bind_eq_bind, Option.bind_some, hrest, hmarks]
      congr 2
      funext j
      have hrolls' : t.mps.rolls = fun n => s.mps.rolls (n + 1) := hrolls
      simp only [spawnedName, hclr, hrolls']
      by_cases hj : j = i
      · subst hj
        rw [spawnedName_of_notMem hi, if_pos rfl]
        exact Function.update_self ..
      · rw [if_neg hj]
        exact congrArg (rename · _) (Function.update_of_ne hj _ _)

end StorageMachine

/-! ## Names, marks and the counter -/

namespace StorageMachine

variable {K : Type}

/-- How many slots have a name. -/
def named (s : StorageMachine K) : ℕ := Keyed.count (fun slot => slot.puckName ≠ "") s.storage

/-- A slot is marked exactly if it has a name, apart from those whose spawn failed. -/
def Marked (s : StorageMachine K) (failed : Fin STORAGE_SIZE → Bool) : Prop :=
  ∀ i, failed i = false → ((s.storage i).hasPuck = true ↔ (s.storage i).puckName ≠ "")

/-- Counter and marks go by the names. -/
structure Booked (s : StorageMachine K) (failed : Fin STORAGE_SIZE → Bool) : Prop where
  count : s.storageCnt = s.named
  marked : s.Marked failed

/-- The counter goes by the names from the beginning, the marks do from the spawning on. -/
structure Tracked (s : StorageMachine K) (failed : Fin STORAGE_SIZE → Bool) : Prop where
  count : s.storageCnt = s.named
  marked : s.pucksSpawned = true → s.Marked failed

/-- After the spawning, a workpiece of this name is stored in a marked slot, if its slot was
free. -/
def FillsMarked (s : StorageMachine K) (failed : Fin STORAGE_SIZE → Bool) (puckName : String)
    (x y z : ℤ) : Prop :=
  s.pucksSpawned = true → ∀ i ∈ storageAt (getStorageIndex x y z), puckName ≠ "" →
    (s.storage i).puckName = "" → (s.storage i).hasPuck = true ∨ failed i = true

instance (s : StorageMachine K) (failed : Fin STORAGE_SIZE → Bool) (puckName : String)
    (x y z : ℤ) : Decidable (s.FillsMarked failed puckName x y z) :=
  inferInstanceAs (Decidable (_ → ∀ i ∈ _, _ → _ → _))

variable {s s' : StorageMachine K} {failed : Fin STORAGE_SIZE → Bool} {puckName : String}
  {x y z : ℤ} {i : Fin STORAGE_SIZE}

/-- With the counter right, only the marks matter. -/
theorem forall_booked_iff (hcount : s.storageCnt = s.named) :
    (s.pucksSpawned = true → s.Booked failed) ↔ (s.pucksSpawned = true → s.Marked failed) := by
  apply forall_congr'
  intro _
  exact ⟨fun hbooked => hbooked.marked, fun hmarked => ⟨hcount, hmarked⟩⟩

/-- An event that keeps the books whatever it does. -/
theorem Tracked.kept (ht : s.Tracked failed) :
    (True → s.Tracked failed) ∧ ((s.pucksSpawned = true → s.Booked failed) ↔ True) :=
  ⟨fun _ => ht, iff_true_intro ((forall_booked_iff ht.count).mpr ht.marked)⟩

/-- A workpiece is stored in a free slot, or everything remains as it is. -/
theorem storePuck_cases (h : s.storePuck puckName x y z = some s') :
    ∃ i ∈ storageAt (getStorageIndex x y z),
      (¬ (puckName ≠ "" ∧ (s.storage i).puckName = "") ∧ s' = s) ∨
      ((puckName ≠ "" ∧ (s.storage i).puckName = "") ∧ s' = { s with
        storageCnt := s.storageCnt + 1
        storage := Function.update s.storage i { s.storage i with puckName := puckName } }) := by
  obtain ⟨i, hi, rfl⟩ := Option.map_eq_some_iff.mp h
  refine ⟨i, hi, ?_⟩
  unfold StorageStation.storeIn
  have hslot : s.shelf.storage i = s.storage i := rfl
  rw [hslot]
  by_cases hsame : (s.storage i).puckName = puckName
  · rw [if_pos hsame]
    exact .inl ⟨fun hfree => hfree.1 (hsame.symm.trans hfree.2), rfl⟩
  · rw [if_neg hsame]
    by_cases hempty : (s.storage i).puckName = ""
    · rw [if_neg (not_not.mpr hempty)]
      have hname : puckName ≠ "" := fun heq => hsame (hempty.trans heq.symm)
      exact .inr ⟨⟨hname, hempty⟩, rfl⟩
    · rw [if_pos hempty]
      exact .inl ⟨fun hfree => hempty hfree.2, rfl⟩

/-- Storing keeps the counter right; it keeps the marks right exactly if it fills no unmarked
slot. -/
theorem Tracked.storePuck (ht : s.Tracked failed) (h : s.storePuck puckName x y z = some s') :
    s'.pucksSpawned = s.pucksSpawned ∧ s'.storageCnt = s'.named ∧
      ((s'.pucksSpawned = true → s'.Marked failed) ↔ s.FillsMarked failed puckName x y z) := by
  obtain ⟨i, hi, ⟨hkeep, rfl⟩ | ⟨⟨hname, hempty⟩, rfl⟩⟩ := storePuck_cases h
  -- nothing is stored
  · refine ⟨rfl, ht.count, iff_of_true ht.marked ?_⟩
    intro _ j hj hname hempty
    rw [Option.mem_def.mp hi] at hj
    cases hj
    exact absurd ⟨hname, hempty⟩ hkeep
  · refine ⟨rfl, ?_, ?_⟩
    · have hcount := Keyed.count_update_of_not (p := fun slot => slot.puckName ≠ "")
        (a := s.storage) (i := i) (b := { s.storage i with puckName := puckName })
        (not_not.mpr hempty) hname
      show s.storageCnt + 1 = (Keyed.count _ _ : ℕ)
      rw [hcount, ht.count]
      rfl
    -- the place is named from now on, so it has to be marked, or its spawn failed
    · constructor
      · intro hmarked hspawned j hj _ _
        rw [Option.mem_def.mp hi] at hj
        cases hj
        by_cases hfailed : failed i = true
        · exact .inr hfailed
        · have hmark := hmarked hspawned i (Bool.eq_false_of_not_eq_true hfailed)
          dsimp only at hmark
          rw [Function.update_self] at hmark
          exact .inl (hmark.mpr hname)
      · intro hfills hspawned j hj
        dsimp only
        by_cases hji : j = i
        · subst hji
          rw [Function.update_self]
          have hmark := (hfills hspawned j hi hname hempty).resolve_right (by simp [hj])
          exact iff_of_true hmark hname
        · rw [Function.update_of_ne hji]
          exact ht.marked hspawned j hj

/-- A workpiece is stored. -/
theorem Tracked.stored (ht : s.Tracked failed) (h : s.storePuck puckName x y z = some s') :
    (s.FillsMarked failed puckName x y z → s'.Tracked failed) ∧
      ((s'.pucksSpawned = true → s'.Booked failed) ↔ s.FillsMarked failed puckName x y z) := by
  obtain ⟨-, hcount, hiff⟩ := ht.storePuck h
  exact ⟨fun hfills => ⟨hcount, hiff.mpr hfills⟩, (forall_booked_iff hcount).trans hiff⟩

/-- Retrieving keeps counter and marks right. -/
theorem Tracked.retrievePuck {M : Machine (Vec K)} (ht : s.Tracked failed)
    (h : s.retrievePuck M x y z = some s') : s'.Tracked failed := by
  obtain ⟨i, -, h⟩ := Option.bind_eq_some_iff.mp h
  obtain ⟨t, ht', rfl⟩ := Option.map_eq_some_iff.mp h
  unfold StorageStation.takeFrom at ht'
  by_cases hempty : (s.shelf.storage i).puckName = ""
  · rw [if_pos hempty] at ht'
    cases ht'
    exact ⟨ht.count, ht.marked⟩
  · rw [if_neg hempty] at ht'
    obtain ⟨wp, -, rfl⟩ := Option.map_eq_some_iff.mp ht'
    refine ⟨?_, fun hspawned j hj => ?_⟩
    · have hcount := Keyed.count_update_add_one (p := fun slot => slot.puckName ≠ "")
        (a := s.storage) (i := i) (b := { s.storage i with puckName := "", hasPuck := false })
        hempty (by simp)
      have hold := ht.count
      unfold named at hold
      show s.storageCnt - 1 = (Keyed.count _ (Function.update s.storage i _) : ℕ)
      rw [hold, ← hcount]
      push_cast
      exact add_sub_cancel_right _ _
    · show (Function.update s.storage i _ j).hasPuck = true ↔
        (Function.update s.storage i _ j).puckName ≠ ""
      by_cases hji : j = i
      · subst hji
        rw [Function.update_self]
        simp
      · rw [Function.update_of_ne hji]
        exact ht.marked hspawned j hj

theorem addRings_eq (puckName : String) (clrList : List Color) (s : StorageMachine K) :
    ∃ mps, s.addRings puckName clrList = { s with mps := mps } := by
  unfold addRings
  induction clrList generalizing s with
  | nil => exact ⟨s.mps, rfl⟩
  | cons clr clrList ih =>
    obtain ⟨mps, heq⟩ := ih (s.publish { command := .ADD_RING, color := [clr], puckName })
    exact ⟨mps, heq⟩

/-- An announcement stores the workpiece in the slot of its name. -/
theorem onNewPuck_cases {msg : NewPuck} (h : s.onNewPuck msg = some s') :
    (s.slotOfName msg.puckName = none ∧ s' = s) ∨
      ∃ i, s.slotOfName msg.puckName = some i ∧ ∃ mps, { s with mps := mps }.storePuck msg.puckName
        (s.storage i).slotX (s.storage i).slotY (s.storage i).slotZ = some s' := by
  unfold onNewPuck at h
  cases hslot : s.slotOfName msg.puckName with
  | none =>
    rw [hslot] at h
    cases h
    exact .inl ⟨rfl, rfl⟩
  | some i =>
    rw [hslot] at h
    obtain ⟨newPuck, hmodel, h⟩ := Option.bind_eq_some_iff.mp h
    unfold World.modelByName at hmodel
    split_ifs at hmodel
    cases hmodel
    obtain ⟨mps, hrings⟩ := addRings_eq (s.storage i).puckName (s.storage i).ringColors
      { s with mps := s.mps.onNewPuck msg }
    dsimp only at h
    rw [hrings] at h
    exact .inr ⟨i, rfl, _, h⟩

/-- The station after its slots have got their names. -/
def spawned (M : Machine (Vec K)) (mps : Mps (Vec K)) (s : StorageMachine K) : StorageMachine K :=
  { s with
    mps := mps
    storage := fun j => rename (s.storage j) (s.spawnName M j)
    pucksSpawned := true }

section

variable [Field K] [LinearOrder K] {cfg : MpsConfig K} {M : Machine (Vec K)} {time : K}

/-- The initial spawning gives names to marked slots. -/
theorem onUpdate_of_spawnsNow (hnow : s.SpawnsNow time) (h : s.onUpdate cfg M time = some s') :
    ∃ mps, s' = s.spawned M mps := by
  unfold onUpdate at h
  obtain ⟨mps, hfold⟩ := foldlM_spawnSlot cfg M (List.nodup_finRange _) s
  rw [if_pos hnow, hfold] at h
  exact ⟨mps, (Option.some.inj h).symm⟩

end

/-- The slots for which `spawn_puck` requests no workpiece. -/
def spawnFailed (M : Machine (Vec K)) (s : StorageMachine K) (i : Fin STORAGE_SIZE) : Bool :=
  (s.storage i).hasPuck && (s.spawnName M i).isNone

variable {M : Machine (Vec K)}

/-- Spawning keeps the counter right exactly if it gives no name to a slot without one. -/
theorem spawned_count_iff (mps : Mps (Vec K)) (hcount : s.storageCnt = s.named) :
    (s.spawned M mps).storageCnt = (s.spawned M mps).named ↔
      ∀ i, (s.storage i).hasPuck = true → (s.storage i).puckName = "" → s.spawnName M i = none := by
  have hkeep : ∀ i, (s.storage i).puckName ≠ "" →
      (rename (s.storage i) (s.spawnName M i)).puckName ≠ "" := by
    intro i hi
    cases hname : s.spawnName M i with
    | none => exact hi
    | some puckName => exact (spawnName_eq_some hname).2
  have hiff := Keyed.count_eq_iff_of_imp (p := fun slot : Storage => slot.puckName ≠ "") hkeep
  have hcnt : (s.spawned M mps).storageCnt = (s.spawned M mps).named ↔
      (s.spawned M mps).named = s.named := by
    show s.storageCnt = _ ↔ _
    rw [hcount]
    omega
  rw [hcnt]
  refine hiff.trans (forall_congr' fun i => ?_)
  cases hname : s.spawnName M i with
  | none => simp [rename]
  | some puckName =>
    obtain ⟨hmark, hne⟩ := spawnName_eq_some hname
    simp [rename, hmark, hne]

/-- Spawning leaves the marks right exactly if no unmarked slot has a name before. -/
theorem spawned_marked_iff (mps : Mps (Vec K)) :
    (s.spawned M mps).Marked (s.spawnFailed M) ↔
      ∀ i, (s.storage i).hasPuck = false → (s.storage i).puckName = "" := by
  refine forall_congr' fun i => ?_
  show (_ → ((rename _ _).hasPuck = true ↔ (rename _ _).puckName ≠ "")) ↔ _
  rw [rename_hasPuck]
  cases hname : s.spawnName M i with
  | none => cases hmark : (s.storage i).hasPuck <;> simp [spawnFailed, rename, hmark, hname]
  | some puckName =>
    obtain ⟨hmark, hne⟩ := spawnName_eq_some hname
    simp [spawnFailed, rename, hmark, hne]

end StorageMachine

/-! ## Runs -/

/-- `init_storage` gives no names. -/
theorem initStorage_names {Pose : Type} {config : String → List String} {slotIds : List String}
    {s s' : StorageStation Pose} (h : s.initStorage config slotIds = some s') :
    (∀ i, (s'.storage i).puckName = (s.storage i).puckName) ∧ s'.storageCnt = s.storageCnt := by
  induction slotIds generalizing s with
  | nil =>
    cases h
    exact ⟨fun _ => rfl, rfl⟩
  | cons slotpos slotIds ih =>
    obtain ⟨t, hslot, hrest⟩ := initStorage_cons h
    obtain ⟨hnames, hcnt⟩ := ih hrest
    unfold StorageStation.initSlot at hslot
    simp only [Option.bind_eq_bind, Option.bind_eq_some_iff] at hslot
    obtain ⟨x, -, y, -, z, -, i, -, slot, hdescribe, hslot⟩ := hslot
    cases hslot
    refine ⟨fun j => (hnames j).trans ?_, hcnt⟩
    by_cases hji : j = i
    · subst hji
      dsimp only
      rw [Function.update_self]
      cases hentries : config slotpos with
      | nil =>
        rw [hentries] at hdescribe
        cases hdescribe
      | cons base rest =>
        rw [hentries] at hdescribe
        cases hdescribe
        rfl
    · exact congrArg Storage.puckName (Function.update_of_ne hji _ _)

section

variable {K : Type} [Field K] [LinearOrder K] {cfg : MpsConfig K} {M : Machine (Vec K)}
  {s s' : StorageMachine K} {failed : Fin STORAGE_SIZE → Bool}

/-- Keeps the slots whose spawn failed. -/
def failedSpawns (M : Machine (Vec K)) :
    Monitor (StorageMachine K) (StorageEvent K) (Fin STORAGE_SIZE → Bool) where
  start _ _ := false
  observe failed s
    | .update time, _ => if s.SpawnsNow time then s.spawnFailed M else failed
    | _, _ => failed

/-- No slot without a name gets one by the spawning, and workpieces are stored in marked slots
only. -/
def KeepsBooks (M : Machine (Vec K)) (p : StorageMachine K × (Fin STORAGE_SIZE → Bool)) :
    StorageEvent K → Prop
  | .update time => p.1.SpawnsNow time →
      (∀ i, (p.1.storage i).hasPuck = true → (p.1.storage i).puckName = "" →
        p.1.spawnName M i = none) ∧
      ∀ i, (p.1.storage i).hasPuck = false → (p.1.storage i).puckName = ""
  | .newPuck msg => ∀ i ∈ p.1.slotOfName msg.puckName, p.1.FillsMarked p.2 msg.puckName
      (p.1.storage i).slotX (p.1.storage i).slotY (p.1.storage i).slotZ
  | .storePuck puckName x y z => p.1.FillsMarked p.2 puckName x y z
  | .retrievePuck .. | .puckMsg _ | .other _ => True

instance (M : Machine (Vec K)) (p : StorageMachine K × (Fin STORAGE_SIZE → Bool)) :
    DecidablePred (KeepsBooks M p)
  | .update _ => inferInstanceAs (Decidable (_ → (∀ _, _ → _ → _) ∧ ∀ _, _ → _))
  | .newPuck _ => inferInstanceAs (Decidable (∀ i ∈ _, _))
  | .storePuck .. => inferInstanceAs (Decidable (StorageMachine.FillsMarked ..))
  | .retrievePuck .. | .puckMsg _ | .other _ => .isTrue trivial

namespace StorageMachine

/-- After an event, counter and marks go by the names exactly if the event keeps the books. -/
theorem Tracked.step {l : StorageEvent K} (ht : s.Tracked failed)
    (hs : l.perform cfg M s = some s') :
    (KeepsBooks M (s, failed) l → s'.Tracked ((failedSpawns M).observe failed s l s')) ∧
      ((s'.pucksSpawned = true → s'.Booked ((failedSpawns M).observe failed s l s')) ↔
        KeepsBooks M (s, failed) l) := by
  cases l with
  | update time =>
    dsimp only [failedSpawns, KeepsBooks]
    by_cases hnow : s.SpawnsNow time
    -- the one update that spawns: the books are opened here
    · obtain ⟨mps, rfl⟩ := onUpdate_of_spawnsNow hnow hs
      rw [if_pos hnow, ← spawned_count_iff mps ht.count, ← spawned_marked_iff mps]
      refine ⟨fun hbooks => ⟨(hbooks hnow).1, fun _ => (hbooks hnow).2⟩, ?_⟩
      exact ⟨fun hbooked _ => ⟨(hbooked rfl).count, (hbooked rfl).marked⟩,
        fun hbooks _ => ⟨(hbooks hnow).1, (hbooks hnow).2⟩⟩
    · have hidle : s.onUpdate cfg M time = some s := if_neg hnow
      rw [if_neg hnow]
      rw [StorageEvent.perform, hidle] at hs
      cases hs
      exact ⟨fun _ => ht, iff_of_true (ht.kept.2.mpr trivial) fun h => absurd h hnow⟩
  | newPuck msg =>
    obtain ⟨hslot, rfl⟩ | ⟨i, hslot, mps, hstore⟩ := onNewPuck_cases hs
    · refine ⟨fun _ => ht, iff_of_true (ht.kept.2.mpr trivial) fun i hi => ?_⟩
      rw [hslot] at hi
      cases hi
    -- the spawned workpiece is stored in the place that awaits it
    · have hsame : ({ s with mps := mps } : StorageMachine K).Tracked failed :=
        ⟨ht.count, ht.marked⟩
      have hstep := hsame.stored hstore
      have hiff : KeepsBooks M (s, failed) (.newPuck msg) ↔ s.FillsMarked failed msg.puckName
          (s.storage i).slotX (s.storage i).slotY (s.storage i).slotZ := by
        dsimp only [KeepsBooks]
        rw [hslot]
        exact ⟨fun h => h i rfl, fun h j hj => by cases hj; exact h⟩
      rw [hiff]
      exact hstep
  | storePuck puckName x y z => exact ht.stored hs
  | retrievePuck x y z => exact (ht.retrievePuck hs).kept
  | puckMsg msg =>
    cases hs
    have hsame : (s.onPuckMsg M msg).Tracked failed := by
      unfold onPuckMsg
      split_ifs
      · exact ⟨ht.count, ht.marked⟩
      · exact ht
    exact hsame.kept
  | other mps =>
    cases hs
    have hsame : ({ s with mps := mps } : StorageMachine K).Tracked failed :=
      ⟨ht.count, ht.marked⟩
    exact hsame.kept

end StorageMachine

/-- Along every run that keeps the books, counter and marks go by the names after the spawning;
one more event leaves them so exactly if it keeps the books too. -/
theorem booked_iff (cfg : MpsConfig K) (M : Machine (Vec K)) (config : String → List String)
    (slotIds : List String)
    (h : ((storageMachineSystem cfg M config slotIds).watch (failedSpawns M)).Reach
      (KeepsBooks M) (s, failed)) :
    (s.pucksSpawned = true → s.Booked failed) ∧
      ∀ l s', (storageMachineSystem cfg M config slotIds).next s l = some s' →
        ((s'.pucksSpawned = true → s'.Booked ((failedSpawns M).observe failed s l s')) ↔
          KeepsBooks M (s, failed) l) := by
  have ht : s.Tracked failed := by
    refine LTS.Reach.watch_invariant (P := StorageMachine.Tracked) ?_ ?_ h
    · rintro s ⟨hspawned, garbage, world, hinit⟩
      obtain ⟨hnames, hcnt⟩ := initStorage_names hinit
      refine ⟨?_, fun hs => by rw [hspawned] at hs; cases hs⟩
      have hempty : ∀ i, (s.storage i).puckName = "" := hnames
      have hzero : s.storageCnt = 0 := hcnt
      simp [StorageMachine.named, Keyed.count, hempty, hzero]
    · intro s failed l s' ht hbooks hs
      exact (ht.step hs).1 hbooks
  exact ⟨fun hspawned => ⟨ht.count, ht.marked hspawned⟩, fun l s' hs => (ht.step hs).2⟩

end

/-! ## Two runs -/

/-- The station of the shipped configuration with these slots configured. -/
def stocked (slotIds : List String) : StorageMachine ℚ :=
  StorageMachine.withShelf
    { mps := shippedMps "C-SS"
      storage := shippedStorage.storage
      storageCnt := 0
      puckOnConveyor := ""
      pucksSpawned := false
      createdTime := 0 }
    ((shippedStorage.initStorage shippedSlots slotIds).getD shippedStorage)

abbrev stockedSystem : LTS (StorageMachine ℚ × (Fin STORAGE_SIZE → Bool)) (StorageEvent ℚ) :=
  (storageMachineSystem shippedConfig (shipped "C-SS") shippedSlots ["000"]).watch
    (failedSpawns (shipped "C-SS"))

theorem init_stocked : stockedSystem.init (stocked ["000"], fun _ => false) := by
  have hsome : (shippedStorage.initStorage shippedSlots ["000"]).isSome = true := by
    decide +kernel
  obtain ⟨t, ht⟩ := Option.isSome_iff_exists.mp hsome
  refine ⟨⟨rfl, _, _, ht.trans ?_⟩, rfl⟩
  rw [stocked, ht]
  rfl

/-- A workpiece is stored in the configured slot before the spawning. -/
theorem booked_iff_stored :
    ∃ s failed, stockedSystem.Reach (KeepsBooks (shipped "C-SS")) (s, failed) ∧
      s.pucksSpawned = true ∧ s.storageCnt = 1 ∧ s.Booked failed := by
  obtain ⟨⟨s, failed⟩, hreach, hs⟩ := LTS.exists_reach (T := stockedSystem)
    (C := KeepsBooks (shipped "C-SS")) (s := (stocked ["000"], fun _ => false))
    (l := [.storePuck "puck_1" 0 0 0, .update 11])
    (p := fun p => decide (p.1.pucksSpawned = true ∧ p.1.storageCnt = 1)) init_stocked
    (by decide +kernel) (by decide +kernel)
  obtain ⟨hspawned, hcnt⟩ := of_decide_eq_true hs
  exact ⟨s, failed, hreach, hspawned, hcnt, (booked_iff _ _ _ _ hreach).1 hspawned⟩

/-- The workpiece that is spawned for the configured slot is not counted. -/
theorem spawned_not_counted :
    ¬ ∀ s failed, stockedSystem.Reachable (s, failed) → s.pucksSpawned = true →
      s.Booked failed := by
  intro h
  obtain ⟨⟨s, failed⟩, hreach, hs⟩ := LTS.exists_reachable (T := stockedSystem)
    (s := (stocked ["000"], fun _ => false)) (l := [.update 11])
    (p := fun p => decide (p.1.pucksSpawned = true ∧ p.1.storageCnt ≠ p.1.named)) init_stocked
    (by decide +kernel)
  obtain ⟨hspawned, hcnt⟩ := of_decide_eq_true hs
  exact hcnt (h s failed hreach hspawned).count

end GazeboRcll
