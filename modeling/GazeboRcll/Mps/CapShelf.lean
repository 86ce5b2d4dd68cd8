import GazeboRcll.Library.LTS
import GazeboRcll.Library.Strings
import GazeboRcll.Mps.Geometry
import GazeboRcll.Mps.Runs

/-!
# The shelf of a cap station

A cap station keeps a pointer to the workpiece on each of the three places of its shelf, and
refills the shelf when all three are null. A pointer is set once, when the workpiece announces
itself, and cleared when the workpiece has gone. A workpiece that stands on the shelf without a
pointer to it, because its announcement is late or it was brought back, does not keep the
station from refilling (`refills_iff`).
-/

namespace GazeboRcll

/-! ## Places -/

inductive ShelfPlace where
  | left | middle | right
deriving DecidableEq, Repr

namespace ShelfPlace

/-- In the order in which the source looks at them. -/
def all : List ShelfPlace := [left, middle, right]

/-- How far along the long side a place is. -/
def longSide : ShelfPlace → ℚ
  | left => -1 / 10
  | middle => -2 / 10
  | right => -3 / 10

end ShelfPlace

namespace MpsConfig

variable {K : Type} [Field K] [LinearOrder K] (cfg : MpsConfig K) (p : Placement K)

/-- `CapStation::shelf_left_pose`, `shelf_middle_pose` and `shelf_right_pose`. -/
def shelfPose (q : ShelfPlace) : Vec K :=
  cfg.getPuckWorldPose p q.longSide 0 (cfg.heightOrBelt (cfg.beltHeight + (5 / 1000 : ℚ)))

/-- `Mps::pose_hit`; the tolerance -1 stands for the configured one. -/
def poseHit (toTest reference : Vec K) (tolerance : ℚ) : Bool :=
  Vec.within (if tolerance = -1 then cfg.detectTolerance else tolerance) toTest reference

/-- `CapStation::pose_in_shelf_left`, `pose_in_shelf_middle` and `pose_in_shelf_right`. -/
def poseInShelf (q : ShelfPlace) (puckPose : Vec K) : Bool :=
  cfg.poseHit puckPose (cfg.shelfPose p q) (5 / 100)

end MpsConfig

/-! ## The station -/

/-- What `CapStation` adds to `Mps` for its shelf. -/
structure CapStation (K : Type) where
  mps : Mps (Vec K)
  /-- `puck_in_shelf_left_`, `puck_in_shelf_middle_` and `puck_in_shelf_right_`. -/
  puckInShelf : ShelfPlace → Option String
  puckSpawnedTime : K

/-- The configuration of a cap station. -/
structure CapShelfConfig (K : Type) extends MpsConfig K where
  /-- `SPAWN_PUCK_TIME`. -/
  spawnPuckTime : ℤ

namespace CapStation

variable {K : Type} [Field K] [LinearOrder K]

/-- The colour of the caps on the shelf, by the name of the station. -/
def capColor (name : String) : List Color :=
  if (Strings.find name "CS1").isSome then [.GREY]
  else if (Strings.find name "CS2").isSome then [.BLACK]
  else []

/-- `CapStation::on_new_puck`. -/
def onNewPuck (cfg : CapShelfConfig K) (M : Machine (Vec K)) (p : Placement K) (msg : NewPuck)
    (s : CapStation K) : CapStation K :=
  let mps := s.mps.onNewPuck msg
  match mps.world.modelByName msg.puckName with
  | none => { s with mps := mps }
  | some model =>
    match ShelfPlace.all.find? fun q => cfg.poseInShelf p q (mps.world.pose model) with
    | none => { s with mps := mps }
    | some q =>
      -- a pointer to another workpiece is overwritten
      { s with
        puckInShelf := Function.update s.puckInShelf q (some model)
        mps := { mps with puckCmdPub := mps.puckCmdPub ++
          [{ command := .ADD_CAP, color := capColor M.name, puckName := msg.puckName }] } }

/-- The pointers after those to workpieces that have gone are cleared. -/
def clearShelf (cfg : CapShelfConfig K) (p : Placement K) (s : CapStation K) :
    ShelfPlace → Option String :=
  fun q => (s.puckInShelf q).filter fun wp =>
    cfg.poseHit (s.mps.world.pose wp) (cfg.shelfPose p q) (1 / 10)

/-- Three workpieces for the shelf. -/
def fillShelf (cfg : CapShelfConfig K) (M : Machine (Vec K)) (p : Placement K) :
    StationM (Vec K) Unit := do
  let _ ← Mps.spawnPuck M (cfg.shelfPose p .left) .RED
  let _ ← Mps.spawnPuck M (cfg.shelfPose p .middle) .RED
  let _ ← Mps.spawnPuck M (cfg.shelfPose p .right) .RED

/-- It is time for a refill. -/
def SpawnTimeOver (cfg : CapShelfConfig K) (time : K) (s : CapStation K) : Prop :=
  ¬ time - s.puckSpawnedTime < cfg.spawnPuckTime

instance (cfg : CapShelfConfig K) (time : K) (s : CapStation K) :
    Decidable (s.SpawnTimeOver cfg time) := inferInstanceAs (Decidable (¬ _))

/-- `CapStation::OnUpdate`, without that of `Mps`, which leaves the shelf alone. -/
def onUpdate (cfg : CapShelfConfig K) (M : Machine (Vec K)) (p : Placement K) (time : K)
    (s : CapStation K) : Option (CapStation K) :=
  if s.SpawnTimeOver cfg time then
    let s := { s with puckInShelf := s.clearShelf cfg p }
    if s.puckInShelf .right = none ∧ s.puckInShelf .middle = none ∧ s.puckInShelf .left = none then
      ((fillShelf cfg M p).run handle s.mps).map fun (mps, _) =>
        { s with mps := mps, puckSpawnedTime := time }
    else some s
  else some s

/-- The constructor, at its creation time. -/
def create (cfg : CapShelfConfig K) (M : Machine (Vec K)) (p : Placement K) (createdTime : K)
    (mps : Mps (Vec K)) : Option (CapStation K) :=
  ((fillShelf cfg M p).run handle mps).map fun (mps, _) =>
    { mps := { mps with storedCapColor := .NONE }
      puckInShelf := fun _ => none
      puckSpawnedTime := createdTime }

end CapStation

/-- What happens to a cap station. -/
inductive CapShelfEvent (K : Type) where
  | update (p : Placement K) (time : K)
  | newPuck (p : Placement K) (msg : NewPuck)
  /-- Everything else, which leaves the shelf alone: other messages and moving workpieces. -/
  | other (mps : Mps (Vec K))

/-- A refill: where the station was, the time of the refill before it or of the construction,
its own time, and the world in which it happened. -/
structure Refill (K : Type) where
  place : Placement K
  previous : K
  time : K
  world : World (Vec K)

/-- What is observed of the shelf. -/
structure RefillLog (K : Type) where
  refills : List (Refill K)
  /-- The time of the last refill or of the construction. -/
  last : K
  /-- The time of the last update or of the construction. -/
  now : K

section

variable {K : Type} [Field K] [LinearOrder K]

/-- A cap station from its construction on. -/
def capShelfSystem (cfg : CapShelfConfig K) (M : Machine (Vec K)) :
    LTS (CapStation K) (CapShelfEvent K) where
  init s := ∃ p createdTime mps, CapStation.create cfg M p createdTime mps = some s
  next s
    | .update p time => s.onUpdate cfg M p time
    | .newPuck p msg => some (s.onNewPuck cfg M p msg)
    | .other mps => some { s with mps := mps }

/-- Three requests were published. -/
def SpawnsThree (s s' : CapStation K) : Prop :=
  s'.mps.factoryPub.length = s.mps.factoryPub.length + 3

instance (s s' : CapStation K) : Decidable (SpawnsThree s s') :=
  inferInstanceAs (Decidable (_ = _))

/-- Observes the updates. -/
def refillLog : Monitor (CapStation K) (CapShelfEvent K) (RefillLog K) where
  start s := ⟨[], s.puckSpawnedTime, s.puckSpawnedTime⟩
  observe log s
    | .update p time, s' =>
      if SpawnsThree s s' then
        ⟨log.refills ++ [⟨p, log.last, time, s.mps.world⟩], time, time⟩
      else { log with now := time }
    | _, _ => log

/-- The shelf was empty, and the refill before was long enough ago. -/
structure Refill.Fine (cfg : CapShelfConfig K) (isPuck : String → Prop) (r : Refill K) : Prop where
  empty : ∀ wp, r.world.models wp = true → isPuck wp → ∀ q,
    cfg.poseInShelf r.place q (r.world.pose wp) = false
  late : cfg.spawnPuckTime ≤ r.time - r.previous

/-- Some workpiece stands on the shelf. -/
def CapStation.Occupied (cfg : CapShelfConfig K) (isPuck : String → Prop) (p : Placement K)
    (s : CapStation K) : Prop :=
  ∃ wp, s.mps.world.models wp = true ∧ isPuck wp ∧ ∃ q,
    cfg.poseInShelf p q (s.mps.world.pose wp) = true

/-- Some workpiece that was announced at a place of the shelf is still there. -/
def CapStation.Noticed (cfg : CapShelfConfig K) (p : Placement K) (s : CapStation K) : Prop :=
  ∃ q, ∃ wp ∈ s.puckInShelf q,
    cfg.poseHit (s.mps.world.pose wp) (cfg.shelfPose p q) (1 / 10) = true

/-- The template for workpieces can be used for the next three of them. -/
def CapStation.CanSpawn (M : Machine (Vec K)) (s : CapStation K) : Prop :=
  ∀ n < 3, (Mps.requestedName M (s.mps.rolls n) .RED).isSome = true

/-- Simulation times do not decrease. -/
def Increasing (p : CapStation K × RefillLog K) : CapShelfEvent K → Prop
  | .update _ time => p.2.now ≤ time
  | _ => True

/-- When a refill is due, a workpiece on the shelf is noticed, or one of the others is. -/
def NoticesPucks (cfg : CapShelfConfig K) (M : Machine (Vec K)) (isPuck : String → Prop)
    (s : CapStation K) : CapShelfEvent K → Prop
  | .update p time => s.SpawnTimeOver cfg time → s.CanSpawn M → s.Occupied cfg isPuck p →
      s.Noticed cfg p
  | _ => True

/-! ## What an update does -/

namespace CapStation

variable {cfg : CapShelfConfig K} {M : Machine (Vec K)} {isPuck : String → Prop} {p : Placement K}
  {time : K} {s s' : CapStation K}

/-- The station after `fillShelf`. -/
def fillResult (cfg : CapShelfConfig K) (M : Machine (Vec K)) (p : Placement K)
    (m : Mps (Vec K)) : Mps (Vec K) :=
  ((m.spawnResult M (cfg.shelfPose p .left) .RED).spawnResult M
    (cfg.shelfPose p .middle) .RED).spawnResult M (cfg.shelfPose p .right) .RED

/-- Filling the shelf as one step. -/
theorem run_fillShelf (m : Mps (Vec K)) :
    (fillShelf cfg M p).run handle m = some (fillResult cfg M p m, ()) := by
  unfold fillShelf
  rw [Prog.run_bind, Mps.run_spawnPuck, Option.bind_some, Prog.run_bind, Mps.run_spawnPuck,
    Option.bind_some, Prog.run_bind, Mps.run_spawnPuck, Option.bind_some]
  rfl

/-- All three requests are published exactly if the template can be used for each. -/
theorem length_fillResult_iff (s : CapStation K) :
    (fillResult cfg M p s.mps).factoryPub.length = s.mps.factoryPub.length + 3 ↔
      s.CanSpawn M := by
  have hlength : ∀ o : Option (Factory (Vec K)), o.toList.length = if o.isSome then 1 else 0 := by
    intro o
    cases o <;> rfl
  have hall : s.CanSpawn M ↔ (Mps.requestedName M (s.mps.rolls 0) .RED).isSome = true ∧
      (Mps.requestedName M (s.mps.rolls 1) .RED).isSome = true ∧
      (Mps.requestedName M (s.mps.rolls 2) .RED).isSome = true := by
    constructor
    · exact fun h => ⟨h 0 (by decide), h 1 (by decide), h 2 (by decide)⟩
    · rintro ⟨h0, h1, h2⟩ n hn
      obtain rfl | rfl | rfl : n = 0 ∨ n = 1 ∨ n = 2 := by omega
      · exact h0
      · exact h1
      · exact h2
  rw [hall]
  simp only [fillResult, Mps.spawnResult, List.length_append, hlength, Mps.factoryRequest_isSome]
  split_ifs <;> simp_all

/-- The shelf is taken for empty if no workpiece on it has been noticed. -/
theorem clearShelf_eq_none_iff :
    (∀ q, s.clearShelf cfg p q = none) ↔ ¬ s.Noticed cfg p := by
  unfold clearShelf Noticed
  simp only [Option.filter_eq_none_iff, not_exists, not_and]
  rfl

/-- An update past the waiting time refills the shelf unless a workpiece is noticed there. -/
theorem onUpdate_cases (h : s.onUpdate cfg M p time = some s') :
    (s.SpawnTimeOver cfg time ∧ ¬ s.Noticed cfg p ∧ s'.puckSpawnedTime = time ∧
        (SpawnsThree s s' ↔ s.CanSpawn M)) ∨
      (¬ (s.SpawnTimeOver cfg time ∧ ¬ s.Noticed cfg p) ∧
        s'.puckSpawnedTime = s.puckSpawnedTime ∧ ¬ SpawnsThree s s') := by
  have hstay : ¬ SpawnsThree s s := by
    unfold SpawnsThree
    omega
  unfold onUpdate at h
  by_cases htime : s.SpawnTimeOver cfg time
  · rw [if_pos htime] at h
    dsimp only at h
    by_cases hempty : ∀ q, s.clearShelf cfg p q = none
    · rw [if_pos ⟨hempty .right, hempty .middle, hempty .left⟩, run_fillShelf] at h
      cases h
      exact .inl ⟨htime, clearShelf_eq_none_iff.mp hempty, rfl, length_fillResult_iff s⟩
    -- one of the three places is seen to hold something
    · have hsome : ¬ (s.clearShelf cfg p .right = none ∧ s.clearShelf cfg p .middle = none ∧
          s.clearShelf cfg p .left = none) := by
        rintro ⟨hright, hmiddle, hleft⟩
        apply hempty
        intro q
        cases q
        exacts [hleft, hmiddle, hright]
      rw [if_neg hsome] at h
      cases h
      refine .inr ⟨fun hdue => hempty (clearShelf_eq_none_iff.mpr hdue.2), rfl, ?_⟩
      exact hstay
  · rw [if_neg htime] at h
    cases h
    exact .inr ⟨fun hdue => htime hdue.1, rfl, hstay⟩

theorem onNewPuck_frame (cfg : CapShelfConfig K) (M : Machine (Vec K)) (p : Placement K)
    (msg : NewPuck) (s : CapStation K) :
    (s.onNewPuck cfg M p msg).puckSpawnedTime = s.puckSpawnedTime := by
  unfold onNewPuck
  dsimp only
  split
  · rfl
  · split <;> rfl

end CapStation

/-! ## Runs -/

variable {cfg : CapShelfConfig K} {M : Machine (Vec K)} {isPuck : String → Prop}
  {s s' : CapStation K} {log : RefillLog K}

/-- The station knows at least the last refill, and no time of an update to come. -/
structure RefillLog.Inv (cfg : CapShelfConfig K) (isPuck : String → Prop) (s : CapStation K)
    (log : RefillLog K) : Prop where
  last_le : log.last ≤ s.puckSpawnedTime
  le_now : s.puckSpawnedTime ≤ log.now
  fine : ∀ r ∈ log.refills, r.Fine cfg isPuck

variable [IsStrictOrderedRing K]

/-- One event: the refills remain fine exactly if a workpiece on the shelf is noticed. -/
theorem RefillLog.Inv.step {l : CapShelfEvent K} (hinv : log.Inv cfg isPuck s)
    (htime : Increasing (s, log) l) (hs : (capShelfSystem cfg M).next s l = some s') :
    ((refillLog.observe log s l s').last ≤ s'.puckSpawnedTime ∧
        s'.puckSpawnedTime ≤ (refillLog.observe log s l s').now) ∧
      ((∀ r ∈ (refillLog.observe log s l s').refills, r.Fine cfg isPuck) ↔
        NoticesPucks cfg M isPuck s l) := by
  cases l with
  | update p time =>
    dsimp only [refillLog, NoticesPucks]
    have hnow : log.now ≤ time := htime
    rcases CapStation.onUpdate_cases hs with
      ⟨hover, hnot, hspawned, hiff⟩ | ⟨hnodue, hspawned, hstay⟩
    · rw [hspawned]
      by_cases hthree : SpawnsThree s s'
      · rw [if_pos hthree]
        refine ⟨⟨le_refl time, le_refl time⟩, ?_⟩
        -- the last refill is at most as late as the time that is compared
        have hlate : (cfg.spawnPuckTime : K) ≤ time - log.last := by
          have hwait := not_lt.mp hover
          linarith [hinv.last_le]
        constructor
        -- a refill is fine where no workpiece stood without being noticed
        · intro hfine _ _ hoccupied
          obtain ⟨wp, hmodel, hpuck, q, hhit⟩ := hoccupied
          have hlast := hfine _ (List.mem_append_right _ List.mem_cons_self)
          have hmiss := hlast.empty wp hmodel hpuck q
          dsimp only at hmiss
          rw [hhit] at hmiss
          cases hmiss
        · intro hnotices r hr
          rcases List.mem_append.mp hr with hr | hr
          · exact hinv.fine r hr
          · rw [List.mem_singleton.mp hr]
            refine ⟨fun wp hmodel hpuck q => ?_, hlate⟩
            by_contra hhit
            exact hnot (hnotices hover (hiff.mp hthree)
              ⟨wp, hmodel, hpuck, q, Bool.eq_true_of_not_eq_false hhit⟩)
      · rw [if_neg hthree]
        refine ⟨⟨hinv.last_le.trans (hinv.le_now.trans hnow), le_refl time⟩,
          iff_of_true hinv.fine fun _ hcan => ?_⟩
        exact absurd (hiff.mpr hcan) hthree
    -- nothing is due
    · rw [if_neg hstay, hspawned]
      refine ⟨⟨hinv.last_le, hinv.le_now.trans hnow⟩, iff_of_true hinv.fine fun hover _ _ => ?_⟩
      by_contra hnot
      exact hnodue ⟨hover, hnot⟩
  | newPuck p msg =>
    cases hs
    rw [CapStation.onNewPuck_frame]
    exact ⟨⟨hinv.last_le, hinv.le_now⟩, iff_of_true hinv.fine trivial⟩
  | other mps =>
    cases hs
    exact ⟨⟨hinv.last_le, hinv.le_now⟩, iff_of_true hinv.fine trivial⟩

/-- As long as a workpiece on the shelf is noticed when a refill is due, all refills find the
shelf empty and the refill before long enough ago; one more event leaves this so exactly if it
meets the condition. -/
theorem refills_iff (cfg : CapShelfConfig K) (M : Machine (Vec K)) (isPuck : String → Prop)
    (h : ((capShelfSystem cfg M).watch refillLog).Reach
      (fun p l => Increasing p l ∧ NoticesPucks cfg M isPuck p.1 l) (s, log)) :
    (∀ r ∈ log.refills, r.Fine cfg isPuck) ∧
      ∀ l s', Increasing (s, log) l → (capShelfSystem cfg M).next s l = some s' →
        ((∀ r ∈ (refillLog.observe log s l s').refills, r.Fine cfg isPuck) ↔
          NoticesPucks cfg M isPuck s l) := by
  have hinv : log.Inv cfg isPuck s := by
    refine LTS.Reach.watch_invariant (P := fun s log => log.Inv cfg isPuck s) ?_ ?_ h
    · rintro s -
      exact ⟨le_refl _, le_refl _, nofun⟩
    · rintro s log l s' hinv ⟨htime, hnotices⟩ hs
      obtain ⟨⟨hlast, hnow⟩, hiff⟩ := hinv.step htime hs
      exact ⟨hlast, hnow, hiff.mpr hnotices⟩
  exact ⟨hinv.fine, fun l s' htime hs => (hinv.step htime hs).2⟩

end

/-! ## Two runs -/

/-- The values of `cfg/config.yaml`. -/
def shippedCapShelf : CapShelfConfig ℚ := { shippedConfig with spawnPuckTime := 20 }

/-- A cap station at the origin, just constructed, in a world where all models stand at one
pose. -/
def newCapStation (pose : Vec ℚ) : CapStation ℚ where
  mps := { CapStation.fillResult shippedCapShelf (shipped "C-CS1") ⟨0, 0, 1, 0⟩
    { shippedMps "C-CS1" with world := .allAt pose } with storedCapColor := .NONE }
  puckInShelf _ := none
  puckSpawnedTime := 0

theorem init_newCapStation (pose : Vec ℚ) :
    ((capShelfSystem shippedCapShelf (shipped "C-CS1")).watch refillLog).init
      (newCapStation pose, ⟨[], 0, 0⟩) := by
  refine ⟨⟨⟨0, 0, 1, 0⟩, 0, { shippedMps "C-CS1" with world := .allAt pose }, ?_⟩, rfl⟩
  rw [CapStation.create, CapStation.run_fillShelf]
  rfl

/-- The workpieces have been taken to the middle of the belt. -/
theorem refills_iff_empty :
    ∃ s log, ((capShelfSystem shippedCapShelf (shipped "C-CS1")).watch refillLog).Reach
        (fun p l => Increasing p l ∧ NoticesPucks shippedCapShelf (shipped "C-CS1")
          (fun _ => True) p.1 l) (s, log) ∧
      log.refills.length = 1 ∧ ∀ r ∈ log.refills, r.Fine shippedCapShelf fun _ => True := by
  have hnext : (((capShelfSystem shippedCapShelf (shipped "C-CS1")).watch refillLog).next
      (newCapStation ((shipped "C-CS1").center .middle), ⟨[], 0, 0⟩)
      (.update ⟨0, 0, 1, 0⟩ 20)).any (fun p => decide (p.2.refills.length = 1)) = true := by
    decide +kernel
  obtain ⟨⟨s, log⟩, hs, hlength⟩ := Option.any_eq_true _ _ |>.mp hnext
  have hfree : ∀ q, shippedCapShelf.poseInShelf ⟨0, 0, 1, 0⟩ q ((shipped "C-CS1").center .middle)
      = false := by
    intro q
    cases q <;> decide +kernel
  have hclock : (0 : ℚ) ≤ 20 := by decide
  have hnotices : NoticesPucks shippedCapShelf (shipped "C-CS1") (fun _ => True)
      (newCapStation ((shipped "C-CS1").center .middle)) (.update ⟨0, 0, 1, 0⟩ 20) := by
    rintro - - ⟨wp, -, -, q, hhit⟩
    exact absurd hhit (Bool.eq_false_iff.mp (hfree q))
  have hreach := LTS.Reach.step (C := fun p l => Increasing p l ∧
      NoticesPucks shippedCapShelf (shipped "C-CS1") (fun _ => True) p.1 l)
    (l := .update ⟨0, 0, 1, 0⟩ 20) (.init (init_newCapStation _)) ⟨hclock, hnotices⟩ hs
  exact ⟨s, log, hreach, of_decide_eq_true hlength, (refills_iff _ _ _ hreach).1⟩

/-- Twenty seconds after the construction the announcement of a workpiece on the left place has
not arrived. -/
theorem late_announcement_refills :
    ¬ ∀ s log, ((capShelfSystem shippedCapShelf (shipped "C-CS1")).watch refillLog).Reach
        (fun p l => Increasing p l) (s, log) →
      ∀ r ∈ log.refills, r.Fine shippedCapShelf fun _ => True := by
  intro h
  have hclock : (0 : ℚ) ≤ 20 := by decide
  obtain ⟨⟨s, log⟩, hreach, hs⟩ := LTS.exists_reach
    (T := (capShelfSystem shippedCapShelf (shipped "C-CS1")).watch refillLog)
    (C := fun p l => Increasing p l)
    (l := [.update ⟨0, 0, 1, 0⟩ 20])
    (p := fun p => p.2.refills.any fun r => r.world.models "puck_1" &&
      shippedCapShelf.poseInShelf r.place .left (r.world.pose "puck_1"))
    (init_newCapStation (shippedCapShelf.shelfPose ⟨0, 0, 1, 0⟩ .left))
    ⟨hclock, fun _ _ => trivial⟩ (by decide +kernel)
  obtain ⟨r, hr, hhit⟩ := List.any_eq_true.mp hs
  rw [Bool.and_eq_true] at hhit
  have hmiss := (h s log hreach r hr).empty "puck_1" hhit.1 trivial .left
  rw [hhit.2] at hmiss
  cases hmiss

end GazeboRcll
