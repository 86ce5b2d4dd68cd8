import GazeboRcll.Library.LTS
import GazeboRcll.Mps.Commands
import GazeboRcll.Mps.Geometry
import Mathlib.Data.Finset.Card

/-!
# The slide of a ring station

`RingStation::on_puck_msg` counts the workpieces that touch the slide and puts each of them
on a pile of its own choice: the column goes by the number of workpieces before this one, but
the level by the number with this one, so that the third workpiece is put on the second level
(`stacked_iff`). The number is published in a register of 16 bits (`slidecount_mod`).
-/

namespace GazeboRcll

/-! ## Places on the slide -/

/-- A column along the short side, and a level. -/
structure Spot where
  column : ℕ
  level : ℕ
deriving DecidableEq, Repr

/-- The place for a workpiece when `wps_on_slide_` has this size. -/
def Spot.ofSize (size : ℕ) : Spot := ⟨(size - 1) % 3, size / 3⟩

/-- The configuration of a ring station. -/
structure SlideConfig (K : Type) extends MpsConfig K where
  mpsHeight : K

namespace SlideConfig

variable {K : Type} [Field K] [LinearOrder K] (cfg : SlideConfig K) (p : Placement K)

/-- `RingStation::add_base_pose`. -/
def addBasePose : Vec K :=
  cfg.getPuckWorldPose p (-25 / 100) 0 (cfg.heightOrBelt cfg.mpsHeight)

/-- `RingStation::puck_on_slide`. -/
def puckOnSlide (pose : Vec K) : Bool := Vec.within cfg.detectTolerance pose (cfg.addBasePose p)

/-- The pose for a workpiece at a place of the slide. -/
def spotPose (spot : Spot) : Vec K :=
  cfg.getPuckWorldPose p (-35 / 100) ((-1 / 10 : ℚ) * (1 + spot.column))
    (cfg.heightOrBelt (cfg.mpsHeight + 105 / 100 * cfg.puckHeight * spot.level))

end SlideConfig

/-! ## The station -/

/-- What `RingStation` adds to `Mps`. -/
structure RingStation (K : Type) where
  mps : Mps (Vec K)
  wpsOnSlide : Finset String
  slidecountIn : UInt16

section

variable {K : Type} [Field K] [LinearOrder K]

/-- `RingStation::on_puck_msg`. -/
def RingStation.onPuckMsg (cfg : SlideConfig K) (M : Machine (Vec K)) (p : Placement K)
    (msg : PoseMsg (Vec K)) (s : RingStation K) : Option (RingStation K) :=
  let mps := s.mps.onPuckMsg M msg
  if cfg.puckOnSlide p msg.position = true ∧ msg.name ∉ s.wpsOnSlide then
    let wpsOnSlide := insert msg.name s.wpsOnSlide
    -- without a model of this name, a null pointer is dereferenced
    (mps.world.modelByName msg.name).map fun wp =>
      { mps := mps.teleport wp (cfg.spotPose p (.ofSize wpsOnSlide.card))
        wpsOnSlide := wpsOnSlide
        slidecountIn := UInt16.ofNat wpsOnSlide.card }
  else some { s with mps := mps }

/-- What happens to a ring station. -/
inductive SlideEvent (K : Type) where
  /-- A pose message, and where the station stands when it is handled. -/
  | puckMsg (p : Placement K) (msg : PoseMsg (Vec K))
  /-- Everything else, which leaves the slide alone. -/
  | other (mps : Mps (Vec K))

/-- A ring station from its construction on; `M` is the station where it stands. -/
def slideSystem (cfg : SlideConfig K) (M : Placement K → Machine (Vec K)) :
    LTS (RingStation K) (SlideEvent K) where
  init s := s.wpsOnSlide = ∅ ∧ s.slidecountIn = 0
  next s
    | .puckMsg p msg => s.onPuckMsg cfg (M p) p msg
    | .other mps => some { s with mps := mps }

/-- What is observed of the slide. -/
structure SlideLog (K : Type) where
  /-- The names for which some message was on the slide. -/
  touched : Finset String
  /-- The poses given to new workpieces, with the place of the station then, oldest first. -/
  placed : List (Placement K × Vec K)

/-- Observes the messages, and the poses after them. -/
def slideLog (cfg : SlideConfig K) : Monitor (RingStation K) (SlideEvent K) (SlideLog K) where
  start _ := ⟨∅, []⟩
  observe log s
    | .puckMsg p msg, s' =>
      { touched :=
          if cfg.puckOnSlide p msg.position = true then insert msg.name log.touched
          else log.touched
        placed :=
          if msg.name ∈ s'.wpsOnSlide ∧ msg.name ∉ s.wpsOnSlide then
            log.placed ++ [(p, s'.mps.world.pose msg.name)]
          else log.placed }
    | .other _, _ => log

/-! ## The invariant -/

/-- The places of the first `n` workpieces. -/
def spots (n : ℕ) : List Spot := (List.range n).map fun i => .ofSize (i + 1)

/-- There are as many spots as asked for. -/
theorem length_spots (n : ℕ) : (spots n).length = n := by
  rw [spots, List.length_map, List.length_range]

/-- The next spot is one further up. -/
theorem spots_succ (n : ℕ) : spots (n + 1) = spots n ++ [.ofSize (n + 1)] := by
  rw [spots, List.range_succ, List.map_append]
  rfl

/-- The set, the register and the poses go by the workpieces that have touched the slide. -/
structure SlideLog.Inv (cfg : SlideConfig K) (s : RingStation K) (log : SlideLog K) : Prop where
  wpsOnSlide : s.wpsOnSlide = log.touched
  slidecount : s.slidecountIn = UInt16.ofNat log.touched.card
  length : log.placed.length = log.touched.card
  poses : log.placed.map Prod.snd =
    List.zipWith (fun q => cfg.spotPose q.1) log.placed (spots log.placed.length)

variable {cfg : SlideConfig K} {M : Placement K → Machine (Vec K)} {s s' : RingStation K}
  {log : SlideLog K}

/-- A message leaves the slide alone unless it comes from a new workpiece on it. -/
theorem RingStation.onPuckMsg_cases {M : Machine (Vec K)} {p : Placement K}
    {msg : PoseMsg (Vec K)} (h : s.onPuckMsg cfg M p msg = some s') :
    (cfg.puckOnSlide p msg.position = true ∧ msg.name ∉ s.wpsOnSlide ∧
        s'.wpsOnSlide = insert msg.name s.wpsOnSlide ∧
        s'.slidecountIn = UInt16.ofNat (s.wpsOnSlide.card + 1) ∧
        s'.mps.world.pose msg.name = cfg.spotPose p (.ofSize (s.wpsOnSlide.card + 1))) ∨
      ((cfg.puckOnSlide p msg.position = true → msg.name ∈ s.wpsOnSlide) ∧
        s'.wpsOnSlide = s.wpsOnSlide ∧ s'.slidecountIn = s.slidecountIn) := by
  unfold onPuckMsg at h
  by_cases hnew : cfg.puckOnSlide p msg.position = true ∧ msg.name ∉ s.wpsOnSlide
  · rw [if_pos hnew, Option.map_eq_some_iff] at h
    obtain ⟨wp, hwp, rfl⟩ := h
    have hname : wp = msg.name := by
      unfold World.modelByName at hwp
      split_ifs at hwp
      exact (Option.some.inj hwp).symm
    have hcard := Finset.card_insert_of_notMem hnew.2
    refine .inl ⟨hnew.1, hnew.2, rfl, congrArg UInt16.ofNat hcard, ?_⟩
    rw [← hcard, ← hname]
    exact Function.update_self ..
  · rw [if_neg hnew] at h
    cases h
    refine .inr ⟨fun hslide => ?_, rfl, rfl⟩
    by_contra hmem
    exact hnew ⟨hslide, hmem⟩

/-- Messages from workpieces that exist are handled. -/
theorem RingStation.onPuckMsg_isSome {M : Machine (Vec K)} {p : Placement K}
    {msg : PoseMsg (Vec K)} (h : s.mps.world.models msg.name = true) :
    (s.onPuckMsg cfg M p msg).isSome = true := by
  have hworld : (s.mps.onPuckMsg M msg).world = s.mps.world := by
    unfold Mps.onPuckMsg
    split_ifs <;> rfl
  unfold onPuckMsg
  split_ifs
  · dsimp only
    rw [hworld, World.modelByName, if_pos h]
    rfl
  · rfl

/-- One message. -/
theorem SlideLog.Inv.puckMsg (hinv : log.Inv cfg s) {M : Machine (Vec K)} {p : Placement K}
    {msg : PoseMsg (Vec K)} (h : s.onPuckMsg cfg M p msg = some s') :
    ((slideLog cfg).observe log s (.puckMsg p msg) s').Inv cfg s' := by
  rcases RingStation.onPuckMsg_cases h with
    ⟨hslide, hnew, hset, hcount, hpose⟩ | ⟨hold, hset, hcount⟩
  -- a workpiece that touches for the first time gets the next spot
  · have hnew' : msg.name ∉ log.touched := hinv.wpsOnSlide ▸ hnew
    have hcard := Finset.card_insert_of_notMem hnew'
    have hmem : msg.name ∈ s'.wpsOnSlide ∧ msg.name ∉ s.wpsOnSlide :=
      ⟨hset ▸ Finset.mem_insert_self .., hnew⟩
    rw [hinv.wpsOnSlide, ← hinv.length] at hpose
    constructor
    · rw [hset, hinv.wpsOnSlide]
      exact (if_pos hslide).symm
    · rw [hcount, hinv.wpsOnSlide, ← hcard]
      exact congrArg (fun t : Finset String => UInt16.ofNat t.card) (if_pos hslide).symm
    · dsimp only [slideLog]
      rw [if_pos hmem, if_pos hslide, List.length_append, hinv.length, hcard]
      rfl
    · dsimp only [slideLog]
      rw [if_pos hmem, List.map_append, List.length_append, List.length_singleton, spots_succ,
        List.zipWith_append (length_spots _).symm, hinv.poses, List.map_singleton, hpose]
      rfl
  · have hmem : ¬ (msg.name ∈ s'.wpsOnSlide ∧ msg.name ∉ s.wpsOnSlide) := by
      rw [hset]
      exact fun h => h.2 h.1
    -- it does not touch, or it did before
    have htouched : (if cfg.puckOnSlide p msg.position = true then insert msg.name log.touched
        else log.touched) = log.touched := by
      split_ifs with hslide
      · exact Finset.insert_eq_of_mem (hinv.wpsOnSlide ▸ hold hslide)
      · rfl
    constructor
    · rw [hset, hinv.wpsOnSlide]
      exact htouched.symm
    · rw [hcount, hinv.slidecount]
      exact congrArg (fun t : Finset String => UInt16.ofNat t.card) htouched.symm
    · dsimp only [slideLog]
      rw [if_neg hmem, htouched]
      exact hinv.length
    · dsimp only [slideLog]
      rw [if_neg hmem]
      exact hinv.poses

/-- The log describes the slide in every run. -/
theorem inv_of_reachable (h : ((slideSystem cfg M).watch (slideLog cfg)).Reachable (s, log)) :
    log.Inv cfg s := by
  refine LTS.Reach.watch_invariant (P := fun s log => log.Inv cfg s) ?_ ?_ h
  · exact fun s hinit => ⟨hinit.1, hinit.2, rfl, rfl⟩
  · intro s log l s' hinv _ hstep
    cases l with
    | puckMsg p msg => exact hinv.puckMsg hstep
    | other mps =>
      cases hstep
      exact ⟨hinv.wpsOnSlide, hinv.slidecount, hinv.length, hinv.poses⟩

/-! ## The pile -/

/-- No two workpieces are put on one place, and each one on the ground or on an earlier one. -/
structure Stacked (l : List Spot) : Prop where
  distinct : l.Nodup
  supported : ∀ front spot rest, l = front ++ spot :: rest →
    spot.level = 0 ∨ ⟨spot.column, spot.level - 1⟩ ∈ front

/-- Column and level together determine the size. -/
theorem Spot.ofSize_injective {m n : ℕ} (hm : 0 < m) (hn : 0 < n) (h : ofSize m = ofSize n) :
    m = n := by
  obtain ⟨hcolumn, hlevel⟩ := Spot.mk.inj h
  omega

/-- No spot comes twice. -/
theorem nodup_spots (n : ℕ) : (spots n).Nodup := by
  refine List.Nodup.map (fun i j hij => ?_) List.nodup_range
  have heq := Spot.ofSize_injective (Nat.succ_pos i) (Nat.succ_pos j) hij
  omega

/-- The spots are those of the sizes from one on. -/
theorem mem_spots {n : ℕ} {spot : Spot} (h : spot ∈ spots n) :
    ∃ i < n, spot = .ofSize (i + 1) := by
  obtain ⟨i, hi, rfl⟩ := List.mem_map.mp h
  exact ⟨i, List.mem_range.mp hi, rfl⟩

/-- The first two workpieces are on the ground, the third is on the second level. -/
theorem stacked_spots_iff (n : ℕ) : Stacked (spots n) ↔ n < 3 := by
  constructor
  · intro hstacked
    by_contra hn
    obtain ⟨k, rfl⟩ := Nat.exists_eq_add_of_le (Nat.not_lt.mp hn)
    have hsplit : spots (3 + k) =
        [.ofSize 1, .ofSize 2] ++ .ofSize 3 :: (List.range k).map fun i => .ofSize (3 + i + 1) := by
      rw [spots, List.range_add, List.map_append, List.map_map]
      rfl
    exact absurd (hstacked.supported _ _ _ hsplit) (by decide)
  · intro hn
    refine ⟨nodup_spots n, fun front spot rest hsplit => .inl ?_⟩
    have hmem : spot ∈ spots n := by
      rw [hsplit]
      exact List.mem_append_right _ List.mem_cons_self
    obtain ⟨i, hi, rfl⟩ := mem_spots hmem
    exact Nat.div_eq_of_lt (by omega)

/-- The poses are those of the places, all of which differ; they form a pile exactly if fewer
than three workpieces have touched the slide. -/
theorem stacked_iff (cfg : SlideConfig K) (M : Placement K → Machine (Vec K))
    (h : ((slideSystem cfg M).watch (slideLog cfg)).Reachable (s, log)) :
    log.placed.map Prod.snd =
        List.zipWith (fun q => cfg.spotPose q.1) log.placed (spots log.placed.length) ∧
      (spots log.placed.length).Nodup ∧
      (Stacked (spots log.placed.length) ↔ log.touched.card < 3) := by
  have hinv := inv_of_reachable h
  refine ⟨hinv.poses, nodup_spots _, ?_⟩
  rw [stacked_spots_iff, hinv.length]

/-! ## The register -/

/-- The node counts the touched pieces modulo its range. -/
theorem toNat_slidecount (hinv : log.Inv cfg s) :
    s.slidecountIn.toNat = log.touched.card % 2 ^ 16 := by
  rw [hinv.slidecount]
  exact UInt16.toNat_ofNat

/-- The workpieces that have touched the slide remain. -/
theorem touched_subset {l : SlideEvent K} :
    log.touched ⊆ ((slideLog cfg).observe log s l s').touched := by
  cases l with
  | puckMsg p msg =>
    dsimp only [slideLog]
    split_ifs
    · exact Finset.subset_insert ..
    · exact Finset.Subset.refl _
  | other mps => exact Finset.Subset.refl _

/-- The register counts the workpieces that have touched the slide modulo 2^16. Below this
number it does not decrease, and it goes by the set alone. -/
theorem slidecount_mod (cfg : SlideConfig K) (M : Placement K → Machine (Vec K))
    (h : ((slideSystem cfg M).watch (slideLog cfg)).Reachable (s, log)) :
    s.slidecountIn.toNat = log.touched.card % 2 ^ 16 ∧
      (∀ l s' log', ((slideSystem cfg M).watch (slideLog cfg)).next (s, log) l = some (s', log') →
        log'.touched.card < 2 ^ 16 → s.slidecountIn.toNat ≤ s'.slidecountIn.toNat) ∧
      ∀ s' log', ((slideSystem cfg M).watch (slideLog cfg)).Reachable (s', log') →
        log'.touched = log.touched → s'.slidecountIn = s.slidecountIn := by
  have hinv := inv_of_reachable h
  refine ⟨toNat_slidecount hinv, fun l s' log' hstep hlt => ?_, fun s' log' h' htouched => ?_⟩
  · have hinv' := inv_of_reachable (LTS.Reach.step h trivial hstep)
    obtain ⟨-, hlog⟩ := LTS.watch_next_eq_some hstep
    dsimp only at hlog
    have hle : log.touched.card ≤ log'.touched.card := by
      rw [hlog]
      exact Finset.card_le_card touched_subset
    rw [toNat_slidecount hinv, toNat_slidecount hinv', Nat.mod_eq_of_lt hlt]
    exact Nat.le_trans (Nat.mod_le ..) hle
  · rw [hinv.slidecount, (inv_of_reachable h').slidecount, htouched]

end

/-! ## A run -/

/-- The values of `cfg/config.yaml`. -/
def shippedSlide : SlideConfig ℚ := { shippedConfig with mpsHeight := 4 / 5 }

/-- Where the station stands. -/
def origin : Placement ℚ := ⟨0, 0, 1, 0⟩

/-- A ring station with the shipped configuration. -/
def ringStation (p : Placement ℚ) : Machine (Vec ℚ) :=
  shippedSlide.machine p "C-RS1" (fun newName _ _ => some newName) .RED

/-- Different names. -/
def workpiece (i : ℕ) : String := String.ofList (List.replicate i 'w')

/-- Different numbers name different workpieces. -/
theorem workpiece_injective : Function.Injective workpiece := by
  intro i j hij
  exact List.replicate_left_injective 'w' (String.ofList_injective hij)

/-- So many workpieces can touch the slide. -/
theorem exists_touched (n : ℕ) :
    ∃ s log, ((slideSystem shippedSlide ringStation).watch (slideLog shippedSlide)).Reachable
      (s, log) ∧ log.touched = (Finset.range n).image workpiece := by
  induction n with
  | zero => exact ⟨⟨shippedMps "C-RS1", ∅, 0⟩, ⟨∅, []⟩, .init ⟨⟨rfl, rfl⟩, rfl⟩, rfl⟩
  | succ n ih =>
    obtain ⟨s, log, hreach, htouched⟩ := ih
    -- in this world, all models exist
    have hother : ((slideSystem shippedSlide ringStation).watch (slideLog shippedSlide)).Reachable
        ({ s with mps := shippedMps "C-RS1" }, log) :=
      .step (l := .other (shippedMps "C-RS1")) hreach trivial rfl
    have hsome : (RingStation.onPuckMsg shippedSlide (ringStation origin) origin
        ⟨workpiece n, shippedSlide.addBasePose origin⟩
        { s with mps := shippedMps "C-RS1" }).isSome = true :=
      RingStation.onPuckMsg_isSome rfl
    obtain ⟨s', hs'⟩ := Option.isSome_iff_exists.mp hsome
    have hslide : shippedSlide.puckOnSlide origin (shippedSlide.addBasePose origin) = true := by
      decide +kernel
    refine ⟨s', _, .step (l := .puckMsg origin ⟨workpiece n, shippedSlide.addBasePose origin⟩)
      hother trivial (Option.map_eq_some_iff.mpr ⟨s', hs', rfl⟩), ?_⟩
    rw [Finset.range_add_one, Finset.image_insert, ← htouched]
    exact if_pos hslide

/-- As many workpieces touch as there are numbers. -/
theorem card_touched (n : ℕ) : ((Finset.range n).image workpiece).card = n := by
  rw [Finset.card_image_of_injective _ workpiece_injective, Finset.card_range]

/-- Two workpieces on the slide. -/
theorem stacked_iff_two :
    ∃ s log, ((slideSystem shippedSlide ringStation).watch (slideLog shippedSlide)).Reachable
      (s, log) ∧ log.touched.card = 2 ∧ Stacked (spots log.placed.length) := by
  obtain ⟨s, log, hreach, htouched⟩ := exists_touched 2
  have hcard : log.touched.card = 2 := by
    rw [htouched, card_touched]
  exact ⟨s, log, hreach, hcard,
    (stacked_iff shippedSlide ringStation hreach).2.2.mpr (by rw [hcard]; decide)⟩

/-- The third workpiece is put where nothing is below it. -/
theorem third_not_supported :
    ¬ ∀ s log, ((slideSystem shippedSlide ringStation).watch (slideLog shippedSlide)).Reachable
      (s, log) → Stacked (spots log.placed.length) := by
  intro h
  obtain ⟨s, log, hreach, htouched⟩ := exists_touched 3
  have hstacked := (stacked_spots_iff _).mp (h s log hreach)
  rw [(inv_of_reachable hreach).length, htouched, card_touched] at hstacked
  exact absurd hstacked (by decide)

/-- Three workpieces on the slide. -/
theorem slidecount_mod_three :
    ∃ s log, ((slideSystem shippedSlide ringStation).watch (slideLog shippedSlide)).Reachable
      (s, log) ∧ log.touched.card = 3 ∧ s.slidecountIn.toNat = 3 := by
  obtain ⟨s, log, hreach, htouched⟩ := exists_touched 3
  have hcard : log.touched.card = 3 := by
    rw [htouched, card_touched]
  refine ⟨s, log, hreach, hcard, ?_⟩
  rw [(slidecount_mod shippedSlide ringStation hreach).1, hcard]
  decide

/-- After 65536 workpieces the register is zero. -/
theorem slidecount_overflows :
    ¬ ∀ s log, ((slideSystem shippedSlide ringStation).watch (slideLog shippedSlide)).Reachable
      (s, log) → s.slidecountIn.toNat = log.touched.card := by
  intro h
  obtain ⟨s, log, hreach, htouched⟩ := exists_touched 65536
  have hcount := h s log hreach
  rw [toNat_slidecount (inv_of_reachable hreach), htouched, card_touched] at hcount
  exact absurd hcount (by decide)

end GazeboRcll
