import GazeboRcll.ConveyorVision
import GazeboRcll.Mps.CapShelf
import Mathlib.Algebra.Order.Ring.Abs
import Mathlib.Tactic.LinearCombination

/-!
# The detection areas of a station

A station looks for workpieces in balls around places that move and turn with it. In the frame
of the station these places are fixed, and since turning keeps distances, two areas share a
position only if their places are too close in that frame.

* `Placement.distSq_toWorld`: distances in the world are those in the frame of the station.
* `detection_areas_disjoint`: no position is in two areas of the belt, or in two of the shelf.
-/

namespace GazeboRcll

section

variable {K : Type} [Field K]

/-- The position with these coordinates in the frame of a station. -/
def Placement.toWorld (p : Placement K) (long short height : K) : Vec K where
  x := p.x + long * p.cosOri - short * p.sinOri
  y := p.y + long * p.sinOri + short * p.cosOri
  z := height

/-- Distances in the world are those along the sides of the machine. -/
theorem Placement.distSq_toWorld {p : Placement K}
    (hp : p.cosOri * p.cosOri + p.sinOri * p.sinOri = 1) (long long' short short' height : K) :
    (p.toWorld long short height).distSq (p.toWorld long' short' height) =
      (long - long') ^ 2 + (short - short') ^ 2 := by
  unfold Vec.distSq toWorld
  linear_combination ((long - long') ^ 2 + (short - short') ^ 2) * hp

/-- On which side of the middle a place of the belt is. -/
def Slot.side : Slot → K
  | .input => 1
  | .middle => 0
  | .output => -1

end

variable {K : Type} [Field K] [LinearOrder K] [IsStrictOrderedRing K]

/-- No position is near two places that are two tolerances apart. -/
theorem Vec.not_within_both {tolerance : K} {a b c : Vec K}
    (hfar : (2 * tolerance) ^ 2 ≤ b.distSq c) :
    ¬ (within tolerance a b = true ∧ within tolerance a c = true) := by
  intro ⟨hb, hc⟩
  exact absurd (distSq_lt_of_within hb hc) (not_lt.mpr hfar)

/-- Two slots are on different sides. -/
theorem Slot.one_le_sq_side_sub {s t : Slot} (h : s ≠ t) : 1 ≤ (s.side - t.side : K) ^ 2 := by
  cases s <;> cases t <;> first | exact absurd rfl h | (unfold side; norm_num)

/-- Two places on the shelf are a tenth apart. -/
theorem ShelfPlace.le_sq_longSide_sub {q r : ShelfPlace} (h : q ≠ r) :
    (2 * (5 / 100)) ^ 2 ≤ (q.longSide - r.longSide) ^ 2 := by
  cases q <;> cases r <;> first | exact absurd rfl h | decide +kernel

namespace MpsConfig

variable (cfg : MpsConfig K) {p : Placement K}

/-- The centre of a slot, along the sides of the machine. -/
theorem center_eq (p : Placement K) (s : Slot) :
    cfg.center p s = p.toWorld cfg.beltOffsetSide
      (s.side * (cfg.beltLength / 2 - cfg.puckSize)) cfg.beltHeight := by
  unfold center inputX inputY outputX outputY Placement.toWorld Slot.side
  cases s <;> refine Vec.ext ?_ ?_ rfl <;> dsimp only <;> ring

/-- The distance of two slots. -/
theorem distSq_center (hp : p.cosOri * p.cosOri + p.sinOri * p.sinOri = 1) (s t : Slot) :
    (cfg.center p s).distSq (cfg.center p t) =
      (s.side - t.side) ^ 2 * (cfg.beltLength / 2 - cfg.puckSize) ^ 2 := by
  rw [center_eq, center_eq, Placement.distSq_toWorld hp]
  ring

/-- The distance of two places on the shelf. -/
theorem distSq_shelfPose (hp : p.cosOri * p.cosOri + p.sinOri * p.sinOri = 1)
    (q r : ShelfPlace) :
    (cfg.shelfPose p q).distSq (cfg.shelfPose p r) = ((q.longSide - r.longSide) ^ 2 : ℚ) := by
  have hpose : ∀ q : ShelfPlace, cfg.shelfPose p q =
      p.toWorld (cfg.beltOffsetSide + q.longSide) ((cfg.beltLength + 0) / 2 - cfg.puckSize)
        (cfg.heightOrBelt (cfg.beltHeight + (5 / 1000 : ℚ))) := fun _ => rfl
  rw [hpose, hpose, Placement.distSq_toWorld hp]
  push_cast
  ring

/-- Slots are farther apart than two tolerances. -/
theorem center_far (hp : p.cosOri * p.cosOri + p.sinOri * p.sinOri = 1)
    (hpos : 0 < 2 * cfg.detectTolerance)
    (hlength : 2 * cfg.detectTolerance ≤ |cfg.beltLength / 2 - cfg.puckSize|) {s t : Slot}
    (h : s ≠ t) :
    (2 * cfg.detectTolerance) ^ 2 ≤ (cfg.center p s).distSq (cfg.center p t) := by
  rw [distSq_center cfg hp]
  calc (2 * cfg.detectTolerance) ^ 2 ≤ |cfg.beltLength / 2 - cfg.puckSize| ^ 2 :=
        pow_le_pow_left₀ hpos.le hlength 2
    _ = 1 * (cfg.beltLength / 2 - cfg.puckSize) ^ 2 := by rw [sq_abs, one_mul]
    _ ≤ (s.side - t.side) ^ 2 * (cfg.beltLength / 2 - cfg.puckSize) ^ 2 :=
        mul_le_mul_of_nonneg_right (Slot.one_le_sq_side_sub h) (sq_nonneg _)

/-- The areas of the shelf touch: here the strict comparison keeps them apart. -/
theorem shelfPose_far (hp : p.cosOri * p.cosOri + p.sinOri * p.sinOri = 1) {q r : ShelfPlace}
    (h : q ≠ r) :
    (2 * ((5 / 100 : ℚ) : K)) ^ 2 ≤ (cfg.shelfPose p q).distSq (cfg.shelfPose p r) := by
  rw [distSq_shelfPose cfg hp]
  exact_mod_cast ShelfPlace.le_sq_longSide_sub h

end MpsConfig

/-- No position is in two detection areas of a station, whichever overload decides. -/
theorem detection_areas_disjoint (cfg : MpsConfig K) {p : Placement K}
    (hp : p.cosOri * p.cosOri + p.sinOri * p.sinOri = 1) (name : String)
    (sdf : String → String → String → Option String) (garbage : Color) :
    (0 < 2 * cfg.detectTolerance →
      2 * cfg.detectTolerance ≤ |cfg.beltLength / 2 - cfg.puckSize| →
      ∀ s t pose, s ≠ t →
        ¬ (((cfg.machine p name sdf garbage).puckIn s pose = true ∨
              cfg.puckInMsg p s pose = true) ∧
            ((cfg.machine p name sdf garbage).puckIn t pose = true ∨
              cfg.puckInMsg p t pose = true))) ∧
      ∀ q r pose, q ≠ r →
        ¬ (cfg.poseInShelf p q pose = true ∧ cfg.poseInShelf p r pose = true) := by
  refine ⟨fun hpos hlength s t pose hne => ?_, fun q r pose hne => ?_⟩
  · rw [puckInMsg_eq, puckInMsg_eq]
    show ¬ ((Vec.within _ pose _ = true ∨ _) ∧ (Vec.within _ pose _ = true ∨ _))
    rw [or_self, or_self]
    exact Vec.not_within_both (cfg.center_far hp hpos hlength hne)
  · refine Vec.not_within_both ?_
    -- the tolerance of the shelf is not the mark for the configured one
    rw [if_neg (by decide +kernel)]
    exact cfg.shelfPose_far hp hne

theorem detection_areas_disjoint_shipped :
    (∀ s t pose, s ≠ t →
      ¬ (((shipped "C-CS1").puckIn s pose = true ∨
            shippedConfig.puckInMsg ⟨0, 0, 1, 0⟩ s pose = true) ∧
          ((shipped "C-CS1").puckIn t pose = true ∨
            shippedConfig.puckInMsg ⟨0, 0, 1, 0⟩ t pose = true))) ∧
      ¬ (shippedConfig.poseInShelf ⟨0, 0, 1, 0⟩ .left ⟨-125 / 1000, 155 / 1000, 925 / 1000⟩ = true ∧
        shippedConfig.poseInShelf ⟨0, 0, 1, 0⟩ .middle
          ⟨-125 / 1000, 155 / 1000, 925 / 1000⟩ = true) := by
  obtain ⟨hbelt, hshelf⟩ := detection_areas_disjoint shippedConfig (p := ⟨0, 0, 1, 0⟩)
    (by decide +kernel) "C-CS1" (fun newName _ _ => some newName) .RED
  exact ⟨hbelt (by decide +kernel) (by decide +kernel), hshelf .left .middle _ (by decide)⟩

end GazeboRcll
