import GazeboRcll.Library.Intervals
import GazeboRcll.Library.Loop
import GazeboRcll.PuckReport
import Mathlib.Algebra.Order.Field.Basic
import Mathlib.Algebra.Order.Field.Rat
import Mathlib.Data.List.Induction
import Mathlib.Order.Interval.Set.Disjoint
import Mathlib.Tactic.Linarith
import Mathlib.Tactic.Ring

/-!
# How a workpiece looks

The height of a ring or of a cap is computed from the number of rings at the time of its
command and published once. A ring that is put on a workpiece with a cap gets the height of the
cap, which is not published again. `stacked_iff_no_ring_on_cap` says for which commands the parts
that are seen are stacked on each other at all times.
-/

namespace GazeboRcll

/-- The visual that is published, if it is one. -/
def PuckMsg.asVisual {K : Type} : PuckMsg K → Option (Visual K)
  | .visual msg => some msg
  | _ => none

/-- The interval of heights that a cylinder takes up. -/
def Visual.span {K : Type} [Field K] (msg : Visual K) : K × K :=
  (msg.z - msg.length / (2 : ℕ), msg.z + msg.length / (2 : ℕ))

namespace Puck

variable {K : Type}

/-! ## What is seen -/

/-- The visual published last under a name. -/
def lastVisual (name : String) (msgs : List (PuckMsg K)) : Option (Visual K) :=
  ((msgs.filterMap PuckMsg.asVisual).filter fun msg => msg.name = name).getLast?

theorem lastVisual_append (name : String) (msgs rest : List (PuckMsg K)) :
    lastVisual name (msgs ++ rest) = (lastVisual name rest).or (lastVisual name msgs) := by
  simp only [lastVisual, List.filterMap_append, List.filter_append, List.getLast?_append]

theorem lastVisual_snoc_self (msgs : List (PuckMsg K)) (msg : Visual K) :
    lastVisual msg.name (msgs ++ [.visual msg]) = some msg := by
  rw [lastVisual_append]
  simp [lastVisual, PuckMsg.asVisual]

theorem lastVisual_snoc_of_ne {name : String} {msg : Visual K} (h : msg.name ≠ name)
    (msgs : List (PuckMsg K)) : lastVisual name (msgs ++ [.visual msg]) = lastVisual name msgs := by
  rw [lastVisual_append]
  simp [lastVisual, PuckMsg.asVisual, h]

/-- Messages without a visual. -/
theorem lastVisual_snoc_of_none {msg : PuckMsg K} (h : msg.asVisual = none) (name : String)
    (msgs : List (PuckMsg K)) : lastVisual name (msgs ++ [msg]) = lastVisual name msgs := by
  rw [lastVisual_append]
  simp [lastVisual, h]

/-- The name of the ring with this number. -/
def ringName (i : ℕ) : String := "ring_" ++ toString i

theorem ringName_injective : Function.Injective ringName := by
  intro i j hij
  have hrepr : toString i = toString j := (String.append_right_inj "ring_").mp hij
  have hdigits : Nat.toDigits 10 i = Nat.toDigits 10 j := by
    rw [← Nat.toList_repr, ← Nat.toList_repr]
    exact congrArg String.toList hrepr
  calc i = Nat.ofDigitChars 10 (Nat.toDigits 10 i) 0 := Nat.ofDigitChars_ten_toDigits.symm
    _ = Nat.ofDigitChars 10 (Nat.toDigits 10 j) 0 := by rw [hdigits]
    _ = j := Nat.ofDigitChars_ten_toDigits

theorem ringName_ne_cap (i : ℕ) : ringName i ≠ "cap" := by
  intro h
  have hlist := congrArg String.toList h
  rw [ringName, String.toList_append] at hlist
  exact absurd (List.cons.inj hlist).1 (by decide)

/-- The name of the visual for a part. -/
def elementName (p : Puck) (element : String) : String := p.name ++ "::cylinder::" ++ element

theorem elementName_ne {p : Puck} {e e' : String} (h : e ≠ e') :
    p.elementName e ≠ p.elementName e' :=
  fun heq => h ((String.append_right_inj _).mp heq)

/-- The rings, and the cap if there is one. -/
def elements (p : Puck) : List String :=
  (List.range p.ringCount).map ringName ++ if p.haveCap then ["cap"] else []

variable [Field K]

/-- The intervals of the base and of the other parts, as they are published. -/
def spans (cfg : PuckConfig K) (p : Puck) (msgs : List (PuckMsg K)) : Option (List (K × K)) := do
  let parts ← p.elements.mapM fun e => (lastVisual (p.elementName e) msgs).map Visual.span
  return (-cfg.workpieceHeight / (2 : ℕ), cfg.workpieceHeight / (2 : ℕ)) :: parts

/-- All parts are seen, next to each other and without a gap. -/
def WellStacked [LinearOrder K] (cfg : PuckConfig K) (p : Puck) (msgs : List (PuckMsg K)) : Prop :=
  ∃ l, p.spans cfg msgs = some l ∧ Intervals.Apart l ∧ Intervals.Gapless l

/-! ## What is published -/

/-- The height on which the part after so many rings stands. -/
def levelOf (cfg : PuckConfig K) (rings : ℕ) : K :=
  cfg.workpieceHeight / (2 : ℕ) + rings * cfg.ringHeight

/-- The rings are seen on each other, and the cap on the ring that was the last one when the cap
was put on. -/
structure Shown (cfg : PuckConfig K) (p : Puck) (msgs : List (PuckMsg K)) (capAt : ℕ) : Prop where
  ring : ∀ i < p.ringCount, (lastVisual (p.elementName (ringName i)) msgs).map Visual.span =
    some (levelOf cfg i, levelOf cfg i + cfg.ringHeight)
  cap : p.haveCap = true → (lastVisual (p.elementName "cap") msgs).map Visual.span =
    some (levelOf cfg capAt, levelOf cfg capAt + cfg.capHeight)
  capAt_le : capAt ≤ p.ringCount

section

variable {cfg : PuckConfig K} {p : Puck} {msgs : List (PuckMsg K)} {capAt : ℕ}

theorem span_createVisualMsg [CharZero K] (element : String) (height : K) (clr : Color) :
    (createVisualMsg cfg p element height clr).span
      = (levelOf cfg p.ringCount, levelOf cfg p.ringCount + height) := by
  simp only [Visual.span, createVisualMsg, levelOf, Nat.cast_ofNat, Prod.mk.injEq]
  constructor
  · ring
  · ring

/-- A new workpiece. -/
theorem shown_load (name : String) (base : Option String) (garbage : Color) :
    Shown cfg (load name base garbage) [] 0 :=
  ⟨fun i hi => absurd hi (Nat.not_lt_zero i), nofun, le_refl 0⟩

/-- Messages without a visual change nothing. -/
theorem Shown.snoc_of_none {msg : PuckMsg K} (h : Shown cfg p msgs capAt)
    (hmsg : msg.asVisual = none) : Shown cfg p (msgs ++ [msg]) capAt := by
  refine ⟨fun i hi => ?_, fun hcap => ?_, h.capAt_le⟩
  · rw [lastVisual_snoc_of_none hmsg]
    exact h.ring i hi
  · rw [lastVisual_snoc_of_none hmsg]
    exact h.cap hcap

variable [CharZero K]

/-- A ring is put on the rings, wherever the cap is. -/
theorem Shown.addRing (h : Shown cfg p msgs capAt) (clr : Color) :
    Shown cfg (addRing cfg clr p).1 (msgs ++ (addRing cfg clr p).2) capAt := by
  have hname : (createVisualMsg cfg p (ringName p.ringCount) cfg.ringHeight clr).name
      = p.elementName (ringName p.ringCount) := rfl
  refine ⟨fun i hi => ?_, fun hcap => ?_, Nat.le_succ_of_le h.capAt_le⟩
  · show (lastVisual (p.elementName (ringName i)) (msgs ++ [.visual
      (createVisualMsg cfg p (ringName p.ringCount) cfg.ringHeight clr)])).map _ = _
    rcases Nat.lt_succ_iff_lt_or_eq.mp hi with hi | rfl
    · rw [lastVisual_snoc_of_ne]
      · exact h.ring i hi
      · rw [hname]
        exact elementName_ne fun heq => absurd (ringName_injective heq) (by omega)
    · rw [← hname, lastVisual_snoc_self, Option.map_some, span_createVisualMsg]
  · show (lastVisual (p.elementName "cap") (msgs ++ [.visual
      (createVisualMsg cfg p (ringName p.ringCount) cfg.ringHeight clr)])).map _ = _
    rw [lastVisual_snoc_of_ne]
    · exact h.cap hcap
    · rw [hname]
      exact elementName_ne (ringName_ne_cap _)

theorem Shown.addRings (h : Shown cfg p msgs capAt) (clrs : List Color) :
    Shown cfg (addRings cfg clrs p).1 (msgs ++ (addRings cfg clrs p).2) capAt := by
  induction clrs generalizing p msgs with
  | nil =>
    show Shown cfg p (msgs ++ []) capAt
    rw [List.append_nil]
    exact h
  | cons clr clrs ih =>
    show Shown cfg _ (msgs ++ ((Puck.addRing cfg clr p).2 ++ _)) capAt
    rw [← List.append_assoc]
    exact ih (h.addRing clr)

/-- A cap is put on the rings. -/
theorem Shown.addCap (h : Shown cfg p msgs capAt) (clr : Color) :
    Shown cfg (addCap cfg clr p).1 (msgs ++ (addCap cfg clr p).2) p.ringCount := by
  have hname : (createVisualMsg cfg p "cap" cfg.capHeight clr).name = p.elementName "cap" := rfl
  refine ⟨fun i hi => ?_, fun _ => ?_, le_refl _⟩
  · show (lastVisual (p.elementName (ringName i)) (msgs ++ [.visual
      (createVisualMsg cfg p "cap" cfg.capHeight clr)])).map _ = _
    rw [lastVisual_snoc_of_ne]
    · exact h.ring i hi
    · rw [hname]
      exact elementName_ne (ringName_ne_cap i).symm
  · show (lastVisual (p.elementName "cap") (msgs ++ [.visual
      (createVisualMsg cfg p "cap" cfg.capHeight clr)])).map _ = _
    rw [← hname, lastVisual_snoc_self, Option.map_some, span_createVisualMsg]

omit [CharZero K] in
/-- Without the cap its visual does not matter. -/
theorem Shown.removeCap (h : Shown cfg p msgs capAt) :
    Shown cfg (removeCap cfg p).1 (msgs ++ (removeCap cfg p).2) capAt := by
  refine ⟨fun i hi => ?_, fun hcap => Bool.noConfusion hcap, h.capAt_le⟩
  show (lastVisual (p.elementName (ringName i)) (msgs ++ ([.visual
    { createVisualMsg cfg p "cap" cfg.capHeight .RED with visible := false }] ++ [_]))).map _ = _
  rw [← List.append_assoc, lastVisual_snoc_of_none rfl, lastVisual_snoc_of_ne]
  · exact h.ring i hi
  · exact elementName_ne (ringName_ne_cap i).symm

/-- The intervals of the rings. -/
def ringSpans (cfg : PuckConfig K) (rings : ℕ) : List (K × K) :=
  (List.range rings).map fun i => (levelOf cfg i, levelOf cfg i + cfg.ringHeight)

/-- The interval of the cap, if there is one. -/
def capSpan (cfg : PuckConfig K) (p : Puck) (capAt : ℕ) : List (K × K) :=
  if p.haveCap then [(levelOf cfg capAt, levelOf cfg capAt + cfg.capHeight)] else []

omit [CharZero K] in
theorem Shown.spans_eq (h : Shown cfg p msgs capAt) :
    p.spans cfg msgs = some ((-cfg.workpieceHeight / (2 : ℕ), cfg.workpieceHeight / (2 : ℕ)) ::
      (ringSpans cfg p.ringCount ++ capSpan cfg p capAt)) := by
  have hrings : ((List.range p.ringCount).map ringName).mapM
      (fun e => (lastVisual (p.elementName e) msgs).map Visual.span)
        = some (ringSpans cfg p.ringCount) := by
    rw [List.mapM_map]
    exact Loop.mapM_eq_some fun i hi => h.ring i (List.mem_range.mp hi)
  have hcap : (if p.haveCap then ["cap"] else []).mapM
      (fun e => (lastVisual (p.elementName e) msgs).map Visual.span)
        = some (capSpan cfg p capAt) := by
    unfold capSpan
    by_cases hhave : p.haveCap = true
    · rw [if_pos hhave, if_pos hhave, List.mapM_cons, h.cap hhave]
      rfl
    · rw [if_neg hhave, if_neg hhave]
      rfl
  rw [spans, elements, List.mapM_append, hrings, hcap]
  rfl

/-- A cap on the last ring completes the stack. -/
theorem spans_eq_stack (hat : p.haveCap = true → capAt = p.ringCount) :
    (-cfg.workpieceHeight / (2 : ℕ), cfg.workpieceHeight / (2 : ℕ)) ::
        (ringSpans cfg p.ringCount ++ capSpan cfg p capAt)
      = Intervals.stack (-cfg.workpieceHeight / (2 : ℕ)) (cfg.workpieceHeight ::
          (List.replicate p.ringCount cfg.ringHeight ++
            if p.haveCap then [cfg.capHeight] else [])) := by
  have hbase : -cfg.workpieceHeight / (2 : ℕ) + cfg.workpieceHeight
      = cfg.workpieceHeight / (2 : ℕ) := by
    rw [Nat.cast_ofNat]
    ring
  rw [Intervals.stack, Intervals.stack_append, Intervals.stack_replicate, List.sum_replicate,
    hbase]
  simp only [ringSpans, capSpan, levelOf, nsmul_eq_mul]
  by_cases hhave : p.haveCap = true
  · rw [if_pos hhave, if_pos hhave, hat hhave]
    rfl
  · rw [if_neg hhave, if_neg hhave]
    rfl

/-! ## Commands -/

/-- The command puts a ring on the workpiece while it has a cap. -/
def RingOnCap (p : Puck) (cmd : WorkpieceCommand) : Prop :=
  cmd.puckName = p.name ∧ cmd.command = .ADD_RING ∧ cmd.color ≠ [] ∧ p.haveCap = true

omit [Field K] [CharZero K] in
/-- A cap on the last ring stays on the last ring if no ring is added. -/
theorem capAt_add_iff (hat : p.haveCap = true → capAt = p.ringCount) (clrs : List Color) :
    (p.haveCap = true → capAt = p.ringCount + clrs.length) ↔
      ¬ (clrs ≠ [] ∧ p.haveCap = true) := by
  constructor
  · rintro hat' ⟨hne, hhave⟩
    have hlength : 0 < clrs.length := List.length_pos_iff.mpr hne
    have hcapAt := hat hhave
    have hcapAt' := hat' hhave
    omega
  · intro hnot hhave
    have hnil : clrs = [] := by
      by_contra hne
      exact hnot ⟨hne, hhave⟩
    rw [hnil, hat hhave]
    rfl

/-- One command. -/
theorem Shown.step (h : Shown cfg p msgs capAt) {cmd : WorkpieceCommand} {p' : Puck}
    {new : List (PuckMsg K)} (hs : onCommandMsg cfg cmd p = some (p', new)) :
    ∃ capAt', Shown cfg p' (msgs ++ new) capAt' ∧
      ((p.haveCap = true → capAt = p.ringCount) →
        ((p'.haveCap = true → capAt' = p'.ringCount) ↔ ¬ RingOnCap p cmd)) := by
  unfold RingOnCap
  by_cases hname : cmd.puckName = p.name
  · rw [onCommandMsg, if_neg (not_not.mpr hname)] at hs
    cases hcmd : cmd.command with
    | ADD_RING =>
      rw [hcmd] at hs
      obtain ⟨rfl, rfl⟩ := Prod.mk.inj (Option.some.inj hs)
      refine ⟨capAt, h.addRings cmd.color, fun hat => ?_⟩
      rw [addRings_fst]
      -- the rings above the foot of the cap are those of the command
      show (p.haveCap = true → capAt = p.ringCount + cmd.color.length) ↔ _
      rw [capAt_add_iff hat]
      exact not_congr (iff_of_eq (by simp [hname]))
    | ADD_CAP =>
      rw [hcmd] at hs
      obtain ⟨clr, -, heq⟩ := Option.map_eq_some_iff.mp hs
      obtain ⟨rfl, rfl⟩ := Prod.mk.inj heq
      exact ⟨p.ringCount, h.addCap clr, fun _ => iff_of_true (fun _ => rfl) (by simp)⟩
    | REMOVE_CAP =>
      rw [hcmd] at hs
      cases hhave : p.haveCap with
      | false =>
        simp only [hhave, Bool.false_eq_true, if_false, Option.some.injEq, Prod.mk.injEq] at hs
        obtain ⟨rfl, rfl⟩ := hs
        exact ⟨capAt, h.snoc_of_none rfl, fun _ => by simp [hhave]⟩
      | true =>
        simp only [hhave, if_true, Option.some.injEq] at hs
        obtain ⟨rfl, rfl⟩ := Prod.mk.inj hs
        refine ⟨capAt, h.removeCap, fun _ => iff_of_true (fun hcap => ?_) (by simp)⟩
        cases hcap
    | DELIVER =>
      rw [hcmd] at hs
      obtain ⟨rfl, rfl⟩ := Prod.mk.inj (Option.some.inj hs)
      refine ⟨capAt, h.snoc_of_none rfl, fun hat => iff_of_true hat (by simp)⟩
  · rw [onCommandMsg_of_ne cfg hname] at hs
    obtain ⟨rfl, rfl⟩ := Prod.mk.inj (Option.some.inj hs)
    rw [List.append_nil]
    exact ⟨capAt, h, fun hat => iff_of_true hat fun hring => hname hring.1⟩

end

section

variable [LinearOrder K] [IsStrictOrderedRing K] {cfg : PuckConfig K} {p p' : Puck}
  {msgs new : List (PuckMsg K)} {capAt : ℕ}

/-! ## Stacks -/

/-- All heights are positive. -/
structure HeightsPositive (cfg : PuckConfig K) : Prop where
  ring : 0 < cfg.ringHeight
  cap : 0 < cfg.capHeight
  workpiece : 0 < cfg.workpieceHeight

/-- The parts are stacked exactly if there is no ring above the foot of the cap. -/
theorem Shown.wellStacked_iff (hcfg : HeightsPositive cfg) (h : Shown cfg p msgs capAt) :
    WellStacked cfg p msgs ↔ (p.haveCap = true → capAt = p.ringCount) := by
  unfold WellStacked
  rw [h.spans_eq]
  constructor
  · rintro ⟨l, hl, hapart, -⟩ hhave
    obtain rfl := Option.some.inj hl
    by_contra hne
    have hlt : capAt < p.ringCount := by
      have hle := h.capAt_le
      omega
    -- this ring has the same foot as the cap
    have hring : (levelOf cfg capAt, levelOf cfg capAt + cfg.ringHeight)
        ∈ ringSpans cfg p.ringCount :=
      List.mem_map_of_mem (List.mem_range.mpr hlt)
    have hcap : (levelOf cfg capAt, levelOf cfg capAt + cfg.capHeight) ∈ capSpan cfg p capAt := by
      rw [capSpan, if_pos hhave]
      exact List.mem_cons_self
    have hdisjoint := (List.pairwise_append.mp (List.pairwise_cons.mp hapart).2).2.2 _ hring _ hcap
    rw [Set.Ioo_disjoint_Ioo, max_self, min_le_iff] at hdisjoint
    rcases hdisjoint with hle | hle
    · exact absurd hle (not_le.mpr (lt_add_of_pos_right _ hcfg.ring))
    · exact absurd hle (not_le.mpr (lt_add_of_pos_right _ hcfg.cap))
  · intro hat
    have hpos : ∀ h ∈ cfg.workpieceHeight :: (List.replicate p.ringCount cfg.ringHeight ++
        if p.haveCap then [cfg.capHeight] else []), 0 ≤ h := by
      intro h hh
      have hmem : h = cfg.workpieceHeight ∨ h = cfg.ringHeight ∨ h = cfg.capHeight := by
        simp only [List.mem_cons, List.mem_append, List.mem_replicate] at hh
        split_ifs at hh <;> simp_all <;> tauto
      rcases hmem with rfl | rfl | rfl
      · exact hcfg.workpiece.le
      · exact hcfg.ring.le
      · exact hcfg.cap.le
    refine ⟨_, rfl, ?_⟩
    rw [spans_eq_stack hat]
    exact ⟨Intervals.apart_stack hpos, Intervals.gapless_stack hpos⟩

/-- One command after which the parts were stacked. -/
theorem Shown.wellStacked_step_iff (hcfg : HeightsPositive cfg) (h : Shown cfg p msgs capAt)
    (hws : WellStacked cfg p msgs) {cmd : WorkpieceCommand}
    (hs : onCommandMsg cfg cmd p = some (p', new)) :
    WellStacked cfg p' (msgs ++ new) ↔ ¬ RingOnCap p cmd := by
  obtain ⟨capAt', h', hiff⟩ := h.step hs
  rw [h'.wellStacked_iff hcfg]
  exact hiff ((h.wellStacked_iff hcfg).mp hws)

end

/-! ## Sequences of commands -/

theorem commands_snoc {cfg : PuckConfig K} {cmds : List WorkpieceCommand} {cmd : WorkpieceCommand}
    {p p' : Puck} {msgs : List (PuckMsg K)}
    (h : commands cfg (cmds ++ [cmd]) p = some (p', msgs)) :
    ∃ t before new, commands cfg cmds p = some (t, before) ∧
      onCommandMsg cfg cmd t = some (p', new) ∧ msgs = before ++ new := by
  induction cmds generalizing p msgs with
  | nil =>
    simp only [List.nil_append, commands, Option.bind_eq_bind, Option.bind_eq_some_iff] at h
    obtain ⟨⟨t, new⟩, ht, _, hrest, heq⟩ := h
    cases hrest
    cases heq
    exact ⟨p, [], new, rfl, ht, by simp⟩
  | cons c cmds ih =>
    simp only [List.cons_append, commands, Option.bind_eq_bind, Option.bind_eq_some_iff] at h
    obtain ⟨⟨t, first⟩, ht, ⟨q, rest⟩, hrest, heq⟩ := h
    cases heq
    obtain ⟨u, before, new, hbefore, hnew, rfl⟩ := ih hrest
    refine ⟨u, first ++ before, new, ?_, hnew, by rw [List.append_assoc]⟩
    simp only [commands, Option.bind_eq_bind, ht, Option.bind_some, hbefore]

/-- A part of a sequence that is handled. -/
theorem commands_isSome_of_append {cfg : PuckConfig K} {cmds after : List WorkpieceCommand}
    {p : Puck} (h : (commands cfg (cmds ++ after) p).isSome = true) :
    (commands cfg cmds p).isSome = true := by
  induction cmds generalizing p with
  | nil => rfl
  | cons c cmds ih =>
    rw [List.cons_append] at h
    unfold commands at h ⊢
    simp only [Option.bind_eq_bind, Option.isSome_bind, Option.any_eq_true] at h ⊢
    obtain ⟨⟨t, first⟩, ht, q, hq, -⟩ := h
    obtain ⟨q', hq'⟩ := Option.isSome_iff_exists.mp (ih (Option.isSome_iff_exists.mpr ⟨q, hq⟩))
    exact ⟨(t, first), ht, q', hq', rfl⟩

/-- The workpiece after any sequence of commands. -/
theorem exists_shown {cfg : PuckConfig K} [CharZero K] {name : String} {base : Option String}
    {garbage : Color} {cmds : List WorkpieceCommand} {p : Puck} {msgs : List (PuckMsg K)}
    (h : commands cfg cmds (load name base garbage) = some (p, msgs)) :
    ∃ capAt, Shown cfg p msgs capAt := by
  induction cmds using List.reverseRecOn generalizing p msgs with
  | nil =>
    cases h
    exact ⟨0, shown_load name base garbage⟩
  | append_singleton cmds cmd ih =>
    obtain ⟨t, before, new, hbefore, hnew, rfl⟩ := commands_snoc h
    obtain ⟨capAt, ht⟩ := ih hbefore
    obtain ⟨capAt', hp, -⟩ := ht.step hnew
    exact ⟨capAt', hp⟩

/-- By the commands so far, the next one puts a ring on a cap. -/
theorem BuiltFrom.ringOnCap_iff {name : String} {base : Option String}
    {cmds : List WorkpieceCommand} {p : Puck} (h : BuiltFrom name base cmds p)
    (cmd : WorkpieceCommand) :
    RingOnCap p cmd ↔ cmd.puckName = name ∧ cmd.command = .ADD_RING ∧ cmd.color ≠ [] ∧
      ∃ clr, Wears name cmds clr := by
  have hcap : p.haveCap = true ↔ ∃ clr, Wears name cmds clr := by
    constructor
    · intro hhave
      exact ⟨p.capColor, (h.cap _).mp ⟨hhave, rfl⟩⟩
    · rintro ⟨clr, hwears⟩
      exact ((h.cap clr).mpr hwears).1
  rw [RingOnCap, h.name, hcap]

/-- The parts are stacked after every command exactly if no ring is put on the workpiece while
it has a cap. -/
theorem stacked_iff_no_ring_on_cap [LinearOrder K] [IsStrictOrderedRing K] (cfg : PuckConfig K)
    (hcfg : HeightsPositive cfg) (name : String) (base : Option String) (garbage : Color)
    (cmds : List WorkpieceCommand)
    (hrun : (commands cfg cmds (load name base garbage)).isSome = true) :
    (∀ before after, cmds = before ++ after → ∀ p msgs,
        commands cfg before (load name base garbage) = some (p, msgs) → WellStacked cfg p msgs) ↔
      ∀ before cmd after, cmds = before ++ cmd :: after → cmd.puckName = name →
        cmd.command = .ADD_RING → cmd.color ≠ [] → ∀ clr, ¬ Wears name before clr := by
  -- what the puck wears is what the commands have put on it
  have hbuilt : ∀ before p msgs, commands cfg before (load name base garbage) = some (p, msgs) →
      BuiltFrom name base before p :=
    fun before p msgs h => (builtFrom_load name base garbage).append h
  constructor
  -- a ring on a cap would be seen right after its command
  · intro hall before cmd after heq hname hcmd hne clr hwears
    have hrun' : (commands cfg (before ++ [cmd]) (load name base garbage)).isSome = true := by
      rw [heq, List.append_cons] at hrun
      exact commands_isSome_of_append hrun
    obtain ⟨⟨p', msgs⟩, hp'⟩ := Option.isSome_iff_exists.mp hrun'
    obtain ⟨p, first, new, hp, hnew, rfl⟩ := commands_snoc hp'
    obtain ⟨capAt, hshown⟩ := exists_shown hp
    have hstacked := hall before (cmd :: after) heq p first hp
    have hstacked' := hall (before ++ [cmd]) after (by rw [heq, List.append_cons]) p' _ hp'
    apply (hshown.wellStacked_step_iff hcfg hstacked hnew).mp hstacked'
    exact ((hbuilt before p first hp).ringOnCap_iff cmd).mpr ⟨hname, hcmd, hne, clr, hwears⟩
  -- by induction on the commands from the end
  · intro hnot before
    induction before using List.reverseRecOn with
    | nil =>
      intro after _ p msgs h
      cases h
      exact ((shown_load name base garbage).wellStacked_iff hcfg).mpr nofun
    | append_singleton before cmd ih =>
      intro after heq p' msgs h
      obtain ⟨p, first, new, hp, hnew, rfl⟩ := commands_snoc h
      have hsplit : cmds = before ++ cmd :: after := by
        rw [heq, List.append_assoc]
        rfl
      obtain ⟨capAt, hshown⟩ := exists_shown hp
      have hstacked := ih (cmd :: after) hsplit p first hp
      apply (hshown.wellStacked_step_iff hcfg hstacked hnew).mpr
      rw [(hbuilt before p first hp).ringOnCap_iff cmd]
      rintro ⟨hname, hcmd, hne, clr, hwears⟩
      exact hnot before cmd after hsplit hname hcmd hne clr hwears

/-! ## A ring on a cap -/

theorem shippedPuck_positive : HeightsPositive shippedPuck :=
  ⟨by decide +kernel, by decide +kernel, by decide +kernel⟩

def ringCommand : WorkpieceCommand :=
  { command := .ADD_RING, color := [.BLUE], puckName := "puck_1" }

def capCommand : WorkpieceCommand :=
  { command := .ADD_CAP, color := [.GREY], puckName := "puck_1" }

/-- A cap on a ring. -/
theorem stacked_iff_ring_then_cap :
    ∃ p msgs, commands shippedPuck [ringCommand, capCommand] (load "puck_1" none .NONE)
        = some (p, msgs) ∧ WellStacked shippedPuck p msgs := by
  have hrun : (commands shippedPuck [ringCommand, capCommand]
      (load "puck_1" none .NONE)).isSome = true := rfl
  have hno : ∀ before cmd after, [ringCommand, capCommand] = before ++ cmd :: after →
      cmd.puckName = "puck_1" → cmd.command = .ADD_RING → cmd.color ≠ [] →
      ∀ clr, ¬ Wears "puck_1" before clr := by
    intro before cmd after heq _ hcmd _ clr
    cases before with
    | nil => exact not_wears_nil _ clr
    | cons c before =>
      -- the second command is no ADD_RING
      have hmem : cmd ∈ [capCommand] := by
        rw [(List.cons.inj heq).2]
        exact List.mem_append_right _ List.mem_cons_self
      rw [List.mem_singleton.mp hmem] at hcmd
      cases hcmd
  obtain ⟨⟨p, msgs⟩, hp⟩ := Option.isSome_iff_exists.mp hrun
  exact ⟨p, msgs, hp, (stacked_iff_no_ring_on_cap shippedPuck shippedPuck_positive "puck_1" none
    .NONE _ hrun).mpr hno _ [] (List.append_nil _).symm p msgs hp⟩

/-- A ring that is put on the cap overlaps it. -/
theorem ring_overlaps_cap :
    ¬ ∀ cmds p msgs, commands shippedPuck cmds (load "puck_1" none .NONE) = some (p, msgs) →
      WellStacked shippedPuck p msgs := by
  intro h
  have hrun : (commands shippedPuck ([capCommand] ++ [ringCommand])
      (load "puck_1" none .NONE)).isSome = true := rfl
  obtain ⟨⟨p', msgs⟩, hp'⟩ := Option.isSome_iff_exists.mp hrun
  obtain ⟨p, first, new, hp, hnew, rfl⟩ := commands_snoc hp'
  obtain ⟨capAt, hshown⟩ := exists_shown hp
  apply (hshown.wellStacked_step_iff shippedPuck_positive (h _ _ _ hp) hnew).mp (h _ _ _ hp')
  cases hp
  exact ⟨rfl, rfl, by decide, rfl⟩

end Puck

end GazeboRcll
