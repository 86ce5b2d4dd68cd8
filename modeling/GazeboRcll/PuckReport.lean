import GazeboRcll.Puck
import Mathlib.Data.List.Basic

/-!
# What a workpiece reports to the refbox

A workpiece counts its rings and remembers its cap while commands arrive, for itself and
for others, and a DELIVER command makes it report its colours in the refbox's own
enumerations. `BuiltFrom` says which state a history of commands leads to.

* `deliver_reports_built`: with the colours of rings and caps, the report is what the
  history has built.
* `report_complete_iff`: with any colours, when the report has all its required fields.
-/

namespace GazeboRcll

namespace Puck

variable {K : Type} [Field K]

/-! ## Histories -/

/-- A sequence of commands and what is published meanwhile. -/
def commands (cfg : PuckConfig K) : List WorkpieceCommand → Puck →
    Option (Puck × List (PuckMsg K))
  | [], p => some (p, [])
  | cmd :: cmds, p => do
    let (p, msgs) ← onCommandMsg cfg cmd p
    let (p, rest) ← commands cfg cmds p
    some (p, msgs ++ rest)

/-- The colours of the ADD_RING commands for a workpiece, in order. -/
def ringsOf (name : String) (cmds : List WorkpieceCommand) : List Color :=
  (cmds.filter fun cmd => cmd.puckName = name ∧ cmd.command = .ADD_RING).flatMap
    WorkpieceCommand.color

/-- The workpiece has been given a cap of this colour last, and no REMOVE_CAP command for it
has come since. -/
def Wears (name : String) (cmds : List WorkpieceCommand) (clr : Color) : Prop :=
  ∃ before cmd after, cmds = before ++ cmd :: after ∧
    (cmd.puckName = name ∧ cmd.command = .ADD_CAP ∧ cmd.color.head? = some clr) ∧
    ∀ c ∈ after, c.puckName = name → c.command ≠ .ADD_CAP ∧ c.command ≠ .REMOVE_CAP

theorem ringsOf_snoc (name : String) (cmds : List WorkpieceCommand) (cmd : WorkpieceCommand) :
    ringsOf name (cmds ++ [cmd]) = ringsOf name cmds ++
      if cmd.puckName = name ∧ cmd.command = .ADD_RING then cmd.color else [] := by
  unfold ringsOf
  rw [List.filter_append, List.flatMap_append]
  by_cases h : cmd.puckName = name ∧ cmd.command = .ADD_RING <;> simp [h]

theorem ringsOf_snoc_of_not {name : String} {cmd : WorkpieceCommand}
    (h : ¬ (cmd.puckName = name ∧ cmd.command = .ADD_RING)) (cmds : List WorkpieceCommand) :
    ringsOf name (cmds ++ [cmd]) = ringsOf name cmds := by
  rw [ringsOf_snoc, if_neg h, List.append_nil]

/-- The last command gives a cap, or it leaves the cap that was there. -/
theorem wears_snoc (name : String) (cmds : List WorkpieceCommand) (cmd : WorkpieceCommand)
    (clr : Color) :
    Wears name (cmds ++ [cmd]) clr ↔
      (cmd.puckName = name ∧ cmd.command = .ADD_CAP ∧ cmd.color.head? = some clr) ∨
      (Wears name cmds clr ∧
        (cmd.puckName = name → cmd.command ≠ .ADD_CAP ∧ cmd.command ≠ .REMOVE_CAP)) := by
  constructor
  · rintro ⟨before, c, after, heq, hc, hafter⟩
    rcases List.eq_nil_or_concat after with rfl | ⟨after, last, rfl⟩
    · obtain ⟨-, hlast⟩ := List.append_inj' heq rfl
      cases hlast
      exact .inl hc
    · rw [List.concat_eq_append] at heq hafter
      rw [← List.cons_append, ← List.append_assoc] at heq
      obtain ⟨hcmds, hlast⟩ := List.append_inj' heq rfl
      cases hlast
      exact .inr ⟨⟨before, c, after, hcmds, hc,
        fun d hd => hafter d (List.mem_append_left _ hd)⟩, hafter cmd (by simp)⟩
  · rintro (hc | ⟨⟨before, c, after, rfl, hc, hafter⟩, hlast⟩)
    · exact ⟨cmds, cmd, [], rfl, hc, nofun⟩
    · refine ⟨before, c, after ++ [cmd], by simp, hc, fun d hd => ?_⟩
      rcases List.mem_append.mp hd with hd | hd
      · exact hafter d hd
      · rw [List.mem_singleton.mp hd]
        exact hlast

/-- The state that a history of commands leads to. -/
structure BuiltFrom (name : String) (base : Option String) (cmds : List WorkpieceCommand)
    (p : Puck) : Prop where
  ringColors : p.ringColors = ringsOf name cmds
  ringCount : p.ringCount = p.ringColors.length
  cap : ∀ clr, p.haveCap = true ∧ p.capColor = clr ↔ Wears name cmds clr
  baseColor : p.baseColor = baseColorOf base
  name : p.name = name

theorem addRings_fst (cfg : PuckConfig K) (clrs : List Color) (p : Puck) :
    (addRings cfg clrs p).1 = { p with
      ringColors := p.ringColors ++ clrs
      ringCount := p.ringCount + clrs.length } := by
  induction clrs generalizing p with
  | nil => simp [addRings]
  | cons clr clrs ih =>
    rw [addRings, addRing]
    dsimp only
    rw [ih]
    simp [Nat.add_assoc, Nat.add_comm 1]

theorem onCommandMsg_of_ne (cfg : PuckConfig K) {cmd : WorkpieceCommand} {p : Puck}
    (h : cmd.puckName ≠ p.name) : onCommandMsg cfg cmd p = some (p, []) := if_pos h

theorem not_wears_nil (name : String) (clr : Color) : ¬ Wears name [] clr := by
  rintro ⟨before, cmd, after, heq, -, -⟩
  simp at heq

theorem builtFrom_load (name : String) (base : Option String) (garbage : Color) :
    BuiltFrom name base [] (load name base garbage) :=
  ⟨rfl, rfl, fun clr => iff_of_false nofun (not_wears_nil name clr), rfl, rfl⟩

/-- A command that is not for the workpiece, or touches neither rings nor cap. -/
theorem BuiltFrom.other {name : String} {base : Option String} {cmds : List WorkpieceCommand}
    {cmd : WorkpieceCommand} {p : Puck} (h : BuiltFrom name base cmds p)
    (hcmd : cmd.puckName = name → cmd.command = .DELIVER) :
    BuiltFrom name base (cmds ++ [cmd]) p := by
  have hnot : ∀ c, c ≠ .DELIVER → ¬ (cmd.puckName = name ∧ cmd.command = c) := by
    rintro c hc ⟨hname, rfl⟩
    exact hc (hcmd hname)
  refine ⟨?_, h.ringCount, fun clr => ?_, h.baseColor, h.name⟩
  · rw [ringsOf_snoc_of_not (hnot .ADD_RING nofun)]
    exact h.ringColors
  · rw [wears_snoc, h.cap clr]
    constructor
    · exact fun hw => .inr ⟨hw, fun hname => by rw [hcmd hname]; exact ⟨nofun, nofun⟩⟩
    · rintro (hc | ⟨hw, -⟩)
      · exact absurd ⟨hc.1, hc.2.1⟩ (hnot .ADD_CAP nofun)
      · exact hw

/-- REMOVE_CAP leaves the workpiece without a cap, whether it had one or not. -/
theorem onCommandMsg_removeCap {cfg : PuckConfig K} {cmd : WorkpieceCommand} {p p' : Puck}
    {msgs : List (PuckMsg K)} (hname : cmd.puckName = p.name) (hcmd : cmd.command = .REMOVE_CAP)
    (hs : onCommandMsg cfg cmd p = some (p', msgs)) : p' = { p with haveCap := false } := by
  rw [onCommandMsg, if_neg (not_not.mpr hname), hcmd] at hs
  cases hcap : p.haveCap with
  | false =>
    simp only [hcap, Bool.false_eq_true, if_false, Option.some.injEq, Prod.mk.injEq] at hs
    rw [← hs.1, ← hcap]
  | true =>
    simp only [hcap, if_true, Option.some.injEq, removeCap, Prod.mk.injEq] at hs
    exact hs.1.symm

/-- One command. -/
theorem BuiltFrom.snoc {cfg : PuckConfig K} {name : String} {base : Option String}
    {cmds : List WorkpieceCommand} {cmd : WorkpieceCommand} {p p' : Puck}
    {msgs : List (PuckMsg K)} (h : BuiltFrom name base cmds p)
    (hs : onCommandMsg cfg cmd p = some (p', msgs)) : BuiltFrom name base (cmds ++ [cmd]) p' := by
  by_cases hname : cmd.puckName = name
  · have hself : cmd.puckName = p.name := hname.trans h.name.symm
    -- only ADD_RING adds to the rings
    have hrings : cmd.command ≠ .ADD_RING → p.ringColors = ringsOf name (cmds ++ [cmd]) := by
      intro hne
      rw [ringsOf_snoc_of_not fun hring => hne hring.2]
      exact h.ringColors
    cases hcmd : cmd.command with
    | ADD_RING =>
      rw [onCommandMsg, if_neg (not_not.mpr hself), hcmd] at hs
      have hp : p' = (addRings cfg cmd.color p).1 := (congrArg Prod.fst (Option.some.inj hs)).symm
      rw [addRings_fst] at hp
      subst hp
      refine ⟨?_, ?_, fun clr => ?_, h.baseColor, h.name⟩
      · rw [ringsOf_snoc, if_pos ⟨hname, hcmd⟩, h.ringColors]
      · rw [List.length_append, h.ringCount]
      · rw [wears_snoc, hcmd]
        simpa using h.cap clr
    | ADD_CAP =>
      rw [onCommandMsg, if_neg (not_not.mpr hself), hcmd] at hs
      obtain ⟨clr, hclr, heq⟩ := Option.map_eq_some_iff.mp hs
      cases heq
      refine ⟨hrings (by rw [hcmd]; exact nofun), h.ringCount, fun clr' => ?_, h.baseColor,
        h.name⟩
      rw [wears_snoc, hcmd, hclr]
      simp [hname]
    | REMOVE_CAP =>
      obtain rfl := onCommandMsg_removeCap hself hcmd hs
      refine ⟨hrings (by rw [hcmd]; exact nofun), h.ringCount, fun clr => ?_, h.baseColor,
        h.name⟩
      rw [wears_snoc, hcmd]
      simp [hname]
    | DELIVER =>
      rw [onCommandMsg, if_neg (not_not.mpr hself), hcmd] at hs
      cases hs
      exact h.other fun _ => hcmd
  · rw [onCommandMsg_of_ne cfg fun heq => hname (heq.trans h.name)] at hs
    -- a command for another puck
    cases hs
    exact h.other fun heq => absurd heq hname

theorem BuiltFrom.append {cfg : PuckConfig K} {name : String} {base : Option String}
    {before cmds : List WorkpieceCommand} {p p' : Puck} {msgs : List (PuckMsg K)}
    (h : BuiltFrom name base before p) (hs : commands cfg cmds p = some (p', msgs)) :
    BuiltFrom name base (before ++ cmds) p' := by
  induction cmds generalizing before p msgs with
  | nil =>
    cases hs
    rw [List.append_nil]
    exact h
  | cons cmd cmds ih =>
    simp only [commands, Option.bind_eq_bind, Option.bind_eq_some_iff] at hs
    obtain ⟨⟨t, msgs₁⟩, ht, ⟨t', msgs₂⟩, hrest, heq⟩ := hs
    cases heq
    rw [List.append_cons]
    exact ih (h.snoc ht) hrest

/-! ## Reports -/

/-- The commands that stations send for rings and caps of existing colours. -/
def Buildable (cmd : WorkpieceCommand) : Prop :=
  match cmd.command with
  | .ADD_RING => ∀ clr ∈ cmd.color, clr ∈ [Color.BLUE, .GREEN, .ORANGE, .YELLOW]
  | .ADD_CAP => ∃ clr, cmd.color = [clr] ∧ clr ∈ [Color.GREY, .BLACK]
  | .REMOVE_CAP | .DELIVER => True

end Puck

/-! The colours that the enumerators of the refbox stand for. -/

def BaseColor.color : BaseColor → Color
  | .BASE_RED => .RED
  | .BASE_BLACK => .BLACK
  | .BASE_SILVER => .SILVER

def RingColor.color : RingColor → Color
  | .RING_BLUE => .BLUE
  | .RING_GREEN => .GREEN
  | .RING_ORANGE => .ORANGE
  | .RING_YELLOW => .YELLOW

def CapColor.color : CapColor → Color
  | .CAP_BLACK => .BLACK
  | .CAP_GREY => .GREY

namespace Puck

variable {K : Type} [Field K]

/-- The report says what the history has built. -/
structure Reports (r : SetOrderDeliveredByColor) (name : String) (base : Option String)
    (cmds : List WorkpieceCommand) (team : Team) : Prop where
  teamColor : r.teamColor = some team
  baseColor : r.baseColor.map BaseColor.color = some (baseColorOf base)
  ringColors : r.ringColors.map RingColor.color = ringsOf name cmds
  capColor : ∀ clr, r.capColor.map CapColor.color = some clr ↔ Wears name cmds clr

/-- The fields that the proto declares required are set, and no ring is missing. -/
structure Complete (r : SetOrderDeliveredByColor) (ringCount : ℕ) : Prop where
  teamColor : r.teamColor.isSome
  baseColor : r.baseColor.isSome
  capColor : r.capColor.isSome
  ringColors : r.ringColors.length = ringCount

/-- What `deliver` hands to `delivery_pub_`. -/
def report (team : Team) (p : Puck) : SetOrderDeliveredByColor where
  teamColor := some team
  baseColor := toBaseColor p.baseColor
  ringColors := (p.ringColors.take p.ringCount).filterMap toRingColor
  capColor := if p.haveCap then toCapColor p.capColor else none

theorem onCommandMsg_deliver (cfg : PuckConfig K) {cmd : WorkpieceCommand} {p : Puck}
    (hname : cmd.puckName = p.name) (hcmd : cmd.command = .DELIVER) :
    onCommandMsg cfg cmd p = some (p, [.delivery (report (cmd.teamColor.getD .CYAN) p)]) := by
  rw [onCommandMsg, if_neg (not_not.mpr hname), hcmd]
  rfl

/-- The base has one of the colours that the refbox knows. -/
theorem toBaseColor_baseColorOf (base : Option String) :
    (toBaseColor (baseColorOf base)).map BaseColor.color = some (baseColorOf base) := by
  unfold baseColorOf
  split <;> rfl

theorem toRingColor_map (clr : Color) :
    (toRingColor clr).map RingColor.color
      = if clr ∈ [Color.BLUE, .GREEN, .ORANGE, .YELLOW] then some clr else none := by
  cases clr <;> rfl

theorem toCapColor_map (clr : Color) :
    (toCapColor clr).map CapColor.color
      = if clr ∈ [Color.GREY, .BLACK] then some clr else none := by
  cases clr <;> rfl

theorem toRingColor_isSome (clr : Color) :
    (toRingColor clr).isSome ↔ clr ∈ [Color.BLUE, .GREEN, .ORANGE, .YELLOW] := by
  cases clr <;> decide

theorem toCapColor_isSome (clr : Color) :
    (toCapColor clr).isSome ↔ clr ∈ [Color.GREY, .BLACK] := by
  cases clr <;> decide

namespace BuiltFrom

variable {name : String} {base : Option String} {cmds : List WorkpieceCommand} {p : Puck}

theorem take_ringColors (h : BuiltFrom name base cmds p) :
    p.ringColors.take p.ringCount = ringsOf name cmds := by
  rw [h.ringCount, List.take_length, h.ringColors]

/-- With any colours the report is complete exactly if the workpiece wears a cap of a cap's
colour and all its rings have a ring's colour. -/
theorem complete_iff (h : BuiltFrom name base cmds p) (team : Team) :
    Complete (report team p) p.ringCount ↔
      (∃ clr ∈ [Color.GREY, .BLACK], Wears name cmds clr) ∧
        ∀ clr ∈ ringsOf name cmds, clr ∈ [Color.BLUE, .GREEN, .ORANGE, .YELLOW] := by
  -- one required field after the other
  have hcap : (report team p).capColor.isSome ↔
      ∃ clr ∈ [Color.GREY, .BLACK], Wears name cmds clr := by
    rw [report]
    cases hhave : p.haveCap with
    | false =>
      refine iff_of_false (by simp) ?_
      rintro ⟨clr, -, hwears⟩
      have hworn := ((h.cap clr).mpr hwears).1
      rw [hhave] at hworn
      cases hworn
    | true =>
      rw [if_pos rfl, toCapColor_isSome]
      constructor
      · exact fun hmem => ⟨_, hmem, (h.cap _).mp ⟨hhave, rfl⟩⟩
      · rintro ⟨clr, hmem, hwears⟩
        rw [((h.cap clr).mpr hwears).2]
        exact hmem
  have hrings : (report team p).ringColors.length = p.ringCount ↔
      ∀ clr ∈ ringsOf name cmds, clr ∈ [Color.BLUE, .GREEN, .ORANGE, .YELLOW] := by
    rw [report, h.take_ringColors, h.ringCount, h.ringColors, List.filterMap_length_eq_length]
    simp only [toRingColor_isSome]
  have hbase : (toBaseColor p.baseColor).isSome := by
    have hmap := toBaseColor_baseColorOf base
    rw [← h.baseColor] at hmap
    exact Option.isSome_of_mem (Option.map_eq_some_iff.mp hmap).choose_spec.1
  constructor
  · exact fun hc => ⟨hcap.mp hc.capColor, hrings.mp hc.ringColors⟩
  · exact fun ⟨hwears, hall⟩ => ⟨rfl, hbase, hcap.mpr hwears, hrings.mpr hall⟩

theorem rings_of_buildable (hcmds : ∀ cmd ∈ cmds, Buildable cmd) :
    ∀ clr ∈ ringsOf name cmds, clr ∈ [Color.BLUE, .GREEN, .ORANGE, .YELLOW] := by
  intro clr hclr
  obtain ⟨cmd, hcmd, hmem⟩ := List.mem_flatMap.mp hclr
  obtain ⟨hcmd, hring⟩ := List.mem_filter.mp hcmd
  have hbuild := hcmds cmd hcmd
  rw [Buildable, (of_decide_eq_true hring).2] at hbuild
  exact hbuild clr hmem

theorem cap_of_buildable (hcmds : ∀ cmd ∈ cmds, Buildable cmd) {clr : Color}
    (h : Wears name cmds clr) : clr ∈ [Color.GREY, .BLACK] := by
  obtain ⟨before, cmd, after, rfl, ⟨-, hcmd, hclr⟩, -⟩ := h
  have hbuild := hcmds cmd (by simp)
  rw [Buildable, hcmd] at hbuild
  obtain ⟨clr', hcolor, hmem⟩ := hbuild
  rw [hcolor] at hclr
  cases hclr
  exact hmem

/-- With the colours of rings and caps nothing is lost in the translation. -/
theorem reports (h : BuiltFrom name base cmds p) (hcmds : ∀ cmd ∈ cmds, Buildable cmd)
    (team : Team) : Reports (report team p) name base cmds team := by
  refine ⟨rfl, ?_, ?_, fun clr => ?_⟩
  · rw [report, h.baseColor]
    exact toBaseColor_baseColorOf base
  · have hsame : ∀ clr ∈ ringsOf name cmds, (toRingColor clr).map RingColor.color = some clr := by
      intro clr hclr
      rw [toRingColor_map, if_pos (rings_of_buildable hcmds clr hclr)]
    calc (report team p).ringColors.map RingColor.color
        = ((ringsOf name cmds).filterMap toRingColor).map RingColor.color := by
          rw [report, h.take_ringColors]
      _ = (ringsOf name cmds).filterMap fun clr => (toRingColor clr).map RingColor.color :=
          List.map_filterMap
      _ = (ringsOf name cmds).filterMap some := List.filterMap_congr hsame
      _ = ringsOf name cmds := List.filterMap_some
  · rw [report, ← h.cap clr]
    cases hhave : p.haveCap with
    | false => simp
    | true =>
      have hmem := cap_of_buildable hcmds ((h.cap p.capColor).mp ⟨hhave, rfl⟩)
      rw [if_pos rfl, toCapColor_map, if_pos hmem]
      simp

end BuiltFrom

/-- Commands with the colours of rings and caps are always carried out. -/
theorem commands_of_buildable (cfg : PuckConfig K) {cmds : List WorkpieceCommand}
    (hcmds : ∀ cmd ∈ cmds, Buildable cmd) (p : Puck) : ∃ t, commands cfg cmds p = some t := by
  induction cmds generalizing p with
  | nil => exact ⟨_, rfl⟩
  | cons cmd cmds ih =>
    have hone : ∃ t, onCommandMsg cfg cmd p = some t := by
      have hbuild := hcmds cmd (by simp)
      unfold onCommandMsg
      unfold Buildable at hbuild
      by_cases hne : cmd.puckName ≠ p.name
      · rw [if_pos hne]
        exact ⟨_, rfl⟩
      · rw [if_neg hne]
        cases hcmd : cmd.command with
        | ADD_RING => exact ⟨_, rfl⟩
        | ADD_CAP =>
          rw [hcmd] at hbuild
          obtain ⟨clr, hcolor, -⟩ := hbuild
          rw [hcolor]
          exact ⟨_, rfl⟩
        | REMOVE_CAP => cases p.haveCap <;> exact ⟨_, rfl⟩
        | DELIVER => exact ⟨_, rfl⟩
    obtain ⟨⟨p', msgs⟩, hone⟩ := hone
    obtain ⟨⟨p'', rest⟩, hrest⟩ := ih (fun c hc => hcmds c (List.mem_cons_of_mem _ hc)) p'
    refine ⟨(p'', msgs ++ rest), ?_⟩
    simp [commands, hone, hrest]

/-- After any commands with the colours of rings and caps the rings are counted right, a
DELIVER command for the workpiece publishes what was built, and commands for others change
and publish nothing. -/
theorem deliver_reports_built (cfg : PuckConfig K) (name : String) (base : Option String)
    (garbage : Color) (cmds : List WorkpieceCommand) (hcmds : ∀ cmd ∈ cmds, Buildable cmd) :
    ∃ p msgs, commands cfg cmds (load name base garbage) = some (p, msgs) ∧
      p.ringCount = p.ringColors.length ∧
      (p.haveCap = true ↔ ∃ clr, Wears name cmds clr) ∧
      (∀ cmd, cmd.puckName = name → cmd.command = .DELIVER →
        ∃ r, onCommandMsg cfg cmd p = some (p, [.delivery r]) ∧
          Reports r name base cmds (cmd.teamColor.getD .CYAN)) ∧
      ∀ cmd, cmd.puckName ≠ name → onCommandMsg cfg cmd p = some (p, []) := by
  obtain ⟨⟨p, msgs⟩, hp⟩ := commands_of_buildable cfg hcmds (load name base garbage)
  have hbuilt : BuiltFrom name base cmds p := (builtFrom_load name base garbage).append hp
  refine ⟨p, msgs, hp, hbuilt.ringCount, ?_, fun cmd hname hcmd => ?_, fun cmd hne => ?_⟩
  · constructor
    · exact fun hhave => ⟨_, (hbuilt.cap _).mp ⟨hhave, rfl⟩⟩
    · rintro ⟨clr, hwears⟩
      exact ((hbuilt.cap clr).mpr hwears).1
  · exact ⟨_, onCommandMsg_deliver cfg (hname.trans hbuilt.name.symm) hcmd,
      hbuilt.reports hcmds _⟩
  · exact onCommandMsg_of_ne cfg fun heq => hne (heq.trans hbuilt.name)

/-- A ring and a cap for `puck_1`, with a command for another workpiece in between. -/
def buildOne : List WorkpieceCommand :=
  [{ command := .ADD_RING, color := [.BLUE, .ORANGE], puckName := "puck_1" },
    { command := .ADD_CAP, color := [.GREY], puckName := "puck_2" },
    { command := .ADD_CAP, color := [.BLACK], puckName := "puck_1" }]

theorem deliver_reports_built_one :
    ∃ p msgs, commands shippedPuck buildOne (load "puck_1" (some "SILVER") .RED)
        = some (p, msgs) ∧
      ∃ r, onCommandMsg shippedPuck { command := .DELIVER, puckName := "puck_1" } p
          = some (p, [.delivery r]) ∧
        r.ringColors.map RingColor.color = [.BLUE, .ORANGE] := by
  obtain ⟨p, msgs, hp, -, -, hdeliver, -⟩ :=
    deliver_reports_built shippedPuck "puck_1" (some "SILVER") .RED buildOne (by
      intro cmd hcmd
      simp only [buildOne, List.mem_cons, List.not_mem_nil, or_false] at hcmd
      rcases hcmd with rfl | rfl | rfl
      · show ∀ clr ∈ [Color.BLUE, .ORANGE], clr ∈ [Color.BLUE, .GREEN, .ORANGE, .YELLOW]
        decide
      · exact ⟨.GREY, rfl, by decide⟩
      · exact ⟨.BLACK, rfl, by decide⟩)
  obtain ⟨r, hr, hreports⟩ :=
    hdeliver { command := .DELIVER, puckName := "puck_1" } rfl rfl
  exact ⟨p, msgs, hp, r, hr, hreports.ringColors⟩

/-- After any commands with any colours, a DELIVER command for the workpiece publishes a
complete report exactly if the workpiece wears a cap of a cap's colour and was only given
rings of a ring's colour. -/
theorem report_complete_iff (cfg : PuckConfig K) (name : String) (base : Option String)
    (garbage : Color) (cmds : List WorkpieceCommand) {p : Puck} {msgs : List (PuckMsg K)}
    (h : commands cfg cmds (load name base garbage) = some (p, msgs)) :
    ∀ cmd, cmd.puckName = name → cmd.command = .DELIVER →
      ∃ r, onCommandMsg cfg cmd p = some (p, [.delivery r]) ∧
        (Complete r p.ringCount ↔
          (∃ clr ∈ [Color.GREY, .BLACK], Wears name cmds clr) ∧
            ∀ clr ∈ ringsOf name cmds, clr ∈ [Color.BLUE, .GREEN, .ORANGE, .YELLOW]) := by
  have hbuilt : BuiltFrom name base cmds p := (builtFrom_load name base garbage).append h
  exact fun cmd hname hcmd =>
    ⟨_, onCommandMsg_deliver cfg (hname.trans hbuilt.name.symm) hcmd, hbuilt.complete_iff _⟩

theorem report_complete_iff_one :
    ∃ p msgs, commands shippedPuck buildOne (load "puck_1" none .RED) = some (p, msgs) ∧
      ∃ r, onCommandMsg shippedPuck { command := .DELIVER, puckName := "puck_1" } p
          = some (p, [.delivery r]) ∧ Complete r p.ringCount := by
  obtain ⟨⟨p, msgs⟩, hp⟩ : ∃ t, commands shippedPuck buildOne (load "puck_1" none .RED) = some t :=
    ⟨_, rfl⟩
  obtain ⟨r, hr, hiff⟩ := report_complete_iff shippedPuck "puck_1" none .RED buildOne hp
    { command := .DELIVER, puckName := "puck_1" } rfl rfl
  refine ⟨p, msgs, hp, r, hr, hiff.mpr ⟨⟨.BLACK, by decide, ?_⟩, by decide⟩⟩
  exact ⟨buildOne.take 2, { command := .ADD_CAP, color := [.BLACK], puckName := "puck_1" }, [],
    rfl, ⟨rfl, rfl, rfl⟩, nofun⟩

/-- A workpiece without a cap is delivered: the report has no cap colour. -/
theorem report_incomplete :
    ¬ ∀ (name : String) (base : Option String) (garbage : Color)
      (cmds : List WorkpieceCommand) (p : Puck) (msgs : List (PuckMsg ℚ)),
      commands shippedPuck cmds (load name base garbage) = some (p, msgs) →
      ∀ cmd r, cmd.puckName = name → cmd.command = .DELIVER →
        onCommandMsg shippedPuck cmd p = some (p, [.delivery r]) → Complete r p.ringCount := by
  intro h
  have hcap := (h "puck_1" none .RED [] _ _ rfl { command := .DELIVER, puckName := "puck_1" } _
    rfl rfl rfl).capColor
  revert hcap
  decide

end Puck

end GazeboRcll
