import GazeboRcll.Library.LTS
import GazeboRcll.Mps.Runs
import GazeboRcll.Puck
import Mathlib.Algebra.BigOperators.Group.List.Basic
import Mathlib.Algebra.Order.BigOperators.Group.List
import Mathlib.Data.List.Perm.Basic
import Mathlib.Data.Multiset.OrderedMonoid
import Mathlib.Tactic.Abel

/-!
# Caps between a cap station and the workpieces

A cap station takes a cap off the workpiece in its middle with a REMOVE_CAP command, which
the workpiece answers with a result, and puts its stored cap on a workpiece with an ADD_CAP
command, which is not answered. `CapExchange.caps` counts every cap there is, in the
station, on workpieces and in messages.

Each step loses exactly `CapExchange.lost` (`CapExchange.balance`). Nothing is lost by a
step that meets `KeepsCaps`: no ADD_CAP command reaches a workpiece that has a cap, and a
coloured result finds its sender still in the middle and no cap stored.
-/

namespace GazeboRcll

open Prog

variable {Pose K : Type} {M : Machine Pose}

/-- The sum over a list and the summand that is taken out of it. -/
theorem add_sum_map_eraseIdx {α β : Type} [AddCommMonoid β] (f : α → β) {xs : List α} {i : ℕ}
    {a : α} (h : xs[i]? = some a) : f a + ((xs.eraseIdx i).map f).sum = (xs.map f).sum := by
  obtain ⟨hi, rfl⟩ := List.getElem?_eq_some_iff.mp h
  rw [← List.sum_cons, ← List.map_cons]
  exact ((List.getElem_cons_eraseIdx_perm hi).map f).sum_eq

/-! ## Caps and where they are -/

/-- The cap that a colour stands for. -/
def Color.cap (clr : Color) : Multiset Color := if clr = .NONE then 0 else {clr}

@[simp] theorem Color.cap_none : Color.NONE.cap = 0 := rfl

theorem Color.cap_of_ne {clr : Color} (h : clr ≠ .NONE) : clr.cap = {clr} := if_neg h

/-- The cap on a workpiece. -/
def Puck.cap (p : Puck) : Multiset Color := if p.haveCap = true then {p.capColor} else 0

@[simp] theorem Puck.cap_eq_zero_iff {p : Puck} : p.cap = 0 ↔ p.haveCap = false := by
  cases h : p.haveCap <;> simp [cap, h]

/-- The cap that an ADD_CAP command carries. -/
def WorkpieceCommand.cap (cmd : WorkpieceCommand) : Multiset Color :=
  match cmd.command, cmd.color with
  | .ADD_CAP, clr :: _ => {clr}
  | _, _ => 0

/-- The commands that a cap station sends. -/
def WorkpieceCommand.OfCapStation (cmd : WorkpieceCommand) : Prop :=
  cmd.command = .REMOVE_CAP ∨ ∃ clr, clr ≠ .NONE ∧ cmd.command = .ADD_CAP ∧ cmd.color = [clr]

/-- The cap that a result carries. -/
def WorkpieceResult.cap (result : WorkpieceResult) : Multiset Color := result.color.cap

/-- The stored cap and the caps in commands under way. -/
def Mps.caps (m : Mps Pose) : Multiset Color :=
  m.storedCapColor.cap + (m.puckCmdPub.map WorkpieceCommand.cap).sum

/-! ## The system -/

/-- A cap station, the workpieces, and the messages under way: the commands on the
publisher of the station, and the results. -/
structure CapExchange (Pose : Type) where
  mps : Mps Pose
  pucks : List Puck
  results : List WorkpieceResult

/-- The result that a workpiece has published. -/
def PuckMsg.asResult : PuckMsg K → Option WorkpieceResult
  | .result msg => some msg
  | _ => none

/-- Every workpiece hears a command. -/
def broadcast [Field K] (cfg : PuckConfig K) (cmd : WorkpieceCommand) :
    List Puck → Option (List Puck × List (PuckMsg K))
  | [] => some ([], [])
  | p :: ps => do
    let (p, msgs) ← p.onCommandMsg cfg cmd
    let (ps, rest) ← broadcast cfg cmd ps
    return (p :: ps, msgs ++ rest)

/-- What can happen next: a whole call of the worker, a pose message of a workpiece, a move
of the models in the world, or the arrival of one of the messages under way. -/
inductive CapStep (Pose : Type) where
  | retrieveCap
  | mountCap
  | moveConveyor (side : MachineSide)
  | pose (msg : PoseMsg Pose)
  | gazebo (world : World Pose)
  | command (i : ℕ)
  | result (i : ℕ)

namespace CapExchange

def caps (s : CapExchange Pose) : Multiset Color :=
  s.mps.caps + (s.pucks.map Puck.cap).sum + (s.results.map WorkpieceResult.cap).sum

/-- The step function. Pose messages come from workpieces only, on the topics that these
have announced. -/
def next [Field K] (M : Machine Pose) (cfg : PuckConfig K) (s : CapExchange Pose) :
    CapStep Pose → Option (CapExchange Pose)
  | .retrieveCap => (CapStation.retrieveCap.run handle s.mps).map fun t => { s with mps := t.1 }
  | .mountCap => ((CapStation.mountCap M).run handle s.mps).map fun t => { s with mps := t.1 }
  | .moveConveyor side =>
    ((Mps.moveConveyor M side).run handle s.mps).map fun t => { s with mps := t.1 }
  | .pose msg =>
    if msg.name ∈ s.pucks.map Puck.name then some { s with mps := s.mps.onPuckMsg M msg }
    else none
  | .gazebo world => some { s with mps := { s.mps with world := world } }
  | .command i => do
    let cmd ← s.mps.puckCmdPub[i]?
    let (pucks, msgs) ← broadcast cfg cmd s.pucks
    return {
      mps := { s.mps with puckCmdPub := s.mps.puckCmdPub.eraseIdx i }
      pucks := pucks
      results := s.results ++ msgs.filterMap PuckMsg.asResult }
  | .result i =>
    s.results[i]?.map fun result =>
      { s with mps := CapStation.onPuckResult result s.mps, results := s.results.eraseIdx i }

/-- No message is under way, workpieces have different names, what is in the station is a
workpiece, and caps have a colour. -/
structure Initial (s : CapExchange Pose) : Prop where
  names : (s.pucks.map Puck.name).Nodup
  colors : ∀ p ∈ s.pucks, p.haveCap = true → p.capColor ≠ .NONE
  slots : ∀ slot wp, s.mps.wpIn slot = some wp → wp ∈ s.pucks.map Puck.name
  commands : s.mps.puckCmdPub = []
  results : s.results = []

/-- The cap station and the workpieces as a transition system. -/
def system [Field K] (M : Machine Pose) (cfg : PuckConfig K) :
    LTS (CapExchange Pose) (CapStep Pose) where
  init := Initial
  next := next M cfg

/-- The caps there were at the start of the run. -/
def firstCaps : Monitor (CapExchange Pose) (CapStep Pose) (Multiset Color) where
  start := caps
  observe g _ _ _ := g

/-! ## What a step loses -/

/-- The caps that a step loses: the one that an added cap takes the place of, the stored
one that a result replaces, or the one in a result that nobody takes. -/
def lost (s : CapExchange Pose) : CapStep Pose → Multiset Color
  | .command i =>
    match s.mps.puckCmdPub[i]? with
    | some cmd =>
      if cmd.command = .ADD_CAP then
        ((s.pucks.filter fun p => p.name = cmd.puckName).map Puck.cap).sum
      else 0
    | none => 0
  | .result i =>
    match s.results[i]? with
    | some result =>
      if s.mps.wpIn .middle = some result.puckName then
        if result.color = .NONE then 0 else s.mps.storedCapColor.cap
      else result.cap
    | none => 0
  | _ => 0

/-- A cap is put on a workpiece only if that has none, and a cap is brought to the station
only while its sender is in the middle and none is stored. -/
def KeepsCaps (s : CapExchange Pose) : CapStep Pose → Prop
  | .command i => ∀ cmd ∈ s.mps.puckCmdPub[i]?, cmd.command = .ADD_CAP →
      ∀ p ∈ s.pucks, p.name = cmd.puckName → p.haveCap = false
  | .result i => ∀ result ∈ s.results[i]?, result.color ≠ .NONE →
      s.mps.wpIn .middle = some result.puckName ∧ s.mps.storedCapColor = .NONE
  | _ => True

instance (s : CapExchange Pose) (l : CapStep Pose) : Decidable (s.KeepsCaps l) :=
  match l with
  | .command _ => inferInstanceAs (Decidable (∀ cmd ∈ _, _ → ∀ p ∈ _, _))
  | .result _ => inferInstanceAs (Decidable (∀ result ∈ _, _ → _ ∧ _))
  | .retrieveCap | .mountCap | .moveConveyor _ | .pose _ | .gazebo _ => .isTrue trivial

end CapExchange

/-! ## The station -/

/-- Slots hold workpieces of the given names, and commands are addressed to them. -/
structure StationInv (names : List String) (m : Mps Pose) : Prop where
  slots : ∀ slot wp, m.wpIn slot = some wp → wp ∈ names
  commands : ∀ cmd ∈ m.puckCmdPub, cmd.puckName ∈ names ∧ cmd.OfCapStation

theorem caps_of_eq {m m' : Mps Pose} (hstored : m'.storedCapColor = m.storedCapColor)
    (hpub : m'.puckCmdPub = m.puckCmdPub) : m'.caps = m.caps := by
  unfold Mps.caps
  rw [hstored, hpub]

/-- Retrieving a cap moves none until the workpiece answers. -/
theorem retrieveResult_caps (m : Mps Pose) : (CapStation.retrieveResult m).caps = m.caps := by
  unfold CapStation.retrieveResult
  cases m.wpIn .middle with
  | none => rfl
  | some wp => simp [Mps.caps, WorkpieceCommand.cap, Mps.clearCommand, Mps.write]

/-- The cap changes from the store into the command. -/
theorem handOver_caps (wp : String) (m : Mps Pose) : (CapStation.handOver wp m).caps = m.caps := by
  unfold CapStation.handOver
  by_cases hc : m.storedCapColor ≠ .NONE
  · rw [if_pos hc]
    simp only [Mps.caps, List.map_append, List.map_cons, List.map_nil, List.sum_append,
      List.sum_singleton, Color.cap_of_ne hc, Color.cap_none, WorkpieceCommand.cap]
    abel
  · rw [if_neg hc]

/-- Mounting hands the stored cap over to the command. -/
theorem mountResult_caps (M : Machine Pose) (m : Mps Pose) :
    (CapStation.mountResult M m).caps = m.caps := by
  unfold CapStation.mountResult
  cases m.wpIn .middle with
  | none => rfl
  | some wp =>
    dsimp only
    split_ifs
    · rfl
    · -- what follows the hand-over concerns the registers and the flag only
      exact (caps_of_eq rfl rfl).trans (handOver_caps wp m)

/-- Moving a workpiece moves no cap. -/
theorem moveResult_caps (M : Machine Pose) (side : MachineSide) (m : Mps Pose) :
    (m.moveResult M side).caps = m.caps := by
  unfold Mps.moveResult
  cases side.route with
  | none => rfl
  | some r =>
    dsimp only
    cases m.wpIn r.1 with
    | none => rfl
    | some wp => rfl

/-- A pose moves no cap. -/
theorem onPuckMsg_caps (M : Machine Pose) (msg : PoseMsg Pose) (m : Mps Pose) :
    (m.onPuckMsg M msg).caps = m.caps := by
  unfold Mps.onPuckMsg
  split_ifs <;> rfl

/-- A coloured result from the workpiece in the middle takes the place of the stored cap,
any other result is dropped. -/
theorem onPuckResult_caps (result : WorkpieceResult) (m : Mps Pose) :
    (CapStation.onPuckResult result m).caps
        + (if m.wpIn .middle = some result.puckName then
            if result.color = .NONE then 0 else m.storedCapColor.cap
          else result.cap) = m.caps + result.cap := by
  unfold CapStation.onPuckResult
  by_cases hm : m.wpIn .middle = some result.puckName
  · by_cases hc : result.color = .NONE
    · simp [hm, hc, WorkpieceResult.cap]
    · simp only [hm, hc, ne_eq, not_false_eq_true, and_self, if_true, if_false, Mps.caps,
        WorkpieceResult.cap]
      abel
  · simp [hm]

namespace StationInv

variable {names : List String} {m m' : Mps Pose}

/-- Slots can be emptied, exchanged, or get a workpiece with one of the names. -/
theorem of_slots (h : StationInv names m) (hpub : m'.puckCmdPub = m.puckCmdPub)
    (hslots : ∀ slot wp, m'.wpIn slot = some wp → wp ∈ names ∨ ∃ t, m.wpIn t = some wp) :
    StationInv names m' where
  slots slot wp hwp := (hslots slot wp hwp).elim id fun ⟨t, ht⟩ => h.slots t wp ht
  commands := hpub ▸ h.commands

/-- A command to a workpiece of the station is published. -/
theorem publish (h : StationInv names m) {cmd : WorkpieceCommand}
    (hcmd : cmd.puckName ∈ names ∧ cmd.OfCapStation) (hslots : m'.wpIn = m.wpIn)
    (hpub : m'.puckCmdPub = m.puckCmdPub ++ [cmd]) : StationInv names m' where
  slots := hslots ▸ h.slots
  commands := by
    intro c hc
    rw [hpub, List.mem_append, List.mem_singleton] at hc
    rcases hc with hc | rfl
    · exact h.commands c hc
    · exact hcmd

/-- A cap is retrieved. -/
theorem retrieve (h : StationInv names m) : StationInv names (CapStation.retrieveResult m) := by
  unfold CapStation.retrieveResult
  cases hwp : m.wpIn .middle with
  | none => exact h
  | some wp => exact h.publish ⟨h.slots _ _ hwp, .inl rfl⟩ rfl rfl

/-- A cap is mounted. -/
theorem mount (h : StationInv names m) : StationInv names (CapStation.mountResult M m) := by
  unfold CapStation.mountResult
  cases hwp : m.wpIn .middle with
  | none => exact h
  | some wp =>
    dsimp only
    unfold CapStation.handOver
    split_ifs with hout hc
    · exact h
    · exact h.publish ⟨h.slots _ _ hwp, .inr ⟨_, hc, rfl, rfl⟩⟩ rfl rfl
    · exact h.of_slots rfl fun slot wp hslot => .inr ⟨slot, hslot⟩

/-- A workpiece is moved. -/
theorem move (h : StationInv names m) (side : MachineSide) :
    StationInv names (m.moveResult M side) := by
  unfold Mps.moveResult
  cases side.route with
  | none => exact h.of_slots rfl fun slot wp hslot => .inr ⟨slot, hslot⟩
  | some r =>
    dsimp only
    cases hwp : m.wpIn r.1 with
    | none => exact h.of_slots rfl fun slot wp hslot => .inr ⟨slot, hslot⟩
    | some wp =>
      refine h.of_slots rfl fun slot wp' hslot => .inr ?_
      simp only [Mps.carried, Mps.assign, Function.update_apply] at hslot
      split_ifs at hslot
      · exact ⟨r.1, hwp.trans hslot⟩
      · exact ⟨slot, hslot⟩

/-- The answer of a workpiece comes. -/
theorem result (h : StationInv names m) (result : WorkpieceResult) :
    StationInv names (CapStation.onPuckResult result m) := by
  unfold CapStation.onPuckResult
  split_ifs
  · exact h.of_slots rfl fun slot wp hslot => .inr ⟨slot, hslot⟩
  · exact h

/-- The pose of a workpiece comes. -/
theorem pose (h : StationInv names m) {msg : PoseMsg Pose} (hmsg : msg.name ∈ names) :
    StationInv names (m.onPuckMsg M msg) := by
  have hpub : (m.onPuckMsg M msg).puckCmdPub = m.puckCmdPub := by
    unfold Mps.onPuckMsg
    split_ifs <;> rfl
  refine h.of_slots hpub fun slot wp hslot => ?_
  rcases onPuckMsg_cases M msg m with ⟨-, -, heq⟩ | ⟨s, -, -, -, heq⟩ | heq
  · rw [heq, Function.update_apply] at hslot
    split_ifs at hslot
    · unfold World.modelByName at hslot
      split_ifs at hslot
      cases hslot
      exact .inl hmsg
    · exact .inr ⟨slot, hslot⟩
  · rw [heq, Function.update_apply] at hslot
    split_ifs at hslot
    exact .inr ⟨slot, hslot⟩
  · exact .inr ⟨slot, heq ▸ hslot⟩

end StationInv

/-! ## The workpieces -/

/-- The caps in the results among the messages of workpieces. -/
def resultCaps (msgs : List (PuckMsg K)) : Multiset Color :=
  ((msgs.filterMap PuckMsg.asResult).map WorkpieceResult.cap).sum

@[simp] theorem resultCaps_nil : resultCaps ([] : List (PuckMsg K)) = 0 := rfl

@[simp] theorem resultCaps_visual (msg : Visual K) (msgs : List (PuckMsg K)) :
    resultCaps (.visual msg :: msgs) = resultCaps msgs := rfl

/-- The caps of the answers that are under way. -/
@[simp] theorem resultCaps_result (msg : WorkpieceResult) (msgs : List (PuckMsg K)) :
    resultCaps (.result msg :: msgs) = msg.cap + resultCaps msgs := rfl

section

variable [Field K] (cfg : PuckConfig K) {cmd : WorkpieceCommand}

/-- A workpiece that a command of a cap station is meant for carries it out, and loses the
cap it has to a new one. -/
theorem exists_onCommandMsg {p : Puck} (hcmd : cmd.OfCapStation) (hname : p.name = cmd.puckName)
    (hcolor : p.haveCap = true → p.capColor ≠ .NONE) :
    ∃ t, p.onCommandMsg cfg cmd = some t ∧ (t.1.haveCap = true → t.1.capColor ≠ .NONE) ∧
      p.cap + cmd.cap
        = t.1.cap + resultCaps t.2 + if cmd.command = .ADD_CAP then p.cap else 0 := by
  have hne : ¬ cmd.puckName ≠ p.name := fun h => h hname.symm
  unfold Puck.onCommandMsg
  rw [if_neg hne]
  rcases hcmd with hrem | ⟨clr, hclr, hadd, hcol⟩
  · by_cases hc : p.haveCap = true
    · refine ⟨p.removeCap cfg, by simp [hrem, hc], nofun, ?_⟩
      simp [hrem, hc, Puck.cap, Puck.removeCap, WorkpieceCommand.cap, WorkpieceResult.cap,
        Color.cap_of_ne (hcolor hc)]
    · refine ⟨(p, [.result { puckName := p.name, color := .NONE }]), by simp [hrem, hc],
        hcolor, ?_⟩
      simp [hrem, WorkpieceCommand.cap, WorkpieceResult.cap]
  · refine ⟨p.addCap cfg clr, by simp [hadd, hcol], fun _ => hclr, ?_⟩
    simp [hadd, hcol, Puck.cap, Puck.addCap, WorkpieceCommand.cap, add_comm]

/-- A command to none of the workpieces changes none of them. -/
theorem broadcast_of_forall_ne {ps : List Puck} (h : ∀ p ∈ ps, p.name ≠ cmd.puckName) :
    broadcast cfg cmd ps = some (ps, []) := by
  induction ps with
  | nil => rfl
  | cons p ps ih =>
    have hne : cmd.puckName ≠ p.name := fun hn => h p (List.mem_cons_self ..) hn.symm
    have hp : p.onCommandMsg cfg cmd = some (p, []) := if_pos hne
    rw [broadcast, hp, ih fun q hq => h q (List.mem_cons_of_mem p hq)]
    rfl

/-- A command changes the workpiece it is meant for and no other. -/
theorem broadcast_eq {ps qs : List Puck} {p : Puck} {t : Puck × List (PuckMsg K)}
    (hps : ∀ q ∈ ps, q.name ≠ cmd.puckName) (hqs : ∀ q ∈ qs, q.name ≠ cmd.puckName)
    (ht : p.onCommandMsg cfg cmd = some t) :
    broadcast cfg cmd (ps ++ p :: qs) = some (ps ++ t.1 :: qs, t.2) := by
  induction ps with
  | nil =>
    rw [List.nil_append, broadcast, ht, broadcast_of_forall_ne cfg hqs]
    simp
  | cons q ps ih =>
    have hne : cmd.puckName ≠ q.name := fun hn => hps q (List.mem_cons_self ..) hn.symm
    have hq : q.onCommandMsg cfg cmd = some (q, []) := if_pos hne
    rw [List.cons_append, broadcast, hq, ih fun r hr => hps r (List.mem_cons_of_mem q hr)]
    rfl

/-- What a command of a cap station does to the caps on all workpieces. -/
theorem exists_broadcast {ps : List Puck} (hnodup : (ps.map Puck.name).Nodup)
    (hcolors : ∀ p ∈ ps, p.haveCap = true → p.capColor ≠ .NONE)
    (hname : cmd.puckName ∈ ps.map Puck.name) (hcmd : cmd.OfCapStation) :
    ∃ t, broadcast cfg cmd ps = some t ∧ t.1.map Puck.name = ps.map Puck.name ∧
      (∀ p ∈ t.1, p.haveCap = true → p.capColor ≠ .NONE) ∧
      (ps.map Puck.cap).sum + cmd.cap = (t.1.map Puck.cap).sum + resultCaps t.2 +
        if cmd.command = .ADD_CAP then
          ((ps.filter fun p => p.name = cmd.puckName).map Puck.cap).sum
        else 0 := by
  -- the workpiece that the command is meant for, between the others
  obtain ⟨p, hp, hpname⟩ := List.mem_map.mp hname
  obtain ⟨ls, rs, rfl⟩ := List.append_of_mem hp
  -- no other workpiece has the name that the command gives
  rw [List.map_append, List.map_cons, List.nodup_append, List.nodup_cons] at hnodup
  obtain ⟨-, ⟨hr, -⟩, hl⟩ := hnodup
  have hls : ∀ q ∈ ls, q.name ≠ cmd.puckName := fun q hq hqname =>
    hl q.name (List.mem_map_of_mem hq) p.name (List.mem_cons_self ..)
      (hqname.trans hpname.symm)
  have hrs : ∀ q ∈ rs, q.name ≠ cmd.puckName := fun q hq hqname =>
    hr (List.mem_map.mpr ⟨q, hq, hqname.trans hpname.symm⟩)
  obtain ⟨t, ht, htcolor, hcaps⟩ := exists_onCommandMsg cfg hcmd hpname (hcolors p hp)
  have htname : t.1.name = p.name := Puck.onCommandMsg_name cfg cmd p t ht
  have hfilter : (ls ++ p :: rs).filter (fun q => q.name = cmd.puckName) = [p] := by
    have hl' : ls.filter (fun q => q.name = cmd.puckName) = [] :=
      List.filter_eq_nil_iff.mpr fun q hq => by simpa using hls q hq
    have hr' : rs.filter (fun q => q.name = cmd.puckName) = [] :=
      List.filter_eq_nil_iff.mpr fun q hq => by simpa using hrs q hq
    simp [hpname, hl', hr']
  refine ⟨_, broadcast_eq cfg hls hrs ht, by simp [htname], ?_, ?_⟩
  · intro q hq
    rw [List.mem_append, List.mem_cons] at hq
    rcases hq with hq | rfl | hq
    · exact hcolors q (by simp [hq])
    · exact htcolor
    · exact hcolors q (by simp [hq])
  · rw [hfilter]
    simp only [List.map_append, List.map_cons, List.map_nil, List.sum_append, List.sum_cons,
      List.sum_nil, add_zero]
    calc (ls.map Puck.cap).sum + (p.cap + (rs.map Puck.cap).sum) + cmd.cap
        = (ls.map Puck.cap).sum + (rs.map Puck.cap).sum + (p.cap + cmd.cap) := by abel
      _ = _ := by rw [hcaps]; abel

end

/-! ## Runs -/

namespace CapExchange

variable [Field K] {cfg : PuckConfig K} {s s' : CapExchange Pose} {l : CapStep Pose}

/-- Names tell the workpieces apart, caps have a colour, and the station deals with
workpieces only. -/
structure Inv (s : CapExchange Pose) : Prop where
  names : (s.pucks.map Puck.name).Nodup
  colors : ∀ p ∈ s.pucks, p.haveCap = true → p.capColor ≠ .NONE
  station : StationInv (s.pucks.map Puck.name) s.mps

theorem Initial.inv (h : s.Initial) : s.Inv where
  names := h.names
  colors := h.colors
  station := ⟨h.slots, by rw [h.commands]; exact fun _ hc => by cases hc⟩

/-- A step of the station alone that keeps its caps. -/
theorem balance_station {m : Mps Pose} (h : s.Inv)
    (hm : StationInv (s.pucks.map Puck.name) m) (hcaps : m.caps = s.mps.caps)
    (hlost : s.lost l = 0) :
    Inv { s with mps := m } ∧ s.caps = caps { s with mps := m } + s.lost l := by
  refine ⟨⟨h.names, h.colors, hm⟩, ?_⟩
  rw [hlost, add_zero, caps, caps, hcaps]

/-- What a step does not lose it keeps. -/
theorem balance (h : s.Inv) (hs : (system M cfg).next s l = some s') :
    s'.Inv ∧ s.caps = s'.caps + s.lost l := by
  replace hs : next M cfg s l = some s' := hs
  cases l with
  | retrieveCap =>
    rw [next, CapStation.run_retrieveCap] at hs
    cases hs
    exact balance_station h h.station.retrieve (retrieveResult_caps s.mps) rfl
  | mountCap =>
    rw [next, CapStation.run_mountCap] at hs
    cases hs
    exact balance_station h h.station.mount (mountResult_caps M s.mps) rfl
  | moveConveyor side =>
    rw [next, Mps.run_moveConveyor] at hs
    cases hs
    exact balance_station h (h.station.move side) (moveResult_caps M side s.mps) rfl
  | pose msg =>
    rw [next] at hs
    split_ifs at hs with hmsg
    cases hs
    exact balance_station h (h.station.pose hmsg) (onPuckMsg_caps M msg s.mps) rfl
  | gazebo world =>
    cases hs
    exact balance_station h ⟨h.station.slots, h.station.commands⟩ rfl rfl
  | command i =>
    rw [next, Option.bind_eq_bind, Option.bind_eq_some_iff] at hs
    obtain ⟨cmd, hcmd, hs⟩ := hs
    -- the command leaves the topic, and all pucks with its name carry it out
    obtain ⟨hname, hof⟩ := h.station.commands cmd (List.mem_of_getElem? hcmd)
    obtain ⟨t, ht, hnames, hcolors, hcaps⟩ := exists_broadcast cfg h.names h.colors hname hof
    rw [ht] at hs
    cases hs
    refine ⟨⟨hnames ▸ h.names, hcolors, ?_⟩, ?_⟩
    · exact hnames ▸ ⟨h.station.slots, fun c hc =>
        h.station.commands c (List.mem_of_mem_eraseIdx hc)⟩
    · have hlost : s.lost (.command i) = if cmd.command = .ADD_CAP then
          ((s.pucks.filter fun p => p.name = cmd.puckName).map Puck.cap).sum else 0 := by
        rw [lost, hcmd]
      rw [← hlost, resultCaps] at hcaps
      rw [caps, caps, Mps.caps, Mps.caps, List.map_append, List.sum_append,
        ← add_sum_map_eraseIdx WorkpieceCommand.cap hcmd]
      generalize ((s.mps.puckCmdPub.eraseIdx i).map WorkpieceCommand.cap).sum = commands
      generalize (s.results.map WorkpieceResult.cap).sum = results
      calc s.mps.storedCapColor.cap + (cmd.cap + commands) + (s.pucks.map Puck.cap).sum + results
          -- what the command brings is on the pucks afterwards
          = s.mps.storedCapColor.cap + commands + results
              + ((s.pucks.map Puck.cap).sum + cmd.cap) := by abel
        _ = _ := by rw [hcaps]; abel
  | result i =>
    rw [next, Option.map_eq_some_iff] at hs
    obtain ⟨result, hresult, rfl⟩ := hs
    refine ⟨⟨h.names, h.colors, h.station.result result⟩, ?_⟩
    -- the result leaves the topic, and the station stores its cap
    have hcaps := onPuckResult_caps result s.mps
    have hlost : s.lost (.result i) = if s.mps.wpIn .middle = some result.puckName then
        if result.color = .NONE then 0 else s.mps.storedCapColor.cap
      else result.cap := by
      rw [lost, hresult]
    rw [← hlost] at hcaps
    rw [caps, caps, ← add_sum_map_eraseIdx WorkpieceResult.cap hresult]
    calc s.mps.caps + (s.pucks.map Puck.cap).sum
          + (result.cap + ((s.results.eraseIdx i).map WorkpieceResult.cap).sum)
        = s.mps.caps + result.cap + (s.pucks.map Puck.cap).sum
          + ((s.results.eraseIdx i).map WorkpieceResult.cap).sum := by abel
      _ = _ := by rw [← hcaps]; abel

/-- Nothing is lost exactly under the condition. -/
theorem lost_eq_zero_iff : s.lost l = 0 ↔ s.KeepsCaps l := by
  cases l with
  | command i =>
    cases hcmd : s.mps.puckCmdPub[i]? with
    | none => simp [lost, KeepsCaps, hcmd]
    | some cmd =>
      by_cases hadd : cmd.command = .ADD_CAP
      · simp only [lost, KeepsCaps, hcmd, Option.mem_def, Option.some.injEq, forall_eq', hadd,
          if_true, forall_const, List.sum_eq_zero_iff, List.forall_mem_map, List.mem_filter,
          decide_eq_true_eq, and_imp, Puck.cap_eq_zero_iff]
      · simp [lost, KeepsCaps, hcmd, hadd]
  | result i =>
    cases hresult : s.results[i]? with
    | none => simp [lost, KeepsCaps, hresult]
    | some result =>
      by_cases hc : result.color = .NONE
      · simp [lost, KeepsCaps, hresult, hc, WorkpieceResult.cap]
      · by_cases hm : s.mps.wpIn .middle = some result.puckName <;>
          simp [lost, KeepsCaps, hresult, hc, hm, WorkpieceResult.cap, Color.cap]
  | _ => exact iff_of_true rfl trivial

/-- In every run in which no cap is put on a workpiece that has one, and every cap brought
to the station finds its former bearer in the middle and no cap stored, the caps are those
of the start. A step that breaks the condition loses a cap. -/
theorem caps_conserved (M : Machine Pose) (cfg : PuckConfig K) {g : Multiset Color}
    (h : ((system M cfg).watch firstCaps).Reach (fun p l => p.1.KeepsCaps l) (s, g)) :
    s.caps = g ∧
      ∀ l s', (system M cfg).next s l = some s' → (s'.caps = s.caps ↔ s.KeepsCaps l) := by
  obtain ⟨hinv, hcaps⟩ : s.Inv ∧ s.caps = g := by
    refine LTS.Reach.watch_invariant (P := fun s g => s.Inv ∧ s.caps = g) ?_ ?_ h
    · exact fun s h0 => ⟨h0.inv, rfl⟩
    · rintro s g l s' ⟨hinv, rfl⟩ hc hs
      obtain ⟨hinv', hbal⟩ := balance hinv hs
      rw [lost_eq_zero_iff.mpr hc, add_zero] at hbal
      exact ⟨hinv', hbal.symm⟩
  refine ⟨hcaps, fun l s' hs => ?_⟩
  obtain ⟨-, hbal⟩ := balance hinv hs
  rw [← lost_eq_zero_iff, hbal]
  exact left_eq_add

/-- A workpiece with a cap. -/
def capped (name : String) (clr : Color) : Puck :=
  { Puck.load name none clr with haveCap := true }

/-- A cap station with the first of two capped workpieces in its middle. -/
def twoCaps : CapExchange (Vec ℚ) where
  mps := (shippedMps "C-CS1").assign .middle (some "puck_1")
  pucks := [capped "puck_1" .GREY, capped "puck_2" .BLACK]
  results := []

theorem twoCaps_initial : twoCaps.Initial where
  names := by decide
  colors := by decide
  slots := by
    intro slot wp hwp
    cases slot with
    | middle =>
      cases hwp
      decide
    | _ => cases hwp
  commands := rfl
  results := rfl

/-- A cap is retrieved up to its arrival in the station. -/
def retrieval : List (CapStep (Vec ℚ)) := [.retrieveCap, .command 0, .result 0]

/-- A cap that was retrieved is stored in the station. -/
theorem caps_conserved_retrieval :
    ∃ s, (system (shipped "C-CS1") shippedPuck).Reach KeepsCaps s ∧
      s.mps.storedCapColor = .GREY ∧ s.caps = {.GREY, .BLACK} := by
  obtain ⟨⟨s, g⟩, hreach, hs⟩ :=
    LTS.exists_reach (T := (system (shipped "C-CS1") shippedPuck).watch firstCaps)
      (C := fun p l => p.1.KeepsCaps l) (s := (twoCaps, twoCaps.caps)) (l := retrieval)
      (p := fun p => decide (p.1.mps.storedCapColor = .GREY ∧ p.2 = {.GREY, .BLACK}))
      ⟨twoCaps_initial, rfl⟩ (by decide +kernel) (by decide +kernel)
  obtain ⟨hstored, hg⟩ := of_decide_eq_true hs
  exact ⟨s, (LTS.watch_reach_iff s).mp ⟨g, hreach⟩, hstored,
    (caps_conserved (shipped "C-CS1") shippedPuck hreach).1.trans hg⟩

/-- The cap of the first workpiece is put on the second, which loses its own. -/
theorem cap_lost :
    ¬ ∀ s, (system (shipped "C-CS1") shippedPuck).Reachable s →
      ∀ l s', (system (shipped "C-CS1") shippedPuck).next s l = some s' → s'.caps = s.caps := by
  intro h
  obtain ⟨s, hreach, hs⟩ :=
    LTS.exists_reachable (T := system (shipped "C-CS1") shippedPuck) (s := twoCaps)
      (l := retrieval ++ [.moveConveyor .OUTPUT,
        .pose ⟨"puck_2", (shipped "C-CS1").center .input⟩, .moveConveyor .MIDDLE, .mountCap])
      (p := fun s => (next (shipped "C-CS1") shippedPuck s (.command 0)).any fun s' =>
        decide (s'.caps ≠ s.caps))
      twoCaps_initial (by decide +kernel)
  obtain ⟨s', hs', hne⟩ := Option.any_eq_true _ _ |>.mp hs
  exact of_decide_eq_true hne (h s hreach (.command 0) s' hs')

end CapExchange

end GazeboRcll
