import GazeboRcll.Library.LTS
import GazeboRcll.Messages
import Mathlib.Data.List.Induction
import Mathlib.Data.Nat.Notation
import Mathlib.Data.Rat.Floor
import Mathlib.Logic.Function.Basic
import Mathlib.Tactic.Common

/-!
# The signal lights of a machine

`LightControl` is mounted on a light signal. It keeps the states of the three lamps that
the last light instruction asked for, and twice a second brings Gazebo's visuals up to
date. Simulation times are exact rationals.

* `state_eq_commanded_iff`: over which histories of instructions the lamps follow those
  for their own machine.
* `displays_iff`: at which updates a lamp shows what it was commanded to show.
-/

namespace GazeboRcll

/-! ## State and messages -/

/-- `Color` of the plugin. -/
inductive Lamp where
  | RED | YELLOW | GREEN
deriving DecidableEq, Repr

/-- `msg->light_state().red()` and its siblings. -/
def SetSignalLight.lamp (s : SetSignalLight) : Lamp → LightState
  | .RED => s.red
  | .YELLOW => s.yellow
  | .GREEN => s.green

/-- What an instruction says about a lamp; an unset `light_state` reads as all OFF. -/
def InstructMachine.lamp (msg : InstructMachine) : Lamp → LightState :=
  (msg.lightState.getD {}).lamp

/-- A colour with its transparency. -/
structure Rgba where
  r : ℚ
  g : ℚ
  b : ℚ
  a : ℚ
deriving DecidableEq, Repr

/-- `msgs::Visual` for a lamp. -/
structure LampVisual where
  parentName : String
  name : String
  radius : ℚ
  length : ℚ
  /-- The height of the lamp's pose, which is otherwise the identity. -/
  z : ℚ
  castShadows : Bool
  visible : Bool
  diffuse : Rgba
  emissive : Rgba
  ambient : Option Rgba
deriving DecidableEq, Repr

/-- The members of the plugin. -/
structure LightControl where
  machineName : String
  /-- `state_red_`, `state_yellow_` and `state_green_`. -/
  state : Lamp → LightState
  /-- `prev_state_red_`, `prev_state_yellow_` and `prev_state_green_`. -/
  prevState : Lamp → LightState
  lastSentTime : ℚ

namespace LightControl

/-- `LightControl::Load` at a simulation time. -/
def load (machineName : String) (time : ℚ) : LightControl where
  machineName := machineName
  state _ := .OFF
  prevState _ := .ON
  lastSentTime := time

/-- `LightControl::on_light_msg`. -/
def onLightMsg (msg : InstructMachine) (p : LightControl) : LightControl :=
  -- a light instruction for any machine gets through, and any instruction for this one
  if msg.set ≠ .SIGNAL_LIGHT ∧ msg.machine ≠ p.machineName then p
  else { p with state := msg.lamp }

/-! ## Updating the visuals -/

def parentLink (machineName : String) : String := machineName ++ "::light_signals::link"

def visualName (machineName : String) : Lamp → String
  | .RED => parentLink machineName ++ "::redon"
  | .YELLOW => parentLink machineName ++ "::yellowon"
  | .GREEN => parentLink machineName ++ "::greenon"

def lampZ : Lamp → ℚ
  | .RED => 85 / 1000
  | .YELLOW => 51 / 1000
  | .GREEN => 17 / 1000

def lampDiffuse : Lamp → Rgba
  | .RED => ⟨8 / 10, 0, 0, 8 / 10⟩
  | .YELLOW => ⟨9 / 10, 7 / 10, 0, 8 / 10⟩
  | .GREEN => ⟨0, 8 / 10, 0, 8 / 10⟩

def lampEmissive : Lamp → Rgba
  | .RED => ⟨1, 3 / 10, 3 / 10, 1⟩
  | .YELLOW => ⟨1, 9 / 10, 3 / 10, 1⟩
  | .GREEN => ⟨3 / 10, 1, 3 / 10, 1⟩

/-- The message for a lamp; a lamp that is off has its plain colour as ambient light. -/
def visual (machineName : String) (color : Lamp) (state : LightState) : LampVisual where
  parentName := parentLink machineName
  name := visualName machineName color
  radius := 2 / 100
  length := 34 / 1000
  z := lampZ color
  castShadows := false
  visible := state = .ON
  diffuse := lampDiffuse color
  emissive := if state = .ON then lampEmissive color else ⟨0, 0, 0, 0⟩
  ambient := if state = .ON then none else some (lampDiffuse color)

/-- In the first half of each second a blinking lamp is on. -/
def blinkOn (time : ℚ) : Bool := decide (Int.fract time < 1 / 2)

/-- BLINK resolved at a simulation time. -/
def resolve (time : ℚ) : LightState → LightState
  | .BLINK => if blinkOn time then .ON else .OFF
  | s => s

/-- Only BLINK depends on the time. -/
theorem resolve_of_ne_blink (time : ℚ) {state : LightState} (h : state ≠ .BLINK) :
    resolve time state = state := by
  cases state with
  | BLINK => exact absurd rfl h
  | _ => rfl

/-- `LightControl::change_light` for one lamp. The state is passed by reference, so the
resolved BLINK replaces the commanded one. -/
def changeLight (time : ℚ) (color : Lamp) (p : LightControl) : LightControl × List LampVisual :=
  if p.state color ≠ .BLINK ∧ p.state color = p.prevState color then (p, [])
  else
    ({ p with
      prevState := Function.update p.prevState color (p.state color)
      state := Function.update p.state color (resolve time (p.state color)) },
      [visual p.machineName color (resolve time (p.state color))])

/-- `LightControl::OnUpdate`. -/
def onUpdate (time : ℚ) (p : LightControl) : LightControl × List LampVisual :=
  if time < 20 then (p, [])
  else if time - p.lastSentTime < 1 / 2 then (p, [])
  else
    let p := { p with lastSentTime := time }
    let (p, red) := changeLight time .RED p
    let (p, yellow) := changeLight time .YELLOW p
    let (p, green) := changeLight time .GREEN p
    (p, red ++ yellow ++ green)

/-! ## Whose instructions the lamps follow -/

/-- A light instruction for the machine. -/
def OwnLight (machineName : String) (msg : InstructMachine) : Prop :=
  msg.set = .SIGNAL_LIGHT ∧ msg.machine = machineName

instance (machineName : String) : DecidablePred (OwnLight machineName) :=
  fun _ => inferInstanceAs (Decidable (_ ∧ _))

/-- What the last light instruction for the machine says, all OFF without one. -/
def commanded (machineName : String) (msgs : List InstructMachine) : Lamp → LightState :=
  ((msgs.filter fun msg => OwnLight machineName msg).getLast?.map InstructMachine.lamp).getD
    fun _ => .OFF

/-- The plugin after a history of messages. -/
def receive (p : LightControl) (msgs : List InstructMachine) : LightControl :=
  msgs.foldl (fun p msg => onLightMsg msg p) p

/-- The last message that is about the own lights counts. -/
theorem commanded_snoc (machineName : String) (msgs : List InstructMachine)
    (msg : InstructMachine) :
    commanded machineName (msgs ++ [msg])
      = if OwnLight machineName msg then msg.lamp else commanded machineName msgs := by
  unfold commanded
  by_cases hown : OwnLight machineName msg
  · rw [if_pos hown, List.filter_append, List.filter_singleton, decide_eq_true hown]
    simp
  · rw [if_neg hown, List.filter_append, List.filter_singleton, decide_eq_false hown]
    simp

/-- Messages are received one after the other. -/
@[simp] theorem receive_snoc (p : LightControl) (msgs : List InstructMachine)
    (msg : InstructMachine) : receive p (msgs ++ [msg]) = onLightMsg msg (receive p msgs) := by
  simp [receive]

theorem onLightMsg_machineName (msg : InstructMachine) (p : LightControl) :
    (onLightMsg msg p).machineName = p.machineName := by
  unfold onLightMsg
  split_ifs <;> rfl

theorem receive_machineName (p : LightControl) (msgs : List InstructMachine) :
    (receive p msgs).machineName = p.machineName := by
  induction msgs using List.reverseRecOn with
  | nil => rfl
  | append_singleton msgs msg ih => rw [receive_snoc, onLightMsg_machineName, ih]

/-- The message is a light instruction for this machine, or neither of the two, or it
repeats what the lamps were commanded before. -/
def Unmistaken (machineName : String) (pre : List InstructMachine) (msg : InstructMachine) :
    Prop :=
  (msg.set = .SIGNAL_LIGHT ↔ msg.machine = machineName) ∨ msg.lamp = commanded machineName pre

/-- One message keeps the lamps as commanded exactly if it is not mistaken. -/
theorem onLightMsg_state_iff {p : LightControl} {pre : List InstructMachine}
    (msg : InstructMachine) (h : p.state = commanded p.machineName pre) :
    (onLightMsg msg p).state = commanded p.machineName (pre ++ [msg]) ↔
      Unmistaken p.machineName pre msg := by
  rw [commanded_snoc]
  unfold onLightMsg Unmistaken OwnLight
  by_cases hset : msg.set = .SIGNAL_LIGHT <;> by_cases hname : msg.machine = p.machineName
  · simp [hset, hname]
  · simp [hset, hname]
  · simp [hset, hname]
  · simp [hset, hname, h]

/-- The lamps are as the last light instruction for their machine says after every message
of a history exactly if no message of it is mistaken. -/
theorem state_eq_commanded_iff (machineName : String) (time : ℚ)
    (msgs : List InstructMachine) :
    (∀ pre, pre <+: msgs →
        (receive (load machineName time) pre).state = commanded machineName pre) ↔
      ∀ pre msg, pre ++ [msg] <+: msgs → Unmistaken machineName pre msg := by
  have hiff : ∀ pre msg,
      (receive (load machineName time) pre).state = commanded machineName pre →
      ((receive (load machineName time) (pre ++ [msg])).state = commanded machineName (pre ++ [msg])
        ↔ Unmistaken machineName pre msg) := by
    intro pre msg hbefore
    have hname : (receive (load machineName time) pre).machineName = machineName :=
      receive_machineName _ pre
    have hnow : (receive (load machineName time) pre).state
        = commanded (receive (load machineName time) pre).machineName pre := by
      rw [hname]
      exact hbefore
    have hstep := onLightMsg_state_iff msg hnow
    rwa [hname, ← receive_snoc] at hstep
  constructor
  · intro h pre msg hpre
    have hbefore := h pre ((List.prefix_append pre [msg]).trans hpre)
    exact (hiff pre msg hbefore).mp (h (pre ++ [msg]) hpre)
  · intro h pre hpre
    induction pre using List.reverseRecOn with
    | nil => rfl
    | append_singleton pre msg ih =>
      have hbefore := ih ((List.prefix_append pre [msg]).trans hpre)
      exact (hiff pre msg hbefore).mpr (h pre msg hpre)

/-- A light instruction for another machine is obeyed. -/
theorem state_ne_commanded :
    ¬ ∀ machineName time msgs pre, pre <+: msgs →
      (receive (load machineName time) pre).state = commanded machineName pre := by
  intro h
  have hred := congrFun (h "C-BS" 0 [⟨"M-BS", .SIGNAL_LIGHT, some ⟨.ON, .OFF, .OFF⟩⟩] _
    (List.prefix_refl _)) .RED
  revert hred
  decide

/-! ## What an update publishes -/

/-- The update does nothing: the world is not loaded yet, or the last update is too recent. -/
def Skips (time : ℚ) (p : LightControl) : Prop := time < 20 ∨ time - p.lastSentTime < 1 / 2

instance (time : ℚ) (p : LightControl) : Decidable (Skips time p) :=
  inferInstanceAs (Decidable (_ ∨ _))

/-- The message of an update for one lamp, none if nothing has changed. -/
def lampMsgs (time : ℚ) (p : LightControl) (color : Lamp) : List LampVisual :=
  if p.state color ≠ .BLINK ∧ p.state color = p.prevState color then []
  else [visual p.machineName color (resolve time (p.state color))]

theorem changeLight_eq (time : ℚ) (color : Lamp) (p : LightControl) :
    changeLight time color p =
      ({ p with
        prevState := Function.update p.prevState color (p.state color)
        state := Function.update p.state color (resolve time (p.state color)) },
        lampMsgs time p color) := by
  unfold changeLight lampMsgs
  by_cases hsame : p.state color ≠ .BLINK ∧ p.state color = p.prevState color
  · -- without a change both assignments would write what is there
    have hresolve := resolve_of_ne_blink time hsame.1
    have hprev : Function.update p.prevState color (p.state color) = p.prevState := by
      rw [hsame.2, Function.update_eq_self]
    rw [if_pos hsame, if_pos hsame, hresolve, hprev, Function.update_eq_self]
  · rw [if_neg hsame, if_neg hsame]

/-- An update that is skipped changes nothing. -/
theorem onUpdate_of_skips {time : ℚ} {p : LightControl} (h : Skips time p) :
    onUpdate time p = (p, []) := by
  unfold onUpdate
  rcases h with h | h
  · rw [if_pos h]
  · rw [if_pos h, ite_self]

/-- An update that does something resolves all lamps and remembers what they were. -/
theorem onUpdate_of_not_skips {time : ℚ} {p : LightControl} (h : ¬ Skips time p) :
    onUpdate time p =
      ({ p with
        state := fun color => resolve time (p.state color)
        prevState := p.state
        lastSentTime := time },
        [Lamp.RED, .YELLOW, .GREEN].flatMap (lampMsgs time p)) := by
  have hload : ¬ time < 20 := fun h20 => h (.inl h20)
  have hrecent : ¬ time - p.lastSentTime < 1 / 2 := fun hlt => h (.inr hlt)
  unfold onUpdate
  rw [if_neg hload, if_neg hrecent]
  simp only [changeLight_eq]
  refine Prod.ext ?_ ?_
  · simp only [LightControl.mk.injEq, true_and, and_true]
    constructor <;>
    · funext color
      cases color <;> simp
  · simp [lampMsgs]

/-- The visuals of the lamps have different names. -/
theorem visualName_inj {machineName : String} {a b : Lamp}
    (h : visualName machineName a = visualName machineName b) : a = b := by
  cases a <;> cases b <;> first
    | rfl
    | exact absurd (String.append_right_inj _ |>.mp h) (by decide)

/-- The messages about one lamp. -/
def about (machineName : String) (color : Lamp) (msgs : List LampVisual) : List LampVisual :=
  msgs.filter fun v => v.name = visualName machineName color

/-- The messages for a lamp are about this lamp. -/
theorem about_lampMsgs (time : ℚ) (p : LightControl) (a b : Lamp) :
    about p.machineName a (lampMsgs time p b) = if a = b then lampMsgs time p b else [] := by
  have hname : visualName p.machineName b = visualName p.machineName a ↔ a = b :=
    ⟨fun h => (visualName_inj h).symm, fun h => by rw [h]⟩
  unfold about lampMsgs
  by_cases hsame : p.state b ≠ .BLINK ∧ p.state b = p.prevState b
  · rw [if_pos hsame]
    simp
  · rw [if_neg hsame]
    by_cases hab : a = b <;> simp [visual, hname, hab]

/-- Every lamp gets its own message. -/
theorem about_onUpdate {time : ℚ} {p : LightControl} (h : ¬ Skips time p) (color : Lamp) :
    about p.machineName color (onUpdate time p).2 = lampMsgs time p color := by
  have hflat : about p.machineName color ([Lamp.RED, .YELLOW, .GREEN].flatMap (lampMsgs time p))
      = [Lamp.RED, .YELLOW, .GREEN].flatMap fun b =>
          about p.machineName color (lampMsgs time p b) := by
    simp [about]
  rw [onUpdate_of_not_skips h, hflat]
  simp only [about_lampMsgs]
  cases color <;> simp

end LightControl

/-! ## Commands and updates in any order -/

open LightControl

/-- What can happen to a light signal. -/
inductive LightStep where
  | lightMsg (msg : InstructMachine)
  /-- The world is updated at a simulation time. -/
  | update (time : ℚ)
deriving DecidableEq

/-- A light signal in the world. -/
structure LightSystem where
  plugin : LightControl
  /-- The simulation time. -/
  time : ℚ
  /-- Messages published on `visPub_`, oldest first. -/
  visPub : List LampVisual

/-- The state after an update of the world. -/
def LightSystem.updated (s : LightSystem) (time : ℚ) : LightSystem where
  plugin := (onUpdate time s.plugin).1
  time := time
  visPub := s.visPub ++ (onUpdate time s.plugin).2

/-- A light signal from its loading on; simulation time does not decrease. -/
def lightSystem (machineName : String) : LTS LightSystem LightStep where
  init s := ∃ time, s = ⟨load machineName time, time, []⟩
  next s
    | .lightMsg msg => some { s with plugin := onLightMsg msg s.plugin }
    | .update time => if s.time ≤ time then some (s.updated time) else none

/-- The visibility last published for a lamp. -/
def LightSystem.shown (s : LightSystem) (color : Lamp) : Option Bool :=
  (about s.plugin.machineName color s.visPub).getLast?.map LampVisual.visible

/-- What has been asked of a lamp: the state last commanded (OFF at first), the phase of
the first update since, and whether any update has found it commanded other than ON.
Updates that are skipped do not count. -/
structure LampHistory where
  command : LightState
  phase : Option Bool
  published : Bool
deriving DecidableEq

/-- The history after an update. -/
def LampHistory.update (w : LampHistory) (time : ℚ) : LampHistory where
  command := w.command
  phase := w.phase.or (some (blinkOn time))
  published := w.published || decide (w.command ≠ .ON)

/-- Collects the histories of the lamps. -/
def lampHistory : Monitor LightSystem LightStep (Lamp → LampHistory) where
  start _ _ := ⟨.OFF, none, false⟩
  observe w s l _ := match l with
    | .lightMsg msg => fun color => { w color with command := msg.lamp color, phase := none }
    | .update time => if Skips time s.plugin then w else fun color => (w color).update time

/-- The instructions are light commands for this machine. -/
def OwnLightsOnly (machineName : String) : LightStep → Prop
  | .lightMsg msg => OwnLight machineName msg
  | .update _ => True

instance (machineName : String) : DecidablePred (OwnLightsOnly machineName)
  | .lightMsg _ => inferInstanceAs (Decidable (OwnLight _ _))
  | .update _ => .isTrue trivial

/-- What a lamp with this command shows at a time. -/
def display (time : ℚ) : LightState → Bool
  | .ON => true
  | .OFF => false
  | .BLINK => blinkOn time

/-- An update at this time shows what was commanded: a blinking lamp is still in the phase
of the first update, and a lamp that is on was published before. -/
def LampHistory.Tracks (w : LampHistory) (time : ℚ) : Prop :=
  match w.command with
  | .ON => w.published = true
  | .OFF => True
  | .BLINK => ∀ b ∈ w.phase, b = blinkOn time

/-- BLINK resolved in a phase of the second. -/
def settle (b : Bool) : LightState → LightState
  | .BLINK => if b then .ON else .OFF
  | state => state

/-- The state of a lamp with this history: a blinking lamp stays as the first update since
the command has resolved it. -/
def LampHistory.state (w : LampHistory) : LightState :=
  match w.phase with
  | none => w.command
  | some b => settle b w.command

/-- The state that is shown is what BLINK stands for at this time. -/
theorem LampHistory.resolve_state (w : LampHistory) (time : ℚ) :
    resolve time w.state = (w.update time).state := by
  obtain ⟨command, phase, published⟩ := w
  cases phase with
  | none => cases command <;> rfl
  | some b => cases command <;> cases b <;> rfl

/-- How the members of the plugin and the published messages depend on the history. -/
structure LampAgrees (s : LightSystem) (color : Lamp) (w : LampHistory) : Prop where
  state : s.plugin.state color = w.state
  published : w.phase ≠ none → w.command ≠ .ON → w.published = true
  unpublished : w.published = false → s.shown color = none ∧ s.plugin.prevState color = .ON
  shown : w.published = true → s.plugin.prevState color ≠ .BLINK →
    s.shown color = some (decide (s.plugin.prevState color = .ON))

namespace LampAgrees

variable {s : LightSystem} {color : Lamp} {w : LampHistory} {time : ℚ}

/-- Before its first update a lamp has the commanded state. -/
theorem state_of_unpublished (h : LampAgrees s color w) (hw : w.published = false) :
    w.state = w.command := by
  cases hphase : w.phase with
  | none => rw [LampHistory.state, hphase]
  | some b =>
    have hon : w.command = .ON := by
      by_contra hne
      have hpub := h.published (by rw [hphase]; exact nofun) hne
      rw [hw] at hpub
      cases hpub
    rw [LampHistory.state, hphase, hon]
    rfl

/-- Nothing is published for a lamp as long as it is commanded ON from the start. -/
theorem same_iff_of_unpublished (h : LampAgrees s color w) (hw : w.published = false) :
    (s.plugin.state color ≠ .BLINK ∧ s.plugin.state color = s.plugin.prevState color) ↔
      w.command = .ON := by
  rw [(h.unpublished hw).2, h.state, h.state_of_unpublished hw]
  constructor
  · exact And.right
  · intro hon
    rw [hon]
    exact ⟨nofun, rfl⟩

/-- The visibility last published after an update. -/
theorem shown_update (h : LampAgrees s color w) (hskip : ¬ Skips time s.plugin) :
    (s.updated time).shown color
      = if (w.update time).published then some (decide ((w.update time).state = .ON))
        else none := by
  have hmsgs : (s.updated time).shown color
      = ((lampMsgs time s.plugin color).getLast?.map LampVisual.visible).or (s.shown color) := by
    have hname : (onUpdate time s.plugin).1.machineName = s.plugin.machineName := by
      rw [onUpdate_of_not_skips hskip]
    rw [← about_onUpdate hskip]
    simp only [LightSystem.shown, LightSystem.updated, hname, about, List.filter_append,
      List.getLast?_append, Option.map_or]
  rw [hmsgs, ← w.resolve_state, ← h.state]
  by_cases hsame : s.plugin.state color ≠ .BLINK ∧ s.plugin.state color = s.plugin.prevState color
  · -- nothing is published: what is shown is what the previous state says
    rw [lampMsgs, if_pos hsame, resolve_of_ne_blink time hsame.1]
    cases hw : w.published with
    | false =>
      have hon := (h.same_iff_of_unpublished hw).mp hsame
      simp [LampHistory.update, hw, hon, (h.unpublished hw).1]
    | true =>
      have hprev : s.plugin.prevState color ≠ .BLINK := fun hb => hsame.1 (hsame.2.trans hb)
      simp [LampHistory.update, hw, h.shown hw hprev, hsame.2]
  · rw [lampMsgs, if_neg hsame]
    have hpub : (w.update time).published = true := by
      cases hw : w.published with
      | false =>
        have hoff : w.command ≠ .ON := fun hon => hsame ((h.same_iff_of_unpublished hw).mpr hon)
        simp [LampHistory.update, hoff]
      | true => simp [LampHistory.update, hw]
    rw [hpub]
    rfl

/-- An update shows the command exactly if it tracks it. -/
theorem displays_update_iff (h : LampAgrees s color w) (hskip : ¬ Skips time s.plugin) :
    (s.updated time).shown color
      = some (display time w.command) ↔ w.Tracks time := by
  rw [h.shown_update hskip]
  obtain ⟨command, phase, published⟩ := w
  cases command with
  | ON => cases phase <;> cases published <;> simp [LampHistory.update, LampHistory.Tracks,
      LampHistory.state, settle, display]
  | OFF => cases phase <;> simp [LampHistory.update, LampHistory.Tracks,
      LampHistory.state, settle, display]
  | BLINK =>
    -- the phase of the first update since the command is the one that is shown
    cases phase with
    | none => cases hb : blinkOn time <;> simp [LampHistory.update, LampHistory.Tracks,
        LampHistory.state, settle, display, hb]
    | some b => cases b <;> cases hb : blinkOn time <;> simp [LampHistory.update,
        LampHistory.Tracks, LampHistory.state, settle, display, hb]

/-- An update shows the state of the lamp. -/
theorem update (h : LampAgrees s color w) (hskip : ¬ Skips time s.plugin) :
    LampAgrees (s.updated time) color (w.update time) := by
  have hprev : (s.updated time).plugin.prevState color = w.state := by
    rw [LightSystem.updated, onUpdate_of_not_skips hskip]
    exact h.state
  refine ⟨?_, fun _ hne => ?_, fun hw => ⟨?_, ?_⟩, fun hw hne => ?_⟩
  · rw [LightSystem.updated, onUpdate_of_not_skips hskip, ← w.resolve_state, ← h.state]
  · have hoff : w.command ≠ .ON := hne
    simp [LampHistory.update, hoff]
  · rw [h.shown_update hskip, hw]
    rfl
  · obtain ⟨hw, hon⟩ := Bool.or_eq_false_iff.mp hw
    rw [hprev, h.state_of_unpublished hw]
    exact not_not.mp (of_decide_eq_false hon)
  · rw [hprev] at hne
    rw [h.shown_update hskip, hw, hprev, ← w.resolve_state, resolve_of_ne_blink time hne]
    rfl

/-- Time passes. -/
theorem later (h : LampAgrees s color w) (time : ℚ) :
    LampAgrees { s with time := time } color w :=
  ⟨h.state, h.published, h.unpublished, h.shown⟩

/-- A message about the own lights. -/
theorem lightMsg (h : LampAgrees s color w) {msg : InstructMachine}
    (hown : OwnLight s.plugin.machineName msg) :
    LampAgrees { s with plugin := onLightMsg msg s.plugin } color
      { w with command := msg.lamp color, phase := none } := by
  have hplugin : onLightMsg msg s.plugin = { s.plugin with state := msg.lamp } := by
    unfold onLightMsg
    rw [if_neg fun hmiss => hmiss.1 hown.1]
  rw [hplugin]
  exact ⟨rfl, fun hphase => absurd rfl hphase, h.unpublished, h.shown⟩

end LampAgrees

/-- An update comes at a later time. -/
theorem of_update {machineName : String} {s s' : LightSystem} {time : ℚ}
    (h : (lightSystem machineName).next s (.update time) = some s') :
    s.time ≤ time ∧ s' = s.updated time := by
  by_cases hle : s.time ≤ time
  · have hs : (lightSystem machineName).next s (.update time) = some (s.updated time) :=
      if_pos hle
    rw [h] at hs
    exact ⟨hle, Option.some.inj hs⟩
  · have hs : (lightSystem machineName).next s (.update time) = none := if_neg hle
    rw [h] at hs
    cases hs

theorem LightSystem.updated_of_skips {s : LightSystem} {time : ℚ} (h : Skips time s.plugin) :
    s.updated time = { s with time := time } := by
  rw [updated, onUpdate_of_skips h, List.append_nil]

theorem LightSystem.updated_machineName (s : LightSystem) (time : ℚ) :
    (s.updated time).plugin.machineName = s.plugin.machineName := by
  by_cases hskip : Skips time s.plugin
  · rw [updated_of_skips hskip]
  · rw [updated, onUpdate_of_not_skips hskip]

/-- The plugin agrees with the histories of all lamps along every run of light commands. -/
theorem lampAgrees_of_reach (machineName : String) {s : LightSystem} {w : Lamp → LampHistory}
    (h : ((lightSystem machineName).watch lampHistory).Reach
      (fun _ l => OwnLightsOnly machineName l) (s, w)) (color : Lamp) :
    LampAgrees s color (w color) := by
  have hinv : s.plugin.machineName = machineName ∧ ∀ color, LampAgrees s color (w color) := by
    refine LTS.Reach.watch_invariant (P := fun s w =>
      s.plugin.machineName = machineName ∧ ∀ color, LampAgrees s color (w color)) ?_ ?_ h
    · rintro _ ⟨_, rfl⟩
      exact ⟨rfl, fun _ => ⟨rfl, nofun, fun _ => ⟨rfl, rfl⟩, nofun⟩⟩
    · rintro s w l s' ⟨hname, hlamps⟩ hown hs
      cases l with
      | lightMsg msg =>
        cases hs
        exact ⟨(onLightMsg_machineName msg s.plugin).trans hname,
          fun color => (hlamps color).lightMsg (hname ▸ hown)⟩
      | update time =>
        obtain ⟨-, rfl⟩ := of_update hs
        refine ⟨(s.updated_machineName time).trans hname, fun color => ?_⟩
        by_cases hskip : Skips time s.plugin
        · have hw : lampHistory.observe w s (.update time) (s.updated time) = w := if_pos hskip
          rw [hw, LightSystem.updated_of_skips hskip]
          exact (hlamps color).later time
        · have hw : lampHistory.observe w s (.update time) (s.updated time) color
              = (w color).update time := congrFun (if_neg hskip) color
          rw [hw]
          exact (hlamps color).update hskip
  exact hinv.2 color

/-- At every update that is not skipped, in every run of light commands, a lamp shows what
it was last commanded exactly if the update tracks the command. -/
theorem displays_iff (machineName : String) {s : LightSystem} {w : Lamp → LampHistory}
    (h : ((lightSystem machineName).watch lampHistory).Reach
      (fun _ l => OwnLightsOnly machineName l) (s, w)) :
    ∀ time s', ¬ Skips time s.plugin → (lightSystem machineName).next s (.update time) = some s' →
      ∀ color, s'.shown color = some (display time (w color).command) ↔
        (w color).Tracks time := by
  intro time s' hskip hs color
  obtain ⟨-, rfl⟩ := of_update hs
  exact (lampAgrees_of_reach machineName h color).displays_update_iff hskip

/-- The red lamp of a machine is commanded to blink, and the world is updated at some times. -/
def blinking (machineName : String) (times : List ℚ) : List LightStep :=
  .lightMsg ⟨machineName, .SIGNAL_LIGHT, some ⟨.BLINK, .OFF, .OFF⟩⟩ :: times.map .update

/-- A lamp that blinks shows its first phase. -/
theorem displays_iff_blink :
    ∃ s w s', ((lightSystem "C-BS").watch lampHistory).Reach
        (fun _ l => OwnLightsOnly "C-BS" l) (s, w) ∧
      (lightSystem "C-BS").next s (.update 21) = some s' ∧
      s'.shown .RED = some (display 21 (w .RED).command) := by
  obtain ⟨⟨s, w⟩, hreach, hs⟩ :=
    LTS.exists_reach (T := (lightSystem "C-BS").watch lampHistory)
      (C := fun _ l => OwnLightsOnly "C-BS" l)
      (s := (⟨.load "C-BS" 0, 0, []⟩, fun _ => ⟨.OFF, none, false⟩))
      (l := blinking "C-BS" [20])
      (p := fun p => decide (p.1.time = 20 ∧ ¬ Skips 21 p.1.plugin ∧
        p.2 .RED = ⟨.BLINK, some true, true⟩)) ⟨⟨_, rfl⟩, rfl⟩
      (by decide +kernel) (by decide +kernel)
  obtain ⟨htime, hskip, hw⟩ := of_decide_eq_true hs
  have hnext : (lightSystem "C-BS").next s (.update 21) = some (s.updated 21) :=
    if_pos (by rw [htime]; decide +kernel)
  refine ⟨s, w, s.updated 21, hreach, hnext, ?_⟩
  refine (displays_iff "C-BS" hreach 21 _ hskip hnext .RED).mpr ?_
  dsimp only at hw
  rw [hw]
  intro b hb
  cases hb
  decide +kernel

/-- A lamp that blinks stays on from the first update on. -/
theorem blink_frozen :
    ¬ ∀ machineName s w, ((lightSystem machineName).watch lampHistory).Reach
        (fun _ l => OwnLightsOnly machineName l) (s, w) →
      ∀ time s', ¬ Skips time s.plugin →
        (lightSystem machineName).next s (.update time) = some s' →
        ∀ color, s'.shown color = some (display time (w color).command) := by
  intro h
  obtain ⟨⟨s, w⟩, hreach, hs⟩ :=
    LTS.exists_reach (T := (lightSystem "C-BS").watch lampHistory)
      (C := fun _ l => OwnLightsOnly "C-BS" l)
      (s := (⟨.load "C-BS" 0, 0, []⟩, fun _ => ⟨.OFF, none, false⟩))
      (l := blinking "C-BS" [20])
      (p := fun p => decide (p.1.time = 20 ∧ ¬ Skips (41 / 2) p.1.plugin ∧
        (p.1.updated (41 / 2)).shown .RED ≠ some (display (41 / 2) (p.2 .RED).command)))
      ⟨⟨_, rfl⟩, rfl⟩ (by decide +kernel) (by decide +kernel)
  obtain ⟨htime, hskip, hne⟩ := of_decide_eq_true hs
  have hnext : (lightSystem "C-BS").next s (.update (41 / 2)) = some (s.updated (41 / 2)) :=
    if_pos (by rw [htime]; decide +kernel)
  exact hne (h "C-BS" s w hreach _ _ hskip hnext .RED)

end GazeboRcll
