import GazeboRcll.Library.LTS
import GazeboRcll.Mps.Runs

/-!
# A delivery while pose messages arrive

`deliver` checks `wp_in_input_` and uses it again seconds later, while `on_puck_msg` runs
in the transport threads. The monitor `checkedInput` remembers the workpiece of the check
until the DELIVER command has been published.

The slot holds that workpiece at every use, and the command names it, as long as no
message reports it outside the input in between (`deliver_uses_checked`). Putting it
before the gate makes its own sensor send such a message (`deliver_deref_null`).
-/

namespace GazeboRcll

open Prog StationM

variable {Pose : Type} {M : Machine Pose}

/-! ## The system -/

/-- The steps that interleave with a call of `deliver`. -/
inductive DeliveryEvent (Pose : Type) where
  /-- The worker executes its next instruction. -/
  | worker
  /-- `Mps::on_puck_msg`. -/
  | puckMsg (msg : PoseMsg Pose)
  | write (r : Reg) (v : UInt16)
  | gazebo (w : World Pose)

/-- A delivery station, whatever its state, and what is left of a call of `deliver`. -/
def deliverySystem (M : Machine Pose) :
    LTS (Mps Pose × StationM Pose Unit) (DeliveryEvent Pose) where
  init q := q.2 = DeliveryStation.deliver M
  next
    | (m, p), .worker => p.step handle m
    | (m, p), .puckMsg msg => some (m.onPuckMsg M msg, p)
    | (m, p), .write r v => some (m.write r v, p)
    | (m, p), .gazebo w => some ({ m with world := w }, p)

/-- The effect of an instruction on the workpiece that the check has found. -/
def afterCheck (checked : Option String) : (i : Instr Pose) → i.Resp → Option String
  | .getSlot .input, wp => wp
  | .publish _, _ => none
  | _, _ => checked

/-- The workpiece that `deliver` found in the input, until it has published. -/
def checkedInput :
    Monitor (Mps Pose × StationM Pose Unit) (DeliveryEvent Pose) (Option String) where
  start _ := none
  observe checked q l _ := match l, q.2 with
    | .worker, .op i _ => ((handle i q.1).map fun t => afterCheck checked i t.2).getD checked
    | _, _ => checked

/-- No message reports the checked workpiece outside the input. -/
def KeepsInput (M : Machine Pose) (checked : Option String) : DeliveryEvent Pose → Prop
  | .puckMsg msg => ∀ wp ∈ checked, msg.name = wp → M.puckIn .input msg.position = true
  | _ => True

instance (M : Machine Pose) (checked : Option String) : DecidablePred (KeepsInput M checked)
  | .puckMsg _ => inferInstanceAs (Decidable (∀ _ ∈ _, _))
  | .worker | .write .. | .gazebo _ => .isTrue trivial

/-! ## The outline of `deliver` -/

/-- While a workpiece is checked, the input is expected to hold it, it is dereferenced only
then, a published command names it and the slot is not written. -/
def deliveryOutline (Pose : Type) : Outline (Instr Pose) Instr.Resp (Option String) where
  expects
    | checked, .deref .input, wp => ∀ w ∈ checked, wp = w
    | _, _, _ => True
  allows
    | checked, .deref s, _ => s = .input ∧ checked.isSome
    | checked, .publish cmd, _ => some cmd.puckName = checked
    | checked, .setSlot _ _, _ => checked = none
    | _, _, _ => True
  next := afterCheck

/-- `deliver` follows the outline of a delivery. -/
theorem deliver_follows (M : Machine Pose) :
    (DeliveryStation.deliver M).Follows (deliveryOutline Pose) (fun _ _ => True) none := by
  unfold DeliveryStation.deliver
  simp only [Instr.perform_bind]
  refine fun slot _ => ⟨trivial, ?_⟩
  dsimp only
  split_ifs
  · exact fun _ _ => ⟨trivial, trivial⟩
  · refine fun checked _ => ⟨trivial, ?_⟩
    cases checked with
    | none => exact fun _ _ => ⟨trivial, trivial⟩
    | some wp =>
      -- four instructions that the outline says nothing about, then the dereferences
      refine fun _ _ => ⟨trivial, fun _ _ => ⟨trivial, fun _ _ => ⟨trivial, fun _ _ =>
        ⟨trivial, fun wp₁ _ => ⟨⟨rfl, rfl⟩, ?_⟩⟩⟩⟩⟩
      refine fun _ _ => ⟨trivial, fun wp₂ _ => ⟨⟨rfl, rfl⟩, fun wp₃ h₃ => ⟨⟨rfl, rfl⟩, ?_⟩⟩⟩
      refine fun _ _ => ⟨congrArg some (h₃ wp rfl), ?_⟩
      exact fun _ _ => ⟨rfl, fun _ _ => ⟨trivial, trivial⟩⟩

/-! ## Runs -/

/-- The rest of the call keeps to the outline, and the input holds the checked workpiece. -/
def Delivering (q : Mps Pose × StationM Pose Unit) (checked : Option String) : Prop :=
  q.2.Follows (deliveryOutline Pose) (fun _ _ => True) checked ∧
    ∀ wp ∈ checked, q.1.wpIn .input = some wp

/-- A step of the worker keeps the delivery to the piece it has checked. -/
theorem Delivering.worker {m m' : Mps Pose} {p p' : StationM Pose Unit}
    {checked : Option String} (h : Delivering (m, p) checked)
    (hs : p.step handle m = some (m', p')) :
    Delivering (m', p') (checkedInput.observe checked (m, p) .worker (m', p')) := by
  obtain ⟨hf, hin⟩ := h
  obtain ⟨i, r, ⟨k, rfl⟩, hr, hallow, hf'⟩ := hf.of_step hs (by
    rintro i r - hr
    unfold deliveryOutline
    dsimp only
    split
    · -- a dereference of the input answers with what the slot holds
      intro w hw
      rw [handle, hin w hw, Option.map_some] at hr
      cases hr
      rfl
    · trivial)
  -- the monitor records what the check has read
  have hg : checkedInput.observe checked (m, op i k) .worker (m', p') = afterCheck checked i r := by
    simp only [checkedInput, hr, Option.map_some, Option.getD_some]
  rw [hg]
  refine ⟨hf', fun wp hwp => ?_⟩
  by_cases hspare : i.SparesSlots
  · rw [handle_wpIn hspare hr]
    unfold afterCheck at hwp
    split at hwp
    · cases hr
      exact hwp
    · cases hwp
    · exact hin wp hwp
  · cases i with
    | setSlot s w =>
      -- the input is cleared after the delivery only
      have hnone : checked = none := hallow
      rw [hnone] at hwp
      cases hwp
    | _ => exact absurd trivial hspare

/-- So does a puck message that leaves the input in place. -/
theorem Delivering.puckMsg {m : Mps Pose} {p : StationM Pose Unit} {checked : Option String}
    {msg : PoseMsg Pose} (h : Delivering (m, p) checked)
    (hkeep : KeepsInput M checked (.puckMsg msg)) :
    Delivering (m.onPuckMsg M msg, p) checked := by
  refine ⟨h.1, fun wp hwp => ?_⟩
  have hin := h.2 wp hwp
  rcases onPuckMsg_cases M msg m with ⟨hnone, -⟩ | ⟨s, -, hs, hout, heq⟩ | heq
  · rw [hin] at hnone
    cases hnone
  · by_cases hsi : s = .input
    · -- the message would report the checked workpiece outside the input
      subst hsi
      rw [hin] at hs
      rw [hkeep wp hwp (Option.some.inj hs).symm] at hout
      cases hout
    · rw [heq, Function.update_of_ne (Ne.symm hsi)]
      exact hin
  · rw [heq]
    exact hin

/-- While a call of `deliver` runs and no pose message reports the workpiece it has checked
outside the input, it never dereferences an empty slot, and a command that it is about to
publish names that workpiece. -/
theorem deliver_uses_checked (M : Machine Pose) {m : Mps Pose} {p : StationM Pose Unit}
    {checked : Option String}
    (h : ((deliverySystem M).watch checkedInput).Reach (fun q l => KeepsInput M q.2 l)
      ((m, p), checked)) :
    ¬ p.Stuck handle m ∧
      ∀ cmd k, p = op (.publish cmd) k → some cmd.puckName = checked := by
  -- the invariant: the program follows its outline, and the checked workpiece is in the input
  have hinv : Delivering (m, p) checked := by
    refine LTS.Reach.watch_invariant (P := Delivering) ?_ ?_ h
    · rintro ⟨m, p⟩ rfl
      exact ⟨deliver_follows M, fun wp hwp => by cases hwp⟩
    · rintro ⟨m, p⟩ checked l ⟨m', p'⟩ ih hkeep hnext
      cases l with
      | worker => exact ih.worker hnext
      | puckMsg msg =>
        cases hnext
        exact ih.puckMsg hkeep
      | write r v =>
        cases hnext
        exact ih
      | gazebo w =>
        cases hnext
        exact ih
  obtain ⟨hf, hin⟩ := hinv
  constructor
  -- only a null dereference gets stuck, and the input holds something
  · intro hstuck
    cases p with
    | ret a => exact hstuck
    | op i k =>
      cases i with
      | deref s =>
        have hnone : m.wpIn s = none := by simpa [Stuck, handle] using hstuck
        cases checked with
        | none =>
          obtain ⟨⟨-, hsome⟩, -⟩ := hf "" (by unfold deliveryOutline; cases s <;> simp)
          cases hsome
        | some wp =>
          obtain ⟨⟨rfl, -⟩, -⟩ := hf wp (by unfold deliveryOutline; cases s <;> simp)
          rw [hin wp rfl] at hnone
          cases hnone
      | _ => cases hstuck
  · rintro cmd k rfl
    exact (hf () trivial).1

/-- A delivery station whose input holds a workpiece, prepared to deliver to the first
gate. -/
def loadedDelivery : Mps (Vec ℚ) :=
  ((shippedMps "C-DS").write .payload1In 1).onPuckMsg (shipped "C-DS")
    ⟨"puck_1", (shipped "C-DS").center .input⟩

/-- The call up to its last dereference, while another workpiece passes the gate. -/
def deliverPastGate : List (DeliveryEvent (Vec ℚ)) :=
  List.replicate 8 .worker ++ .puckMsg ⟨"puck_2", (shipped "C-DS").gate⟩ ::
    List.replicate 2 .worker

/-- The command that is published next. -/
def nextCommand : StationM Pose Unit → Option WorkpieceCommand
  | .op (.publish cmd) _ => some cmd
  | _ => none

/-- A program about to send a command is at the instruction that sends it. -/
theorem eq_op_of_nextCommand {p : StationM Pose Unit} {cmd : WorkpieceCommand}
    (h : nextCommand p = some cmd) : ∃ k, p = op (.publish cmd) k := by
  unfold nextCommand at h
  split at h
  · cases h
    exact ⟨_, rfl⟩
  · cases h

/-- A delivery of `puck_1` past its gate. -/
theorem deliver_uses_checked_past_gate :
    ∃ m cmd k, cmd.puckName = "puck_1" ∧
      ((deliverySystem (shipped "C-DS")).watch checkedInput).Reach
        (fun q l => KeepsInput (shipped "C-DS") q.2 l)
        ((m, op (.publish cmd) k), some "puck_1") := by
  obtain ⟨⟨⟨m, p⟩, g⟩, hreach, hpub⟩ :=
    LTS.exists_reach (T := (deliverySystem (shipped "C-DS")).watch checkedInput)
      (C := fun q l => KeepsInput (shipped "C-DS") q.2 l)
      (s := ((loadedDelivery, DeliveryStation.deliver (shipped "C-DS")), none))
      (l := deliverPastGate)
      (p := fun q => (nextCommand q.1.2).isSome && decide (q.2 = some "puck_1"))
      ⟨rfl, rfl⟩ (by decide +kernel) (by decide +kernel)
  obtain ⟨hsome, hg⟩ := Bool.and_eq_true_iff.mp hpub
  obtain ⟨cmd, hcmd⟩ := Option.isSome_iff_exists.mp hsome
  obtain ⟨k, rfl⟩ := eq_op_of_nextCommand hcmd
  obtain rfl : g = some "puck_1" := of_decide_eq_true hg
  exact ⟨m, cmd, k, Option.some.inj
    ((deliver_uses_checked (shipped "C-DS") hreach).2 cmd k rfl), hreach⟩

/-- The sensor of the workpiece reports it before the gate as soon as `deliver` has put it
there, and the next use of the slot finds it empty. -/
theorem deliver_deref_null :
    ¬ ∀ m p checked,
      ((deliverySystem (shipped "C-DS")).watch checkedInput).Reachable ((m, p), checked) →
        ¬ p.Stuck handle m ∧
          ∀ cmd k, p = op (.publish cmd) k → some cmd.puckName = checked := by
  intro h
  obtain ⟨⟨⟨m, p⟩, g⟩, hreach, hstuck⟩ :=
    LTS.exists_reachable (T := (deliverySystem (shipped "C-DS")).watch checkedInput)
      (s := ((loadedDelivery, DeliveryStation.deliver (shipped "C-DS")), none))
      (l := List.replicate 8 .worker ++ [.puckMsg ⟨"puck_1", (shipped "C-DS").gate⟩])
      (p := fun q => decide (q.1.2.Stuck handle q.1.1)) ⟨rfl, rfl⟩ (by decide +kernel)
  exact (h m p g hreach).1 (of_decide_eq_true hstuck)

end GazeboRcll
