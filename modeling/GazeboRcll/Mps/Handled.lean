import GazeboRcll.Mps.WorkerLoop

/-!
# Commands that have been handled

A command stays in `action_id_in_` until `process_command_in` writes zero there, and every
wake-up runs `process_command_in` on what the register holds. Several of its exits leave
the command in the register, so that a later wake-up can execute a command that has been
turned down (`acts_after_handled`). Without these exits, a command that has been handled
is never executed again before the client has written the register (`acts_not_handled`).
-/

namespace GazeboRcll

open Prog StationM

variable {Pose : Type} {M : Machine Pose} {st : Station}

/-! ## What counts as handling a command -/

/-- The operation that the class adds to moving the conveyor. -/
def Station.ownOperation : Station → Option ℕ
  | .base => some OPERATION_GET_BASE
  | .ring => some OPERATION_MOUNT_RING
  | .cap => some OPERATION_CAP_ACTION
  | .delivery => some OPERATION_DELIVER
  | .storage => none

/-- `process_command_in` reads the register twice: `Mps` takes the moves, the subclass its
own operation. -/
def Station.dispatches (st : Station) (reads : ℕ) (value : UInt16) : Bool :=
  if reads = 0 then st.operation value = some OPERATION_MOVE_CONVEYOR
  else (st.operation value).isSome && st.operation value = st.ownOperation

/-- The instructions with which an operation is performed. -/
def Instr.acts : Instr Pose → Bool
  | .setWorldPose .. | .publish _ | .publishFactory _ => true
  | _ => false

/-- The log entries of the exits that leave the command in the register. Without a stored
cap `mount_cap` clears it all the same, and ring stations clear it first. -/
def Log.leavesCommand : Log → Bool
  | .noCapLoaded | .cannotMountRing | .ringNotInMiddle _ | .unexpectedRingColor
  | .unexpectedFeeder _ => false
  | _ => true

/-- What is known about the command in the register. -/
structure Handling where
  /-- How often the current call has read it. -/
  reads : ℕ := 0
  /-- The current call has taken it up. -/
  dispatched : Bool := false
  /-- A call that had taken it up has returned. -/
  handled : Bool := false
deriving DecidableEq

/-- Follows the command in the register until the client writes it again. -/
def handling {E : Type} (st : Station) : Monitor (Loop Pose) (LoopStep E) Handling where
  start _ := {}
  observe g s l _ := match l with
    | .write .actionIdIn _ => { g with dispatched := false, handled := false }
    | .worker =>
      match s.worker with
      | .base => { g with reads := 0, dispatched := false }
      | .running (.op (.getValue .actionIdIn) _) =>
        { g with
          reads := g.reads + 1
          dispatched := g.dispatched || st.dispatches g.reads (s.mps.reg .actionIdIn) }
      | .running (.ret _) => { g with handled := g.handled || g.dispatched }
      | _ => g
    | _ => g

/-- The worker is about to log that it turns the command down and leaves it where it is. -/
def Worker.leavesCommand : Worker Pose → Bool
  | .running (.op (.log l) _) => l.leavesCommand
  | _ => false

/-- No command is turned down without being cleared. -/
def ClearsCommand {E : Type} (s : Loop Pose) : LoopStep E → Prop
  | .worker => s.worker.leavesCommand = false
  | _ => True

instance {E : Type} (s : Loop Pose) : DecidablePred (ClearsCommand (E := E) s)
  | .worker => inferInstanceAs (Decidable (_ = _))
  | .destructor | .write .. | .dataChange | .spurious | .event _ => .isTrue trivial

/-! ## The outline of a call -/

/-- Where a call of `process_command_in` is. -/
structure CallPoint where
  reads : ℕ
  /-- A read has been dispatched. -/
  live : Bool
  /-- The command dispatched last has not been cleared yet. -/
  dirty : Bool

/-- No exit that leaves the command in the register. -/
def CallPoint.Expects : Instr Pose → Prop
  | .log l => l.leavesCommand = false
  | _ => True

/-- Only a dispatched command acts, and the register is only ever cleared. -/
def CallPoint.Allows (x : CallPoint) : Instr Pose → Prop
  | .setValue .actionIdIn v => v = 0
  | i => i.acts = true → x.live = true

def CallPoint.after (st : Station) (x : CallPoint) : (i : Instr Pose) → i.Resp → CallPoint
  | .getValue .actionIdIn, v =>
    ⟨x.reads + 1, x.live || st.dispatches x.reads v, x.dirty || st.dispatches x.reads v⟩
  | .setValue .actionIdIn _, _ => { x with dirty := false }
  | _, _ => x

def callOutline (Pose : Type) (st : Station) : Outline (Instr Pose) Instr.Resp CallPoint where
  expects _ i _ := CallPoint.Expects i
  allows x i _ := x.Allows i
  next x i r := x.after st i r

variable {α : Type} {x : CallPoint}

/-- What the outline expects of a program. -/
@[simp] theorem callOutline_expects (i : Instr Pose) (r : i.Resp) :
    (callOutline Pose st).expects x i r ↔ CallPoint.Expects i := Iff.rfl

/-- What the outline allows next. -/
@[simp] theorem callOutline_allows (i : Instr Pose) (r : i.Resp) :
    (callOutline Pose st).allows x i r ↔ x.Allows i := Iff.rfl

/-- Where the outline goes next. -/
@[simp] theorem callOutline_next (i : Instr Pose) (r : i.Resp) :
    (callOutline Pose st).next x i r = x.after st i r := rfl

attribute [local simp] CallPoint.Expects CallPoint.Allows CallPoint.after Instr.acts
  Instr.perform Prog.instr

/-- Instructions that neither read nor write the register stay at the point. -/
theorem CallPoint.after_of_other {i : Instr Pose} {r : i.Resp}
    (hread : i ≠ .getValue .actionIdIn) (hset : ¬ ∃ v, i = .setValue .actionIdIn v) :
    x.after st i r = x := by
  unfold CallPoint.after
  split
  · exact absurd rfl hread
  · exact absurd ⟨_, rfl⟩ hset
  · rfl

/-- The command that the call has dispatched has been cleared. -/
def Cleared (reads : ℕ) (x : CallPoint) (_ : α) : Prop :=
  x.reads = reads ∧ x.dirty = false

/-- Carrying clears the command on every path. -/
theorem carry_follows (M : Machine Pose) (st : Station) (src dst : Slot) (hx : x.live = true) :
    (Mps.carry M src dst).Follows (callOutline Pose st) (Cleared x.reads) x := by
  unfold Mps.carry
  simp only [Instr.perform_bind, follows_op]
  intro wp _
  refine ⟨by simp, ?_⟩
  cases wp with
  -- without a workpiece the command is left, which is excluded here
  | none => simp [Log.leavesCommand]
  | some wp =>
    dsimp only
    split_ifs <;> simp [Cleared, hx]

/-- So does moving the conveyor. -/
theorem moveConveyor_follows (M : Machine Pose) (st : Station) (side : MachineSide)
    (hx : x.live = true) :
    (Mps.moveConveyor M side).Follows (callOutline Pose st) (Cleared x.reads) x := by
  unfold Mps.moveConveyor
  simp only [Instr.perform_bind, follows_op]
  refine fun _ _ => ⟨by simp, fun _ _ => ⟨by simp, ?_⟩⟩
  cases side with
  | other v => simp [Log.leavesCommand]
  | _ => exact carry_follows M st _ _ hx

/-- The part of `Mps` clears what it dispatches. -/
theorem processCommandIn_follows (M : Machine Pose) (st : Station) :
    (Mps.processCommandIn M st).Follows (callOutline Pose st) (Cleared 1) ⟨0, false, false⟩ := by
  unfold Mps.processCommandIn
  simp only [Instr.perform_bind, follows_op]
  refine fun value _ => ⟨by simp, ?_⟩
  by_cases hmove : st.operation value = some OPERATION_MOVE_CONVEYOR
  · have hne : value ≠ 0 := by
      rintro rfl
      simp at hmove
    obtain ⟨hclass, hop⟩ := Station.operation_eq_some.mp hmove
    rw [if_neg hne, if_neg (not_not.mpr hclass),
      if_neg (not_lt.mpr (Station.le_toNat_of_class hclass)), if_pos hop]
    refine fun side _ => ⟨by simp, moveConveyor_follows M st _ ?_⟩
    simp [Station.dispatches, hmove]
  · -- the handler returns, having dispatched nothing
    have hnot : st.dispatches 0 value = false := by simp [Station.dispatches, hmove]
    split_ifs with h0 hclass hlt hop
    · simp [Cleared, hnot]
    · simp [Cleared, hnot]
    · simp [Cleared, hnot]
    · exact absurd (Station.operation_eq_some.mpr ⟨not_not.mp hclass, hop⟩) hmove
    · simp [Cleared, hnot]

/-- A subclass that clears the commands it performs clears everything it dispatches. -/
theorem ownOperation_follows (M : Machine Pose) {k : ℕ → StationM Pose Unit}
    (hother : ∀ oper, st.ownOperation ≠ some oper → k oper = ret ())
    (hown : ∀ oper x, st.ownOperation = some oper → CallPoint.live x = true →
      (k oper).Follows (callOutline Pose st) (fun x _ => x.dirty = false) x) :
    (Mps.ownOperation M st k).Follows (callOutline Pose st) (fun x _ => x.dirty = false)
      ⟨0, false, false⟩ := by
  unfold Mps.ownOperation
  refine (follows_bind _ _ _).mpr ((processCommandIn_follows M st).mono ?_)
  rintro ⟨_, live, _⟩ _ ⟨rfl, rfl⟩
  simp only [Instr.perform_bind, follows_op]
  refine fun value _ => ⟨by simp, ?_⟩
  by_cases hop : (st.operation value).isSome ∧ st.operation value = st.ownOperation
  · obtain ⟨hsome, heq⟩ := hop
    obtain ⟨oper, hoper⟩ := Option.isSome_iff_exists.mp hsome
    have hne : value ≠ 0 := by
      rintro rfl
      simp at hoper
    obtain ⟨hclass, hval⟩ := Station.operation_eq_some.mp hoper
    rw [if_neg hne, if_neg (not_not.mpr hclass), hval]
    refine hown oper _ (heq ▸ hoper) ?_
    simp [Station.dispatches, hoper, ← heq]
  · have hnot : st.dispatches 1 value = false := by simpa [Station.dispatches] using hop
    split_ifs with h0 hclass
    · simp [hnot]
    · simp [hnot]
    · rw [hother]
      · simp [hnot]
      · intro heq
        have hoper := Station.operation_eq_some.mpr ⟨not_not.mp hclass, rfl⟩
        exact hop ⟨by simp [hoper], hoper.trans heq.symm⟩

/-- Spawning leaves the register to its caller. -/
theorem spawnPuck_follows (M : Machine Pose) (st : Station) (p : Pose) (c : Color)
    (hx : x.live = true) :
    (Mps.spawnPuck M p c).Follows (callOutline Pose st) (fun y _ => y = x) x := by
  unfold Mps.spawnPuck
  simp only [Instr.perform_bind, follows_op]
  refine fun _ _ => ⟨by simp, ?_⟩
  split
  · simp
  · split <;> simp [hx]

/-- So does dispensing. -/
theorem dispenseBase_follows (M : Machine Pose) (st : Station) (color : UInt16)
    (hx : x.live = true) :
    (BaseStation.dispenseBase M color).Follows (callOutline Pose st) (fun y _ => y = x) x := by
  unfold BaseStation.dispenseBase
  simp only [Instr.perform_bind, follows_op]
  have hcolor := BaseStation.selectColor_follows (O := callOutline Pose st) (x := x)
    (fun _ _ => ⟨fun hacts => absurd hacts Bool.false_ne_true, rfl⟩) color
  refine fun _ _ => ⟨by simp, (follows_bind _ _ _).mpr (hcolor.mono ?_)⟩
  rintro _ _ rfl
  simp only [follows_op]
  refine fun _ _ => ⟨by simp, fun c _ => ⟨by simp, (follows_bind _ _ _).mpr ?_⟩⟩
  refine (spawnPuck_follows M st _ c (by simpa using hx)).mono ?_
  rintro _ _ rfl
  simp

/-- The base station clears the command after the base has been dispensed. -/
theorem base_operate_follows (M : Machine Pose) (st : Station) (hx : x.live = true) :
    (BaseStation.operate M OPERATION_GET_BASE).Follows (callOutline Pose st)
      (fun y _ => y.dirty = false) x := by
  unfold BaseStation.operate
  rw [if_neg (not_not.mpr rfl)]
  simp only [Instr.perform_bind, follows_op]
  refine fun color _ => ⟨by simp, (follows_bind _ _ _).mpr ?_⟩
  refine (dispenseBase_follows M st color (by simpa using hx)).mono ?_
  rintro _ _ rfl
  simp

/-- Handing over the stored cap leaves the register to its caller. -/
theorem mountStoredCap_follows (st : Station) (hx : x.live = true) :
    (CapStation.mountStoredCap : StationM Pose Unit).Follows (callOutline Pose st)
      (fun y _ => y = x) x := by
  unfold CapStation.mountStoredCap
  simp only [Instr.perform_bind, follows_op]
  refine fun stored _ => ⟨by simp, ?_⟩
  split_ifs <;> simp [hx]

/-- Mounting a cap clears the command, except on the exits excluded. -/
theorem mountCap_follows (M : Machine Pose) (st : Station) (hx : x.live = true) :
    (CapStation.mountCap M).Follows (callOutline Pose st) (fun y _ => y.dirty = false) x := by
  unfold CapStation.mountCap
  simp only [Instr.perform_bind, follows_op]
  refine fun wp _ => ⟨by simp, ?_⟩
  cases wp with
  | none => simp [Log.leavesCommand]
  | some _ =>
    simp only [follows_op]
    refine fun _ _ => ⟨by simp, fun pose _ => ⟨by simp, ?_⟩⟩
    split_ifs
    · simp [Log.leavesCommand]
    · simp only [follows_op]
      refine fun _ _ => ⟨by simp, (follows_bind _ _ _).mpr ?_⟩
      refine (mountStoredCap_follows st (by simpa using hx)).mono ?_
      rintro _ _ rfl
      simp

/-- So does retrieving one. -/
theorem retrieveCap_follows (st : Station) (hx : x.live = true) :
    (CapStation.retrieveCap : StationM Pose Unit).Follows (callOutline Pose st)
      (fun y _ => y.dirty = false) x := by
  unfold CapStation.retrieveCap
  simp only [Instr.perform_bind, follows_op]
  refine fun wp _ => ⟨by simp, ?_⟩
  cases wp with
  | none => simp [Log.leavesCommand]
  | some _ => simp [hx]

/-- So does every cap operation that is known. -/
theorem cap_operate_follows (M : Machine Pose) (st : Station) (hx : x.live = true) :
    (CapStation.operate M OPERATION_CAP_ACTION).Follows (callOutline Pose st)
      (fun y _ => y.dirty = false) x := by
  unfold CapStation.operate
  rw [if_neg (not_not.mpr rfl)]
  simp only [Instr.perform_bind, follows_op]
  refine fun op _ => ⟨by simp, ?_⟩
  split_ifs
  · exact retrieveCap_follows st hx
  · exact mountCap_follows M st hx
  · simp [Log.leavesCommand]

/-- Mounting a ring leaves the register, which has been cleared before. -/
theorem mountRing_follows (M : Machine Pose) (st : Station) (color : Color)
    (hx : x.live = true) :
    (RingStation.mountRing M color).Follows (callOutline Pose st) (fun y _ => y = x) x := by
  unfold RingStation.mountRing
  simp only [Instr.perform_bind, follows_op]
  refine fun wp _ => ⟨by simp, ?_⟩
  cases wp with
  | none => simp
  | some _ =>
    simp only [follows_op]
    refine fun _ _ => ⟨by simp, fun pose _ => ⟨by simp, ?_⟩⟩
    split_ifs <;> simp [hx]

/-- So does choosing its colour. -/
theorem ringColor_follows (M : Machine Pose) (st : Station) (payload2 : UInt16) :
    (RingStation.ringColor M payload2).Follows (callOutline Pose st) (fun y _ => y = x) x := by
  unfold RingStation.ringColor
  split_ifs <;> simp

/-- The ring station clears the command first. -/
theorem ring_operate_follows (M : Machine Pose) (st : Station) (hx : x.live = true) :
    (RingStation.operate M OPERATION_MOUNT_RING).Follows (callOutline Pose st)
      (fun y _ => y.dirty = false) x := by
  unfold RingStation.operate
  rw [if_neg (not_not.mpr rfl)]
  simp only [Instr.perform_bind, follows_op]
  -- the register is cleared before anything can be turned down
  refine fun feeder _ => ⟨by simp, fun payload2 _ => ⟨by simp, fun _ _ => ⟨by simp,
    fun _ _ => ⟨by simp, fun _ _ => ⟨by simp, (follows_bind _ _ _).mpr ?_⟩⟩⟩⟩⟩
  refine (ringColor_follows M st payload2).mono ?_
  rintro _ color rfl
  split_ifs
  · simp
  · refine (mountRing_follows M st color (by simpa using hx)).mono ?_
    rintro _ _ rfl
    simp

/-- The delivery station clears the command after its delivery. -/
theorem delivery_operate_follows (M : Machine Pose) (st : Station) (hx : x.live = true) :
    (DeliveryStation.operate M OPERATION_DELIVER).Follows (callOutline Pose st)
      (fun y _ => y.dirty = false) x := by
  unfold DeliveryStation.operate DeliveryStation.deliver
  rw [if_pos rfl]
  simp only [Instr.perform_bind, follows_op]
  refine fun slot _ => ⟨by simp, ?_⟩
  split_ifs
  · simp [Log.leavesCommand]
  · simp only [follows_op]
    refine fun wp _ => ⟨by simp, ?_⟩
    cases wp with
    | none => simp [Log.leavesCommand]
    | some _ => simp [hx]

/-- Every class keeps to the outline. -/
theorem processCommandIn_call (M : Machine Pose) (st : Station) :
    (processCommandIn M st).Follows (callOutline Pose st) (fun y _ => y.dirty = false)
      ⟨0, false, false⟩ := by
  cases st with
  | storage => rfl
  | base =>
    refine ownOperation_follows M (fun oper hne => ?_) fun oper x heq hx => ?_
    · exact if_pos fun h => hne (congrArg some h.symm)
    · cases heq
      exact base_operate_follows M _ hx
  | ring =>
    refine ownOperation_follows M (fun oper hne => ?_) fun oper x heq hx => ?_
    · exact if_pos fun h => hne (congrArg some h.symm)
    · cases heq
      exact ring_operate_follows M _ hx
  | cap =>
    refine ownOperation_follows M (fun oper hne => ?_) fun oper x heq hx => ?_
    · exact if_pos fun h => hne (congrArg some h.symm)
    · cases heq
      exact cap_operate_follows M _ hx
  | delivery =>
    refine ownOperation_follows M (fun oper hne => ?_) fun oper x heq hx => ?_
    · exact if_neg fun h => hne (congrArg some h.symm)
    · cases heq
      exact delivery_operate_follows M _ hx

/-! ## Runs -/

/-- Handled commands have been cleared, and the current call keeps to the outline from a
point at which it is live only if no command is marked as handled. -/
structure HandledCleared (st : Station) (s : Loop Pose) (g : Handling) : Prop where
  cleared : g.handled = true → s.mps.reg .actionIdIn = 0
  call : ∀ p, s.worker = .running p → ∃ live dirty,
    p.Follows (callOutline Pose st) (fun y _ => y.dirty = false) ⟨g.reads, live, dirty⟩ ∧
      (g.handled = true → live = false) ∧
      (g.dispatched = true → dirty = true ∨ s.mps.reg .actionIdIn = 0)

namespace HandledCleared

variable {s s' : Loop Pose} {g : Handling} {E : Type}

/-- Steps that neither write the register nor move a running worker. -/
theorem frame (h : HandledCleared st s g)
    (hreg : s'.mps.reg .actionIdIn = s.mps.reg .actionIdIn)
    (hworker : ∀ p, s'.worker = .running p → s.worker = .running p) :
    HandledCleared st s' g := by
  constructor
  · rw [hreg]
    exact h.cleared
  · rw [hreg]
    exact fun p hp => h.call p (hworker p hp)

/-- Instructions other than a write of the register leave it as it is. -/
theorem handle_actionIdIn {i : Instr Pose} {m m' : Mps Pose} {r : i.Resp}
    (h : handle i m = some (m', r)) (hi : ∀ v, i ≠ .setValue .actionIdIn v) :
    m'.reg .actionIdIn = m.reg .actionIdIn := by
  cases i with
  | setValue r v =>
    cases h
    exact m.write_reg_of_ne (fun hr => hi v (by rw [hr])) v
  | deref s =>
    rw [eq_of_handle_deref h]
  | _ =>
    cases h
    rfl

/-- Only a read of the register changes the verdict. -/
theorem observe_of_not_read {i : Instr Pose} {k : i.Resp → StationM Pose Unit}
    (hw : s.worker = .running (.op i k)) (hread : i ≠ .getValue .actionIdIn) :
    (handling (E := E) st).observe g s .worker s' = g := by
  unfold handling
  dsimp only
  rw [hw]
  split
  · rename_i heq
    cases heq
  · rename_i heq
    cases heq
    exact absurd rfl hread
  · rename_i heq
    cases heq
  · rfl

/-- A step inside a call. -/
theorem instr {p p' : StationM Pose Unit} {m' : Mps Pose} (h : HandledCleared st s g)
    (hw : s.worker = .running p) (hp : p.step handle s.mps = some (m', p'))
    (hc : s.worker.leavesCommand = false) :
    HandledCleared st { s with mps := m', worker := .running p' }
      ((handling (E := E) st).observe g s .worker
        { s with mps := m', worker := .running p' }) := by
  obtain ⟨live, dirty, hf, hlive, hdirty⟩ := h.call p hw
  obtain ⟨i, r, ⟨k, rfl⟩, hr, hallow, hf'⟩ := hf.of_step hp (by
    rintro i r ⟨k, rfl⟩ -
    rw [callOutline_expects]
    cases i with
    | log l =>
      rw [hw] at hc
      exact hc
    | _ => trivial)
  by_cases hread : i = .getValue .actionIdIn
  · -- the read dispatches nothing if the register has been cleared
    subst hread
    cases hr
    have hzero : g.handled = true → st.dispatches g.reads (s.mps.reg .actionIdIn) = false := by
      intro hh
      rw [h.cleared hh]
      unfold Station.dispatches
      split_ifs <;> simp
    refine ⟨fun hh => h.cleared (by simpa [handling, hw] using hh), ?_⟩
    rintro _ hp'
    cases hp'
    simp only [handling, hw]
    refine ⟨_, _, hf', fun hh => ?_, fun hd => ?_⟩
    · simp only [hlive hh, hzero hh, Bool.or_self]
    · rw [Bool.or_eq_true] at hd
      rcases hd with hd | hd
      · exact (hdirty hd).imp_left fun hdirt => by rw [hdirt, Bool.true_or]
      · exact .inl (by rw [hd, Bool.or_true])
  · -- any other instruction leaves the verdict as it is
    rw [observe_of_not_read hw hread]
    by_cases hset : ∃ v, i = .setValue .actionIdIn v
    · -- the register is cleared
      obtain ⟨v, rfl⟩ := hset
      have hv : v = 0 := hallow
      subst hv
      cases hr
      have hzero := s.mps.write_reg_self .actionIdIn 0
      refine ⟨fun _ => hzero, ?_⟩
      rintro _ hp'
      cases hp'
      exact ⟨live, false, hf', hlive, fun _ => .inr hzero⟩
    · have hreg := handle_actionIdIn hr fun v hv => hset ⟨v, hv⟩
      rw [callOutline_next, CallPoint.after_of_other hread hset] at hf'
      refine ⟨fun hh => hreg.trans (h.cleared hh), ?_⟩
      rintro _ hp'
      cases hp'
      refine ⟨live, dirty, hf', hlive, fun hd => ?_⟩
      exact (hdirty hd).imp_right hreg.trans

/-- A step of the worker that turns no command down without clearing it. -/
theorem worker (h : HandledCleared st s g) (hm : WorkerMove M st s s')
    (hc : s.worker.leavesCommand = false) :
    HandledCleared st s' ((handling (E := E) st).observe g s .worker s') := by
  cases hm with
  | instr p m' p' hw hp => exact h.instr hw hp hc
  | call hw =>
    refine ⟨fun hh => h.cleared (by simpa [handling, hw] using hh), ?_⟩
    rintro _ hp
    cases hp
    simp only [handling, hw]
    exact ⟨false, false, processCommandIn_call M st, fun _ => rfl, nofun⟩
  | «return» hw =>
    obtain ⟨live, dirty, hf, hlive, hdirty⟩ := h.call _ hw
    refine ⟨fun hh => ?_, nofun⟩
    simp only [handling, hw, Bool.or_eq_true] at hh
    rcases hh with hh | hd
    · exact h.cleared hh
    · -- a call returns at a point at which what it has dispatched is cleared
      refine (hdirty hd).resolve_left fun hdirt => ?_
      have hclean : dirty = false := hf
      rw [hclean] at hdirt
      cases hdirt
  | leave hw _ | enter hw _ | lock hw | wait hw | relock hw | unlock hw =>
    simp only [handling, hw]
    exact h.frame rfl fun p hp => by cases hp

end HandledCleared

/-- In every run in which no command is turned down without being cleared, no instruction of
an operation is executed for a command that an earlier call has handled. -/
theorem acts_not_handled (M : Machine Pose) (st : Station) (env : Environment Pose)
    {s : Loop Pose} {g : Handling}
    (h : ((workerLoop M st env).watch (handling st)).Reach (fun q l => ClearsCommand q.1 l)
      (s, g)) :
    ∀ i k, s.worker = .running (op i k) → i.acts = true → g.handled = false := by
  have hinv : HandledCleared st s g := by
    refine LTS.Reach.watch_invariant (P := HandledCleared st) ?_ ?_ h
    · rintro _ ⟨_, _, _, rfl⟩
      exact ⟨nofun, nofun⟩
    · intro s g l s' ih hc hs
      cases l with
      | worker => exact ih.worker (workerMove_of_step hs) hc
      | destructor =>
        obtain ⟨hmps, hrunning⟩ := stepDestructor_frame hs
        exact ih.frame (by rw [hmps]) hrunning
      | write r v =>
        cases hs
        by_cases hr : r = .actionIdIn
        · subst hr
          refine ⟨nofun, fun p hp => ?_⟩
          obtain ⟨live, dirty, hf, -, -⟩ := ih.call p hp
          exact ⟨live, dirty, hf, nofun, nofun⟩
        · have hg : (handling (E := env.Event) st).observe g s (.write r v)
              { s with mps := s.mps.write r v } = g := by
            cases r with
            | actionIdIn => exact absurd rfl hr
            | _ => rfl
          rw [hg]
          exact ih.frame (s.mps.write_reg_of_ne (Ne.symm hr) v) fun _ hp => hp
      | dataChange =>
        obtain ⟨-, rfl⟩ := of_dataChange hs
        exact ih.frame rfl fun _ hp => running_of_notifyWorker hp
      | spurious =>
        obtain ⟨-, rfl⟩ := of_spurious hs
        exact ih.frame (by rw [notifyWorker_mps]) fun _ hp => running_of_notifyWorker hp
      | event e =>
        cases hs
        exact ih.frame (congrFun (env.perform_reg e s.mps) _) fun _ hp => hp
  intro i k hw hacts
  obtain ⟨live, dirty, hf, hlive, -⟩ := hinv.call _ hw
  -- an acting instruction is permitted in a live call only
  have hl : live = true := by
    cases i with
    | setWorldPose wp p => exact (hf () trivial).1 hacts
    | publish cmd => exact (hf () trivial).1 hacts
    | publishFactory msg => exact (hf () trivial).1 hacts
    | _ => cases hacts
  by_contra hh
  rw [hlive (Bool.not_eq_false _ ▸ hh)] at hl
  cases hl

/-- The worker is about to act. -/
def Worker.acts : Worker Pose → Bool
  | .running (.op i _) => i.acts
  | _ => false

/-- A worker about to act is at the instruction that acts. -/
theorem Worker.exists_of_acts {w : Worker Pose} (h : w.acts = true) :
    ∃ i k, w = .running (op i k) ∧ i.acts = true := by
  unfold Worker.acts at h
  split at h
  · exact ⟨_, _, rfl, h⟩
  · cases h

/-- A GET_BASE command up to the request for the base. -/
theorem acts_not_handled_dispense :
    ∃ s g, (shippedLoop.watch (handling .base)).Reach (fun q l => ClearsCommand q.1 l) (s, g) ∧
      s.worker.acts = true ∧ g.dispatched = true ∧ g.handled = false := by
  obtain ⟨⟨s, g⟩, hreach, hs⟩ :=
    LTS.exists_reach (T := shippedLoop.watch (handling .base))
      (C := fun q l => ClearsCommand q.1 l) (s := (.start (shippedMps "C-BS"), {}))
      (l := command 101 1 ++ List.replicate 11 .worker)
      (p := fun q => q.1.worker.acts && q.2.dispatched) ⟨⟨_, _, _, rfl⟩, rfl⟩ (by decide)
      (by decide)
  obtain ⟨hacts, hd⟩ := Bool.and_eq_true_iff.mp hs
  obtain ⟨i, k, hw, hi⟩ := Worker.exists_of_acts hacts
  exact ⟨s, g, hreach, hacts, hd, acts_not_handled (shipped "C-BS") .base
    (BaseStation.environment (shipped "C-BS")) hreach i k hw hi⟩

/-- A move to the middle is turned down because the input is empty. When a workpiece has
arrived there, a write to the other action register makes the station move it. -/
theorem acts_after_handled :
    ¬ ∀ s g, (shippedLoop.watch (handling .base)).Reachable (s, g) →
      ∀ i k, s.worker = .running (op i k) → i.acts = true → g.handled = false := by
  intro h
  obtain ⟨⟨s, g⟩, hreach, hs⟩ :=
    LTS.exists_reachable (T := shippedLoop.watch (handling .base))
      (s := (.start (shippedMps "C-BS"), {}))
      (l := command 102 2 ++ List.replicate 14 .worker ++
        [.event (.puckMsg ⟨"puck_1", (shipped "C-BS").center .input⟩),
          .write .actionIdBasic 1, .dataChange] ++ List.replicate 8 .worker)
      (p := fun q => q.1.worker.acts && q.2.handled) ⟨⟨_, _, _, rfl⟩, rfl⟩ (by decide +kernel)
  obtain ⟨hacts, hh⟩ := Bool.and_eq_true_iff.mp hs
  obtain ⟨i, k, hw, hi⟩ := Worker.exists_of_acts hacts
  have hnot := h s g hreach i k hw hi
  dsimp only at hh
  rw [hnot] at hh
  cases hh

end GazeboRcll
