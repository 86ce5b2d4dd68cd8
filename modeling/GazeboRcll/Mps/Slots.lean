import GazeboRcll.Library.LTS
import GazeboRcll.Mps.Runs

/-!
# Which workpieces a station keeps track of

Whole calls of `move_conveyor`, `deliver`, `dispense_base` and of the message handlers,
in any order, between writes of the client and changes of the world. The monitor
`custody` collects the workpieces that have been in one of the three slots and have not
been released since, by a pose message from outside their slot or by a DELIVER command.

The station holds all of them as long as no call puts a workpiece into a slot that holds
another one (`held_of_custody`), which neither `move_conveyor` nor the announcement of a
dispensed base checks.
-/

namespace GazeboRcll

open Prog StationM

variable {Pose : Type} {M : Machine Pose}

/-! ## The system -/

/-- What can happen to a station whose calls run one at a time. The members of all
classes stand together. -/
inductive Call (Pose : Type) where
  | moveConveyor (side : MachineSide)
  | deliver
  | dispenseBase (color : UInt16)
  /-- `BaseStation::on_new_puck`. -/
  | newPuck (msg : NewPuck)
  /-- `Mps::on_puck_msg`. -/
  | puckMsg (msg : PoseMsg Pose)
  /-- The client writes a register. -/
  | write (r : Reg) (v : UInt16)
  /-- Models appear, vanish and move. -/
  | gazebo (w : World Pose)

/-- The state after a call, `none` where the call is undefined. -/
def Call.perform (M : Machine Pose) (m : Mps Pose) : Call Pose → Option (Mps Pose)
  | moveConveyor side => ((Mps.moveConveyor M side).run handle m).map Prod.fst
  | deliver => ((DeliveryStation.deliver M).run handle m).map Prod.fst
  | dispenseBase color => ((BaseStation.dispenseBase M color).run handle m).map Prod.fst
  | newPuck msg => some (BaseStation.onNewPuck M msg m)
  | puckMsg msg => some (m.onPuckMsg M msg)
  | write r v => some (m.write r v)
  | gazebo w => some { m with world := w }

/-- A station from its construction on. -/
def callSystem (M : Machine Pose) : LTS (Mps Pose) (Call Pose) where
  init m := ∃ w clr rolls, m = Mps.fresh w clr rolls
  next := Call.perform M

/-! ## Custody -/

namespace Mps

/-- The workpieces that the station refers to. -/
def held (m : Mps Pose) : List String := [Slot.input, .middle, .output].filterMap m.wpIn

/-- A piece is held if it is in some slot. -/
theorem mem_held {m : Mps Pose} {w : String} : w ∈ m.held ↔ ∃ s, m.wpIn s = some w := by
  simp only [held, List.mem_filterMap]
  constructor
  · rintro ⟨s, -, hs⟩
    exact ⟨s, hs⟩
  · rintro ⟨s, hs⟩
    exact ⟨s, by cases s <;> simp, hs⟩

/-- The slot can take the workpiece without losing another one. -/
def Takes (m : Mps Pose) (s : Slot) (wp : String) : Prop :=
  m.wpIn s = none ∨ m.wpIn s = some wp

instance (m : Mps Pose) (s : Slot) (wp : String) : Decidable (m.Takes s wp) :=
  inferInstanceAs (Decidable (_ ∨ _))

/-- What a slot takes is what it then has. -/
theorem Takes.eq {m : Mps Pose} {s : Slot} {wp w : String} (h : m.Takes s wp)
    (hw : m.wpIn s = some w) : w = wp := by
  rcases h with hnone | hsome
  · rw [hnone] at hw
    cases hw
  · rw [hsome] at hw
    cases hw
    rfl

end Mps

/-- The call, leading from `m` to `m'`, ends the custody of `wp`: a pose message reports
`wp` outside the slot it is in, or the DELIVER command for it has been published. -/
def Call.releases (M : Machine Pose) (m : Mps Pose) (m' : Mps Pose) (wp : String) :
    Call Pose → Bool
  | puckMsg msg => msg.name = wp ∧
      ([Slot.input, .middle, .output].any fun s => m.wpIn s = some wp ∧ !M.puckIn s msg.position)
  | deliver => (m'.puckCmdPub.drop m.puckCmdPub.length).any fun cmd =>
      cmd.command = .DELIVER ∧ cmd.puckName = wp
  | _ => false

/-- Collects the workpieces that the station has to refer to. -/
def custody (M : Machine Pose) : Monitor (Mps Pose) (Call Pose) (List String) where
  start := Mps.held
  observe g m l m' := g.filter (fun wp => !l.releases M m m' wp) ++ m'.held

/-- The call puts no workpiece into a slot that holds another one. -/
def KeepsSlots (M : Machine Pose) (m : Mps Pose) : Call Pose → Prop
  | .moveConveyor side => ∀ r ∈ side.route, ∀ wp ∈ m.wpIn r.1, m.Takes r.2 wp
  | .newPuck msg => BaseStation.Awaits M msg m → m.Takes .middle msg.puckName
  | _ => True

instance (M : Machine Pose) (m : Mps Pose) : DecidablePred (KeepsSlots M m)
  | .moveConveyor _ => inferInstanceAs (Decidable (∀ _ ∈ _, _))
  | .newPuck _ => inferInstanceAs (Decidable (_ → _))
  | .deliver | .dispenseBase _ | .puckMsg _ | .write .. | .gazebo _ => .isTrue trivial

/-- A slot that held one workpiece holds another one. -/
def Replaced (m m' : Mps Pose) : Prop :=
  ∃ s w w', m.wpIn s = some w ∧ m'.wpIn s = some w' ∧ w ≠ w'

/-! ## What one call does to the slots -/

/-- A route leads from one slot to another. -/
theorem MachineSide.route_ne {side : MachineSide} {r : Slot × Slot} (h : r ∈ side.route) :
    r.1 ≠ r.2 := by
  cases side <;> cases h <;> decide

/-- A carried piece leaves its slot and fills the other. -/
theorem carried_wpIn (wp : String) (src dst : Slot) (m : Mps Pose) :
    (m.carried M wp src dst).wpIn
      = Function.update (Function.update m.wpIn src none) dst (some wp) := rfl

/-- A call of `move_conveyor` leaves the slots as they are or carries a workpiece along
the route of the side. -/
theorem moveResult_cases (M : Machine Pose) (side : MachineSide) (m : Mps Pose) :
    (∃ r ∈ side.route, ∃ wp ∈ m.wpIn r.1, m.moveResult M side = m.carried M wp r.1 r.2) ∨
      ((∀ r ∈ side.route, m.wpIn r.1 = none) ∧
        m.moveResult M side = { m with statusBusyIn := true }) := by
  cases hr : side.route with
  | none =>
    refine .inr ⟨fun r h => by simp at h, moveResult_of_rejected fun src dst h => ?_⟩
    rw [hr] at h
    cases h
  | some r =>
    cases hwp : m.wpIn r.1 with
    | none =>
      refine .inr ⟨fun r' h => ?_, moveResult_of_rejected fun src dst h => ?_⟩
      · cases h
        exact hwp
      · rw [hr] at h
        cases h
        exact hwp
    | some wp =>
      exact .inl ⟨r, rfl, wp, hwp, moveResult_of_route hr hwp⟩

/-- `deliver` leaves everything as it is or publishes DELIVER for the workpiece in the
input and drops it. -/
theorem deliverResult_cases (M : Machine Pose) (m : Mps Pose) :
    DeliveryStation.deliverResult M m = m ∨
      ∃ wp ∈ m.wpIn .input,
        (DeliveryStation.deliverResult M m).wpIn = Function.update m.wpIn .input none ∧
        (DeliveryStation.deliverResult M m).puckCmdPub = m.puckCmdPub ++
          [{ command := .DELIVER, puckName := wp, teamColor := M.teamColor }] := by
  unfold DeliveryStation.deliverResult
  split_ifs
  · exact .inl rfl
  · cases h : m.wpIn .input with
    | none => exact .inl rfl
    | some wp => exact .inr ⟨wp, rfl, rfl, rfl⟩

/-- The announcement of a new workpiece fills the middle or leaves the slots as they are. -/
theorem onNewPuck_wpIn (M : Machine Pose) (msg : NewPuck) (m : Mps Pose) :
    (BaseStation.onNewPuck M msg m).wpIn =
      if BaseStation.Awaits M msg m then Function.update m.wpIn .middle (some msg.puckName)
      else m.wpIn := by
  by_cases h : BaseStation.Awaits M msg m
  · rw [BaseStation.onNewPuck_of_awaits h, if_pos h]
    rfl
  · rw [BaseStation.onNewPuck_of_not_awaits h, if_neg h]
    split_ifs <;> rfl

/-- A single instruction is of the kind it is. -/
theorem perform_only {A : Instr Pose → Prop} {i : Instr Pose} (hi : A i) :
    i.perform.Only A :=
  only_op hi fun r => only_ret r

/-- Selecting a colour leaves the slots. -/
theorem selectColor_sparesSlots (color : UInt16) :
    (BaseStation.selectColor color : StationM Pose Unit).Only Instr.SparesSlots :=
  (BaseStation.selectColor_follows (fun _ _ => ⟨trivial, rfl⟩) color).mono fun _ _ _ => trivial

/-- Spawning leaves the slots. -/
theorem spawnPuck_sparesSlots (M : Machine Pose) (p : Pose) (c : Color) :
    (Mps.spawnPuck M p c).Only Instr.SparesSlots := by
  unfold Mps.spawnPuck
  simp only [Instr.perform_bind]
  refine only_op trivial fun r => ?_
  split
  · trivial
  · split
    · trivial
    · exact only_op trivial fun _ => trivial

/-- Dispensing leaves the slots. -/
theorem dispenseBase_sparesSlots (M : Machine Pose) (color : UInt16) :
    (BaseStation.dispenseBase M color).Only Instr.SparesSlots := by
  unfold BaseStation.dispenseBase
  simp only [Instr.perform_bind]
  refine only_op trivial fun _ => ?_
  refine only_bind (selectColor_sparesSlots color) fun _ => ?_
  refine only_op trivial fun _ => only_op trivial fun c => ?_
  exact only_bind (spawnPuck_sparesSlots M M.spawnPose c) fun _ => perform_only trivial

/-- What a call can do to the slots: `put` is the slot it writes a workpiece to, with the
workpiece, and `dropped` the workpiece it drops. -/
inductive SlotChange (m m' : Mps Pose) : Option (Slot × String) → Option String → Prop where
  | same : m'.wpIn = m.wpIn → SlotChange m m' none none
  | fill (s : Slot) (wp : String) : m'.wpIn = Function.update m.wpIn s (some wp) →
      SlotChange m m' (some (s, wp)) none
  | carry (src dst : Slot) (wp : String) : src ≠ dst → m.wpIn src = some wp →
      m'.wpIn = Function.update (Function.update m.wpIn src none) dst (some wp) →
      SlotChange m m' (some (dst, wp)) none
  | drop (s : Slot) (wp : String) : m.wpIn s = some wp →
      m'.wpIn = Function.update m.wpIn s none → SlotChange m m' none (some wp)

/-- Every call is one of these changes. It keeps the slots if the slot it writes can take
the workpiece, and a workpiece it drops is released. -/
theorem perform_slotChange {m m' : Mps Pose} {l : Call Pose} (h : l.perform M m = some m') :
    ∃ put dropped, SlotChange m m' put dropped ∧
      (KeepsSlots M m l ↔ ∀ q ∈ put, m.Takes q.1 q.2) ∧
      ∀ wp ∈ dropped, l.releases M m m' wp = true := by
  cases l with
  -- each call changes the slots in one of the four ways
  | moveConveyor side =>
    rw [Call.perform, Mps.run_moveConveyor, Option.map_some] at h
    cases h
    rcases moveResult_cases M side m with ⟨r, hr, wp, hwp, heq⟩ | ⟨hnone, heq⟩
    · refine ⟨_, _, .carry r.1 r.2 wp (MachineSide.route_ne hr) hwp ?_, ?_, by simp⟩
      · rw [heq, carried_wpIn]
      · simp only [KeepsSlots, Option.mem_def] at hr hwp ⊢
        simp [hr, hwp]
    · refine ⟨_, _, .same (by rw [heq]), iff_of_true (fun r hr wp hwp => ?_) (by simp), by simp⟩
      simp [hnone r hr] at hwp
  | deliver =>
    rw [Call.perform, DeliveryStation.run_deliver, Option.map_some] at h
    cases h
    rcases deliverResult_cases M m with heq | ⟨wp, hwp, hslots, hpub⟩
    · exact ⟨_, _, .same (by rw [heq]), iff_of_true trivial (by simp), by simp⟩
    · -- the slot is cleared after DELIVER has been published
      refine ⟨_, _, .drop .input wp hwp hslots, iff_of_true trivial (by simp), ?_⟩
      intro w hw
      cases hw
      simp [Call.releases, hpub]
  | dispenseBase color =>
    rw [Call.perform, Option.map_eq_some_iff] at h
    obtain ⟨⟨t, u⟩, ht, rfl⟩ := h
    have hsame : t.wpIn = m.wpIn :=
      (dispenseBase_sparesSlots M color).run_eq Mps.wpIn
        (fun _ _ _ _ hi hs => handle_wpIn hi hs) ht
    exact ⟨_, _, .same hsame, iff_of_true trivial (by simp), by simp⟩
  | newPuck msg =>
    cases h
    by_cases ha : BaseStation.Awaits M msg m
    -- the announced workpiece goes to the middle, whatever was there
    · refine ⟨_, _, .fill .middle msg.puckName ?_, ?_, by simp⟩
      · rw [onNewPuck_wpIn, if_pos ha]
      · simp [KeepsSlots, ha]
    · refine ⟨_, _, .same ?_, iff_of_true (fun h => absurd h ha) (by simp), by simp⟩
      rw [onNewPuck_wpIn, if_neg ha]
  | puckMsg msg =>
    cases h
    rcases onPuckMsg_cases M msg m with ⟨hfree, -, heq⟩ | ⟨s, -, hs, hout, heq⟩ | heq
    -- the input takes the model of this name, if the world has one
    · cases hmodel : m.world.modelByName msg.name with
      | none =>
        rw [hmodel, ← hfree, Function.update_eq_self] at heq
        exact ⟨_, _, .same heq, iff_of_true trivial (by simp), by simp⟩
      | some wp =>
        rw [hmodel] at heq
        refine ⟨_, _, .fill .input wp heq, iff_of_true trivial ?_, by simp⟩
        intro q hq
        cases hq
        exact .inl hfree
    · -- a slot is cleared by a message from outside it
      refine ⟨_, _, .drop s msg.name hs heq, iff_of_true trivial (by simp), ?_⟩
      intro w hw
      cases hw
      cases s <;> simp [Call.releases, hs, hout]
    · exact ⟨_, _, .same heq, iff_of_true trivial (by simp), by simp⟩
  | write r v =>
    cases h
    exact ⟨_, _, .same rfl, iff_of_true trivial (by simp), by simp⟩
  | gazebo w =>
    cases h
    exact ⟨_, _, .same rfl, iff_of_true trivial (by simp), by simp⟩

namespace SlotChange

variable {m m' : Mps Pose} {put : Option (Slot × String)} {dropped : Option String}

/-- If the slot that is written can take the workpiece, only a dropped workpiece is lost. -/
theorem held (h : SlotChange m m' put dropped) (hput : ∀ q ∈ put, m.Takes q.1 q.2)
    {w : String} (hw : w ∈ m.held) : w ∈ m'.held ∨ w ∈ dropped := by
  rw [Mps.mem_held] at hw ⊢
  obtain ⟨t, ht⟩ := hw
  cases h with
  | same heq => exact .inl ⟨t, by rw [heq, ht]⟩
  | fill s wp heq =>
    by_cases hts : t = s
    · subst hts
      exact .inl ⟨t, by rw [heq, Function.update_self, (hput _ rfl).eq ht]⟩
    · exact .inl ⟨t, by rw [heq, Function.update_of_ne hts, ht]⟩
  | carry src dst wp hne hsrc heq =>
    -- what was in the target is the workpiece itself, what was in the source is in the target
    by_cases htd : t = dst
    · subst htd
      exact .inl ⟨t, by rw [heq, Function.update_self, (hput _ rfl).eq ht]⟩
    · by_cases hts : t = src
      · subst hts
        rw [hsrc] at ht
        exact .inl ⟨dst, by rw [heq, Function.update_self, ht]⟩
      · exact .inl ⟨t, by rw [heq, Function.update_of_ne htd, Function.update_of_ne hts, ht]⟩
  | drop s wp hs heq =>
    by_cases hts : t = s
    · subst hts
      rw [hs] at ht
      exact .inr ht
    · exact .inl ⟨t, by rw [heq, Function.update_of_ne hts, ht]⟩

/-- A workpiece is replaced by another one exactly if the slot that is written holds
another one. -/
theorem not_replaced_iff (h : SlotChange m m' put dropped) :
    ¬ Replaced m m' ↔ ∀ q ∈ put, m.Takes q.1 q.2 := by
  constructor
  · rintro hrep ⟨s, wp⟩ hq
    -- what is put somewhere is there afterwards
    have hwp : m'.wpIn s = some wp := by
      cases h with
      | fill _ _ heq => cases hq; rw [heq, Function.update_self]
      | carry _ _ _ _ _ heq => cases hq; rw [heq, Function.update_self]
      | same _ => cases hq
      | drop _ _ _ _ => cases hq
    cases hs : m.wpIn s with
    | none => exact .inl hs
    | some w =>
      by_cases hw : w = wp
      · exact .inr (hw ▸ hs)
      · exact absurd ⟨s, w, wp, hs, hwp, hw⟩ hrep
  -- the only slot with another workpiece is one that something is put into
  · rintro hput ⟨t, w, w', hw, hw', hne⟩
    cases h with
    | same heq =>
      rw [heq, hw] at hw'
      exact hne (Option.some.inj hw')
    | fill s wp heq =>
      rw [heq] at hw'
      by_cases hts : t = s
      · subst hts
        rw [Function.update_self] at hw'
        exact hne (((hput _ rfl).eq hw).trans (Option.some.inj hw'))
      · rw [Function.update_of_ne hts, hw] at hw'
        exact hne (Option.some.inj hw')
    | carry src dst wp _ _ heq =>
      rw [heq] at hw'
      by_cases htd : t = dst
      · subst htd
        rw [Function.update_self] at hw'
        exact hne (((hput _ rfl).eq hw).trans (Option.some.inj hw'))
      · rw [Function.update_of_ne htd] at hw'
        by_cases hts : t = src
        · subst hts
          rw [Function.update_self] at hw'
          cases hw'
        · rw [Function.update_of_ne hts, hw] at hw'
          exact hne (Option.some.inj hw')
    | drop s wp hs heq =>
      rw [heq] at hw'
      by_cases hts : t = s
      · subst hts
        rw [Function.update_self] at hw'
        cases hw'
      · rw [Function.update_of_ne hts, hw] at hw'
        exact hne (Option.some.inj hw')

end SlotChange

/-! ## Runs -/

/-- Along every run whose calls all find room in the slots they write, the station refers
to each workpiece that has been in one of its slots and has not been released since, and
a further call replaces a workpiece exactly if it does not find room. -/
theorem held_of_custody (M : Machine Pose) {m : Mps Pose} {g : List String}
    (h : ((callSystem M).watch (custody M)).Reach (fun p l => KeepsSlots M p.1 l) (m, g)) :
    (∀ wp ∈ g, wp ∈ m.held) ∧
      ∀ l m', (callSystem M).next m l = some m' → (¬ Replaced m m' ↔ KeepsSlots M m l) := by
  constructor
  · refine LTS.Reach.watch_invariant (P := fun m g => ∀ wp ∈ g, wp ∈ m.held) ?_ ?_ h
    · exact fun m _ wp hwp => hwp
    · intro m g l m' ih hkeep hstep wp hwp
      obtain ⟨put, dropped, hchange, hput, hrel⟩ := perform_slotChange hstep
      rw [custody, List.mem_append, List.mem_filter] at hwp
      rcases hwp with ⟨hg, hnot⟩ | hheld
      · rcases hchange.held (hput.mp hkeep) (ih wp hg) with hheld | hdrop
        · exact hheld
        · rw [hrel wp hdrop] at hnot
          cases hnot
      · exact hheld
  · intro l m' hstep
    obtain ⟨put, dropped, hchange, hput, -⟩ := perform_slotChange hstep
    exact hchange.not_replaced_iff.trans hput.symm

/-- A workpiece arrives at the input and is moved to the middle. -/
def arriveAndMove (M : Machine Pose) (wp : String) : List (Call Pose) :=
  [.puckMsg ⟨wp, M.center .input⟩, .moveConveyor .MIDDLE]

/-- A cap station that has received `puck_1`. -/
theorem held_of_custody_arrive :
    ∃ m g, "puck_1" ∈ g ∧ "puck_1" ∈ m.held ∧
      ((callSystem (shipped "C-CS1")).watch (custody (shipped "C-CS1"))).Reach
        (fun p l => KeepsSlots (shipped "C-CS1") p.1 l) (m, g) := by
  obtain ⟨⟨m, g⟩, hreach, hg⟩ :=
    LTS.exists_reach (T := (callSystem (shipped "C-CS1")).watch (custody (shipped "C-CS1")))
      (C := fun p l => KeepsSlots (shipped "C-CS1") p.1 l)
      (s := (shippedMps "C-CS1", []))
      (l := arriveAndMove (shipped "C-CS1") "puck_1")
      (p := fun p => decide ("puck_1" ∈ p.2)) ⟨⟨_, _, _, rfl⟩, rfl⟩ (by decide +kernel)
      (by decide +kernel)
  exact ⟨m, g, of_decide_eq_true hg,
    (held_of_custody (shipped "C-CS1") hreach).1 _ (of_decide_eq_true hg), hreach⟩

/-- A second workpiece moved to the middle replaces the first, which the station then no
longer refers to although nothing has released it. -/
theorem custody_lost :
    ¬ ∀ m g, ((callSystem (shipped "C-CS1")).watch (custody (shipped "C-CS1"))).Reachable
      (m, g) → ∀ wp ∈ g, wp ∈ m.held := by
  intro h
  obtain ⟨⟨m, g⟩, hreach, hlost⟩ :=
    LTS.exists_reachable (T := (callSystem (shipped "C-CS1")).watch (custody (shipped "C-CS1")))
      (s := (shippedMps "C-CS1", []))
      (l := arriveAndMove (shipped "C-CS1") "puck_1" ++
        arriveAndMove (shipped "C-CS1") "puck_2")
      (p := fun p => decide ("puck_1" ∈ p.2 ∧ "puck_1" ∉ p.1.held)) ⟨⟨_, _, _, rfl⟩, rfl⟩
      (by decide +kernel)
  obtain ⟨hg, hheld⟩ := of_decide_eq_true hlost
  exact hheld (h m g hreach _ hg)

end GazeboRcll
