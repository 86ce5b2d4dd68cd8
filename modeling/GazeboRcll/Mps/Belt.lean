import GazeboRcll.Library.LTS
import GazeboRcll.Mps.Geometry
import GazeboRcll.Mps.Runs

/-!
# The belt and delayed pose messages

`move_conveyor` in the worker thread, and `on_puck_msg` for messages that carry the pose
a workpiece had when it sent them and arrive in the order of sending, any time later.

A message that a workpiece sent from the input and that is handled after the conveyor has
taken it away puts it into the input slot again (`in_two_slots`). If no such message is
left when a workpiece is teleported out of the input area, no workpiece is in two slots
outside the calls of `move_conveyor` (`slots_exclusive`).
-/

namespace GazeboRcll

open Prog StationM

variable {Pose : Type} {M : Machine Pose}

/-! ## The system -/

/-- A station, the call of `move_conveyor` in progress, and for each workpiece the poses
it has sent and the station has not handled, oldest first. -/
structure Belt (Pose : Type) where
  mps : Mps Pose
  worker : Option (StationM Pose Unit)
  channel : String → List Pose

inductive BeltStep where
  /-- `Gps::send_position` of a workpiece. -/
  | send (wp : String)
  /-- `Mps::on_puck_msg` for the oldest message of a workpiece. -/
  | deliver (wp : String)
  | call (side : MachineSide)
  | worker

/-- A station without workpieces, in any world. -/
def beltSystem (M : Machine Pose) : LTS (Belt Pose) BeltStep where
  init s := (∀ slot, s.mps.wpIn slot = none) ∧ s.worker = none ∧ ∀ wp, s.channel wp = []
  next s
    | .send wp => some { s with
        channel := Function.update s.channel wp (s.channel wp ++ [s.mps.world.pose wp]) }
    | .deliver wp =>
      match s.channel wp with
      | [] => none
      | p :: rest => some { s with
          mps := s.mps.onPuckMsg M ⟨wp, p⟩, channel := Function.update s.channel wp rest }
    | .call side =>
      match s.worker with
      | none => some { s with worker := some (Mps.moveConveyor M side) }
      | some _ => none
    | .worker =>
      match s.worker with
      | none => none
      | some (.ret _) => some { s with worker := none }
      | some (.op i k) => (handle i s.mps).map fun t =>
          { s with mps := t.1, worker := some (k t.2) }

/-- The teleport that the worker is about to execute. -/
def Belt.teleports (s : Belt Pose) : Option (String × Pose) :=
  match s.worker with
  | some (.op (.setWorldPose wp p) _) => some (wp, p)
  | _ => none

/-- When a workpiece is teleported to a place outside the input area, no message that it
sent from that area is left. -/
def NoStaleInput (M : Machine Pose) (s : Belt Pose) : BeltStep → Prop
  | .worker => ∀ t ∈ s.teleports, M.puckIn .input t.2 = false →
      ∀ q ∈ s.channel t.1, M.puckIn .input q = false
  | _ => True

instance (M : Machine Pose) (s : Belt Pose) : DecidablePred (NoStaleInput M s)
  | .worker => inferInstanceAs (Decidable (∀ _ ∈ _, _))
  | .send _ | .deliver _ | .call _ => .isTrue trivial

/-! ## The outline of `move_conveyor` -/

/-- How far a call has come. -/
inductive MovePoint (Pose : Type) where
  | idle
  /-- It has read the workpiece from the slot. -/
  | loaded (src : Slot) (wp : String)
  /-- It has teleported the workpiece. -/
  | moved (src : Slot) (wp : String) (p : Pose)
  /-- It has cleared the slot the workpiece came from. -/
  | emptied (wp : String) (p : Pose)

/-- Instructions that neither read a slot nor write a slot or the world. -/
def Instr.SparesBelt : Instr Pose → Prop
  | .getSlot _ | .deref _ | .setSlot _ _ | .setWorldPose _ _ => False
  | _ => True

/-- A workpiece is read from the input or the middle, teleported to the centre of a slot,
cleared from the slot it was read from and written to the slot it stands in. -/
def moveOutline (M : Machine Pose) : Outline (Instr Pose) Instr.Resp (MovePoint Pose) where
  expects _ _ _ := True
  allows
    | .idle, .getSlot s, _ => s ≠ .output
    | .loaded _ wp, .setWorldPose w p, _ => w = wp ∧ ∃ dst, p = M.center dst
    | .moved src _ _, .setSlot s wp, _ => s = src ∧ wp = none
    | .emptied wp p, .setSlot dst w, _ => w = some wp ∧ p = M.center dst
    | _, i, _ => i.SparesBelt
  next
    | .idle, .getSlot src, wp => wp.elim .idle (.loaded src)
    | .loaded src wp, .setWorldPose _ p, _ => .moved src wp p
    | .moved _ wp p, .setSlot _ _, _ => .emptied wp p
    | .emptied _ _, .setSlot _ _, _ => .idle
    | x, _, _ => x

attribute [local simp] moveOutline Instr.SparesBelt Instr.perform Prog.instr

/-- A workpiece is moved by loading it, moving it, emptying its slot and filling the other one. -/
theorem carry_move (M : Machine Pose) {src : Slot} (dst : Slot) (hsrc : src ≠ .output) :
    (Mps.carry M src dst).Follows (moveOutline M) (fun y _ => y = .idle) .idle := by
  unfold Mps.carry
  simp only [Instr.perform_bind, follows_op]
  refine fun wp _ => ⟨hsrc, ?_⟩
  cases wp with
  | none => simp
  | some wp =>
    dsimp only
    split_ifs <;> simp

/-- Every call of `move_conveyor` is made of such moves. -/
theorem moveConveyor_move (M : Machine Pose) (side : MachineSide) :
    (Mps.moveConveyor M side).Follows (moveOutline M) (fun y _ => y = .idle) .idle := by
  unfold Mps.moveConveyor
  simp only [Instr.perform_bind, follows_op]
  refine fun _ _ => ⟨trivial, fun _ _ => ⟨trivial, ?_⟩⟩
  cases side with
  | INPUT => exact carry_move M _ (by decide)
  | MIDDLE => exact carry_move M _ (by decide)
  | OUTPUT => exact carry_move M _ (by decide)
  | other v => simp

/-! ## Workpieces away from the input -/

/-- The workpiece is outside the input area, and so are all poses it has sent and the
station has not handled. -/
def Away (M : Machine Pose) (s : Belt Pose) (wp : String) : Prop :=
  M.puckIn .input (s.mps.world.pose wp) = false ∧
    ∀ q ∈ s.channel wp, M.puckIn .input q = false

/-- A workpiece in the middle or the output, apart from those in `E`, is away and not in
the input slot; none is in both. -/
structure Exclusive (M : Machine Pose) (s : Belt Pose) (E : String → Prop) : Prop where
  away : ∀ wp, ¬ E wp → s.mps.wpIn .middle = some wp ∨ s.mps.wpIn .output = some wp →
    Away M s wp ∧ s.mps.wpIn .input ≠ some wp
  apart : ∀ wp, ¬ (s.mps.wpIn .middle = some wp ∧ s.mps.wpIn .output = some wp)

/-- The slot still holds the workpiece that has been read from it, or it is the input and
the other slots do not hold the workpiece. -/
def Taken (s : Belt Pose) (src : Slot) (wp : String) : Prop :=
  (src = .middle ∧ s.mps.wpIn .middle = some wp) ∨
    (src = .input ∧ s.mps.wpIn .middle ≠ some wp ∧ s.mps.wpIn .output ≠ some wp)

/-- What holds at the points of `move_conveyor`. -/
def MoveInv (M : Machine Pose) (s : Belt Pose) : MovePoint Pose → Prop
  | .idle => Exclusive M s fun _ => False
  | .loaded src wp => Exclusive M s (fun _ => False) ∧ Taken s src wp
  | .moved src wp p =>
    Exclusive M s (fun w => w = wp ∧ M.puckIn .input p = true) ∧ Taken s src wp ∧
      (M.puckIn .input p = false → Away M s wp)
  | .emptied wp p =>
    Exclusive M s (fun _ => False) ∧
      s.mps.wpIn .middle ≠ some wp ∧ s.mps.wpIn .output ≠ some wp ∧
      (M.puckIn .input p = false → Away M s wp ∧ s.mps.wpIn .input ≠ some wp)

/-- What the worker relies on: the other threads leave the middle as it is, put nothing
into the output, move no workpiece towards the input, and put none into the input slot
that is away. -/
structure Rely (M : Machine Pose) (s s' : Belt Pose) : Prop where
  middle : s'.mps.wpIn .middle = s.mps.wpIn .middle
  output : ∀ wp, s'.mps.wpIn .output = some wp → s.mps.wpIn .output = some wp
  away : ∀ wp, Away M s wp → Away M s' wp
  input : ∀ wp, Away M s wp → s'.mps.wpIn .input = some wp → s.mps.wpIn .input = some wp

/-- A pose is sent. -/
theorem Rely.send (s : Belt Pose) (wp : String) :
    Rely M s { s with
      channel := Function.update s.channel wp (s.channel wp ++ [s.mps.world.pose wp]) } := by
  refine ⟨rfl, fun _ h => h, ?_, fun _ _ h => h⟩
  rintro w ⟨hpose, hchan⟩
  refine ⟨hpose, fun q hq => ?_⟩
  dsimp only at hq
  rw [Function.update_apply] at hq
  split_ifs at hq with hw
  · subst hw
    rw [List.mem_append, List.mem_singleton] at hq
    rcases hq with hq | rfl
    · exact hchan q hq
    · exact hpose
  · exact hchan q hq

/-- A pose that was sent is delivered. -/
theorem Rely.deliver {s : Belt Pose} {wp : String} {p : Pose} {rest : List Pose}
    (h : s.channel wp = p :: rest) :
    Rely M s { s with
      mps := s.mps.onPuckMsg M ⟨wp, p⟩, channel := Function.update s.channel wp rest } := by
  have hworld : (s.mps.onPuckMsg M ⟨wp, p⟩).world = s.mps.world := by
    unfold Mps.onPuckMsg
    split_ifs <;> rfl
  refine ⟨onPuckMsg_middle M _ s.mps, fun w hw => ?_, fun w haway => ?_, fun w haway hw => ?_⟩
  · rcases onPuckMsg_cases M ⟨wp, p⟩ s.mps with ⟨-, -, heq⟩ | ⟨slot, -, -, -, heq⟩ | heq
    · simpa [heq] using hw
    · dsimp only at hw
      rw [heq, Function.update_apply] at hw
      split_ifs at hw
      exact hw
    · simpa [heq] using hw
  -- a message less in the channel
  · obtain ⟨hpose, hchan⟩ := haway
    refine ⟨by rw [hworld]; exact hpose, fun q hq => hchan q ?_⟩
    dsimp only at hq
    rw [Function.update_apply] at hq
    split_ifs at hq with hwp
    · rw [hwp, h]
      exact List.mem_cons_of_mem p hq
    · exact hq
  · rcases onPuckMsg_cases M ⟨wp, p⟩ s.mps with ⟨-, hin, heq⟩ | ⟨slot, -, -, -, heq⟩ | heq
    · -- the message that fills the slot comes from the input, so its sender is not away
      have hw' : s.mps.world.modelByName wp = some w := by simpa [heq] using hw
      have hname : wp = w := by
        unfold World.modelByName at hw'
        split_ifs at hw'
        exact Option.some.inj hw'
      subst hname
      have hout := haway.2 p (by rw [h]; exact List.mem_cons_self)
      exact absurd (hin.symm.trans hout) (by decide)
    · dsimp only at hw
      rw [heq, Function.update_apply] at hw
      split_ifs at hw
      exact hw
    · simpa [heq] using hw

/-- Steps of the environment leave a slot to its workpiece. -/
theorem Exclusive.rely {s s' : Belt Pose} {E : String → Prop} (h : Exclusive M s E)
    (hr : Rely M s s') : Exclusive M s' E := by
  constructor
  · intro wp hE hslot
    rw [hr.middle] at hslot
    obtain ⟨haway, hin⟩ := h.away wp hE (hslot.imp_right (hr.output wp))
    exact ⟨hr.away wp haway, fun hin' => hin (hr.input wp haway hin')⟩
  · rintro wp ⟨hm, ho⟩
    rw [hr.middle] at hm
    exact h.apart wp ⟨hm, hr.output wp ho⟩

/-- A workpiece that the worker has loaded stays where it is. -/
theorem Taken.rely {s s' : Belt Pose} {src : Slot} {wp : String} (h : Taken s src wp)
    (hr : Rely M s s') : Taken s' src wp := by
  unfold Taken
  rw [hr.middle]
  exact h.imp_right fun ⟨hsrc, hm, ho⟩ => ⟨hsrc, hm, fun ho' => ho (hr.output wp ho')⟩

/-- Steps of the environment do not disturb a move. -/
theorem MoveInv.rely {s s' : Belt Pose} {x : MovePoint Pose} (h : MoveInv M s x)
    (hr : Rely M s s') : MoveInv M s' x := by
  cases x with
  | idle => exact Exclusive.rely h hr
  | loaded src wp => exact ⟨h.1.rely hr, h.2.rely hr⟩
  | moved src wp p => exact ⟨h.1.rely hr, h.2.1.rely hr, fun hp => hr.away wp (h.2.2 hp)⟩
  | emptied wp p =>
    obtain ⟨hex, hm, ho, haway⟩ := h
    refine ⟨hex.rely hr, by rwa [hr.middle], fun ho' => ho (hr.output wp ho'), fun hp => ?_⟩
    obtain ⟨haw, hin⟩ := haway hp
    exact ⟨hr.away wp haw, fun hin' => hin (hr.input wp haw hin')⟩

/-! ## Steps of the worker -/

theorem Rely.of_worker (s : Belt Pose) (w : Option (StationM Pose Unit)) :
    Rely M s { s with worker := w } :=
  ⟨rfl, fun _ h => h, fun _ h => h, fun _ _ h => h⟩

/-- The other instructions are covered by what the worker relies on. -/
theorem Rely.handle {s : Belt Pose} {i : Instr Pose} {m' : Mps Pose} {r : i.Resp}
    (hi : i.SparesBelt) (hr : handle i s.mps = some (m', r)) (w : Option (StationM Pose Unit)) :
    Rely M s { s with mps := m', worker := w } := by
  cases i with
  | getSlot _ | deref _ | setSlot _ _ | setWorldPose _ _ => exact hi.elim
  | _ =>
    cases hr
    exact ⟨rfl, fun _ h => h, fun _ h => h, fun _ _ h => h⟩

variable {s : Belt Pose} {src : Slot} {wp : String} {p : Pose}

/-- The worker loads a workpiece. -/
theorem MoveInv.getSlot (h : MoveInv M s .idle) (hsrc : src ≠ .output)
    (hslot : s.mps.wpIn src = some wp) : MoveInv M s (.loaded src wp) := by
  refine ⟨h, ?_⟩
  cases src with
  | output => exact absurd rfl hsrc
  | middle => exact .inl ⟨rfl, hslot⟩
  | input =>
    -- a workpiece in the input is in no other slot
    refine .inr ⟨rfl, fun hm => ?_, fun ho => ?_⟩
    · exact (h.away wp not_false (.inl hm)).2 hslot
    · exact (h.away wp not_false (.inr ho)).2 hslot

/-- The worker moves it. -/
theorem MoveInv.setWorldPose (h : MoveInv M s (.loaded src wp))
    (hstale : M.puckIn .input p = false → ∀ q ∈ s.channel wp, M.puckIn .input q = false)
    (w : Option (StationM Pose Unit)) :
    MoveInv M { s with mps := s.mps.teleport wp p, worker := w } (.moved src wp p) := by
  obtain ⟨hex, htaken⟩ := h
  have hother : ∀ u, u ≠ wp → Away M s u →
      Away M { s with mps := s.mps.teleport wp p, worker := w } u := by
    rintro u hu ⟨hpose, hchan⟩
    refine ⟨?_, hchan⟩
    dsimp only [Mps.teleport]
    rw [Function.update_of_ne hu]
    exact hpose
  have hself : M.puckIn .input p = false →
      Away M { s with mps := s.mps.teleport wp p, worker := w } wp := by
    intro hp
    refine ⟨?_, hstale hp⟩
    dsimp only [Mps.teleport]
    rw [Function.update_self]
    exact hp
  refine ⟨⟨fun u hE hslot => ?_, hex.apart⟩, htaken, hself⟩
  obtain ⟨haway, hin⟩ := hex.away u not_false hslot
  refine ⟨?_, hin⟩
  by_cases hu : u = wp
  · subst hu
    exact hself (Bool.eq_false_iff.mpr fun hp => hE ⟨rfl, hp⟩)
  · exact hother u hu haway

/-- The worker empties the slot it comes from. -/
theorem MoveInv.clearSlot (h : MoveInv M s (.moved src wp p))
    (w : Option (StationM Pose Unit)) :
    MoveInv M { s with mps := s.mps.assign src none, worker := w } (.emptied wp p) := by
  obtain ⟨hex, htaken, haway⟩ := h
  rcases htaken with ⟨rfl, hm⟩ | ⟨rfl, hm, ho⟩
  · -- the slot that is cleared is the one that still holds the workpiece
    have hout : s.mps.wpIn .output ≠ some wp := fun ho => hex.apart wp ⟨hm, ho⟩
    refine ⟨⟨?_, fun u hu => ?_⟩, ?_, hout, fun hp => ⟨haway hp, ?_⟩⟩
    · rintro u - (hu | hu)
      · rw [Mps.assign_wpIn_self] at hu
        cases hu
      · refine hex.away u (fun hE => hout ?_) (.inr hu)
        rw [← hE.1]
        exact hu
    · have hu1 := hu.1
      rw [Mps.assign_wpIn_self] at hu1
      cases hu1
    · rw [Mps.assign_wpIn_self]
      nofun
    · refine (hex.away wp (fun hE => ?_) (.inl hm)).2
      rw [hp] at hE
      cases hE.2
  · refine ⟨⟨fun u _ hu => ?_, hex.apart⟩, hm, ho, fun hp => ⟨haway hp, ?_⟩⟩
    · have hne : u ≠ wp := by
        rintro rfl
        exact hu.elim hm ho
      refine ⟨(hex.away u (fun hE => hne hE.1) hu).1, ?_⟩
      rw [Mps.assign_wpIn_self]
      nofun
    · rw [Mps.assign_wpIn_self]
      nofun

/-- The worker fills the slot it goes to. -/
theorem MoveInv.setSlot {dst : Slot} (hsep : M.Separated)
    (h : MoveInv M s (.emptied wp (M.center dst))) (w : Option (StationM Pose Unit)) :
    MoveInv M { s with mps := s.mps.assign dst (some wp), worker := w } .idle := by
  obtain ⟨hex, hm, ho, haway⟩ := h
  -- the centres of the middle and the output are outside the input area
  have hout : dst ≠ .input → M.puckIn .input (M.center dst) = false := fun hne =>
    Bool.eq_false_iff.mpr fun hin => hne (hsep.disjoint _ _ _ (hsep.center dst) hin)
  cases dst with
  | input =>
    refine ⟨fun u _ hu => ?_, hex.apart⟩
    have hne : wp ≠ u := by
      rintro rfl
      exact hu.elim hm ho
    refine ⟨(hex.away u not_false hu).1, ?_⟩
    rw [Mps.assign_wpIn_self]
    exact fun heq => hne (Option.some.inj heq)
  | middle =>
    obtain ⟨haw, hin⟩ := haway (hout (by decide))
    refine ⟨?_, ?_⟩
    · rintro u - (hu | hu)
      · rw [Mps.assign_wpIn_self] at hu
        cases hu
        exact ⟨haw, hin⟩
      · exact hex.away u not_false (.inr hu)
    · rintro u ⟨hu, hu'⟩
      rw [Mps.assign_wpIn_self] at hu
      cases hu
      exact ho hu'
  | output =>
    obtain ⟨haw, hin⟩ := haway (hout (by decide))
    refine ⟨?_, ?_⟩
    · rintro u - (hu | hu)
      · exact hex.away u not_false (.inl hu)
      · rw [Mps.assign_wpIn_self] at hu
        cases hu
        exact ⟨haw, hin⟩
    · rintro u ⟨hu, hu'⟩
      rw [Mps.assign_wpIn_self] at hu'
      cases hu'
      exact hm hu

/-- A permitted instruction leads to the next point of the outline. -/
theorem MoveInv.worker {x : MovePoint Pose} {i : Instr Pose} {k : i.Resp → StationM Pose Unit}
    {m' : Mps Pose} {r : i.Resp} (hsep : M.Separated) (h : MoveInv M s x)
    (hw : s.worker = some (op i k)) (hstale : NoStaleInput M s .worker)
    (hallow : (moveOutline M).allows x i r) (hr : handle i s.mps = some (m', r)) :
    MoveInv M { s with mps := m', worker := some (k r) } ((moveOutline M).next x i r) := by
  by_cases hi : i.SparesBelt
  -- instructions that leave the belt alone leave the point alone too
  · have hnext : (moveOutline M).next x i r = x := by
      cases i with
      | getSlot _ | deref _ | setSlot _ _ | setWorldPose _ _ => exact hi.elim
      | _ => cases x <;> rfl
    rw [hnext]
    exact h.rely (.handle hi hr _)
  · cases i with
    | getSlot src =>
      cases x with
      | idle =>
        cases hr
        cases hslot : s.mps.wpIn src with
        | none =>
          exact h.rely (.of_worker s _)
        | some wp =>
          exact (h.getSlot hallow hslot).rely (.of_worker s _)
      | _ => exact absurd hallow hi
    | setWorldPose w p =>
      cases x with
      | loaded src wp =>
        obtain ⟨rfl, -⟩ := hallow
        cases hr
        -- the teleport is where a stale message would matter
        refine h.setWorldPose (fun hp => hstale (w, p) ?_ hp) _
        simp [Belt.teleports, hw]
      | _ => exact absurd hallow hi
    -- the slot that the piece has left, then the one that it came to
    | setSlot slot w =>
      cases x with
      | moved src wp p =>
        obtain ⟨rfl, rfl⟩ := hallow
        cases hr
        exact h.clearSlot _
      | emptied wp p =>
        obtain ⟨rfl, rfl⟩ := hallow
        cases hr
        exact h.setSlot hsep _
      | _ => exact absurd hallow hi
    | deref slot => cases x <;> exact absurd hallow hi
    | _ => exact absurd trivial hi

/-! ## Runs -/

/-- The call in progress keeps to the outline, and its invariant holds. -/
def BeltOk (M : Machine Pose) (s : Belt Pose) : Prop :=
  match s.worker with
  | none => MoveInv M s .idle
  | some q => ∃ x, q.Follows (moveOutline M) (fun y _ => y = .idle) x ∧ MoveInv M s x

/-- Steps of the environment keep the belt in order. -/
theorem BeltOk.rely {s s' : Belt Pose} (h : BeltOk M s) (hr : Rely M s s')
    (hw : s'.worker = s.worker) : BeltOk M s' := by
  unfold BeltOk at h ⊢
  rw [hw]
  split at h
  · exact MoveInv.rely h hr
  · obtain ⟨x, hf, hinv⟩ := h
    exact ⟨x, hf, hinv.rely hr⟩

/-- All steps keep the belt in order. -/
theorem BeltOk.step {s s' : Belt Pose} {l : BeltStep} (hsep : M.Separated) (h : BeltOk M s)
    (hc : NoStaleInput M s l) (hs : (beltSystem M).next s l = some s') : BeltOk M s' := by
  rw [beltSystem] at hs
  cases l with
  | send wp =>
    cases hs
    exact h.rely (.send s wp) rfl
  | deliver wp =>
    dsimp only at hs
    cases hq : s.channel wp with
    | nil =>
      rw [hq] at hs
      cases hs
    | cons p rest =>
      rw [hq] at hs
      cases hs
      exact h.rely (.deliver hq) rfl
  | call side =>
    dsimp only at hs
    cases hw : s.worker with
    | some q =>
      rw [hw] at hs
      cases hs
    | none =>
      rw [hw] at hs
      cases hs
      simp only [BeltOk, hw] at h
      -- a call begins at the idle point of its outline
      exact ⟨.idle, moveConveyor_move M side, h.rely (.of_worker s _)⟩
  | worker =>
    dsimp only at hs
    cases hw : s.worker with
    | none =>
      rw [hw] at hs
      cases hs
    | some q =>
      rw [hw] at hs
      simp only [BeltOk, hw] at h
      obtain ⟨x, hf, hinv⟩ := h
      cases q with
      | ret a =>
        cases hs
        have hx : x = .idle := hf
        subst hx
        exact hinv.rely (.of_worker s none)
      | op i k =>
        dsimp only at hs
        rw [Option.map_eq_some_iff] at hs
        obtain ⟨⟨m', r⟩, hr, rfl⟩ := hs
        -- an instruction that the outline allows
        obtain ⟨hallow, hf'⟩ := hf r trivial
        exact ⟨_, hf', hinv.worker hsep hw hc hallow hr⟩

/-- In every run in which no message sent from the input is left when a workpiece is
teleported out of the input area, no workpiece is in two slots outside the calls of
`move_conveyor`. -/
theorem slots_exclusive (M : Machine Pose) (hsep : M.Separated) {s : Belt Pose}
    (h : (beltSystem M).Reach (NoStaleInput M) s) (hw : s.worker = none) :
    ∀ wp a b, s.mps.wpIn a = some wp → s.mps.wpIn b = some wp → a = b := by
  have hok : BeltOk M s := by
    refine LTS.Reach.invariant (P := BeltOk M) ?_ ?_ h
    · rintro s ⟨hslots, hw, -⟩
      rw [BeltOk, hw]
      refine ⟨fun wp _ hslot => ?_, fun wp hslot => ?_⟩
      · rcases hslot with hm | ho
        · rw [hslots] at hm
          cases hm
        · rw [hslots] at ho
          cases ho
      · rw [hslots] at hslot
        cases hslot.1
    · exact fun s l s' ih hc hs => ih.step hsep hc hs
  rw [BeltOk, hw] at hok
  intro wp a b ha hb
  -- a workpiece beyond the input is away from it
  have hin : s.mps.wpIn .middle = some wp ∨ s.mps.wpIn .output = some wp →
      s.mps.wpIn .input ≠ some wp := fun hslot => (hok.away wp not_false hslot).2
  cases a with
  | input =>
    cases b with
    | input => rfl
    | middle => exact absurd ha (hin (.inl hb))
    | output => exact absurd ha (hin (.inr hb))
  | middle =>
    cases b with
    | input => exact absurd hb (hin (.inl ha))
    | middle => rfl
    | output => exact absurd ⟨ha, hb⟩ (hok.apart wp)
  | output =>
    cases b with
    | input => exact absurd hb (hin (.inr ha))
    | middle => exact absurd ⟨hb, ha⟩ (hok.apart wp)
    | output => rfl

/-- A cap station after its construction, with all workpieces standing in its input. -/
def loadedBelt : Belt (Vec ℚ) where
  mps := .fresh (.allAt ((shipped "C-CS1").center .input)) .RED id
  worker := none
  channel _ := []

/-- A call that moves a workpiece to the middle, from its start to its return. -/
def moveToMiddle : List BeltStep := .call .MIDDLE :: List.replicate 10 .worker

theorem slots_exclusive_middle :
    ∃ s, (beltSystem (shipped "C-CS1")).Reach (NoStaleInput (shipped "C-CS1")) s ∧
      s.mps.wpIn .middle = some "puck_1" ∧ s.mps.wpIn .input ≠ some "puck_1" := by
  obtain ⟨s, hreach, hs⟩ :=
    LTS.exists_reach (T := beltSystem (shipped "C-CS1")) (C := NoStaleInput (shipped "C-CS1"))
      (s := loadedBelt)
      (l := [.send "puck_1", .deliver "puck_1"] ++ moveToMiddle ++
        [.send "puck_1", .deliver "puck_1"])
      (p := fun s => s.worker.isNone && decide (s.mps.wpIn .middle = some "puck_1"))
      ⟨fun _ => rfl, rfl, fun _ => rfl⟩ (by decide +kernel) (by decide +kernel)
  obtain ⟨hw, hm⟩ := Bool.and_eq_true_iff.mp hs
  have hm' : s.mps.wpIn .middle = some "puck_1" := of_decide_eq_true hm
  refine ⟨s, hreach, hm', fun hin => ?_⟩
  have heq := slots_exclusive (shipped "C-CS1") (shipped_separated "C-CS1") hreach
    (Option.isNone_iff_eq_none.mp hw) "puck_1" .middle .input hm' hin
  cases heq

/-- The second of two messages that a workpiece has sent from the input is handled after
the conveyor has brought it to the middle. -/
theorem in_two_slots :
    ¬ ∀ s, (beltSystem (shipped "C-CS1")).Reachable s → s.worker = none →
      ∀ wp a b, s.mps.wpIn a = some wp → s.mps.wpIn b = some wp → a = b := by
  intro h
  obtain ⟨s, hreach, hs⟩ :=
    LTS.exists_reachable (T := beltSystem (shipped "C-CS1")) (s := loadedBelt)
      (l := [.send "puck_1", .send "puck_1", .deliver "puck_1"] ++ moveToMiddle ++
        [.deliver "puck_1"])
      (p := fun s => s.worker.isNone && decide (s.mps.wpIn .input = some "puck_1" ∧
        s.mps.wpIn .middle = some "puck_1")) ⟨fun _ => rfl, rfl, fun _ => rfl⟩
      (by decide +kernel)
  obtain ⟨hw, hslots⟩ := Bool.and_eq_true_iff.mp hs
  obtain ⟨hin, hm⟩ := of_decide_eq_true hslots
  have heq := h s hreach (Option.isNone_iff_eq_none.mp hw) "puck_1" .input .middle hin hm
  cases heq

end GazeboRcll
