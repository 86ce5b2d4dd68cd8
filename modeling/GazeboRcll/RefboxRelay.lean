import GazeboRcll.Puck
import GazeboRcll.RefboxComm

/-!
# Relaying messages to the refbox

Eight handlers of `LlsfRefboxCommPlugin` hand messages from Gazebo to the current client.
Seven of them test the plugin's `connected_`, and `send` tests the `connected_` of the
client, which its thread changes before it calls the handlers of the plugin. A handler runs
on the transport thread, so that the client can change between the two tests.

`relay_never_raises`: no handler meets an unconnected client along runs in which the
callbacks come in time, and every other step breaks this.
-/

namespace GazeboRcll

/-! ## The handlers -/

/-- The messages that the handlers are subscribed to. -/
inductive RelayMsg where
  | machineReply (msg : MachineReply)
  | timeSync (msg : SimTime)
  | setGameState (msg : SetGameState)
  | setGamePhase (msg : SetGamePhase)
  | setTeamName (msg : SetTeamName)
  | setMachineState (msg : SetMachineState)
  | machineAddBase (msg : MachineAddBase)
  | setOrderDeliveredByColor (msg : SetOrderDeliveredByColor)
deriving DecidableEq

/-- The messages that they send. -/
inductive ToRefbox where
  | machineReply (msg : MachineReply)
  | simTimeSync (msg : SimTimeSync)
  | setGameState (msg : SetGameState)
  | setGamePhase (msg : SetGamePhase)
  | setTeamName (msg : SetTeamName)
  | setMachineState (msg : SetMachineState)
  | machineAddBase (msg : MachineAddBase)
  | setOrderDeliveredByColor (msg : SetOrderDeliveredByColor)
deriving DecidableEq

namespace LlsfRefboxComm

/-- The guard of seven handlers: nothing is sent while the plugin is not connected. -/
def whenConnected (p : LlsfRefboxComm) (toRb : ToRefbox) : Option ToRefbox :=
  if !p.connected then none else some toRb

/-- `LlsfRefboxCommPlugin::on_machine_reply_msg`, up to its call of `send`. -/
def onMachineReplyMsg (_ : LlsfRefboxComm) (msg : MachineReply) : Option ToRefbox :=
  some (.machineReply ⟨msg.id, msg.machine, .FINISHED⟩)

/-- `LlsfRefboxCommPlugin::on_time_sync_msg`. -/
def onTimeSyncMsg (p : LlsfRefboxComm) (msg : SimTime) : Option ToRefbox :=
  p.whenConnected
    (.simTimeSync ⟨⟨msg.simTimeSec, msg.simTimeNsec⟩, msg.realTimeFactor, msg.paused⟩)

/-- `LlsfRefboxCommPlugin::on_set_game_state_msg`. -/
def onSetGameStateMsg (p : LlsfRefboxComm) (msg : SetGameState) : Option ToRefbox :=
  p.whenConnected (.setGameState msg)

/-- `LlsfRefboxCommPlugin::on_set_game_phase_msg`. -/
def onSetGamePhaseMsg (p : LlsfRefboxComm) (msg : SetGamePhase) : Option ToRefbox :=
  p.whenConnected (.setGamePhase msg)

/-- `LlsfRefboxCommPlugin::on_set_team_name_msg`. -/
def onSetTeamNameMsg (p : LlsfRefboxComm) (msg : SetTeamName) : Option ToRefbox :=
  p.whenConnected (.setTeamName msg)

/-- `LlsfRefboxCommPlugin::on_set_machine_state_msg`. -/
def onSetMachineStateMsg (p : LlsfRefboxComm) (msg : SetMachineState) : Option ToRefbox :=
  p.whenConnected (.setMachineState msg)

/-- `LlsfRefboxCommPlugin::on_machine_add_base_msg`. -/
def onMachineAddBaseMsg (p : LlsfRefboxComm) (msg : MachineAddBase) : Option ToRefbox :=
  p.whenConnected (.machineAddBase msg)

/-- `LlsfRefboxCommPlugin::on_set_order_delvered_by_color_msg`. -/
def onSetOrderDelveredByColorMsg (p : LlsfRefboxComm) (msg : SetOrderDeliveredByColor) :
    Option ToRefbox :=
  p.whenConnected (.setOrderDeliveredByColor msg)

/-- The handler of a message up to its call of `send`; `none` if it returns before. -/
def relay (p : LlsfRefboxComm) : RelayMsg → Option ToRefbox
  | .machineReply msg => p.onMachineReplyMsg msg
  | .timeSync msg => p.onTimeSyncMsg msg
  | .setGameState msg => p.onSetGameStateMsg msg
  | .setGamePhase msg => p.onSetGamePhaseMsg msg
  | .setTeamName msg => p.onSetTeamNameMsg msg
  | .setMachineState msg => p.onSetMachineStateMsg msg
  | .machineAddBase msg => p.onMachineAddBaseMsg msg
  | .setOrderDeliveredByColor msg => p.onSetOrderDelveredByColorMsg msg

end LlsfRefboxComm

/-- The handler of the message does not test `connected_`. -/
def RelayMsg.Unguarded : RelayMsg → Prop
  | .machineReply _ => True
  | _ => False

instance : DecidablePred RelayMsg.Unguarded
  | .machineReply _ => .isTrue trivial
  | .timeSync _ | .setGameState _ | .setGamePhase _ | .setTeamName _ | .setMachineState _
  | .machineAddBase _ | .setOrderDeliveredByColor _ => .isFalse not_false

/-- A handler goes on to `send` exactly if the plugin is connected or it has no guard. -/
theorem LlsfRefboxComm.relay_isSome (p : LlsfRefboxComm) (msg : RelayMsg) :
    (p.relay msg).isSome = true ↔ p.connected = true ∨ msg.Unguarded := by
  have hguard : ∀ toRb, (p.whenConnected toRb).isSome = true ↔
      p.connected = true ∨ False := by
    intro toRb
    rw [whenConnected]
    cases p.connected with
    | false => exact iff_of_false Bool.false_ne_true (by simp)
    | true => exact iff_of_true rfl (.inl rfl)
  cases msg with
  | machineReply msg => exact iff_of_true rfl (.inr trivial)
  | _ => exact hguard _

/-! ## The clients seen from the transport thread -/

/-- How far a client has come. Its own `connected_` is true while it is `up` or `live`. -/
inductive LinkPhase where
  | uncreated
  | pending
  /-- Connected, but `sig_connected_` has not been raised yet. -/
  | up
  | live
  /-- Closed, but `sig_disconnected_` has not been raised yet. -/
  | down
  | dead
deriving DecidableEq, Repr

/-- `connected_` of the client. -/
def LinkPhase.Open (p : LinkPhase) : Prop := p = .up ∨ p = .live

instance (p : LinkPhase) : Decidable p.Open := inferInstanceAs (Decidable (_ ∨ _))

/-- What a handler has come to. -/
inductive RelayOutcome where
  | dropped
  /-- The message went to the client with this number. -/
  | sent (i : ℕ) (toRb : ToRefbox)
  /-- `send` threw "Cannot send while not connected". -/
  | raised
deriving DecidableEq

/-- The plugin, its clients and the transport thread. -/
structure RelaySystem where
  plugin : LlsfRefboxComm
  /-- The simulation thread is in `Update`, about to create a client. -/
  updating : Bool
  links : ℕ → LinkPhase
  created : ℕ
  /-- What the transport thread is about to send. -/
  handling : Option ToRefbox
  /-- What the handlers have come to, oldest first. -/
  outcomes : List RelayOutcome

/-- What the simulation thread, the threads of the clients and the transport thread do. -/
inductive RelayStep where
  /-- `Update` is called, up to the point where it creates a client. -/
  | update (time : ℚ)
  /-- `Update` goes on with `create_client` and `async_connect`. -/
  | create
  /-- `handle_connect` of a client sets its `connected_`. -/
  | up (i : ℕ)
  /-- The client goes on to `client_connected`. -/
  | connected (i : ℕ)
  /-- `disconnect_nosig` of a client. -/
  | down (i : ℕ)
  /-- The client goes on to `client_disconnected`. -/
  | disconnected (i : ℕ)
  /-- A message arrives, and its handler runs up to its call of `send`. -/
  | arrive (msg : RelayMsg)
  /-- The handler calls `send` of the client that is the current one by now. -/
  | send
deriving DecidableEq

namespace RelaySystem

/-- Assignment to one client. -/
def setLink (s : RelaySystem) (i : ℕ) (p : LinkPhase) : RelaySystem :=
  { s with links := Function.update s.links i p }

def retry (s : RelaySystem) (p : LlsfRefboxComm) : RelaySystem :=
  { s with plugin := p, updating := true }

def create (s : RelaySystem) : RelaySystem :=
  { s.setLink s.created .pending with
    plugin := s.plugin.createClient s.created
    created := s.created + 1
    updating := false }

def connect (s : RelaySystem) (i : ℕ) : RelaySystem :=
  { s.setLink i .live with plugin := s.plugin.clientConnected }

def disconnect (s : RelaySystem) (i : ℕ) : RelaySystem :=
  { s.setLink i .dead with plugin := s.plugin.clientDisconnected }

def finish (s : RelaySystem) (o : RelayOutcome) : RelaySystem :=
  { s with handling := none, outcomes := s.outcomes ++ [o] }

def arrive (s : RelaySystem) (msg : RelayMsg) : RelaySystem :=
  match s.plugin.relay msg with
  | none => s.finish .dropped
  | some toRb => { s with handling := some toRb }

/-- The test at the beginning of `ProtobufStreamClient::send`. -/
def send (s : RelaySystem) (toRb : ToRefbox) : RelaySystem :=
  if (s.links s.plugin.client).Open then s.finish (.sent s.plugin.client toRb)
  else s.finish .raised

/-- A step of one of the threads, `none` where it cannot happen. -/
def step (cfg : RefboxConfig) (s : RelaySystem) : RelayStep → Option RelaySystem
  | .update time =>
    if s.updating then none
    else match s.plugin.update cfg time with
      | none => some s
      | some p => some (s.retry p)
  | .create => if s.updating then some s.create else none
  | .up i => if s.links i = .pending then some (s.setLink i .up) else none
  | .connected i => if s.links i = .up then some (s.connect i) else none
  -- also a second time: a write that was under way fails when the socket is closed
  | .down i =>
    if s.links i = .pending ∨ s.links i = .live ∨ s.links i = .dead then
      some (s.setLink i .down)
    else none
  | .disconnected i => if s.links i = .down then some (s.disconnect i) else none
  | .arrive msg => if s.handling = none then some (s.arrive msg) else none
  | .send => s.handling.map s.send

/-- After `Load`. -/
def start (time : ℚ) : RelaySystem where
  plugin := .load time
  updating := false
  links i := if i = 0 then .pending else .uncreated
  created := 1
  handling := none
  outcomes := []

end RelaySystem

/-- The plugin from its loading on, with every thread a step of its own. -/
def relaySystem (cfg : RefboxConfig) : LTS RelaySystem RelayStep where
  init s := ∃ time, s = .start time
  next := RelaySystem.step cfg

/-! ## The guard and the exception -/

namespace RelaySystem

/-- The plugin takes the current client for connected only while it is, or is about to
report that it is no longer; a handler that goes on to `send` will find it connected; and
none has failed to. -/
structure Guarded (s : RelaySystem) : Prop where
  flag : s.plugin.connected = true →
    (s.links s.plugin.client).Open ∨ s.links s.plugin.client = .down
  handling : s.handling.isSome = true → (s.links s.plugin.client).Open
  quiet : .raised ∉ s.outcomes

/-- The callbacks come in time: a replaced client does not report a connection while the
current one has none, the current client is neither replaced while the plugin is connected
nor lost or replaced within a handler, and no message arrives between its loss and the
report of it. Replies of machines arrive only while it is connected. -/
def InTime (s : RelaySystem) : RelayStep → Prop
  | .create => s.plugin.connected = false ∧ s.handling = none
  | .connected i => i = s.plugin.client ∨ (s.links s.plugin.client).Open ∨
      s.links s.plugin.client = .down
  | .down i => i = s.plugin.client → s.handling = none
  | .arrive msg => (msg.Unguarded → (s.links s.plugin.client).Open) ∧
      (s.plugin.connected = true → s.links s.plugin.client ≠ .down)
  | _ => True

instance (s : RelaySystem) : DecidablePred s.InTime
  | .create => inferInstanceAs (Decidable (_ ∧ _))
  | .connected _ => inferInstanceAs (Decidable (_ ∨ _ ∨ _))
  | .down _ => inferInstanceAs (Decidable (_ → _))
  | .arrive _ => inferInstanceAs (Decidable ((_ → _) ∧ (_ → _)))
  | .update _ | .up _ | .disconnected _ | .send => .isTrue trivial

/-- What a step does, and when it can happen. -/
inductive Stepped (cfg : RefboxConfig) (s : RelaySystem) : RelayStep → RelaySystem → Prop where
  | wait (time : ℚ) (hupdate : s.plugin.update cfg time = none) : Stepped cfg s (.update time) s
  | update (time : ℚ) (p : LlsfRefboxComm) (hupdate : s.plugin.update cfg time = some p) :
    Stepped cfg s (.update time) (s.retry p)
  | create (hupdating : s.updating = true) : Stepped cfg s .create s.create
  | up (i : ℕ) (hlink : s.links i = .pending) : Stepped cfg s (.up i) (s.setLink i .up)
  | connected (i : ℕ) (hlink : s.links i = .up) : Stepped cfg s (.connected i) (s.connect i)
  | down (i : ℕ) (hlink : s.links i = .pending ∨ s.links i = .live ∨ s.links i = .dead) :
    Stepped cfg s (.down i) (s.setLink i .down)
  | disconnected (i : ℕ) (hlink : s.links i = .down) :
    Stepped cfg s (.disconnected i) (s.disconnect i)
  | arrive (msg : RelayMsg) (hidle : s.handling = none) :
    Stepped cfg s (.arrive msg) (s.arrive msg)
  | send (toRb : ToRefbox) (hhandling : s.handling = some toRb) :
    Stepped cfg s .send (s.send toRb)

theorem stepped_of_step {cfg : RefboxConfig} {s s' : RelaySystem} {l : RelayStep}
    (hs : s.step cfg l = some s') : Stepped cfg s l s' := by
  cases l with
  | update time =>
    rw [step] at hs
    split_ifs at hs
    cases hupdate : s.plugin.update cfg time with
    | none =>
      rw [hupdate] at hs
      cases hs
      exact .wait time hupdate
    | some p =>
      rw [hupdate] at hs
      cases hs
      exact .update time p hupdate
  | send =>
    rw [step, Option.map_eq_some_iff] at hs
    obtain ⟨toRb, hhandling, rfl⟩ := hs
    exact .send toRb hhandling
  | _ =>
    rw [step] at hs
    split_ifs at hs with hcan
    cases hs
    constructor
    exact hcan

@[simp] theorem setLink_self (s : RelaySystem) (i : ℕ) (p : LinkPhase) :
    (s.setLink i p).links i = p := Function.update_self ..

theorem setLink_of_ne (s : RelaySystem) {i j : ℕ} (h : j ≠ i) (p : LinkPhase) :
    (s.setLink i p).links j = s.links j := Function.update_of_ne h ..

theorem guarded_start (time : ℚ) : Guarded (start time) := by
  refine ⟨nofun, nofun, ?_⟩
  exact List.not_mem_nil

namespace Guarded

variable {s s' : RelaySystem}

/-- A change of the clients that leaves the current one as it is. -/
theorem of_same (h : Guarded s) (hplugin : s'.plugin.connected = true → s.plugin.connected = true)
    (hclient : s'.links s'.plugin.client = s.links s.plugin.client)
    (hhandling : s'.handling = s.handling) (houtcomes : s'.outcomes = s.outcomes) :
    Guarded s' := by
  refine ⟨fun hflag => ?_, fun hsome => ?_, ?_⟩
  · rw [hclient]
    exact h.flag (hplugin hflag)
  · rw [hclient]
    exact h.handling (hhandling ▸ hsome)
  · rw [houtcomes]
    exact h.quiet

/-- The current client is connected, so that nothing else matters. -/
theorem of_open (h : Guarded s) (hopen : (s'.links s'.plugin.client).Open)
    (houtcomes : s'.outcomes = s.outcomes) : Guarded s' := by
  refine ⟨fun _ => .inl hopen, fun _ => hopen, ?_⟩
  rw [houtcomes]
  exact h.quiet

/-- No handler is under way, and the plugin knows that the current client is not connected. -/
theorem of_idle (h : Guarded s) (hflag : s'.plugin.connected = false)
    (hhandling : s'.handling = none) (houtcomes : s'.outcomes = s.outcomes) : Guarded s' := by
  refine ⟨fun hc => ?_, fun hsome => ?_, ?_⟩
  · rw [hflag] at hc
    cases hc
  · rw [hhandling] at hsome
    cases hsome
  · rw [houtcomes]
    exact h.quiet

/-- A handler comes to an end without an exception. -/
theorem finish (h : Guarded s) {o : RelayOutcome} (ho : o ≠ .raised) : Guarded (s.finish o) := by
  refine ⟨h.flag, nofun, fun hmem => ?_⟩
  rcases List.mem_append.mp hmem with hold | hnew
  · exact h.quiet hold
  · exact ho (List.mem_singleton.mp hnew).symm

theorem retry (h : Guarded s) {p : LlsfRefboxComm} {cfg : RefboxConfig} {time : ℚ}
    (hp : s.plugin.update cfg time = some p) : Guarded (s.retry p) := by
  have hsame : p.connected = s.plugin.connected ∧ p.client = s.plugin.client := by
    unfold LlsfRefboxComm.update at hp
    split_ifs at hp
    cases hp
    exact ⟨rfl, rfl⟩
  refine h.of_same (fun hflag => hsame.1 ▸ hflag) ?_ rfl rfl
  show s.links p.client = s.links s.plugin.client
  rw [hsame.2]

theorem create (h : Guarded s) (hflag : s.plugin.connected = false)
    (hhandling : s.handling = none) : Guarded s.create :=
  h.of_idle hflag hhandling rfl

theorem up {i : ℕ} (h : Guarded s) : Guarded (s.setLink i .up) := by
  by_cases hi : s.plugin.client = i
  · have hself : (s.setLink i .up).links s.plugin.client = .up := hi ▸ s.setLink_self _ _
    exact h.of_open (.inl hself) rfl
  · exact h.of_same id (s.setLink_of_ne hi _) rfl rfl

theorem connect {i : ℕ} (h : Guarded s) (hi : i = s.plugin.client ∨
    (s.links s.plugin.client).Open ∨ s.links s.plugin.client = .down) :
    Guarded (s.connect i) := by
  by_cases hcur : s.plugin.client = i
  · have hself : (s.connect i).links s.plugin.client = .live := hcur ▸ s.setLink_self _ _
    exact h.of_open (.inr hself) rfl
  · have hother : (s.connect i).links s.plugin.client = s.links s.plugin.client :=
      s.setLink_of_ne hcur _
    refine ⟨fun _ => ?_, fun hsome => ?_, h.quiet⟩
    · show ((s.connect i).links s.plugin.client).Open ∨ (s.connect i).links s.plugin.client = .down
      rw [hother]
      exact hi.resolve_left fun heq => hcur heq.symm
    · show ((s.connect i).links s.plugin.client).Open
      rw [hother]
      exact h.handling hsome

theorem down {i : ℕ} (h : Guarded s) (hi : i = s.plugin.client → s.handling = none) :
    Guarded (s.setLink i .down) := by
  by_cases hcur : s.plugin.client = i
  · have hself : (s.setLink i .down).links s.plugin.client = .down := hcur ▸ s.setLink_self _ _
    refine ⟨fun _ => .inr hself, fun hsome => ?_, h.quiet⟩
    have hnone : (s.setLink i .down).handling = none := hi hcur.symm
    rw [hnone] at hsome
    cases hsome
  · exact h.of_same id (s.setLink_of_ne hcur _) rfl rfl

theorem disconnect {i : ℕ} (h : Guarded s) (hdown : s.links i = .down) :
    Guarded (s.disconnect i) := by
  by_cases hcur : s.plugin.client = i
  · -- a handler under way would have found the client connected
    have hnone : s.handling = none := by
      cases hhandling : s.handling with
      | none => rfl
      | some toRb =>
        have hopen := h.handling (by rw [hhandling]; rfl)
        rw [hcur, hdown] at hopen
        exact absurd hopen (by decide)
    exact h.of_idle rfl hnone rfl
  · exact h.of_same (fun hflag => absurd hflag Bool.false_ne_true) (s.setLink_of_ne hcur _) rfl rfl

theorem arrive {msg : RelayMsg} (h : Guarded s)
    (hunguarded : msg.Unguarded → (s.links s.plugin.client).Open)
    (hdown : s.plugin.connected = true → s.links s.plugin.client ≠ .down) :
    Guarded (s.arrive msg) := by
  rw [RelaySystem.arrive]
  cases hmsg : s.plugin.relay msg with
  | none => exact h.finish nofun
  | some toRb =>
    have hgo := (s.plugin.relay_isSome msg).mp (by rw [hmsg]; rfl)
    refine h.of_open ?_ rfl
    rcases hgo with hflag | hmsg
    · exact (h.flag hflag).resolve_right (hdown hflag)
    · exact hunguarded hmsg

theorem send {toRb : ToRefbox} (h : Guarded s) (hhandling : s.handling = some toRb) :
    Guarded (s.send toRb) := by
  rw [RelaySystem.send, if_pos (h.handling (by rw [hhandling]; rfl))]
  exact h.finish nofun

/-- A step in time keeps the handlers safe. -/
theorem step {cfg : RefboxConfig} {l : RelayStep} (h : Guarded s) (htime : s.InTime l)
    (hs : s.step cfg l = some s') : Guarded s' := by
  cases stepped_of_step hs with
  | wait time hupdate => exact h
  | update time p hupdate => exact h.retry hupdate
  | create hupdating => exact h.create htime.1 htime.2
  | up i hlink => exact h.up
  | connected i hlink => exact h.connect htime
  | down i hlink => exact h.down htime
  | disconnected i hlink => exact h.disconnect hlink
  | arrive msg hidle => exact h.arrive htime.1 htime.2
  | send toRb hhandling => exact h.send hhandling

/-- A step that is not in time ends it. -/
theorem inTime {cfg : RefboxConfig} {l : RelayStep} (h' : Guarded s')
    (hs : s.step cfg l = some s') : s.InTime l := by
  cases stepped_of_step hs with
  | create hupdating =>
    have hself : s.create.links s.created = .pending := s.setLink_self _ _
    have hclosed : ¬ (s.create.links s.created).Open := by
      rw [hself]
      decide
    refine ⟨?_, ?_⟩
    -- the new client is not open yet, so no flag may say so
    · refine Bool.eq_false_of_not_eq_true fun hflag => ?_
      rcases h'.flag hflag with hopen | hdown
      · exact hclosed hopen
      · rw [show s.create.links s.create.plugin.client = .pending from hself] at hdown
        cases hdown
    · exact Option.not_isSome_iff_eq_none.mp fun hsome => hclosed (h'.handling hsome)
  | connected i hlink =>
    by_cases hcur : s.plugin.client = i
    · exact .inl hcur.symm
    · have hother : (s.connect i).links s.plugin.client = s.links s.plugin.client :=
        s.setLink_of_ne hcur _
      have hflag := h'.flag rfl
      rw [show (s.connect i).plugin.client = s.plugin.client from rfl, hother] at hflag
      exact .inr hflag
  | down i hlink =>
    rintro rfl
    have hself : (s.setLink s.plugin.client .down).links s.plugin.client = .down :=
      s.setLink_self _ _
    refine Option.not_isSome_iff_eq_none.mp fun hsome => ?_
    have hopen := h'.handling hsome
    rw [show (s.setLink s.plugin.client .down).plugin.client = s.plugin.client from rfl,
      hself] at hopen
    exact absurd hopen (by decide)
  | arrive msg hidle =>
    -- a message that gets through the guard is handled from now on
    have hopen : (s.plugin.connected = true ∨ msg.Unguarded) →
        (s.links s.plugin.client).Open := by
      intro hgo
      obtain ⟨toRb, htoRb⟩ := Option.isSome_iff_exists.mp ((s.plugin.relay_isSome msg).mpr hgo)
      have harrive : s.arrive msg = { s with handling := some toRb } := by
        rw [RelaySystem.arrive, htoRb]
      rw [harrive] at h'
      exact h'.handling rfl
    refine ⟨fun hmsg => hopen (.inr hmsg), fun hflag hdown => ?_⟩
    have hup := hopen (.inl hflag)
    rw [hdown] at hup
    exact absurd hup (by decide)
  | wait _ | update _ | up _ | disconnected _ | send _ => trivial

end Guarded

end RelaySystem

/-- Along every run in which the callbacks come in time no handler raises, and a further
step leaves the handlers safe exactly if it is in time. -/
theorem relay_never_raises (cfg : RefboxConfig) {s : RelaySystem}
    (h : (relaySystem cfg).Reach (fun s l => s.InTime l) s) :
    .raised ∉ s.outcomes ∧ ∀ l s', (relaySystem cfg).next s l = some s' →
      (s'.Guarded ↔ s.InTime l) := by
  have hinv : s.Guarded := by
    refine LTS.Reach.invariant (P := RelaySystem.Guarded) ?_ ?_ h
    · rintro _ ⟨time, rfl⟩
      exact RelaySystem.guarded_start time
    · exact fun s l s' hs htime hstep => hs.step htime hstep
  exact ⟨hinv.quiet, fun l s' hs =>
    ⟨fun h' => h'.inTime hs, fun htime => hinv.step htime hs⟩⟩

/-- A connection is established, used and lost, and what comes later is dropped. -/
def relayed : List RelayStep :=
  [.up 0, .arrive (.machineReply ⟨1, "C-BS", .FINISHED⟩), .send, .connected 0,
    .arrive (.setGameState ⟨.RUNNING⟩), .send, .down 0, .disconnected 0,
    .arrive (.setGamePhase ⟨.SETUP⟩)]

theorem relay_never_raises_relayed :
    ∃ s, (relaySystem shippedRefbox).Reach (fun s l => s.InTime l) s ∧
      s.outcomes.length = 3 ∧ .raised ∉ s.outcomes := by
  obtain ⟨s, hreach, hs⟩ :=
    LTS.exists_reach (T := relaySystem shippedRefbox) (C := fun s l => s.InTime l)
      (s := .start 0) (l := relayed) (p := fun s => decide (s.outcomes.length = 3))
      ⟨_, rfl⟩ (by decide +kernel) (by decide +kernel)
  exact ⟨s, hreach, of_decide_eq_true hs, (relay_never_raises shippedRefbox hreach).1⟩

/-- A machine replies before the refbox has accepted the connection. -/
theorem machineReply_raises :
    ¬ ∀ s, (relaySystem shippedRefbox).Reachable s → .raised ∉ s.outcomes := by
  intro h
  obtain ⟨s, hreach, hs⟩ :=
    LTS.exists_reachable (T := relaySystem shippedRefbox) (s := .start 0)
      (l := [.arrive (.machineReply ⟨1, "C-BS", .FINISHED⟩), .send])
      (p := fun s => decide (.raised ∈ s.outcomes)) ⟨_, rfl⟩ (by decide +kernel)
  exact h s hreach (of_decide_eq_true hs)

/-! ## The two views of the plugin -/

/-- What the transport thread sees of a client whose callbacks come at once. -/
def ClientPhase.link : ClientPhase → LinkPhase
  | .uncreated => .uncreated
  | .pending => .pending
  | .live => .live
  | .dead => .dead

/-- The plugin and its clients between two callbacks, with no handler under way. -/
def RefboxSystem.relay (s : RefboxSystem) : RelaySystem where
  plugin := s.plugin
  updating := s.updating
  links i := (s.clients i).phase.link
  created := s.created
  handling := none
  outcomes := []

/-- A step of the connection as steps of the threads. -/
def RefboxStep.threads : RefboxStep → List RelayStep
  | .update time => [.update time]
  | .create => [.create]
  | .connected i => [.up i, .connected i]
  | .disconnected i => [.down i, .disconnected i]
  | .received _ | .broadcast _ => []

/-- A client that goes through `p` to a new phase. -/
theorem RefboxSystem.relay_setClient (s : RefboxSystem) (i : ℕ) (p : LinkPhase)
    (c : StreamClient) :
    Function.update (Function.update s.relay.links i p) i c.phase.link =
      (s.setClient i c).relay.links := by
  funext j
  show _ = ((s.setClient i c).clients j).phase.link
  rw [Function.update_idem]
  by_cases hj : j = i
  · rw [hj, Function.update_self, setClient_self]
  · rw [Function.update_of_ne hj, setClient_of_ne s hj]
    rfl

/-- What the clients read and the refbox sends does not matter here. -/
theorem RefboxSystem.relay_congr {s s' : RefboxSystem} (hplugin : s'.plugin = s.plugin)
    (hupd : s'.updating = s.updating) (hcreated : s'.created = s.created)
    (hphase : ∀ i, (s'.clients i).phase = (s.clients i).phase) : s'.relay = s.relay := by
  have hlinks : s'.relay.links = s.relay.links := by
    funext i
    exact congrArg ClientPhase.link (hphase i)
  show RelaySystem.mk s'.plugin s'.updating s'.relay.links s'.created none [] = _
  rw [hplugin, hupd, hcreated, hlinks]
  rfl

/-- One step of the threads. -/
theorem exec_relay_single {cfg : RefboxConfig} (s : RelaySystem) (l : RelayStep) :
    (relaySystem cfg).exec s [l] = s.step cfg l := by
  rw [LTS.exec_cons]
  exact Option.bind_fun_some _

/-- Two steps of the threads. -/
theorem exec_relay_pair {cfg : RefboxConfig} {s t : RelaySystem} {l l' : RelayStep}
    (h : s.step cfg l = some t) : (relaySystem cfg).exec s [l, l'] = t.step cfg l' := by
  rw [LTS.exec_cons, show (relaySystem cfg).next s l = some t from h]
  exact exec_relay_single t l'

/-- A client that was created has a link. -/
theorem RefboxSystem.relay_links_of_created {s : RefboxSystem} {i : ℕ}
    (h : (s.clients i).phase ≠ .uncreated) :
    s.relay.links i = .pending ∨ s.relay.links i = .live ∨ s.relay.links i = .dead := by
  show (s.clients i).phase.link = .pending ∨ (s.clients i).phase.link = .live ∨
    (s.clients i).phase.link = .dead
  cases hp : (s.clients i).phase with
  | uncreated => exact absurd hp h
  | pending => exact .inl rfl
  | live => exact .inr (.inl rfl)
  | dead => exact .inr (.inr rfl)

/-- What `RefboxSystem` does in one step the threads do in the steps of `threads`. -/
theorem RefboxSystem.relay_step {cfg : RefboxConfig} {s s' : RefboxSystem} {l : RefboxStep}
    (hs : s.step cfg l = some s') :
    (relaySystem cfg).exec s.relay l.threads = some s'.relay := by
  cases stepped_of_step hs with
  | wait time hidle hupdate =>
    rw [RefboxStep.threads, exec_relay_single, RelaySystem.step,
      if_neg (show ¬ s.relay.updating = true from hidle),
      show s.relay.plugin.update cfg time = none from hupdate]
  | update time p hidle hupdate =>
    rw [RefboxStep.threads, exec_relay_single, RelaySystem.step,
      if_neg (show ¬ s.relay.updating = true from hidle),
      show s.relay.plugin.update cfg time = some p from hupdate]
    rfl
  -- each step of the coarse system is one or two of the fine one
  | create hupdating =>
    rw [RefboxStep.threads, exec_relay_single, RelaySystem.step,
      if_pos (show s.relay.updating = true from hupdating)]
    have hlinks := s.relay_setClient s.created .pending ⟨.pending, []⟩
    rw [Function.update_idem] at hlinks
    show some (RelaySystem.mk (s.plugin.createClient s.created) false
      (Function.update s.relay.links s.created .pending) (s.created + 1) none []) = _
    rw [show (LinkPhase.pending) = ClientPhase.pending.link from rfl, hlinks]
    rfl
  | connected i hpend =>
    have hlinks := s.relay_setClient i .up ⟨.live, []⟩
    -- the link first, then the signal
    have hup : s.relay.step cfg (.up i) = some (s.relay.setLink i .up) :=
      if_pos (congrArg ClientPhase.link hpend)
    have hlive : (s.relay.setLink i .up).step cfg (.connected i) =
        some ((s.relay.setLink i .up).connect i) :=
      if_pos (RelaySystem.setLink_self ..)
    rw [RefboxStep.threads, exec_relay_pair hup, hlive]
    show some (RelaySystem.mk s.plugin.clientConnected s.updating
      (Function.update (Function.update s.relay.links i .up) i ClientPhase.live.link)
      s.created none []) = _
    rw [hlinks]
    rfl
  | disconnected i hcreated =>
    have hlinks := s.relay_setClient i .down ⟨.dead, []⟩
    have hdown : s.relay.step cfg (.down i) = some (s.relay.setLink i .down) :=
      if_pos (relay_links_of_created hcreated)
    have hdead : (s.relay.setLink i .down).step cfg (.disconnected i) =
        some ((s.relay.setLink i .down).disconnect i) :=
      if_pos (RelaySystem.setLink_self ..)
    rw [RefboxStep.threads, exec_relay_pair hdown, hdead]
    show some (RelaySystem.mk s.plugin.clientDisconnected s.updating
      (Function.update (Function.update s.relay.links i .down) i ClientPhase.dead.link)
      s.created none []) = _
    rw [hlinks]
    rfl
  | received i n msg rest _ =>
    -- the messages to the plugin do not touch the link
    refine congrArg some (Eq.symm (s.relay_congr rfl rfl rfl fun j => ?_))
    by_cases hj : j = i
    · have hself : (s.receive i n msg rest).clients i = ⟨(s.clients i).phase, rest⟩ :=
        s.setClient_self _ _
      rw [hj, hself]
    · exact congrArg StreamClient.phase (s.setClient_of_ne hj _)
  | broadcast msg =>
    refine congrArg some (Eq.symm (s.relay_congr rfl rfl rfl fun j => ?_))
    show (if (s.clients j).phase = .live then _ else s.clients j : StreamClient).phase = _
    split_ifs
    · rfl
    · rfl

/-- Every run of `RefboxSystem` is one of the threads. -/
theorem RefboxSystem.relay_reachable {cfg : RefboxConfig} {s : RefboxSystem}
    (h : (refboxSystem cfg).Reachable s) : (relaySystem cfg).Reachable s.relay := by
  refine LTS.Reach.invariant (P := fun s => (relaySystem cfg).Reachable s.relay) ?_ ?_ h
  · rintro _ ⟨time, rfl⟩
    refine .init ⟨time, ?_⟩
    have hlinks : (start time).relay.links = (RelaySystem.start time).links := by
      funext i
      show ((start time).clients i).phase.link = if i = 0 then .pending else .uncreated
      rw [start_clients]
      split_ifs
      · rfl
      · rfl
    show RelaySystem.mk _ _ (start time).relay.links _ none [] = _
    rw [hlinks]
    rfl
  · exact fun s l s' hreach _ hs =>
      hreach.exec (LTS.meets_of_forall (fun _ _ _ => trivial) _) (relay_step hs)

end GazeboRcll
