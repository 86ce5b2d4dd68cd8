import GazeboRcll.Library.LTS
import GazeboRcll.Messages
import Mathlib.Algebra.Order.Field.Rat
import Mathlib.Logic.Function.Basic
import Mathlib.Tactic.Common

/-!
# The connection to the refbox

`LlsfRefboxCommPlugin` starts a connection attempt when it is loaded, and a new one every
few seconds while `connected_` is false. Each attempt has a `ProtobufStreamClient` of its
own, whose thread reports to the same three handlers however late; a client that has been
replaced is neither disconnected nor muted.

`connected_iff_live`: the flag tells whether the current client is connected, no other
client is, and no message of the refbox is republished twice, as long as replaced clients
keep quiet.
-/

namespace GazeboRcll

/-! ## The plugin -/

/-- Configuration values of `plugins/llsf-refbox-comm`; the interval is in seconds. -/
structure RefboxConfig where
  reconnectInterval : ℤ
  reconnectAttempts : ℤ

/-- The values of `cfg/config.yaml`. -/
def shippedRefbox : RefboxConfig where
  reconnectInterval := 10
  reconnectAttempts := 50

/-- The messages that the refbox sends. -/
inductive RefboxMsg where
  | machineInfo (msg : MachineInfo)
  | gameState (msg : GameState)
  | instructMachine (msg : InstructMachine)
  | other (typeName : String)
deriving DecidableEq

/-- The members of the plugin. -/
structure LlsfRefboxComm where
  connected : Bool
  connectTries : ℤ
  lastConnectTry : ℚ
  /-- `client_`, by its number among the clients created so far. -/
  client : ℕ

namespace LlsfRefboxComm

/-- `LlsfRefboxCommPlugin::Load` at a simulation time: the first client is created. -/
def load (time : ℚ) : LlsfRefboxComm where
  connected := false
  connectTries := 0
  lastConnectTry := time
  client := 0

/-- The tests of `LlsfRefboxCommPlugin::Update`, and the assignments before it creates a
new client; `none` if it does not get there. -/
def update (cfg : RefboxConfig) (time : ℚ) (p : LlsfRefboxComm) : Option LlsfRefboxComm :=
  if p.connected = false ∧ p.connectTries < cfg.reconnectAttempts then
    if time - p.lastConnectTry > cfg.reconnectInterval then
      some { p with connectTries := p.connectTries + 1, lastConnectTry := time }
    else none
  else none

/-- `LlsfRefboxCommPlugin::create_client`. The client before it is leaked. -/
def createClient (new : ℕ) (p : LlsfRefboxComm) : LlsfRefboxComm := { p with client := new }

/-- `LlsfRefboxCommPlugin::client_connected`. -/
def clientConnected (p : LlsfRefboxComm) : LlsfRefboxComm := { p with connected := true }

/-- `LlsfRefboxCommPlugin::client_disconnected`. -/
def clientDisconnected (p : LlsfRefboxComm) : LlsfRefboxComm := { p with connected := false }

/-- `LlsfRefboxCommPlugin::client_msg`: what it publishes on `machine_info_pub_`,
`game_state_pub_` or `instruct_machine_pub_`. -/
def clientMsg : RefboxMsg → List RefboxMsg
  | .other _ => []
  | msg => [msg]

end LlsfRefboxComm

/-! ## The clients and the refbox -/

/-- How far a `ProtobufStreamClient` has come: its `connected_` is true while it is live. -/
inductive ClientPhase where
  | uncreated
  /-- `async_connect` has not come to a result. -/
  | pending
  | live
  /-- The attempt has failed or the connection was lost. -/
  | dead
deriving DecidableEq, Repr

/-- A client with the messages it has yet to read, each with the number under which the
refbox sent it. -/
structure StreamClient where
  phase : ClientPhase
  unread : List (ℕ × RefboxMsg)
deriving DecidableEq

/-- The plugin, its clients and the refbox. -/
structure RefboxSystem where
  plugin : LlsfRefboxComm
  /-- The simulation thread is in `Update`, about to create a client. -/
  updating : Bool
  clients : ℕ → StreamClient
  created : ℕ
  /-- How many messages the refbox has sent. -/
  sent : ℕ
  /-- Messages republished to Gazebo, oldest first. -/
  published : List (ℕ × RefboxMsg)

/-- What the simulation thread, the threads of the clients and the refbox do. -/
inductive RefboxStep where
  /-- `Update` is called, up to the point where it creates a client. -/
  | update (time : ℚ)
  /-- `Update` goes on with `create_client` and `async_connect`. -/
  | create
  /-- `handle_connect` of a client without an error. -/
  | connected (i : ℕ)
  /-- A client reports an error to `client_disconnected`. -/
  | disconnected (i : ℕ)
  /-- A client reads a message. -/
  | received (i : ℕ)
  /-- The refbox sends a message to every client that is connected. -/
  | broadcast (msg : RefboxMsg)
deriving DecidableEq

namespace RefboxSystem

/-- Assignment to one client. -/
def setClient (s : RefboxSystem) (i : ℕ) (c : StreamClient) : RefboxSystem :=
  { s with clients := Function.update s.clients i c }

/-- `Update` has found that it is time for a new client. -/
def retry (s : RefboxSystem) (p : LlsfRefboxComm) : RefboxSystem :=
  { s with plugin := p, updating := true }

def create (s : RefboxSystem) : RefboxSystem :=
  { s.setClient s.created ⟨.pending, []⟩ with
    plugin := s.plugin.createClient s.created
    created := s.created + 1
    updating := false }

def connect (s : RefboxSystem) (i : ℕ) : RefboxSystem :=
  { s.setClient i ⟨.live, []⟩ with plugin := s.plugin.clientConnected }

/-- What a client that reports an error has not read is lost. -/
def disconnect (s : RefboxSystem) (i : ℕ) : RefboxSystem :=
  { s.setClient i ⟨.dead, []⟩ with plugin := s.plugin.clientDisconnected }

def receive (s : RefboxSystem) (i n : ℕ) (msg : RefboxMsg) (rest : List (ℕ × RefboxMsg)) :
    RefboxSystem :=
  { s.setClient i ⟨(s.clients i).phase, rest⟩ with
    published := s.published ++ (LlsfRefboxComm.clientMsg msg).map fun m => (n, m) }

def broadcast (s : RefboxSystem) (msg : RefboxMsg) : RefboxSystem :=
  { s with
    clients := fun i =>
      if (s.clients i).phase = .live then
        { s.clients i with unread := (s.clients i).unread ++ [(s.sent, msg)] }
      else s.clients i
    sent := s.sent + 1 }

/-- A step of a client, the plugin or the refbox, `none` where it cannot happen. -/
def step (cfg : RefboxConfig) (s : RefboxSystem) : RefboxStep → Option RefboxSystem
  | .update time =>
    if s.updating then none
    else match s.plugin.update cfg time with
      | none => some s
      | some p => some (s.retry p)
  | .create => if s.updating then some s.create else none
  | .connected i => if (s.clients i).phase = .pending then some (s.connect i) else none
  -- also a second time: a write that was under way fails when the socket is closed
  | .disconnected i => if (s.clients i).phase = .uncreated then none else some (s.disconnect i)
  | .received i =>
    match (s.clients i).unread with
    | [] => none
    | (n, msg) :: rest => some (s.receive i n msg rest)
  | .broadcast msg => some (s.broadcast msg)

/-- After `Load`: the first client is under way. -/
def start (time : ℚ) : RefboxSystem where
  plugin := .load time
  updating := false
  clients i := if i = 0 then ⟨.pending, []⟩ else ⟨.uncreated, []⟩
  created := 1
  sent := 0
  published := []

end RefboxSystem

/-- The plugin from its loading on. -/
def refboxSystem (cfg : RefboxConfig) : LTS RefboxSystem RefboxStep where
  init s := ∃ time, s = .start time
  next := RefboxSystem.step cfg

/-! ## The connection flag -/

namespace RefboxSystem

/-- A client is connected to the refbox. -/
def Live (s : RefboxSystem) (i : ℕ) : Prop := (s.clients i).phase = .live

instance (s : RefboxSystem) : DecidablePred s.Live :=
  fun _ => inferInstanceAs (Decidable (_ = _))

/-- The flag tells whether the current client is connected, no other one is, and no message
has been republished twice. -/
structure Truthful (s : RefboxSystem) : Prop where
  flag : s.plugin.connected = true ↔ s.Live s.plugin.client
  unique : ∀ i j, s.Live i → s.Live j → i = j
  once : (s.published.map Prod.fst).Nodup

/-- No replaced client connects, none reports an error while the plugin is connected, and
no client connects while `Update` is about to create another. -/
def ReplacedQuiet (s : RefboxSystem) : RefboxStep → Prop
  | .connected i => i = s.plugin.client
  | .disconnected i => i = s.plugin.client ∨ s.plugin.connected = false
  | .create => s.plugin.connected = false
  | _ => True

instance (s : RefboxSystem) : DecidablePred s.ReplacedQuiet
  | .connected _ => inferInstanceAs (Decidable (_ = _))
  | .disconnected _ => inferInstanceAs (Decidable (_ ∨ _))
  | .create => inferInstanceAs (Decidable (_ = _))
  | .update _ | .received _ | .broadcast _ => .isTrue trivial

/-- The numbers of the messages that are republished or wait to be read by a client. -/
def numbers (s : RefboxSystem) (i : ℕ) : List ℕ :=
  (s.published ++ (s.clients i).unread).map Prod.fst

/-- Only the current client can be connected, and the messages it has read and will read
come in the order in which they were sent. -/
structure CurrentOnly (s : RefboxSystem) : Prop where
  flag : s.plugin.connected = true ↔ s.Live s.plugin.client
  current : ∀ i, s.Live i → i = s.plugin.client
  unread : ∀ i, ¬ s.Live i → (s.clients i).unread = []
  ordered : (s.numbers s.plugin.client).Pairwise (· < ·)
  sent : ∀ n ∈ s.numbers s.plugin.client, n < s.sent

/-- What a step does, and when it can happen. -/
inductive Stepped (cfg : RefboxConfig) (s : RefboxSystem) : RefboxStep → RefboxSystem → Prop where
  | wait (time : ℚ) (hidle : ¬ s.updating = true) (hupdate : s.plugin.update cfg time = none) :
    Stepped cfg s (.update time) s
  | update (time : ℚ) (p : LlsfRefboxComm) (hidle : ¬ s.updating = true)
    (hupdate : s.plugin.update cfg time = some p) : Stepped cfg s (.update time) (s.retry p)
  | create (hupdating : s.updating = true) : Stepped cfg s .create s.create
  | connected (i : ℕ) (hphase : (s.clients i).phase = .pending) :
    Stepped cfg s (.connected i) (s.connect i)
  | disconnected (i : ℕ) (hphase : ¬ (s.clients i).phase = .uncreated) :
    Stepped cfg s (.disconnected i) (s.disconnect i)
  | received (i n : ℕ) (msg : RefboxMsg) (rest : List (ℕ × RefboxMsg))
    (hread : (s.clients i).unread = (n, msg) :: rest) :
    Stepped cfg s (.received i) (s.receive i n msg rest)
  | broadcast (msg : RefboxMsg) : Stepped cfg s (.broadcast msg) (s.broadcast msg)

theorem stepped_of_step {cfg : RefboxConfig} {s s' : RefboxSystem} {l : RefboxStep}
    (hs : s.step cfg l = some s') : Stepped cfg s l s' := by
  cases l with
  | update time =>
    rw [step] at hs
    split_ifs at hs with hidle
    cases hupdate : s.plugin.update cfg time with
    | none =>
      rw [hupdate] at hs
      cases hs
      exact .wait time hidle hupdate
    | some p =>
      rw [hupdate] at hs
      cases hs
      exact .update time p hidle hupdate
  | received i =>
    rw [step] at hs
    cases hread : (s.clients i).unread with
    | nil =>
      rw [hread] at hs
      cases hs
    | cons m rest =>
      rw [hread] at hs
      cases hs
      exact .received i m.1 m.2 rest hread
  | broadcast msg =>
    cases hs
    exact .broadcast msg
  | _ =>
    rw [step] at hs
    split_ifs at hs with hcan
    cases hs
    constructor
    exact hcan

@[simp] theorem setClient_self (s : RefboxSystem) (i : ℕ) (c : StreamClient) :
    (s.setClient i c).clients i = c := Function.update_self ..

theorem setClient_of_ne (s : RefboxSystem) {i j : ℕ} (h : j ≠ i) (c : StreamClient) :
    (s.setClient i c).clients j = s.clients j := Function.update_of_ne h ..

theorem CurrentOnly.truthful {s : RefboxSystem} (h : CurrentOnly s) : Truthful s := by
  refine ⟨h.flag, fun i j hi hj => (h.current i hi).trans (h.current j hj).symm, ?_⟩
  have hpub : (s.published.map Prod.fst).Pairwise (· < ·) := by
    have hord := h.ordered
    rw [numbers, List.map_append, List.pairwise_append] at hord
    exact hord.1
  exact hpub.imp Nat.ne_of_lt

theorem start_clients (time : ℚ) (i : ℕ) :
    (start time).clients i = if i = 0 then ⟨.pending, []⟩ else ⟨.uncreated, []⟩ :=
  rfl

theorem currentOnly_start (time : ℚ) : CurrentOnly (start time) := by
  have hnone : ∀ i, ¬ (start time).Live i := by
    intro i hi
    rw [Live, start_clients] at hi
    split_ifs at hi
  have hunread : ∀ i, ((start time).clients i).unread = [] := by
    intro i
    rw [start_clients]
    split_ifs <;> rfl
  refine ⟨iff_of_false nofun (hnone _), fun i hi => absurd hi (hnone i), fun i _ => hunread i,
    ?_, ?_⟩
  · rw [numbers, hunread]
    exact .nil
  · rw [numbers, hunread]
    exact nofun

namespace CurrentOnly

variable {s s' : RefboxSystem}

theorem not_live (h : CurrentOnly s) (hflag : s.plugin.connected = false) (i : ℕ) :
    ¬ s.Live i := by
  intro hi
  have hcur : s.Live s.plugin.client := h.current i hi ▸ hi
  rw [← h.flag, hflag] at hcur
  cases hcur

/-- What is left when messages are only taken away is in order. -/
theorem of_sublist (h : CurrentOnly s)
    (hflag : s'.plugin.connected = true ↔ s'.Live s'.plugin.client)
    (hcurrent : ∀ i, s'.Live i → i = s'.plugin.client)
    (hunread : ∀ i, ¬ s'.Live i → (s'.clients i).unread = []) (hsent : s'.sent = s.sent)
    (hsub : (s'.numbers s'.plugin.client).Sublist (s.numbers s.plugin.client)) :
    CurrentOnly s' := by
  refine ⟨hflag, hcurrent, hunread, h.ordered.sublist hsub, fun n hn => ?_⟩
  rw [hsent]
  exact h.sent n (hsub.subset hn)

/-- With no client connected and nothing left to read only what was published counts. -/
theorem of_all_down (h : CurrentOnly s) (hflag : s'.plugin.connected = false)
    (hclients : ∀ i, ¬ s'.Live i ∧ (s'.clients i).unread = [])
    (hpublished : s'.published = s.published) (hsent : s'.sent = s.sent) : CurrentOnly s' := by
  have hnone : ¬ s'.plugin.connected = true := by
    rw [hflag]
    exact Bool.false_ne_true
  refine h.of_sublist (iff_of_false hnone (hclients _).1) (fun i hi => absurd hi (hclients i).1)
    (fun i _ => (hclients i).2) hsent ?_
  rw [numbers, numbers, (hclients _).2, hpublished, List.append_nil, List.map_append]
  exact List.sublist_append_left ..

theorem retry {p : LlsfRefboxComm} {cfg : RefboxConfig} {time : ℚ} (h : CurrentOnly s)
    (hp : s.plugin.update cfg time = some p) : CurrentOnly (s.retry p) := by
  have hsame : p.connected = s.plugin.connected ∧ p.client = s.plugin.client := by
    unfold LlsfRefboxComm.update at hp
    split_ifs at hp
    cases hp
    exact ⟨rfl, rfl⟩
  have hclient : (s.retry p).plugin.client = s.plugin.client := hsame.2
  refine h.of_sublist ?_ ?_ h.unread rfl ?_
  · rw [hclient]
    exact hsame.1 ▸ h.flag
  · rw [hclient]
    exact h.current
  · rw [hclient]
    exact .refl _

/-- A client that is not connected takes the place of the current one, which is not
connected either. -/
theorem create (h : CurrentOnly s) (hflag : s.plugin.connected = false) :
    CurrentOnly s.create := by
  refine h.of_all_down hflag (fun i => ?_) rfl rfl
  show ¬ s.create.Live i ∧ (s.create.clients i).unread = []
  by_cases hi : i = s.created
  · have hself : s.create.clients i = ⟨.pending, []⟩ := hi ▸ s.setClient_self _ _
    rw [Live, hself]
    exact ⟨nofun, rfl⟩
  · have hother : s.create.clients i = s.clients i := s.setClient_of_ne hi _
    rw [Live, hother]
    exact ⟨h.not_live hflag i, h.unread i (h.not_live hflag i)⟩

theorem connect (h : CurrentOnly s) (hpend : (s.clients s.plugin.client).phase = .pending) :
    CurrentOnly (s.connect s.plugin.client) := by
  have hself : (s.connect s.plugin.client).clients s.plugin.client = ⟨.live, []⟩ :=
    s.setClient_self _ _
  have hother : ∀ i, i ≠ s.plugin.client → ¬ (s.connect s.plugin.client).Live i ∧
      ((s.connect s.plugin.client).clients i).unread = [] := by
    intro i hi
    have heq : (s.connect s.plugin.client).clients i = s.clients i := s.setClient_of_ne hi _
    have hdown : ¬ s.Live i := fun hlive => hi (h.current i hlive)
    rw [Live, heq]
    exact ⟨hdown, h.unread i hdown⟩
  have hunread : (s.clients s.plugin.client).unread = [] :=
    h.unread _ (by rw [Live, hpend]; exact nofun)
  have hlive : (s.connect s.plugin.client).Live s.plugin.client := by
    rw [Live, hself]
  refine h.of_sublist (iff_of_true rfl hlive) (fun i hi => ?_) (fun i hi => ?_) rfl ?_
  · exact not_not.mp fun hne => (hother i hne).1 hi
  · by_cases hcur : i = s.plugin.client
    · exact absurd (hcur ▸ hlive) hi
    · exact (hother i hcur).2
  · have hnum : (s.connect s.plugin.client).numbers s.plugin.client
        = s.numbers s.plugin.client := by
      rw [numbers, numbers, hself, hunread]
      rfl
    exact hnum ▸ .refl _

theorem disconnect {i : ℕ} (h : CurrentOnly s)
    (hi : i = s.plugin.client ∨ s.plugin.connected = false) : CurrentOnly (s.disconnect i) := by
  refine h.of_all_down rfl (fun j => ?_) rfl rfl
  show ¬ (s.disconnect i).Live j ∧ ((s.disconnect i).clients j).unread = []
  by_cases hj : j = i
  · have hself : (s.disconnect i).clients j = ⟨.dead, []⟩ := hj ▸ s.setClient_self _ _
    rw [Live, hself]
    exact ⟨nofun, rfl⟩
  · have hother : (s.disconnect i).clients j = s.clients j := s.setClient_of_ne hj _
    have hdown : ¬ s.Live j := by
      rcases hi with rfl | hflag
      · exact fun hlive => hj (h.current j hlive)
      · exact h.not_live hflag j
    rw [Live, hother]
    exact ⟨hdown, h.unread j hdown⟩

theorem receive {i n : ℕ} {msg : RefboxMsg} {rest : List (ℕ × RefboxMsg)} (h : CurrentOnly s)
    (hread : (s.clients i).unread = (n, msg) :: rest) :
    CurrentOnly (s.receive i n msg rest) := by
  -- only a client that is connected has something to read
  have hlive : s.Live i := by
    by_contra hdown
    rw [h.unread i hdown] at hread
    cases hread
  obtain rfl : i = s.plugin.client := h.current i hlive
  have hself : (s.receive s.plugin.client n msg rest).clients s.plugin.client
      = ⟨(s.clients s.plugin.client).phase, rest⟩ := s.setClient_self _ _
  have hother : ∀ j, j ≠ s.plugin.client →
      (s.receive s.plugin.client n msg rest).clients j = s.clients j :=
    fun j hj => s.setClient_of_ne hj _
  have hsame : ∀ j, (s.receive s.plugin.client n msg rest).Live j ↔ s.Live j := by
    intro j
    by_cases hj : j = s.plugin.client
    · rw [Live, hj, hself, Live]
    · rw [Live, hother j hj, Live]
  refine h.of_sublist (h.flag.trans (hsame _).symm) (fun j hj => h.current j ((hsame j).mp hj))
    (fun j hj => ?_) rfl ?_
  · have hdown : ¬ s.Live j := fun hup => hj ((hsame j).mpr hup)
    have hne : j ≠ s.plugin.client := fun heq => hdown (heq ▸ hlive)
    rw [hother j hne]
    exact h.unread j hdown
  · -- the message goes from the unread ones to the published ones, or is dropped
    have hpub : (LlsfRefboxComm.clientMsg msg).map (fun m => (n, m)) = [(n, msg)] ∨
        (LlsfRefboxComm.clientMsg msg).map (fun m => (n, m)) = [] := by
      cases msg with
      | other typeName => exact .inr rfl
      | _ => exact .inl rfl
    have hnum : (s.receive s.plugin.client n msg rest).numbers s.plugin.client =
        (s.published ++ ((LlsfRefboxComm.clientMsg msg).map fun m => (n, m)) ++ rest).map
          Prod.fst := by
      rw [numbers, hself]
      rfl
    rw [show (s.receive s.plugin.client n msg rest).plugin.client = s.plugin.client from rfl, hnum,
      numbers, hread]
    refine List.Sublist.map _ ?_
    rcases hpub with hpub | hpub
    · rw [hpub, List.append_assoc]
      exact .refl _
    · rw [hpub, List.append_nil]
      exact (List.sublist_cons_self _ _).append_left _

theorem broadcast (h : CurrentOnly s) (msg : RefboxMsg) : CurrentOnly (s.broadcast msg) := by
  have hup : ∀ i, s.Live i → (s.broadcast msg).clients i =
      { s.clients i with unread := (s.clients i).unread ++ [(s.sent, msg)] } :=
    fun _ hi => if_pos hi
  have hdown : ∀ i, ¬ s.Live i → (s.broadcast msg).clients i = s.clients i := fun _ hi => if_neg hi
  -- the message goes to the queues of the live clients, and nothing else changes
  have hsame : ∀ i, (s.broadcast msg).Live i ↔ s.Live i := by
    intro i
    by_cases hi : s.Live i
    · rw [Live, hup i hi, Live]
    · rw [Live, hdown i hi, Live]
  -- its number is beyond all that were sent
  have hnum : (s.broadcast msg).numbers s.plugin.client = s.numbers s.plugin.client ∨
      (s.broadcast msg).numbers s.plugin.client = s.numbers s.plugin.client ++ [s.sent] := by
    by_cases hcur : s.Live s.plugin.client
    · right
      rw [numbers, hup _ hcur, numbers]
      simp [RefboxSystem.broadcast]
    · left
      rw [numbers, hdown _ hcur, numbers]
      rfl
  refine ⟨h.flag.trans (hsame _).symm, fun i hi => h.current i ((hsame i).mp hi),
    fun i hi => ?_, ?_, ?_⟩
  · have hi : ¬ s.Live i := fun hlive => hi ((hsame i).mpr hlive)
    rw [hdown i hi]
    exact h.unread i hi
  · show ((s.broadcast msg).numbers s.plugin.client).Pairwise (· < ·)
    rcases hnum with hnum | hnum
    · rw [hnum]
      exact h.ordered
    · rw [hnum, List.pairwise_append]
      refine ⟨h.ordered, List.pairwise_singleton _ _, fun n hn m hm => ?_⟩
      rw [List.mem_singleton.mp hm]
      exact h.sent n hn
  · show ∀ n ∈ (s.broadcast msg).numbers s.plugin.client, n < s.sent + 1
    intro n hn
    rcases hnum with hnum | hnum
    · rw [hnum] at hn
      exact Nat.lt_succ_of_lt (h.sent n hn)
    · rw [hnum, List.mem_append, List.mem_singleton] at hn
      rcases hn with hn | rfl
      · exact Nat.lt_succ_of_lt (h.sent n hn)
      · exact Nat.lt_succ_self _

end CurrentOnly

/-- A step keeps the invariant if it meets the condition. -/
theorem CurrentOnly.step {cfg : RefboxConfig} {s s' : RefboxSystem} {l : RefboxStep}
    (h : CurrentOnly s) (hquiet : s.ReplacedQuiet l) (hs : s.step cfg l = some s') :
    CurrentOnly s' := by
  cases stepped_of_step hs with
  | wait _ _ _ => exact h
  | update _ p _ hupdate => exact h.retry hupdate
  | create _ => exact h.create hquiet
  | connected i hphase =>
    obtain rfl : i = s.plugin.client := hquiet
    exact h.connect hphase
  | disconnected i _ => exact h.disconnect hquiet
  | received i n msg rest hread => exact h.receive hread
  | broadcast msg => exact h.broadcast msg

/-- A step that breaks the condition breaks the property. -/
theorem CurrentOnly.quiet_of_truthful {cfg : RefboxConfig} {s s' : RefboxSystem}
    {l : RefboxStep} (h : CurrentOnly s) (hs : s.step cfg l = some s') (ht : Truthful s') :
    s.ReplacedQuiet l := by
  cases stepped_of_step hs with
  | create _ =>
    -- the new client is not connected
    have hself : s.create.clients s.created = ⟨.pending, []⟩ := s.setClient_self _ _
    have hdown : ¬ s.create.Live s.created := by
      rw [Live, hself]
      exact nofun
    exact Bool.eq_false_of_not_eq_true fun hflag => hdown (ht.flag.mp hflag)
  | connected i _ =>
    have hself : (s.connect i).clients i = ⟨.live, []⟩ := s.setClient_self _ _
    have hlive : (s.connect i).Live i := by
      rw [Live, hself]
    -- the flag is raised, so the current client is connected too
    exact ht.unique i _ hlive (ht.flag.mp rfl)
  | disconnected i _ =>
    by_cases hcur : i = s.plugin.client
    · exact .inl hcur
    · right
      have hsame : (s.disconnect i).clients s.plugin.client = s.clients s.plugin.client :=
        s.setClient_of_ne (Ne.symm hcur) _
      refine Bool.eq_false_of_not_eq_true fun hflag => ?_
      have hlive : (s.disconnect i).Live s.plugin.client := by
        rw [Live, hsame]
        exact h.flag.mp hflag
      have hup := ht.flag.mpr hlive
      cases hup
  | wait _ _ _ | update _ _ _ _ | received _ _ _ _ _ | broadcast _ => trivial

end RefboxSystem

/-- Along every run in which the replaced clients keep quiet the connection flag is
truthful, and a further step leaves it so exactly if they do. -/
theorem connected_iff_live (cfg : RefboxConfig) {s : RefboxSystem}
    (h : (refboxSystem cfg).Reach (fun s l => s.ReplacedQuiet l) s) :
    s.Truthful ∧ ∀ l s', (refboxSystem cfg).next s l = some s' →
      (s'.Truthful ↔ s.ReplacedQuiet l) := by
  have hinv : s.CurrentOnly := by
    refine LTS.Reach.invariant (P := RefboxSystem.CurrentOnly) ?_ ?_ h
    · rintro _ ⟨time, rfl⟩
      exact RefboxSystem.currentOnly_start time
    · exact fun s l s' hs hquiet hstep => hs.step hquiet hstep
  exact ⟨hinv.truthful, fun l s' hs =>
    ⟨hinv.quiet_of_truthful hs, fun hquiet => (hinv.step hquiet hs).truthful⟩⟩

/-- The first attempt fails, the second one succeeds, and the refbox starts the game. -/
def secondAttempt : List RefboxStep :=
  [.update 5, .disconnected 0, .update 11, .create, .connected 1,
    .broadcast (.gameState ⟨.SETUP⟩), .received 1]

theorem connected_iff_live_second :
    ∃ s, (refboxSystem shippedRefbox).Reach (fun s l => s.ReplacedQuiet l) s ∧
      s.published.length = 1 ∧ s.Truthful := by
  obtain ⟨s, hreach, hs⟩ :=
    LTS.exists_reach (T := refboxSystem shippedRefbox) (C := fun s l => s.ReplacedQuiet l)
      (s := .start 0) (l := secondAttempt) (p := fun s => decide (s.published.length = 1))
      ⟨_, rfl⟩ (by decide +kernel) (by decide +kernel)
  exact ⟨s, hreach, of_decide_eq_true hs, (connected_iff_live shippedRefbox hreach).1⟩

/-- The first client is slow to connect and a second one has been created meanwhile: both
connect, and both hand on the message of the refbox. -/
theorem message_republished_twice :
    ¬ ∀ s, (refboxSystem shippedRefbox).Reachable s → s.Truthful := by
  intro h
  obtain ⟨s, hreach, hs⟩ :=
    LTS.exists_reachable (T := refboxSystem shippedRefbox) (s := .start 0)
      (l := [.update 11, .create, .connected 0, .connected 1,
        .broadcast (.gameState ⟨.SETUP⟩), .received 0, .received 1])
      (p := fun s => decide (¬ (s.published.map Prod.fst).Nodup)) ⟨_, rfl⟩ (by decide +kernel)
  exact of_decide_eq_true hs (h s hreach).once

/-! ## The reconnect budget -/

/-- Attempts that `Update` has started: in all, and since a connection was last
established. -/
structure AttemptCount where
  started : ℕ
  sinceConnected : ℕ

/-- The attempts of a run, counted where `Update` decides for one. -/
def attemptMonitor : Monitor RefboxSystem RefboxStep AttemptCount where
  start _ := ⟨0, 0⟩
  observe n _ l s' :=
    match l with
    | .update _ => if s'.updating then ⟨n.started + 1, n.sinceConnected + 1⟩ else n
    | .connected _ => { n with sinceConnected := 0 }
    | _ => n

namespace RefboxSystem

/-- The next `Update`, at that time, creates a client that tries to connect. -/
def StartsAttempt (cfg : RefboxConfig) (s : RefboxSystem) (time : ℚ) : Prop :=
  ∃ s', (refboxSystem cfg).exec s [.update time, .create] = some s' ∧
    s'.created = s.created + 1

/-- The plugin is disconnected, and fewer attempts than configured were started since it
last was not. -/
def HasBudget (cfg : RefboxConfig) (s : RefboxSystem) (n : AttemptCount) : Prop :=
  s.updating = false ∧ s.plugin.connected = false ∧
    (n.sinceConnected : ℤ) < cfg.reconnectAttempts

/-- A plugin that has budget left starts an attempt as soon as the interval is over. -/
def BudgetHonoured (cfg : RefboxConfig) (s : RefboxSystem) (n : AttemptCount) : Prop :=
  s.HasBudget cfg n → ∀ time, time - s.plugin.lastConnectTry > cfg.reconnectInterval →
    s.StartsAttempt cfg time

/-- `connect_tries_` is never reset: it counts all the attempts since `Load`. -/
theorem connectTries_eq_started {cfg : RefboxConfig} {s : RefboxSystem} {n : AttemptCount}
    (h : ((refboxSystem cfg).watch attemptMonitor).Reachable (s, n)) :
    s.plugin.connectTries = n.started := by
  refine LTS.Reach.watch_invariant (P := fun s n => s.plugin.connectTries = n.started)
    ?_ ?_ h
  · rintro _ ⟨time, rfl⟩
    rfl
  · intro s n l s' htries _ hs
    cases stepped_of_step hs with
    | wait time hidle _ =>
      show s.plugin.connectTries =
        (if s.updating then ⟨n.started + 1, n.sinceConnected + 1⟩ else n : AttemptCount).started
      rw [if_neg hidle]
      exact htries
    | update time p _ hupdate =>
      have hone : p.connectTries = s.plugin.connectTries + 1 := by
        unfold LlsfRefboxComm.update at hupdate
        split_ifs at hupdate
        cases hupdate
        rfl
      show p.connectTries = ((n.started + 1 : ℕ) : ℤ)
      rw [hone, htries, Nat.cast_succ]
    | create _ | connected _ _ | disconnected _ _ | received _ _ _ _ _ | broadcast _ => exact htries

theorem startsAttempt_iff {cfg : RefboxConfig} {s : RefboxSystem} {time : ℚ}
    (hupd : s.updating = false) :
    s.StartsAttempt cfg time ↔ (s.plugin.update cfg time).isSome = true := by
  have hstep : (refboxSystem cfg).next s (.update time) =
      match s.plugin.update cfg time with
      | none => some s
      | some p => some (s.retry p) := by
    show s.step cfg (.update time) = _
    rw [step, if_neg (by rw [hupd]; exact Bool.false_ne_true)]
  rw [StartsAttempt, LTS.exec_cons, hstep]
  cases hp : s.plugin.update cfg time with
  | none =>
    -- without an attempt there is nothing to go on with
    have hnone : (refboxSystem cfg).exec s [.create] = none := by
      show (if s.updating then some s.create else none : Option RefboxSystem).bind _ = none
      rw [hupd]
      rfl
    refine iff_of_false ?_ Bool.false_ne_true
    rintro ⟨s', hs', -⟩
    rw [Option.bind_some, hnone] at hs'
    cases hs'
  | some p => exact iff_of_true ⟨(s.retry p).create, rfl, rfl⟩ rfl

end RefboxSystem

/-- In every reachable state the plugin honours its budget exactly if, where it has some
left since the last connection, it also has some left since it was loaded. -/
theorem budgetHonoured_iff (cfg : RefboxConfig) {s : RefboxSystem} {n : AttemptCount}
    (h : ((refboxSystem cfg).watch attemptMonitor).Reachable (s, n)) :
    s.BudgetHonoured cfg n ↔
      (s.HasBudget cfg n → (n.started : ℤ) < cfg.reconnectAttempts) := by
  have htries := RefboxSystem.connectTries_eq_started h
  have hupdate : s.HasBudget cfg n →
      ∀ time, time - s.plugin.lastConnectTry > cfg.reconnectInterval →
        (s.StartsAttempt cfg time ↔ (n.started : ℤ) < cfg.reconnectAttempts) := by
    intro hbudget time htime
    rw [RefboxSystem.startsAttempt_iff hbudget.1, LlsfRefboxComm.update, htries]
    by_cases hmore : (n.started : ℤ) < cfg.reconnectAttempts
    · rw [if_pos ⟨hbudget.2.1, hmore⟩, if_pos htime]
      exact iff_of_true rfl hmore
    · rw [if_neg fun hc => hmore hc.2]
      exact iff_of_false Bool.false_ne_true hmore
  constructor
  · intro hhon hbudget
    have hlate : s.plugin.lastConnectTry + (cfg.reconnectInterval + 1)
        - s.plugin.lastConnectTry > cfg.reconnectInterval := by
      rw [add_sub_cancel_left]
      exact lt_add_one _
    exact (hupdate hbudget _ hlate).mp (hhon hbudget _ hlate)
  · intro hcond hbudget time htime
    exact (hupdate hbudget time htime).mpr (hcond hbudget)

/-- One attempt of `Update` has succeeded and its connection is lost again. -/
theorem budgetHonoured_iff_second :
    ∃ s n, ((refboxSystem shippedRefbox).watch attemptMonitor).Reachable (s, n) ∧
      s.HasBudget shippedRefbox n ∧ s.BudgetHonoured shippedRefbox n := by
  obtain ⟨⟨s, n⟩, hreach, hs⟩ :=
    LTS.exists_reachable (T := (refboxSystem shippedRefbox).watch attemptMonitor)
      (s := (.start 0, ⟨0, 0⟩)) (l := secondAttempt ++ [.disconnected 1])
      (p := fun p => decide ((p.1.updating = false ∧ p.1.plugin.connected = false ∧
        (p.2.sinceConnected : ℤ) < 50) ∧ p.2.started = 1))
      ⟨⟨_, rfl⟩, rfl⟩ (by decide +kernel)
  obtain ⟨hbudget, hone⟩ := of_decide_eq_true hs
  have hmore : (n.started : ℤ) < shippedRefbox.reconnectAttempts := by
    rw [show n.started = 1 from hone]
    decide
  exact ⟨s, n, hreach, hbudget, (budgetHonoured_iff shippedRefbox hreach).mpr fun _ => hmore⟩

/-- The refbox is restarted again and again: every attempt succeeds at once, and its
connection is lost before the next one. -/
def restarts : ℕ → List RefboxStep
  | 0 => [.connected 0, .disconnected 0]
  | k + 1 => restarts k ++
      [.update (11 * (k + 1)), .create, .connected (k + 1), .disconnected (k + 1)]

/-- After fifty restarts of the refbox the plugin never connects again. -/
theorem no_attempt_after_fifty :
    ¬ ∀ s n, ((refboxSystem shippedRefbox).watch attemptMonitor).Reachable (s, n) →
      s.BudgetHonoured shippedRefbox n := by
  intro h
  obtain ⟨⟨s, n⟩, hreach, hs⟩ :=
    LTS.exists_reachable (T := (refboxSystem shippedRefbox).watch attemptMonitor)
      (s := (.start 0, ⟨0, 0⟩)) (l := restarts 50)
      (p := fun p => decide ((p.1.updating = false ∧ p.1.plugin.connected = false ∧
        (p.2.sinceConnected : ℤ) < 50) ∧ 1000 - p.1.plugin.lastConnectTry > 10 ∧
        (p.1.plugin.update shippedRefbox 1000).isSome = false))
      ⟨⟨_, rfl⟩, rfl⟩ (by decide +kernel)
  obtain ⟨hbudget, htime, hnone⟩ := of_decide_eq_true hs
  have hstarts := (RefboxSystem.startsAttempt_iff hbudget.1).mp
    (h s n hreach hbudget 1000 htime)
  rw [hnone] at hstarts
  cases hstarts

end GazeboRcll
