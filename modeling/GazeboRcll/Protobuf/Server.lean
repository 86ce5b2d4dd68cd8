import GazeboRcll.Library.LTS
import GazeboRcll.Library.Loop
import GazeboRcll.Protobuf.Peer
import Mathlib.Data.List.Sort

/-!
# The stream server and its sessions

`ProtobufStreamServer` accepts connections, gives every one an ID, and keeps the sessions of the
connected clients under their IDs. The handlers of the asio thread complete in any order.

* `sent_in_order`: what is sent to an ID is written to its session, in order and without a gap.
* `received_prefix`: what the client at the other end receives of it.
* `sendToAll_once`: a message to all clients goes once to every client that is connected, if it
  can be serialised.
* `signals_conform`: which signals there are for an ID, and in which order.

`ClientID` is an `unsigned int`: sessions are numbered here, and the ID is the number modulo 2^32.
`sessions_` is not protected by a lock, so the functions that look into it are called in the slots
of the signals, or while no handler runs.
-/

namespace GazeboRcll

/-! ## Messages to be sent -/

/-- What `SerializeToString` makes of a message: its bytes, `false`, or a `FatalException`. -/
inductive SerializeResult where
  | serialized (body : Bytes) (fits : body.length < 2 ^ 32 - 4)
  | refused
  | fatal (what : String)

/-- The arguments of `send`. -/
structure MessageToSend where
  componentId : UInt16
  msgType : UInt16
  serializeToString : SerializeResult

/-- `MessageRegister::serialize`, with what it throws. -/
def MessageToSend.serialize (m : MessageToSend) : Except String OutMessage :=
  match m.serializeToString with
  | .fatal what => .error ("Failed to serialize message: " ++ what)
  | .refused => .error "Cannot serialize message"
  | .serialized body fits => .ok ⟨m.componentId, m.msgType, body, fits⟩

/-! ## Sessions -/

/-- The `value` of a `boost::system::error_code`; zero is no error. -/
abbrev ErrorCode := ℕ

/-- `errc::not_enough_memory`. -/
def notEnoughMemory : ErrorCode := 12

/-- What an `async_read` of a session is for. -/
inductive PendingRead where
  | header | message
deriving DecidableEq, Repr

/-- `ProtobufStreamServer::Session`, and what has become of the messages it was to send. -/
structure Session where
  inDataSize : ℕ := 1024
  outboundQueue : List OutMessage := []
  outboundActive : Bool := false
  /-- The `async_read` that has not completed. -/
  reading : Option PendingRead := none
  /-- The `async_write` that has not completed. -/
  writing : Option OutMessage := none
  /-- The messages whose write has completed, without an error and with one. -/
  written : List OutMessage := []
  failed : List OutMessage := []

namespace Session

/-- `Session::start_read`. -/
def startRead (x : Session) : Session := { x with reading := some .header }

/-- `Session::send` from the lock on, with the entry that `serialize` has filled. -/
def sendEntry (x : Session) (m : OutMessage) : Session :=
  if x.outboundActive then { x with outboundQueue := x.outboundQueue ++ [m] }
  else { x with outboundActive := true, writing := some m }

/-- `Session::handle_write` without an error; `m` is the message that was written. -/
def handleWriteOk (x : Session) (m : OutMessage) : Session :=
  let x := { x with writing := none, written := x.written ++ [m] }
  match x.outboundQueue with
  | [] => { x with outboundActive := false }
  | m' :: rest => { x with outboundQueue := rest, writing := some m' }

/-- `Session::handle_write` with an error, up to the call of `disconnected`. -/
def handleWriteError (x : Session) (m : OutMessage) : Session :=
  { x with writing := none, failed := x.failed ++ [m] }

/-- All messages it was to send. -/
def history (x : Session) : List OutMessage :=
  x.written ++ x.failed ++ x.writing.toList ++ x.outboundQueue

/-- The messages that were handed to `async_write`. -/
def handedOut (x : Session) : List OutMessage := x.written ++ x.failed ++ x.writing.toList

end Session

/-! ## The server -/

inductive ServerSignal (Msg : Type) where
  | connected (client : ℕ) (endpoint : String)
  | disconnected (client : ℕ) (error : ErrorCode)
  | rcvd (client compId msgType : ℕ) (m : Msg)
  | recvFailed (client compId msgType : ℕ) (text : String)
deriving DecidableEq

/-- The client that a signal is about. -/
def ServerSignal.client {Msg : Type} : ServerSignal Msg → ℕ
  | connected c _ | disconnected c _ | rcvd c _ _ _ | recvFailed c _ _ _ => c

/-- The ID of the session with that number. -/
def clientId (n : ℕ) : ℕ := n % 2 ^ 32

structure Server (Msg : Type) where
  /-- `next_cid_`, as the number of the next session. -/
  nextCid : ℕ
  /-- The session that the acceptor waits with. -/
  accepting : ℕ
  /-- `sessions_`, each under its ID. -/
  sessions : List ℕ
  session : ℕ → Session
  /-- The messages that were accepted for the IDs. -/
  sent : List (ℕ × OutMessage)
  /-- The signals that were emitted. -/
  signals : List (ServerSignal Msg)

inductive ServerStep where
  /-- `async_accept` completes. -/
  | accept (error : ErrorCode) (endpoint : String)
  /-- `async_read` of a frame header completes; `realloc` would succeed or not. -/
  | header (n : ℕ) (error : ErrorCode) (toRead : ℕ) (alloc : Bool)
  /-- `async_read` of a message completes with those bytes. -/
  | message (n : ℕ) (error : ErrorCode) (h : Handed)
  /-- `async_write` completes. -/
  | written (n : ℕ) (error : ErrorCode)
  | send (client : ℕ) (m : MessageToSend)
  | sendToAll (m : MessageToSend)

namespace Server

variable {Msg : Type}

def emit (s : Server Msg) (sig : ServerSignal Msg) : Server Msg :=
  { s with signals := s.signals ++ [sig] }

def modify (s : Server Msg) (n : ℕ) (f : Session → Session) : Server Msg :=
  { s with session := Function.update s.session n (f (s.session n)) }

/-- `sessions_.erase`. -/
def erase (s : Server Msg) (client : ℕ) : Server Msg :=
  { s with sessions := s.sessions.filter fun n => clientId n ≠ client }

/-- `start_accept`. -/
def startAccept (s : Server Msg) : Server Msg :=
  { s with accepting := s.nextCid, nextCid := s.nextCid + 1 }

/-- `disconnected`. -/
def disconnected (s : Server Msg) (n : ℕ) (error : ErrorCode) : Server Msg :=
  (s.erase (clientId n)).emit (.disconnected (clientId n) error)

/-- `handle_accept`. -/
def handleAccept (s : Server Msg) (error : ErrorCode) (endpoint : String) : Server Msg :=
  let n := s.accepting
  let s :=
    if error = 0 then
      let s := s.erase (clientId n)
      let s := { s with
        sessions := s.sessions.orderedInsert (fun a b => clientId a ≤ clientId b) n }
      (s.emit (.connected (clientId n) endpoint)).modify n Session.startRead
    else s
  s.startAccept

/-- `Session::handle_read_header`. -/
def handleReadHeader (s : Server Msg) (n : ℕ) (error : ErrorCode) (toRead : ℕ) (alloc : Bool) :
    Server Msg :=
  let s := s.modify n fun x => { x with reading := none }
  if error = 0 then
    let s :=
      if toRead > (s.session n).inDataSize then
        if alloc then s.modify n fun x => { x with inDataSize := toRead }
        else s.disconnected n notEnoughMemory
      else s
    -- reading goes on without the memory as well
    s.modify n fun x => { x with reading := some .message }
  else s.disconnected n error

/-- `Session::handle_read_message`. -/
def handleReadMessage (r : MessageRegister Msg) (s : Server Msg) (n : ℕ) (error : ErrorCode)
    (h : Handed) : Server Msg :=
  let s := s.modify n fun x => { x with reading := none }
  if error = 0 then
    let s :=
      match r.deserialize h with
      | .ok m => s.emit (.rcvd (clientId n) h.componentId h.msgType m)
      | .error text => s.emit (.recvFailed (clientId n) h.componentId h.msgType text)
    s.modify n Session.startRead
  else s.disconnected n error

/-- `Session::handle_write`. -/
def handleWrite (s : Server Msg) (n : ℕ) (m : OutMessage) (error : ErrorCode) : Server Msg :=
  if error = 0 then s.modify n fun x => x.handleWriteOk m
  else (s.modify n fun x => x.handleWriteError m).disconnected n error

/-- `send`, and `Session::send` of the session that it finds. -/
def send (s : Server Msg) (client : ℕ) (m : MessageToSend) : Except String (Server Msg) :=
  match s.sessions.find? fun n => clientId n = client with
  | none => .error "Client does not exist"
  | some n =>
    -- nothing is queued before the message is serialised
    match m.serialize with
    | .error text => .error text
    | .ok out =>
      .ok { s.modify n fun x => x.sendEntry out with sent := s.sent ++ [(client, out)] }

/-- `send_to_all`. -/
def sendToAll (s : Server Msg) (m : MessageToSend) : Except String (Server Msg) :=
  s.sessions.foldlM (fun s n => s.send (clientId n) m) s

/-- A step of the asio thread or of a caller, `none` where it cannot happen. Calls that throw
change nothing, and are left out. -/
def step (r : MessageRegister Msg) (s : Server Msg) : ServerStep → Option (Server Msg)
  | .accept error endpoint => some (s.handleAccept error endpoint)
  | .header n error toRead alloc =>
    if (s.session n).reading = some .header then some (s.handleReadHeader n error toRead alloc)
    else none
  | .message n error h =>
    if (s.session n).reading = some .message then some (s.handleReadMessage r n error h)
    else none
  | .written n error => (s.session n).writing.map fun m => s.handleWrite n m error
  | .send client m => (s.send client m).toOption
  | .sendToAll m => (s.sendToAll m).toOption

/-- The constructor. -/
def start : Server Msg :=
  startAccept
    { nextCid := 1, accepting := 0, sessions := [], session := fun _ => {}, sent := [],
      signals := [] }

end Server

def serverSystem {Msg : Type} (r : MessageRegister Msg) : LTS (Server Msg) ServerStep where
  init s := s = .start
  next := Server.step r

/-! ## One session -/

namespace Session

/-- The flag tells whether a write is under way or has failed. Messages wait only then, and
after a failure nothing is written any more. -/
structure Ok (x : Session) : Prop where
  active : x.outboundActive = true ↔ x.writing ≠ none ∨ x.failed ≠ []
  queue : x.outboundActive = false → x.outboundQueue = []
  stuck : x.failed ≠ [] → x.writing = none
  once : x.failed.length ≤ 1

theorem Ok.new : Ok {} := ⟨by decide, fun _ => rfl, fun _ => rfl, Nat.zero_le _⟩

variable {x : Session} {m : OutMessage}

/-- What sending works on is the same. -/
theorem Ok.congr {y : Session} (h : x.Ok) (hactive : y.outboundActive = x.outboundActive)
    (hqueue : y.outboundQueue = x.outboundQueue) (hwriting : y.writing = x.writing)
    (hfailed : y.failed = x.failed) : y.Ok := by
  apply Ok.mk
  · rw [hactive, hwriting, hfailed]
    exact h.active
  · rw [hactive, hqueue]
    exact h.queue
  · rw [hwriting, hfailed]
    exact h.stuck
  · rw [hfailed]
    exact h.once

/-- Without the flag the session is idle. -/
theorem Ok.idle (h : x.Ok) (hactive : ¬ x.outboundActive = true) :
    x.writing = none ∧ x.failed = [] ∧ x.outboundQueue = [] := by
  have hnone := mt h.active.mpr hactive
  rw [not_or, not_not, not_not] at hnone
  exact ⟨hnone.1, hnone.2, h.queue (Bool.eq_false_of_not_eq_true hactive)⟩

/-- A message is written at once or put at the end of the queue. -/
theorem Ok.sendEntry (h : x.Ok) (m : OutMessage) : (x.sendEntry m).Ok := by
  rw [Session.sendEntry]
  by_cases hactive : x.outboundActive = true
  · rw [if_pos hactive]
    exact ⟨h.active, fun hf => (nomatch hactive.symm.trans hf), h.stuck, h.once⟩
  · obtain ⟨_, hfailed, _⟩ := h.idle hactive
    rw [if_neg hactive]
    exact ⟨iff_of_true rfl (.inl (by simp)), fun hf => by simp at hf,
      fun hf => absurd hfailed hf, h.once⟩

/-- It comes last in what the client is sent. -/
theorem Ok.history_sendEntry (h : x.Ok) (m : OutMessage) :
    (x.sendEntry m).history = x.history ++ [m] := by
  rw [Session.sendEntry]
  by_cases hactive : x.outboundActive = true
  · rw [if_pos hactive]
    show _ ++ (x.outboundQueue ++ [m]) = _
    rw [← List.append_assoc]
    rfl
  · obtain ⟨hwriting, _, hqueue⟩ := h.idle hactive
    rw [if_neg hactive]
    simp [history, hwriting, hqueue]

/-- While a write is under way no write has failed. -/
theorem Ok.failed_eq_nil (h : x.Ok) (hm : x.writing = some m) : x.failed = [] := by
  by_contra hfailed
  have hnone := h.stuck hfailed
  rw [hm] at hnone
  nomatch hnone

theorem handleWriteOk_of_nil (m : OutMessage) (hqueue : x.outboundQueue = []) :
    x.handleWriteOk m = { x with
      writing := none, written := x.written ++ [m], outboundActive := false } := by
  rw [handleWriteOk]
  simp only [hqueue]

theorem handleWriteOk_of_cons (m : OutMessage) {m' : OutMessage} {rest : List OutMessage}
    (hqueue : x.outboundQueue = m' :: rest) :
    x.handleWriteOk m = { x with
      writing := some m', written := x.written ++ [m], outboundQueue := rest } := by
  rw [handleWriteOk]
  simp only [hqueue]

/-- A write that has ended starts the next one, if there is one. -/
theorem Ok.handleWriteOk (h : x.Ok) (hm : x.writing = some m) : (x.handleWriteOk m).Ok := by
  have hactive : x.outboundActive = true := h.active.mpr (.inl (by simp [hm]))
  have hfailed := h.failed_eq_nil hm
  rcases hqueue : x.outboundQueue with _ | ⟨m', rest⟩
  · rw [handleWriteOk_of_nil m hqueue]
    exact ⟨by simp [hfailed], fun _ => hqueue, fun _ => rfl, h.once⟩
  · rw [handleWriteOk_of_cons m hqueue]
    exact ⟨iff_of_true hactive (.inl (by simp)), fun hf => (nomatch hactive.symm.trans hf),
      fun hf => absurd hfailed hf, h.once⟩

theorem Ok.history_handleWriteOk (h : x.Ok) (hm : x.writing = some m) :
    (x.handleWriteOk m).history = x.history := by
  have hfailed := h.failed_eq_nil hm
  rcases hqueue : x.outboundQueue with _ | ⟨m', rest⟩
  · rw [handleWriteOk_of_nil m hqueue]
    simp [history, hm, hfailed, hqueue]
  · rw [handleWriteOk_of_cons m hqueue]
    simp [history, hm, hfailed, hqueue]

/-- A write that fails ends the session's writing. -/
theorem Ok.handleWriteError (h : x.Ok) (hm : x.writing = some m) :
    (x.handleWriteError m).Ok := by
  have hactive : x.outboundActive = true := h.active.mpr (.inl (by simp [hm]))
  have hfailed : x.failed ++ [m] = [m] := by rw [h.failed_eq_nil hm, List.nil_append]
  rw [Session.handleWriteError, hfailed]
  exact ⟨iff_of_true hactive (.inr (by simp)), fun hf => (nomatch hactive.symm.trans hf),
    fun _ => rfl, Nat.le_refl 1⟩

theorem history_handleWriteError (hm : x.writing = some m) :
    (x.handleWriteError m).history = x.history := by
  simp [history, Session.handleWriteError, hm]

end Session

/-! ## What every step keeps -/

theorem clientId_of_lt {n : ℕ} (hn : n < 2 ^ 32) : clientId n = n := Nat.mod_eq_of_lt hn

namespace Server

variable {Msg : Type} {r : MessageRegister Msg} {s s' : Server Msg} {n k c : ℕ}
variable {f : Session → Session} {m : OutMessage} {sig : ServerSignal Msg} {error : ErrorCode}

/-- The messages that were accepted for an ID. -/
def sentTo (s : Server Msg) (c : ℕ) : List OutMessage :=
  (s.sent.filter fun p => p.1 = c).map Prod.snd

/-- The IDs have not wrapped around. -/
def IdsLast (s : Server Msg) (_ : ServerStep) : Prop := s.nextCid < 2 ^ 32

/-- `realloc` does not fail. -/
def HasMemory : ServerStep → Prop
  | .header _ _ _ alloc => alloc = true
  | _ => True

instance (s : Server Msg) (l : ServerStep) : Decidable (s.IdsLast l) :=
  inferInstanceAs (Decidable (s.nextCid < 2 ^ 32))

instance : (l : ServerStep) → Decidable (HasMemory l)
  | .header _ _ _ alloc => inferInstanceAs (Decidable (alloc = true))
  | .accept .. | .message .. | .written .. | .send .. | .sendToAll .. => .isTrue trivial

/-- An ID that has not been given to a connection has no session, no signals, and nothing was
sent to it. -/
structure Inv (s : Server Msg) : Prop where
  next : s.nextCid = s.accepting + 1
  bound : s.accepting < 2 ^ 32
  nodup : s.sessions.Nodup
  known : ∀ n ∈ s.sessions, n < s.accepting
  fresh : ∀ n, s.accepting ≤ n → s.session n = {}
  silent : ∀ sig ∈ s.signals, sig.client < s.accepting
  ok : ∀ n, (s.session n).Ok
  history : ∀ n, s.sentTo n = (s.session n).history

@[simp] theorem modify_session_self : (s.modify k f).session k = f (s.session k) :=
  Function.update_self ..

theorem modify_session_of_ne (hn : n ≠ k) : (s.modify k f).session n = s.session n :=
  Function.update_of_ne hn ..

/-- A session that reads or writes belongs to a connection. -/
theorem Inv.lt_of_ne (h : s.Inv) (hn : s.session n ≠ {}) : n < s.accepting := by
  by_contra hle
  exact hn (h.fresh n (by omega))

theorem Inv.clientId_eq (h : s.Inv) (hn : n < s.accepting) : clientId n = n := by
  have hbound := h.bound
  exact clientId_of_lt (by omega)

/-- What happens inside one session leaves the others alone. -/
theorem Inv.modify (h : s.Inv) (hk : k < s.accepting) (hok : (f (s.session k)).Ok)
    (hhistory : (f (s.session k)).history = (s.session k).history) : (s.modify k f).Inv where
  next := h.next
  bound := h.bound
  nodup := h.nodup
  known := h.known
  fresh n hn := by
    have hfresh : s.accepting ≤ n := hn
    rw [modify_session_of_ne (by omega)]
    exact h.fresh n hn
  silent := h.silent
  ok n := by
    by_cases hnk : n = k
    · rw [hnk, modify_session_self]
      exact hok
    · rw [modify_session_of_ne hnk]
      exact h.ok n
  history n := by
    show s.sentTo n = _
    by_cases hnk : n = k
    · rw [hnk, modify_session_self, hhistory]
      exact h.history k
    · rw [modify_session_of_ne hnk]
      exact h.history n

theorem Inv.emit (h : s.Inv) (hsig : sig.client < s.accepting) : (s.emit sig).Inv where
  next := h.next
  bound := h.bound
  nodup := h.nodup
  known := h.known
  fresh := h.fresh
  silent sig' hsig' := by
    rcases List.mem_append.mp hsig' with hold | hnew
    · exact h.silent sig' hold
    · rw [List.mem_singleton.mp hnew]
      exact hsig
  ok := h.ok
  history := h.history

theorem Inv.erase (h : s.Inv) (c : ℕ) : (s.erase c).Inv where
  next := h.next
  bound := h.bound
  nodup := h.nodup.filter _
  known n hn := h.known n (List.mem_filter.mp hn).1
  fresh := h.fresh
  silent := h.silent
  ok := h.ok
  history := h.history

/-- A session that ends is taken out of the map. -/
theorem Inv.disconnected (h : s.Inv) (hk : k < s.accepting) (error : ErrorCode) :
    (s.disconnected k error).Inv := by
  have hid := h.clientId_eq hk
  apply (h.erase _).emit
  show clientId k < s.accepting
  omega

theorem mem_erase : n ∈ (s.erase c).sessions ↔ n ∈ s.sessions ∧ clientId n ≠ c := by
  simp [erase]

/-- The session of a new connection. -/
theorem Inv.handleAccept (h : s.Inv) (hlast : s.nextCid < 2 ^ 32) (error : ErrorCode)
    (endpoint : String) : (s.handleAccept error endpoint).Inv := by
  have hnext := h.next
  have hid : clientId s.accepting = s.accepting := clientId_of_lt h.bound
  -- the id of the session that is being accepted is new
  have hnot : s.accepting ∉ s.sessions := fun hmem => Nat.lt_irrefl _ (h.known _ hmem)
  rw [Server.handleAccept]
  by_cases herror : error = 0
  · rw [if_pos herror]
    -- the map entry is replaced, and there was none
    have herased := h.erase (clientId s.accepting)
    refine ⟨rfl, hlast, ?_, fun n hn => ?_, fun n hn => ?_, fun sig hsig => ?_, fun n => ?_,
      fun n => ?_⟩
    · apply (List.perm_orderedInsert _ _ _).nodup_iff.mpr
      apply List.nodup_cons.mpr
      exact ⟨fun hmem => hnot (mem_erase.mp hmem).1, herased.nodup⟩
    · show n < s.nextCid
      rcases (List.mem_orderedInsert _).mp hn with rfl | hold
      · omega
      · have hlt := herased.known n hold
        have hsame : (s.erase (clientId s.accepting)).accepting = s.accepting := rfl
        omega
    · have hlt : s.nextCid ≤ n := hn
      show Function.update s.session s.accepting _ n = _
      rw [Function.update_of_ne (by omega)]
      exact h.fresh n (by omega)
    · show sig.client < s.nextCid
      rcases List.mem_append.mp hsig with hold | hnew
      · have hlt := h.silent sig hold
        omega
      · rw [List.mem_singleton.mp hnew]
        show clientId s.accepting < _
        omega
    · show (Function.update s.session s.accepting _ n).Ok
      by_cases hn : n = s.accepting
      · rw [hn, Function.update_self]
        exact (h.ok s.accepting).congr rfl rfl rfl rfl
      · rw [Function.update_of_ne hn]
        exact h.ok n
    · show s.sentTo n = (Function.update s.session s.accepting _ n).history
      by_cases hn : n = s.accepting
      · rw [hn, Function.update_self]
        exact h.history s.accepting
      · rw [Function.update_of_ne hn]
        exact h.history n
  -- the id is used up all the same
  · rw [if_neg herror]
    refine ⟨rfl, hlast, h.nodup, fun n hn => ?_, fun n hn => ?_, fun sig hsig => ?_, h.ok,
      h.history⟩
    · have hlt := h.known n hn
      show n < s.nextCid
      omega
    · have hlt : s.nextCid ≤ n := hn
      exact h.fresh n (by omega)
    · have hlt := h.silent sig hsig
      show sig.client < s.nextCid
      omega

/-- The next read is started. -/
theorem Inv.startReading (h : s.Inv) (hk : k < s.accepting) (reading : Option PendingRead) :
    (s.modify k fun x => { x with reading := reading }).Inv :=
  h.modify hk ((h.ok k).congr rfl rfl rfl rfl) rfl

/-- Reading a header ends the session or asks for the message. -/
theorem Inv.handleReadHeader (h : s.Inv) (hk : k < s.accepting) (error : ErrorCode) (toRead : ℕ)
    (alloc : Bool) : (s.handleReadHeader k error toRead alloc).Inv := by
  have hread := h.startReading hk none
  rw [Server.handleReadHeader]
  by_cases herror : error = 0
  · rw [if_pos herror]
    split_ifs
    · have hgrown : ((s.modify k fun x => { x with reading := none }).modify k fun x =>
          { x with inDataSize := toRead }).Inv :=
        hread.modify hk ((hread.ok k).congr rfl rfl rfl rfl) rfl
      exact hgrown.startReading hk (some .message)
    · exact (hread.disconnected hk notEnoughMemory).startReading hk (some .message)
    · exact hread.startReading hk (some .message)
  · rw [if_neg herror]
    exact hread.disconnected hk error

/-- Reading a message hands it over and asks for the next header. -/
theorem Inv.handleReadMessage (h : s.Inv) (hk : k < s.accepting) (error : ErrorCode)
    (handed : Handed) : (s.handleReadMessage r k error handed).Inv := by
  have hread := h.startReading hk none
  have hid : clientId k < s.accepting := by
    rw [h.clientId_eq hk]
    exact hk
  rw [Server.handleReadMessage]
  by_cases herror : error = 0
  · rw [if_pos herror]
    cases r.deserialize handed with
    | ok m =>
      have hemit : (Server.emit _ (.rcvd (clientId k) handed.componentId handed.msgType m)).Inv :=
        hread.emit hid
      exact hemit.startReading hk (some .header)
    | error text =>
      have hemit : (Server.emit _
          (.recvFailed (clientId k) handed.componentId handed.msgType text)).Inv := hread.emit hid
      exact hemit.startReading hk (some .header)
  · rw [if_neg herror]
    exact hread.disconnected hk error

theorem Inv.handleWrite (h : s.Inv) (hk : k < s.accepting) (hm : (s.session k).writing = some m)
    (error : ErrorCode) : (s.handleWrite k m error).Inv := by
  rw [Server.handleWrite]
  by_cases herror : error = 0
  · rw [if_pos herror]
    exact h.modify hk ((h.ok k).handleWriteOk hm) ((h.ok k).history_handleWriteOk hm)
  · rw [if_neg herror]
    apply Inv.disconnected
    · exact h.modify hk ((h.ok k).handleWriteError hm) (Session.history_handleWriteError hm)
    · exact hk

/-- `send` finds a session under the ID, and the message is serialised. -/
theorem exists_of_send {msg : MessageToSend} (h : s.send c msg = .ok s') :
    ∃ n ∈ s.sessions, ∃ m, clientId n = c ∧ msg.serialize = .ok m ∧
      s' = { s.modify n fun x => x.sendEntry m with sent := s.sent ++ [(c, m)] } := by
  rw [send] at h
  cases hfind : s.sessions.find? fun n => clientId n = c with
  | none =>
    rw [hfind] at h
    nomatch h
  | some n =>
    rw [hfind] at h
    cases hserialize : msg.serialize with
    | error text => simp [hserialize] at h
    | ok m =>
      simp only [hserialize] at h
      exact ⟨n, List.mem_of_find?_eq_some hfind, m, by simpa using List.find?_some hfind, rfl,
        (Except.ok.inj h).symm⟩

/-- A message that is sent goes to one session. -/
theorem Inv.send {msg : MessageToSend} (h : s.Inv) (hs : s.send c msg = .ok s') : s'.Inv := by
  obtain ⟨k, hk, m, hid, -, rfl⟩ := exists_of_send hs
  have hlt := h.known k hk
  rw [h.clientId_eq hlt] at hid
  refine ⟨h.next, h.bound, h.nodup, h.known, fun n hn => ?_, h.silent, fun n => ?_, fun n => ?_⟩
  · have hle : s.accepting ≤ n := hn
    show Function.update s.session k _ n = _
    rw [Function.update_of_ne (by omega)]
    exact h.fresh n hn
  · show (Function.update s.session k _ n).Ok
    by_cases hn : n = k
    · rw [hn, Function.update_self]
      exact (h.ok k).sendEntry m
    · rw [Function.update_of_ne hn]
      exact h.ok n
  · show ((s.sent ++ [(c, m)]).filter _).map _ = (Function.update s.session k _ n).history
    rw [List.filter_append, List.map_append]
    by_cases hn : n = k
    · rw [hn, Function.update_self, (h.ok k).history_sendEntry, ← h.history k, List.filter_cons,
        if_pos (by simp [hid])]
      rfl
    · rw [Function.update_of_ne hn, ← h.history n, List.filter_cons,
        if_neg (by simpa [← hid] using fun heq => hn heq.symm)]
      exact List.append_nil _

theorem eq_ok_of_toOption {x : Except String (Server Msg)} (h : x.toOption = some s') :
    x = .ok s' := by
  cases x with
  | error text => nomatch h
  | ok t => exact congrArg Except.ok (Option.some.inj h)

/-- Every step of the server keeps the invariant. -/
theorem Inv.step {l : ServerStep} (h : s.Inv) (hlast : s.IdsLast l)
    (hs : s.step r l = some s') : s'.Inv := by
  cases l with
  | accept error endpoint =>
    obtain rfl := Option.some.inj hs
    exact h.handleAccept hlast error endpoint
  | header n error toRead alloc =>
    obtain ⟨hreading, hs⟩ := Option.ite_none_right_eq_some.mp hs
    obtain rfl := Option.some.inj hs
    exact h.handleReadHeader (h.lt_of_ne fun hnew => by simp [hnew] at hreading) error toRead alloc
  | message n error handed =>
    obtain ⟨hreading, hs⟩ := Option.ite_none_right_eq_some.mp hs
    obtain rfl := Option.some.inj hs
    exact h.handleReadMessage (h.lt_of_ne fun hnew => by simp [hnew] at hreading) error handed
  | written n error =>
    obtain ⟨m, hm, rfl⟩ := Option.map_eq_some_iff.mp hs
    exact h.handleWrite (h.lt_of_ne fun hnew => by simp [hnew] at hm) hm error
  | send c m =>
    exact h.send (eq_ok_of_toOption hs)
  | sendToAll m =>
    exact Loop.foldlM_invariant (P := Inv) (fun _ _ _ ht hsend => ht.send hsend) h
      (eq_ok_of_toOption hs)

theorem inv_start : (start : Server Msg).Inv where
  next := rfl
  bound := by
    show 1 < 2 ^ 32
    omega
  nodup := List.nodup_nil
  known := nofun
  fresh _ _ := rfl
  silent := nofun
  ok _ := Session.Ok.new
  history _ := rfl

end Server

/-- The invariant holds in every run in which the ids last. -/
theorem server_inv {Msg : Type} {r : MessageRegister Msg} {s : Server Msg}
    (h : (serverSystem r).Reach Server.IdsLast s) : s.Inv := by
  refine LTS.Reach.invariant (P := Server.Inv) ?_ ?_ h
  · rintro _ rfl
    exact Server.inv_start
  · exact fun _ _ _ hs hlast hstep => hs.step hlast hstep

/-- The first of two clients closes the connection while the second of three messages is written
to it, and sends a message before. -/
def firstCloses : List ServerStep :=
  let m (body : UInt8) : MessageToSend := ⟨2000, 103, .serialized [body] (by simp)⟩
  [.accept 0 "127.0.0.1", .send 1 (m 1), .send 1 (m 2), .accept 0 "127.0.0.1", .header 1 0 5 true,
    .sendToAll (m 3), .written 1 0, .message 1 0 ⟨2000, 1, [4]⟩, .written 1 104,
    .header 1 104 0 true]

/-- Every message is registered, and its bytes are all of it. -/
def bytesRegister : MessageRegister Bytes := ⟨fun _ _ => true, fun _ _ body => some body⟩

theorem exists_firstCloses :
    ∃ s, (serverSystem bytesRegister).Reach
        (fun s l => s.IdsLast l ∧ Server.HasMemory l) s ∧
      ((s.sentTo 1).map OutMessage.body = [[1], [2], [3]] ∧
        (s.session 1).handedOut.map OutMessage.body = [[1], [2]] ∧ s.sessions = [2] ∧
        s.signals = [.connected 1 "127.0.0.1", .connected 2 "127.0.0.1", .rcvd 1 2000 1 [4],
          .disconnected 1 104, .disconnected 1 104]) := by
  obtain ⟨s, hs, htest⟩ := LTS.exists_reach (s := Server.start)
    (T := serverSystem bytesRegister)
    (C := fun s l => s.IdsLast l ∧ Server.HasMemory l) (l := firstCloses)
    (p := fun s => decide ((s.sentTo 1).map OutMessage.body = [[1], [2], [3]] ∧
        (s.session 1).handedOut.map OutMessage.body = [[1], [2]] ∧ s.sessions = [2] ∧
        s.signals = [.connected 1 "127.0.0.1", .connected 2 "127.0.0.1", .rcvd 1 2000 1 [4],
          .disconnected 1 104, .disconnected 1 104])) rfl (by decide) (by decide)
  exact ⟨s, hs, of_decide_eq_true htest⟩

/-- What was sent to an ID is what its session has written, the write that has failed, the one
under way and what waits for it, in this order. -/
theorem sent_in_order {Msg : Type} {r : MessageRegister Msg} {s : Server Msg}
    (h : (serverSystem r).Reach Server.IdsLast s) (n : ℕ) :
    s.sentTo n = (s.session n).written ++ (s.session n).failed ++
        (s.session n).writing.toList ++ (s.session n).outboundQueue ∧ (s.session n).Ok :=
  ⟨(server_inv h).history n, (server_inv h).ok n⟩

theorem sent_in_order_firstCloses :
    ∃ s : Server Bytes, (s.sentTo 1).map OutMessage.body = [[1], [2], [3]] ∧
      s.sentTo 1 = (s.session 1).written ++ (s.session 1).failed ++
        (s.session 1).writing.toList ++ (s.session 1).outboundQueue := by
  obtain ⟨s, hs, hsent, -⟩ := exists_firstCloses
  exact ⟨s, hsent, (sent_in_order (hs.mono fun _ _ h => h.1) 1).1⟩

/-! ## The other end -/

namespace Receiver

variable {heap : Heap} {v : FrameVersion}

theorem asyncRead_append_of_eq_some {n : ℕ} {bytes a b : Bytes}
    (h : asyncRead n bytes = some (a, b)) (more : Bytes) :
    asyncRead n (bytes ++ more) = some (a, b ++ more) := by
  rw [asyncRead] at h ⊢
  obtain ⟨hle, hab⟩ := Option.ite_none_right_eq_some.mp h
  obtain ⟨rfl, rfl⟩ := Prod.mk.inj (Option.some.inj hab)
  rw [if_pos (by rw [List.length_append]; omega), List.take_append_of_le_length hle,
    List.drop_append_of_le_length hle]

/-- A frame that has been read is read in the same way when more bytes follow. -/
theorem frame_append {r r' : Receiver} {bytes rest : Bytes} {call : DeserializeCall}
    (h : r.frame heap v bytes = some (call, r', rest)) (more : Bytes) :
    r.frame heap v (bytes ++ more) = some (call, r', rest ++ more) := by
  rw [frame] at h ⊢
  -- two reads one after the other, each of which leaves the bytes behind it
  cases hheader : asyncRead v.headerSize bytes with
  | none =>
    rw [hheader] at h
    cases h
  | some a =>
    rw [asyncRead_append_of_eq_some hheader more]
    rw [hheader] at h
    dsimp only at h ⊢
    cases hsize : handleReadHeader heap v { r with inFrameHeader := a.1 } with
    | none =>
      rw [hsize] at h
      cases h
    | some b =>
      rw [hsize] at h
      dsimp only at h ⊢
      cases hpayload : asyncRead b.1 a.2 with
      | none =>
        rw [hpayload] at h
        cases h
      | some d =>
        rw [asyncRead_append_of_eq_some hpayload more]
        rw [hpayload] at h
        cases h
        rfl

/-- What has been received by then does not depend on what follows. -/
theorem receiveN_append {m n : ℕ} (hmn : m ≤ n) (r : Receiver) (bytes more : Bytes) :
    (r.receiveN heap v m bytes).1 <+: (r.receiveN heap v n (bytes ++ more)).1 := by
  induction m generalizing n r bytes with
  | zero => exact List.nil_prefix
  | succ m ih =>
    obtain ⟨n, rfl⟩ : ∃ k, n = k + 1 := ⟨n - 1, by omega⟩
    rw [receiveN, receiveN]
    cases hframe : r.frame heap v bytes with
    | none => exact List.nil_prefix
    | some a =>
      rw [frame_append hframe more]
      exact (List.prefix_cons_inj _).mpr (ih (by omega) _ _)

end Receiver

/-- The client of a session, whenever it has read a part of what the session has handed to the
socket: it has received the first of the messages that were sent to its ID, and no other. -/
theorem received_prefix (heap : Heap) (halloc : ∀ n, heap.alloc n = true) {Msg : Type}
    {r : MessageRegister Msg} {s : Server Msg} (h : (serverSystem r).Reach Server.IdsLast s)
    (n : ℕ) {entries : List (QueueEntry × OutMessage)}
    (hentries : entries.map Prod.snd = (s.session n).handedOut) {bytes : Bytes}
    (hbytes : bytes <+: sendFrames .V2 entries) :
    ((Receiver.start heap).receive heap .V2 bytes).1.map DeserializeCall.handed <+:
      (s.sentTo n).map OutMessage.handed := by
  obtain ⟨more, hmore⟩ := hbytes
  have hall := (receiveN_frames halloc .V2 entries (length_le_sendFrames .V2 entries)
    (Receiver.start heap)).1
  have hle : bytes.length ≤ (sendFrames .V2 entries).length := by
    rw [← hmore, List.length_append]
    omega
  have hprefix := (@Receiver.receiveN_append heap .V2 _ _ hle (Receiver.start heap) bytes
    more).map DeserializeCall.handed
  rw [hmore, hall] at hprefix
  apply hprefix.trans
  rw [(server_inv h).history n, Session.history, ← Session.handedOut, ← hentries, List.map_append,
    List.map_map]
  exact List.prefix_append _ _

/-- The second message is cut off. -/
theorem received_prefix_firstCloses :
    let heap : Heap := ⟨fun _ => true, fun _ => 0⟩
    let mem : QueueEntry := ⟨[], ⟨7, 7, 7, 7, []⟩, ⟨[], [], []⟩, ⟨[], []⟩⟩
    ∃ s : Server Bytes, (s.session 1).handedOut.map OutMessage.body = [[1], [2]] ∧
      ((Receiver.start heap).receive heap .V2 ((sendFrames .V2
          ((s.session 1).handedOut.map fun m => (mem, m))).take 20)).1.map
            DeserializeCall.handed <+: (s.sentTo 1).map OutMessage.handed := by
  intro heap mem
  obtain ⟨s, hs, -, hout, -⟩ := exists_firstCloses
  have hentries : ((s.session 1).handedOut.map fun m => (mem, m)).map Prod.snd =
      (s.session 1).handedOut := by
    rw [List.map_map]
    exact List.map_id _
  exact ⟨s, hout, received_prefix heap (fun _ => rfl) (hs.mono fun _ _ h => h.1) 1 hentries
    (List.take_prefix _ _)⟩

/-! ## Messages to all clients -/

namespace Server

variable {Msg : Type} {s s' : Server Msg} {n k : ℕ}

/-- A session in `sessions_` is found under its ID, and only serialising can fail. -/
theorem Inv.send_clientId (h : s.Inv) (hk : k ∈ s.sessions) (msg : MessageToSend) :
    s.send (clientId k) msg = msg.serialize.map fun m =>
      { s.modify k fun x => x.sendEntry m with sent := s.sent ++ [(clientId k, m)] } := by
  have hfind : s.sessions.find? (fun n => clientId n = clientId k) = some k := by
    cases hfound : s.sessions.find? fun n => clientId n = clientId k with
    | none => exact absurd (decide_eq_true rfl) (List.find?_eq_none.mp hfound k hk)
    | some n =>
      have hid : clientId n = clientId k := by simpa using List.find?_some hfound
      rw [h.clientId_eq (h.known n (List.mem_of_find?_eq_some hfound)),
        h.clientId_eq (h.known k hk)] at hid
      rw [hid]
  rw [Server.send, hfind]
  cases hserialize : msg.serialize <;> simp [Except.map]

/-- The loop of `send_to_all` over sessions that are connected and that differ. -/
theorem Inv.exists_sendEach {msg : MessageToSend} {m : OutMessage} (hm : msg.serialize = .ok m)
    {l : List ℕ} (h : s.Inv) (hl : l.Nodup) (hsub : ∀ n ∈ l, n ∈ s.sessions) :
    ∃ s', l.foldlM (fun s n => s.send (clientId n) msg) s = .ok s' ∧ s'.Inv ∧
      s'.sessions = s.sessions ∧ s'.signals = s.signals ∧
      ∀ n, s'.session n = if n ∈ l then (s.session n).sendEntry m else s.session n := by
  induction l generalizing s with
  | nil => exact ⟨s, rfl, h, rfl, rfl, fun n => rfl⟩
  | cons k l ih =>
    have hk := hsub k List.mem_cons_self
    have hsend := h.send_clientId hk msg
    rw [hm] at hsend
    obtain ⟨hnot, hl⟩ := List.nodup_cons.mp hl
    obtain ⟨s', hs', hinv, hsessions, hsignals, heach⟩ :=
      ih (h.send hsend) hl fun n hn => hsub n (List.mem_cons_of_mem k hn)
    refine ⟨s', ?_, hinv, hsessions, hsignals, fun n => ?_⟩
    · rw [List.foldlM_cons, hsend]
      exact hs'
    · rw [heach n]
      show (if n ∈ l then (Function.update s.session k _ n).sendEntry m
        else Function.update s.session k _ n) = _
      by_cases hn : n = k
      · rw [hn, if_neg hnot, Function.update_self, if_pos List.mem_cons_self]
      · simp only [Function.update_of_ne hn, List.mem_cons, hn, false_or]

end Server

/-- `send_to_all` of a message that can be serialised does not throw. Every client that is
connected is sent the message once, and nothing changes for the other ones. For any other message
it throws what `serialize` throws, unless no client is connected. -/
theorem sendToAll_once {Msg : Type} {r : MessageRegister Msg} {s : Server Msg}
    (h : (serverSystem r).Reach Server.IdsLast s) (msg : MessageToSend) :
    (∀ m, msg.serialize = .ok m → ∃ s', s.sendToAll msg = .ok s' ∧ s'.sessions = s.sessions ∧
      s'.signals = s.signals ∧
      ∀ n, s'.sentTo n = s.sentTo n ++ (if n ∈ s.sessions then [m] else []) ∧
        s'.session n = if n ∈ s.sessions then (s.session n).sendEntry m else s.session n) ∧
      ∀ text, msg.serialize = .error text →
        s.sendToAll msg = if s.sessions = [] then .ok s else .error text := by
  have hinv := server_inv h
  constructor
  · intro m hm
    obtain ⟨s', hs', hinv', hsessions, hsignals, heach⟩ :=
      hinv.exists_sendEach hm hinv.nodup fun n hn => hn
    refine ⟨s', hs', hsessions, hsignals, fun n => ⟨?_, heach n⟩⟩
    rw [hinv'.history n, hinv.history n, heach n]
    by_cases hn : n ∈ s.sessions
    · rw [if_pos hn, if_pos hn, (hinv.ok n).history_sendEntry]
    · rw [if_neg hn, if_neg hn, List.append_nil]
  · intro text htext
    rw [Server.sendToAll]
    cases hsessions : s.sessions with
    | nil => rfl
    | cons k l =>
      -- the call for the first client throws
      have hk : k ∈ s.sessions := hsessions ▸ List.mem_cons_self
      rw [List.foldlM_cons, hinv.send_clientId hk, htext, if_neg (List.cons_ne_nil k l)]
      rfl

/-- The first client is disconnected by then, and a message that is refused goes to nobody. -/
theorem sendToAll_once_firstCloses :
    ∃ s s' : Server Bytes, s.sessions = [2] ∧
      s.sendToAll ⟨2000, 103, .serialized [5] (by decide)⟩ = .ok s' ∧
      s'.sentTo 1 = s.sentTo 1 ∧ s'.sentTo 2 = s.sentTo 2 ++ [⟨2000, 103, [5], by decide⟩] ∧
      s.sendToAll ⟨2000, 103, .refused⟩ = .error "Cannot serialize message" := by
  obtain ⟨s, hs, -, -, hsessions, -⟩ := exists_firstCloses
  have hreach : (serverSystem bytesRegister).Reach Server.IdsLast s := hs.mono fun _ _ h => h.1
  obtain ⟨s', hs', -, -, heach⟩ :=
    (sendToAll_once hreach ⟨2000, 103, .serialized [5] (by decide)⟩).1 _ rfl
  have hrefused := (sendToAll_once hreach ⟨2000, 103, .refused⟩).2 _ rfl
  refine ⟨s, s', hsessions, hs', ?_, ?_, ?_⟩
  · rw [(heach 1).1, hsessions]
    exact List.append_nil _
  · rw [(heach 2).1, hsessions]
    rfl
  · rw [hrefused, hsessions]
    rfl

/-! ## The signals for one client -/

/-- What has been signalled for an ID. -/
inductive SignalPhase where
  | unknown
  | connected
  /-- Reading or writing has failed, and the other one goes on. -/
  | closing
  | closed
deriving DecidableEq, Repr

/-- The signals that can come next. -/
def SignalPhase.next {Msg : Type} : SignalPhase → ServerSignal Msg → Option SignalPhase
  | .unknown, .connected .. => some .connected
  | .connected, .rcvd .. => some .connected
  | .connected, .recvFailed .. => some .connected
  | .connected, .disconnected .. => some .closing
  | .closing, .rcvd .. => some .closing
  | .closing, .recvFailed .. => some .closing
  | .closing, .disconnected .. => some .closed
  | _, _ => none

namespace Server

variable {Msg : Type} {r : MessageRegister Msg} {s s' t : Server Msg} {n k c : ℕ}
variable {f : Session → Session} {m : OutMessage} {sig : ServerSignal Msg} {error : ErrorCode}
variable {p p' : SignalPhase}

def signalsOf (s : Server Msg) (c : ℕ) : List (ServerSignal Msg) :=
  s.signals.filter fun sig => sig.client = c

/-- The phase that the signals for an ID lead to, `none` if they do not come in order. -/
def conversation (s : Server Msg) (c : ℕ) : Option SignalPhase :=
  (s.signalsOf c).foldlM SignalPhase.next .unknown

/-- What the state of a session has to do with the signals for it. -/
def Fits (s : Server Msg) (n : ℕ) : SignalPhase → Prop
  | .unknown => n ∉ s.sessions ∧ (s.session n).reading = none ∧ (s.session n).writing = none
  | .connected => n ∈ s.sessions ∧ (s.session n).reading ≠ none ∧ (s.session n).failed = []
  | .closing => n ∉ s.sessions ∧ ((s.session n).reading ≠ none ↔ (s.session n).failed ≠ [])
  | .closed => n ∉ s.sessions ∧ (s.session n).reading = none ∧ (s.session n).failed ≠ []

def Conforms (s : Server Msg) (n : ℕ) : Prop := ∃ p, s.conversation n = some p ∧ s.Fits n p

/-- The two states do not differ in what concerns the signals for this session. -/
structure Same (n : ℕ) (s s' : Server Msg) : Prop where
  signals : s'.signalsOf n = s.signalsOf n
  sessions : n ∈ s'.sessions ↔ n ∈ s.sessions
  reading : (s'.session n).reading = none ↔ (s.session n).reading = none
  writing : (s.session n).writing = none → (s'.session n).writing = none
  failed : (s'.session n).failed = (s.session n).failed

theorem Same.trans (h : Same n s t) (h' : Same n t s') : Same n s s' :=
  ⟨h'.signals.trans h.signals, h'.sessions.trans h.sessions, h'.reading.trans h.reading,
    fun hw => h'.writing (h.writing hw), h'.failed.trans h.failed⟩

theorem Same.of_session (hsignals : s'.signalsOf n = s.signalsOf n)
    (hsessions : n ∈ s'.sessions ↔ n ∈ s.sessions) (hsession : s'.session n = s.session n) :
    Same n s s' := by
  apply Same.mk hsignals hsessions
  · rw [hsession]
  · rw [hsession]
    exact id
  · rw [hsession]

theorem Same.modify (hn : n ≠ k) : Same n s (s.modify k f) :=
  .of_session rfl Iff.rfl (modify_session_of_ne hn)

theorem Same.modify_self
    (hreading : (f (s.session k)).reading = none ↔ (s.session k).reading = none)
    (hwriting : (s.session k).writing = none → (f (s.session k)).writing = none)
    (hfailed : (f (s.session k)).failed = (s.session k).failed) : Same k s (s.modify k f) := by
  refine ⟨rfl, Iff.rfl, ?_, ?_, ?_⟩
  · rw [modify_session_self]
    exact hreading
  · rw [modify_session_self]
    exact hwriting
  · rw [modify_session_self]
    exact hfailed

/-- A signal is one client's. -/
theorem signalsOf_emit_of_ne (hc : sig.client ≠ c) : (s.emit sig).signalsOf c = s.signalsOf c := by
  show (s.signals ++ [sig]).filter _ = _
  rw [List.filter_append, List.filter_cons, if_neg (by simpa using hc)]
  exact List.append_nil _

theorem signalsOf_emit_self (hc : sig.client = c) :
    (s.emit sig).signalsOf c = s.signalsOf c ++ [sig] := by
  show (s.signals ++ [sig]).filter _ = _
  rw [List.filter_append, List.filter_cons, if_pos (by simpa using hc)]
  rfl

theorem Same.emit (hc : sig.client ≠ n) : Same n s (s.emit sig) :=
  .of_session (signalsOf_emit_of_ne hc) Iff.rfl rfl

/-- Another session is taken off the map, and its client is signalled as disconnected. -/
theorem Inv.same_disconnected (h : s.Inv) (hk : k < s.accepting) (hn : n ≠ k)
    (error : ErrorCode) : Same n s (s.disconnected k error) := by
  have hid := h.clientId_eq hk
  apply Same.of_session
  · apply signalsOf_emit_of_ne
    show clientId k ≠ n
    omega
  · show n ∈ (s.erase _).sessions ↔ _
    rw [mem_erase]
    apply and_iff_left_of_imp
    intro hmem
    rw [h.clientId_eq (h.known n hmem), hid]
    exact hn
  · rfl

/-- A client's conversation depends on what concerns the client. -/
theorem Conforms.congr (h : s.Conforms n) (hsame : Same n s s') : s'.Conforms n := by
  obtain ⟨p, hp, hfits⟩ := h
  refine ⟨p, ?_, ?_⟩
  · rw [conversation, hsame.signals]
    exact hp
  · cases p with
    | unknown =>
      exact ⟨mt hsame.sessions.mp hfits.1, hsame.reading.mpr hfits.2.1, hsame.writing hfits.2.2⟩
    | connected =>
      exact ⟨hsame.sessions.mpr hfits.1, mt hsame.reading.mp hfits.2.1,
        hsame.failed.trans hfits.2.2⟩
    | closing =>
      refine ⟨mt hsame.sessions.mp hfits.1, ?_⟩
      rw [hsame.failed, Ne, hsame.reading]
      exact hfits.2
    | closed =>
      refine ⟨mt hsame.sessions.mp hfits.1, hsame.reading.mpr hfits.2.1, ?_⟩
      rw [hsame.failed]
      exact hfits.2.2

/-- A signal takes its client's conversation one step further. -/
theorem conversation_emit (hp : s.conversation c = some p) (hc : sig.client = c)
    (hnext : p.next sig = some p') : (s.emit sig).conversation c = some p' := by
  rw [conversation, signalsOf_emit_self hc, List.foldlM_append]
  rw [conversation] at hp
  rw [hp]
  simpa using hnext

/-- While the client is connected its session is in the map and reads. -/
theorem Conforms.of_mem (h : s.Conforms n) (hn : n ∈ s.sessions) :
    s.conversation n = some .connected ∧ (s.session n).reading ≠ none ∧
      (s.session n).failed = [] := by
  obtain ⟨p, hp, hfits⟩ := h
  cases p with
  | unknown => exact absurd hn hfits.1
  | connected => exact ⟨hp, hfits.2⟩
  | closing => exact absurd hn hfits.1
  | closed => exact absurd hn hfits.1

theorem not_mem_disconnected : k ∉ (s.disconnected k error).sessions :=
  fun hmem => (mem_erase.mp hmem).2 rfl

/-- Reading ends with an error. -/
theorem Conforms.readFailed (h : s.Conforms k) (hid : clientId k = k)
    (hreading : (s.session k).reading ≠ none) (error : ErrorCode) :
    ((s.modify k fun x => { x with reading := none }).disconnected k error).Conforms k := by
  obtain ⟨p, hp, hfits⟩ := h
  have hnone : (((s.modify k fun x => { x with reading := none }).disconnected k
      error).session k).reading = none := by
    show (Function.update s.session k _ k).reading = none
    rw [Function.update_self]
  have hfailed : (((s.modify k fun x => { x with reading := none }).disconnected k
      error).session k).failed = (s.session k).failed := by
    show (Function.update s.session k _ k).failed = _
    rw [Function.update_self]
  cases p with
  | unknown => exact absurd hfits.2.1 hreading
  | connected =>
    refine ⟨.closing, conversation_emit (p := .connected) hp hid rfl, not_mem_disconnected, ?_⟩
    rw [hfailed]
    exact iff_of_false (fun hne => hne hnone) fun hne => hne hfits.2.2
  | closing =>
    refine ⟨.closed, conversation_emit (p := .closing) hp hid rfl, not_mem_disconnected, hnone, ?_⟩
    rw [hfailed]
    exact hfits.2.mp hreading
  | closed => exact absurd hfits.2.1 hreading

/-- Writing ends with an error. -/
theorem Conforms.writeFailed (h : s.Conforms k) (hid : clientId k = k) (hok : (s.session k).Ok)
    (hm : (s.session k).writing = some m) (error : ErrorCode) :
    ((s.modify k fun x => x.handleWriteError m).disconnected k error).Conforms k := by
  obtain ⟨p, hp, hfits⟩ := h
  have hnil := hok.failed_eq_nil hm
  have hreading : (((s.modify k fun x => x.handleWriteError m).disconnected k
      error).session k).reading = (s.session k).reading := by
    show (Function.update s.session k _ k).reading = _
    rw [Function.update_self]
    rfl
  have hfailed : (((s.modify k fun x => x.handleWriteError m).disconnected k
      error).session k).failed ≠ [] := by
    show (Function.update s.session k _ k).failed ≠ _
    rw [Function.update_self]
    simp [Session.handleWriteError]
  cases p with
  | unknown =>
    rw [hfits.2.2] at hm
    nomatch hm
  | connected =>
    refine ⟨.closing, conversation_emit (p := .connected) hp hid rfl, not_mem_disconnected, ?_⟩
    rw [hreading]
    exact iff_of_true hfits.2.1 hfailed
  | closing =>
    -- reading has failed before
    refine ⟨.closed, conversation_emit (p := .closing) hp hid rfl, not_mem_disconnected, ?_,
      hfailed⟩
    rw [hreading]
    by_contra hne
    exact hfits.2.mp hne hnil
  | closed => exact absurd hnil hfits.2.2

/-- The client that is accepted begins its conversation. -/
theorem Conforms.handleAccept (hinv : s.Inv) (h : ∀ n, s.Conforms n) (error : ErrorCode)
    (endpoint : String) (n : ℕ) : (s.handleAccept error endpoint).Conforms n := by
  have hid : clientId s.accepting = s.accepting := clientId_of_lt hinv.bound
  rw [Server.handleAccept]
  by_cases herror : error = 0
  · rw [if_pos herror]
    by_cases hn : n = s.accepting
    · rw [hn]
      obtain ⟨p, hp, hfits⟩ := h s.accepting
      -- no signal has used the id before
      have hsilent : s.signalsOf s.accepting = [] := by
        apply List.filter_eq_nil_iff.mpr
        intro sig hsig
        have hlt := hinv.silent sig hsig
        simpa using (by omega : sig.client ≠ s.accepting)
      refine ⟨.connected, ?_, ?_, ?_, ?_⟩
      · apply conversation_emit (s := s) (p := .unknown)
        · rw [conversation, hsilent]
          rfl
        · exact hid
        · rfl
      · exact (List.mem_orderedInsert _).mpr (.inl rfl)
      · show (Function.update s.session s.accepting _ s.accepting).reading ≠ none
        rw [Function.update_self]
        nofun
      · show (Function.update s.session s.accepting _ s.accepting).failed = []
        rw [Function.update_self]
        show (s.session s.accepting).failed = []
        rw [hinv.fresh _ (Nat.le_refl _)]
    · apply (h n).congr
      apply Same.of_session
      · apply signalsOf_emit_of_ne (s := s)
        show clientId s.accepting ≠ n
        omega
      · show n ∈ List.orderedInsert _ _ _ ↔ _
        rw [List.mem_orderedInsert, or_iff_right hn, mem_erase]
        apply and_iff_left_of_imp
        intro hmem
        rw [hinv.clientId_eq (hinv.known n hmem), hid]
        exact hn
      · exact Function.update_of_ne hn ..
  · rw [if_neg herror]
    exact (h n).congr (.of_session rfl Iff.rfl rfl)

theorem modify_modify (s : Server Msg) (k : ℕ) (f g : Session → Session) :
    (s.modify k f).modify k g = s.modify k (g ∘ f) := by
  simp only [modify, Function.update_self, Function.update_idem, Function.comp_apply]

/-- A header with enough memory. -/
theorem handleReadHeader_eq (s : Server Msg) (k toRead : ℕ) :
    s.handleReadHeader k 0 toRead true = s.modify k fun x =>
      { x with
        reading := some .message
        inDataSize := if toRead > x.inDataSize then toRead else x.inDataSize } := by
  rw [Server.handleReadHeader, if_pos rfl]
  simp only [modify_session_self, if_true]
  by_cases hsize : toRead > (s.session k).inDataSize
  · rw [if_pos hsize, modify_modify, modify_modify]
    simp only [modify, Function.comp_apply, if_pos hsize]
  · rw [if_neg hsize, modify_modify]
    simp only [modify, Function.comp_apply, if_neg hsize]

/-- A header that cannot be read disconnects the reading half. -/
theorem Conforms.handleReadHeader (hinv : s.Inv) (hk : k < s.accepting)
    (hreading : (s.session k).reading = some .header) (h : ∀ n, s.Conforms n)
    (error : ErrorCode) (toRead : ℕ) (n : ℕ) :
    (s.handleReadHeader k error toRead true).Conforms n := by
  have hread := hinv.startReading hk none
  by_cases herror : error = 0
  · rw [herror, handleReadHeader_eq]
    apply (h n).congr
    by_cases hn : n = k
    · rw [hn]
      apply Same.modify_self
      · rw [hreading]
        exact iff_of_false nofun nofun
      · exact id
      · rfl
    · exact .modify hn
  · rw [Server.handleReadHeader, if_neg herror]
    by_cases hn : n = k
    · rw [hn]
      exact (h k).readFailed (hinv.clientId_eq hk) (by simp [hreading]) error
    · exact (h n).congr ((Same.modify hn).trans (hread.same_disconnected hk hn error))

/-- Something has been received from a client, and a signal says so. -/
theorem Conforms.received (hid : clientId k = k) (hreading : (s.session k).reading ≠ none)
    (h : ∀ n, s.Conforms n) (hsig : sig.client = clientId k)
    (hconnected : SignalPhase.next .connected sig = some .connected)
    (hclosing : SignalPhase.next .closing sig = some .closing) (n : ℕ) :
    (((s.modify k fun x => { x with reading := none }).emit sig).modify k
      Session.startRead).Conforms n := by
  by_cases hn : n = k
  · have hself : ((((s.modify k fun x => { x with reading := none }).emit sig).modify k
        Session.startRead).session k) = { s.session k with reading := some .header } := by
      rw [modify_session_self]
      show Session.startRead (Function.update s.session k _ k) = _
      rw [Function.update_self]
      rfl
    obtain ⟨p, hp, hfits⟩ := h k
    rw [hn]
    cases p with
    -- a session that is reading has been connected
    | unknown => exact absurd hfits.2.1 hreading
    | connected =>
      refine ⟨.connected, conversation_emit (s := s) hp (hsig.trans hid) hconnected, hfits.1, ?_⟩
      rw [hself]
      exact ⟨nofun, hfits.2.2⟩
    | closing =>
      refine ⟨.closing, conversation_emit (s := s) hp (hsig.trans hid) hclosing, hfits.1, ?_⟩
      rw [hself]
      exact iff_of_true nofun (hfits.2.mp hreading)
    | closed => exact absurd hfits.2.1 hreading
  · apply (h n).congr
    apply Same.of_session
    · apply signalsOf_emit_of_ne (s := s)
      omega
    · exact Iff.rfl
    · show Function.update (Function.update s.session k _) k _ n = _
      rw [Function.update_of_ne hn, Function.update_of_ne hn]

/-- A message that has been read is signalled to a client that is still reading. -/
theorem Conforms.handleReadMessage (hinv : s.Inv) (hk : k < s.accepting)
    (hreading : (s.session k).reading = some .message) (h : ∀ n, s.Conforms n)
    (error : ErrorCode) (handed : Handed) (n : ℕ) :
    (s.handleReadMessage r k error handed).Conforms n := by
  have hid := hinv.clientId_eq hk
  have hread := hinv.startReading hk none
  have hne : (s.session k).reading ≠ none := by simp [hreading]
  rw [Server.handleReadMessage]
  by_cases herror : error = 0
  · rw [if_pos herror]
    cases r.deserialize handed with
    | ok m => exact Conforms.received hid hne h rfl rfl rfl n
    | error text => exact Conforms.received hid hne h rfl rfl rfl n
  · rw [if_neg herror]
    by_cases hn : n = k
    · rw [hn]
      exact (h k).readFailed hid hne error
    · exact (h n).congr ((Same.modify hn).trans (hread.same_disconnected hk hn error))

/-- A message that cannot be written disconnects the writing half. -/
theorem Conforms.handleWrite (hinv : s.Inv) (hk : k < s.accepting)
    (hm : (s.session k).writing = some m) (h : ∀ n, s.Conforms n) (error : ErrorCode) (n : ℕ) :
    (s.handleWrite k m error).Conforms n := by
  have hok := hinv.ok k
  rw [Server.handleWrite]
  by_cases herror : error = 0
  · rw [if_pos herror]
    apply (h n).congr
    by_cases hn : n = k
    · rw [hn]
      apply Same.modify_self
      · rw [Session.handleWriteOk]
        split <;> rfl
      · intro hnone
        rw [hm] at hnone
        nomatch hnone
      · rw [Session.handleWriteOk]
        split <;> rfl
    · exact .modify hn
  · rw [if_neg herror]
    by_cases hn : n = k
    · rw [hn]
      exact (h k).writeFailed (hinv.clientId_eq hk) hok hm error
    · have hwritten : (s.modify k fun x => x.handleWriteError m).Inv :=
        hinv.modify hk (hok.handleWriteError hm) (Session.history_handleWriteError hm)
      exact (h n).congr ((Same.modify hn).trans (hwritten.same_disconnected hk hn error))

theorem Session.sendEntry_reading (x : Session) (m : OutMessage) :
    (x.sendEntry m).reading = x.reading ∧ (x.sendEntry m).failed = x.failed := by
  rw [Session.sendEntry]
  split <;> exact ⟨rfl, rfl⟩

/-- Only what is connected is sent to. -/
theorem Conforms.send {msg : MessageToSend} (h : ∀ n, s.Conforms n)
    (hs : s.send c msg = .ok s') (n : ℕ) : s'.Conforms n := by
  obtain ⟨k, hk, m, -, -, rfl⟩ := exists_of_send hs
  by_cases hn : n = k
  · obtain ⟨hp, hreading, hfailed⟩ := (h k).of_mem hk
    obtain ⟨hsame, hsame'⟩ := Session.sendEntry_reading (s.session k) m
    rw [hn]
    refine ⟨.connected, hp, hk, ?_⟩
    show (Function.update s.session k _ k).reading ≠ none ∧
      (Function.update s.session k _ k).failed = []
    rw [Function.update_self, hsame, hsame']
    exact ⟨hreading, hfailed⟩
  · exact (h n).congr (.of_session rfl Iff.rfl (Function.update_of_ne hn ..))

/-- Every step keeps every client's conversation in order. -/
theorem Conforms.step {l : ServerStep} (hinv : s.Inv) (h : ∀ n, s.Conforms n)
    (hmemory : HasMemory l) (hs : s.step r l = some s') (n : ℕ) : s'.Conforms n := by
  cases l with
  | accept error endpoint =>
    obtain rfl := Option.some.inj hs
    exact Conforms.handleAccept hinv h error endpoint n
  | header k error toRead alloc =>
    obtain ⟨hreading, hs⟩ := Option.ite_none_right_eq_some.mp hs
    obtain rfl := Option.some.inj hs
    obtain rfl : alloc = true := hmemory
    exact .handleReadHeader hinv (hinv.lt_of_ne fun hnew => by simp [hnew] at hreading) hreading h
      error toRead n
  | message k error handed =>
    obtain ⟨hreading, hs⟩ := Option.ite_none_right_eq_some.mp hs
    obtain rfl := Option.some.inj hs
    exact .handleReadMessage hinv (hinv.lt_of_ne fun hnew => by simp [hnew] at hreading) hreading h
      error handed n
  | written k error =>
    obtain ⟨m, hm, rfl⟩ := Option.map_eq_some_iff.mp hs
    exact .handleWrite hinv (hinv.lt_of_ne fun hnew => by simp [hnew] at hm) hm h error n
  | send c m => exact Conforms.send h (eq_ok_of_toOption hs) n
  | sendToAll m =>
    exact Loop.foldlM_invariant (P := fun s => ∀ n, s.Conforms n)
      (fun _ _ _ ht hsend => Conforms.send ht hsend) h (eq_ok_of_toOption hs) n

end Server

/-- As long as memory is found, the signals for an ID come in this order: it is connected, things
are received, it is disconnected, once for reading and once for writing. Its session is in the map
from the first signal until it is disconnected for the first time. By then either reading has
ended or a write has failed, and by the second time both, and nothing is read or written. -/
theorem signals_conform {Msg : Type} {r : MessageRegister Msg} {s : Server Msg}
    (h : (serverSystem r).Reach (fun s l => s.IdsLast l ∧ Server.HasMemory l) s) (n : ℕ) :
    ∃ p, s.conversation n = some p ∧ (n ∈ s.sessions ↔ p = .connected) ∧
      (p = .connected → (s.session n).reading ≠ none ∧ (s.session n).failed = []) ∧
      (p = .closing → ((s.session n).reading = none ↔ (s.session n).failed = [])) ∧
      (p = .closed → (s.session n).reading = none ∧ (s.session n).failed.length = 1 ∧
        (s.session n).writing = none) := by
  -- both invariants at once, since the signals need the sessions'
  have hinv : s.Inv ∧ ∀ n, s.Conforms n := by
    refine LTS.Reach.invariant (P := fun s => s.Inv ∧ ∀ n, s.Conforms n) ?_ ?_ h
    · rintro _ rfl
      exact ⟨Server.inv_start, fun n => ⟨.unknown, rfl, nofun, rfl, rfl⟩⟩
    · exact fun _ _ _ hs hl hstep =>
        ⟨hs.1.step hl.1 hstep, Server.Conforms.step hs.1 hs.2 hl.2 hstep⟩
  obtain ⟨p, hp, hfits⟩ := hinv.2 n
  have hok := hinv.1.ok n
  refine ⟨p, hp, ?_, ?_, ?_, ?_⟩
  · cases p with
    | connected => exact iff_of_true hfits.1 rfl
    | _ => exact iff_of_false hfits.1 nofun
  · rintro rfl
    exact hfits.2
  · rintro rfl
    exact not_iff_not.mp hfits.2
  · rintro rfl
    have hpos := List.length_pos_iff.mpr hfits.2.2
    have hone := hok.once
    exact ⟨hfits.2.1, by omega, hok.stuck hfits.2.2⟩

theorem signals_conform_firstCloses :
    ∃ s : Server Bytes, s.conversation 1 = some .closed ∧ (s.session 1).reading = none ∧
      (s.session 1).failed.length = 1 ∧ (s.session 1).writing = none := by
  obtain ⟨s, hs, -, -, -, hsignals⟩ := exists_firstCloses
  obtain ⟨p, hp, -, -, -, hclosed⟩ := signals_conform hs 1
  have hconversation : s.conversation 1 = some .closed := by
    rw [Server.conversation, Server.signalsOf, hsignals]
    rfl
  have hphase : p = .closed := Option.some.inj (hp.symm.trans hconversation)
  exact ⟨s, hconversation, hclosed hphase⟩

end GazeboRcll
