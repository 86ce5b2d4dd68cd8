import GazeboRcll.Library.LTS
import Mathlib.Data.Nat.Notation
import Mathlib.Tactic.Common

/-!
# The send queue of a client

`ProtobufStreamClient::send` and `handle_write` share a queue and the flag
`outbound_active_`: while a write is under way messages are queued, and its completion
starts the next write. A write that fails leaves `handle_write` on another path, which does
not touch the flag.

`inOrder_iff`: everything is as it should be exactly until the first write has failed.
-/

namespace GazeboRcll

/-- A queue entry: which of the messages it is that `send` has accepted, and the connection
that was established when `send` tested `connected_`. -/
structure OutEntry where
  number : ℕ
  connection : ℕ
deriving DecidableEq, Repr

/-- The members of the client that sending works on, and what goes on around them. -/
structure SendQueue where
  connected : Bool
  outboundActive : Bool
  outboundQueue : List OutEntry
  /-- How many connections have been established. -/
  connection : ℕ
  /-- Calls of `send` that have passed the test of `connected_` but do not hold the lock
  yet, each with the connection at its test. -/
  callers : List ℕ
  /-- How many messages `send` has accepted. -/
  accepted : ℕ
  /-- The entries handed to `async_write`, oldest first. -/
  handed : List OutEntry
  /-- Writes that have not completed, each with the connection it was started on. -/
  outstanding : List (OutEntry × ℕ)
  /-- The connections on which a write has failed. -/
  failures : List ℕ

inductive SendStep where
  /-- `send` is called and finds the client connected. -/
  | enter
  /-- A call of `send` goes on with the lock. -/
  | lock (k : ℕ)
  /-- A write completes, and `handle_write` is called. -/
  | written (k : ℕ) (ok : Bool)
  /-- `disconnect`, or a read has failed. -/
  | disconnect
  /-- `handle_connect` without an error. -/
  | connect
deriving DecidableEq, Repr

namespace SendQueue

/-- `async_write` of an entry on the connection there is. -/
def asyncWrite (q : SendQueue) (e : OutEntry) : SendQueue :=
  { q with
    handed := q.handed ++ [e]
    outstanding := q.outstanding ++ [(e, q.connection)] }

/-- What `send` does under the lock. -/
def push (q : SendQueue) (connection : ℕ) : SendQueue :=
  let e : OutEntry := ⟨q.accepted, connection⟩
  let q := { q with accepted := q.accepted + 1 }
  if q.outboundActive then { q with outboundQueue := q.outboundQueue ++ [e] }
  else { q with outboundActive := true }.asyncWrite e

/-- `disconnect_nosig`. -/
def disconnectNosig (q : SendQueue) : SendQueue := { q with connected := false }

/-- `handle_write` without an error. -/
def handleWriteOk (q : SendQueue) : SendQueue :=
  match q.outboundQueue with
  | [] => { q with outboundActive := false }
  | e :: rest => { q with outboundQueue := rest }.asyncWrite e

/-- `handle_write` with an error. -/
def handleWriteError (q : SendQueue) (connection : ℕ) : SendQueue :=
  { q with failures := q.failures ++ [connection] }.disconnectNosig

/-- A step of a caller or of the thread of the client, `none` where it cannot happen. -/
def step (q : SendQueue) : SendStep → Option SendQueue
  | .enter => if q.connected then some { q with callers := q.callers ++ [q.connection] } else none
  | .lock k =>
    match q.callers[k]? with
    | none => none
    | some connection => some ({ q with callers := q.callers.eraseIdx k }.push connection)
  | .written k ok =>
    match q.outstanding[k]? with
    | none => none
    | some w =>
      let q := { q with outstanding := q.outstanding.eraseIdx k }
      if ok then some q.handleWriteOk else some (q.handleWriteError w.2)
  | .disconnect => some q.disconnectNosig
  | .connect => some { q with connected := true, connection := q.connection + 1 }

/-- The constructor. -/
def start : SendQueue where
  connected := false
  outboundActive := false
  outboundQueue := []
  connection := 0
  callers := []
  accepted := 0
  handed := []
  outstanding := []
  failures := []

end SendQueue

/-- Sending on one client, from its construction on. -/
def sendSystem : LTS SendQueue SendStep where
  init q := q = .start
  next := SendQueue.step

namespace SendQueue

/-- What is expected of the queue: the flag tells whether a write is under way, there is
never more than one, messages are written in the order in which they were accepted, and one
of this connection waits only for a write under way, or after a failure on it. -/
structure InOrder (q : SendQueue) : Prop where
  flag : q.outboundActive = true ↔ q.outstanding.length = 1
  one : q.outstanding.length ≤ 1
  order : (q.handed ++ q.outboundQueue).map OutEntry.number = List.range q.accepted
  live : q.outstanding = [] → q.connection ∉ q.failures →
    ∀ e ∈ q.outboundQueue, e.connection ≠ q.connection

/-- Nothing is under way and nothing waits. -/
structure Idle (q : SendQueue) : Prop where
  active : q.outboundActive = false
  outstanding : q.outstanding = []
  queue : q.outboundQueue = []
  failures : q.failures = []

/-- One write is under way. -/
structure Busy (q : SendQueue) : Prop where
  active : q.outboundActive = true
  outstanding : ∃ w, q.outstanding = [w]
  failures : q.failures = []

/-- A write has failed: the flag is left raised, and no write will be started again. -/
structure Stuck (q : SendQueue) : Prop where
  active : q.outboundActive = true
  outstanding : q.outstanding = []
  failures : q.failures ≠ []

structure Inv (q : SendQueue) : Prop where
  writes : q.Idle ∨ q.Busy ∨ q.Stuck
  order : (q.handed ++ q.outboundQueue).map OutEntry.number = List.range q.accepted

theorem inv_start : Inv start where
  writes := .inl ⟨rfl, rfl, rfl, rfl⟩
  order := rfl

variable {q q' : SendQueue}

/-- Under the lock the message goes to the end of the queue, or is written at once when the
flag says that nothing is under way. -/
theorem Inv.push (h : Inv q) (connection : ℕ) : Inv (q.push connection) := by
  have horder : ((q.handed ++ q.outboundQueue) ++ [OutEntry.mk q.accepted connection]).map
      OutEntry.number = List.range (q.accepted + 1) := by
    rw [List.map_append, h.order, List.range_succ]
    rfl
  rcases h.writes with hidle | hbusy | hstuck
  -- nothing is under way: the entry is written at once
  · have hpush : q.push connection = SendQueue.asyncWrite
        { q with accepted := q.accepted + 1, outboundActive := true } ⟨q.accepted, connection⟩ :=
      if_neg (by rw [hidle.active]; exact Bool.false_ne_true)
    rw [hpush]
    refine ⟨.inr (.inl ⟨rfl, ⟨(⟨q.accepted, connection⟩, q.connection), ?_⟩, hidle.failures⟩), ?_⟩
    · show q.outstanding ++ _ = _
      rw [hidle.outstanding]
      rfl
    · show (q.handed ++ [_] ++ q.outboundQueue).map OutEntry.number = _
      rw [hidle.queue, List.append_nil] at horder ⊢
      exact horder
  · have hpush : q.push connection = { q with
        -- a write is under way, or the flag says so
        accepted := q.accepted + 1
        outboundQueue := q.outboundQueue ++ [⟨q.accepted, connection⟩] } := if_pos hbusy.active
    rw [hpush]
    refine ⟨.inr (.inl ⟨hbusy.active, hbusy.outstanding, hbusy.failures⟩), ?_⟩
    show (q.handed ++ (q.outboundQueue ++ [_])).map OutEntry.number = _
    rw [← List.append_assoc]
    exact horder
  · have hpush : q.push connection = { q with
        accepted := q.accepted + 1
        outboundQueue := q.outboundQueue ++ [⟨q.accepted, connection⟩] } := if_pos hstuck.active
    rw [hpush]
    refine ⟨.inr (.inr ⟨hstuck.active, hstuck.outstanding, hstuck.failures⟩), ?_⟩
    show (q.handed ++ (q.outboundQueue ++ [_])).map OutEntry.number = _
    rw [← List.append_assoc]
    exact horder

/-- A write completes without an error. -/
theorem Inv.handleWriteOk (h : Inv q) (hbusy : q.Busy) :
    Inv { q with outstanding := [] }.handleWriteOk := by
  have horder := h.order
  rw [SendQueue.handleWriteOk]
  cases hqueue : q.outboundQueue with
  | nil =>
    rw [hqueue] at horder
    exact ⟨.inl ⟨rfl, rfl, rfl, hbusy.failures⟩, horder⟩
  | cons e rest =>
    rw [hqueue] at horder
    refine ⟨.inr (.inl ⟨hbusy.active, ⟨(e, q.connection), rfl⟩, hbusy.failures⟩), ?_⟩
    show ((q.handed ++ [e]) ++ rest).map OutEntry.number = _
    rw [List.append_assoc]
    exact horder

/-- A write completes with an error. -/
theorem Inv.handleWriteError (h : Inv q) (hbusy : q.Busy) (connection : ℕ) :
    Inv ({ q with outstanding := [] }.handleWriteError connection) :=
  ⟨.inr (.inr ⟨hbusy.active, rfl, List.append_ne_nil_of_right_ne_nil _ (List.cons_ne_nil _ _)⟩),
    h.order⟩

/-- The queue does not depend on the connection and the callers. -/
theorem Inv.congr (h : Inv q) (hactive : q'.outboundActive = q.outboundActive)
    (houtstanding : q'.outstanding = q.outstanding)
    (hqueue : q'.outboundQueue = q.outboundQueue) (hfailures : q'.failures = q.failures)
    (hhanded : q'.handed = q.handed) (haccepted : q'.accepted = q.accepted) : Inv q' := by
  refine ⟨?_, ?_⟩
  · rcases h.writes with ⟨ha, ho, hq, hf⟩ | ⟨ha, ho, hf⟩ | ⟨ha, ho, hf⟩
    · exact .inl ⟨hactive.trans ha, houtstanding.trans ho, hqueue.trans hq, hfailures.trans hf⟩
    · exact .inr (.inl ⟨hactive.trans ha, houtstanding ▸ ho, hfailures.trans hf⟩)
    · exact .inr (.inr ⟨hactive.trans ha, houtstanding.trans ho, hfailures ▸ hf⟩)
  · rw [hhanded, hqueue, haccepted]
    exact h.order

/-- A write that completes is the only one. -/
theorem Inv.busy_of_outstanding (h : Inv q) {k : ℕ} {w : OutEntry × ℕ}
    (hw : q.outstanding[k]? = some w) : q.Busy ∧ q.outstanding.eraseIdx k = [] := by
  rcases h.writes with hidle | hbusy | hstuck
  · rw [hidle.outstanding] at hw
    cases hw
  · refine ⟨hbusy, ?_⟩
    obtain ⟨w', hw'⟩ := hbusy.outstanding
    rw [hw'] at hw ⊢
    cases k with
    | zero => rfl
    | succ k => cases hw
  · rw [hstuck.outstanding] at hw
    cases hw

theorem Inv.step {l : SendStep} (h : Inv q) (hs : q.step l = some q') : Inv q' := by
  cases l with
  | enter =>
    rw [SendQueue.step] at hs
    split_ifs at hs
    cases hs
    exact h.congr rfl rfl rfl rfl rfl rfl
  | lock k =>
    rw [SendQueue.step] at hs
    cases hcaller : q.callers[k]? with
    | none =>
      rw [hcaller] at hs
      cases hs
    | some connection =>
      rw [hcaller] at hs
      cases hs
      -- the caller leaves the line, then its entry is queued
      have hcallers : Inv { q with callers := q.callers.eraseIdx k } :=
        h.congr rfl rfl rfl rfl rfl rfl
      exact hcallers.push connection
  | written k ok =>
    rw [SendQueue.step] at hs
    cases hwrite : q.outstanding[k]? with
    | none =>
      rw [hwrite] at hs
      cases hs
    | some w =>
      -- a write that ends is the only one under way
      obtain ⟨hbusy, hnone⟩ := h.busy_of_outstanding hwrite
      simp only [hwrite, hnone] at hs
      cases ok with
      | true =>
        cases hs
        exact h.handleWriteOk hbusy
      | false =>
        cases hs
        exact h.handleWriteError hbusy w.2
  | disconnect =>
    cases hs
    exact h.congr rfl rfl rfl rfl rfl rfl
  | connect =>
    cases hs
    exact h.congr rfl rfl rfl rfl rfl rfl

theorem Inv.no_failure_iff (h : Inv q) : q.InOrder ↔ q.failures = [] := by
  constructor
  · intro hinOrder
    rcases h.writes with hidle | hbusy | hstuck
    · exact hidle.failures
    · exact hbusy.failures
    · -- the flag says that a write is under way, but there is none
      have hone := hinOrder.flag.mp hstuck.active
      rw [hstuck.outstanding] at hone
      cases hone
  · intro hfailures
    rcases h.writes with hidle | hbusy | hstuck
    · refine ⟨?_, ?_, h.order, fun _ _ e he => ?_⟩
      · rw [hidle.active, hidle.outstanding]
        exact iff_of_false Bool.false_ne_true (Nat.zero_ne_one)
      · rw [hidle.outstanding]
        exact Nat.zero_le _
      · rw [hidle.queue] at he
        exact absurd he List.not_mem_nil
    -- one write, and the flag is up
    · obtain ⟨w, hw⟩ := hbusy.outstanding
      refine ⟨?_, ?_, h.order, fun hnone => ?_⟩
      · rw [hw]
        exact iff_of_true hbusy.active rfl
      · rw [hw]
        exact Nat.le_refl _
      · rw [hw] at hnone
        cases hnone
    · exact absurd hfailures hstuck.failures

end SendQueue

/-- In every state that sending can reach, whatever connections were lost, the queue is as
it should be exactly if no write has failed so far. -/
theorem inOrder_iff {q : SendQueue} (h : sendSystem.Reachable q) :
    q.InOrder ↔ q.failures = [] := by
  have hinv : q.Inv := by
    refine LTS.Reach.invariant (P := SendQueue.Inv) ?_ ?_ h
    · rintro _ rfl
      exact SendQueue.inv_start
    · exact fun q l q' hq _ hs => hq.step hs
  exact hinv.no_failure_iff

/-- Two messages are sent at once, the connection is closed after both are written, and a
third one is sent on the next connection. -/
def sentAgain : List SendStep :=
  [.connect, .enter, .enter, .lock 1, .lock 0, .written 0 true, .written 0 true, .disconnect,
    .connect, .enter, .lock 0]

theorem inOrder_iff_sentAgain :
    ∃ q, sendSystem.Reachable q ∧ q.handed.length = 3 ∧ q.InOrder := by
  obtain ⟨q, hreach, hq⟩ :=
    LTS.exists_reachable (T := sendSystem) (s := .start) (l := sentAgain)
      (p := fun q => decide (q.handed.length = 3 ∧ q.failures = [])) rfl (by decide)
  obtain ⟨hthree, hnone⟩ := of_decide_eq_true hq
  exact ⟨q, hreach, hthree, (inOrder_iff hreach).mpr hnone⟩

/-- A write fails, and the client connects again: the next message waits for nothing. -/
theorem message_waits_after_failure :
    ¬ ∀ q, sendSystem.Reachable q → q.InOrder := by
  intro h
  obtain ⟨q, hreach, hq⟩ :=
    LTS.exists_reachable (T := sendSystem) (s := .start)
      (l := [.connect, .enter, .lock 0, .written 0 false, .connect, .enter, .lock 0])
      (p := fun q => decide (q.outstanding = [] ∧ q.connection ∉ q.failures ∧
        ∃ e ∈ q.outboundQueue, e.connection = q.connection)) rfl (by decide)
  obtain ⟨hnone, hconnection, e, he, hsame⟩ := of_decide_eq_true hq
  exact (h q hreach).live hnone hconnection e he hsame

end GazeboRcll
