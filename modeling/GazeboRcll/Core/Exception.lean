import GazeboRcll.Library.Chain
import GazeboRcll.Library.LTS
import Mathlib.Data.Finset.Card
import Mathlib.Data.Finset.Option
import Mathlib.Data.Int.Notation
import Mathlib.Data.List.Basic
import Mathlib.Tactic.Common

/-!
# Exceptions and their messages

An `Exception` keeps its messages in a singly linked list, with a pointer to the first and one to
the last cell, and a mutex of its own. Several exceptions share the memory: one is made of another
one, or takes over its messages.

* `messages_refine`: whatever was done with them, every exception has a list of messages of its own,
  and what is in memory belongs to one of them until it is destroyed. An assignment leaves a mutex
  behind.
* `copy_eq_iff`: a copy takes the messages for formats, so that it is one only without a `%`, or
  where `vasprintf` fails.

Memory is found for every cell, and no text of `strerror` has a `%`.
-/

namespace GazeboRcll

/-- `message_list_t` cells and where they are. -/
abbrev MessageMemory := Memory ℕ String

/-- Why there is no text: the format ends within a conversion, where `vasprintf` returns -1, or it
has a conversion that would read an argument. -/
inductive FormatError where
  | incomplete
  | undefined
deriving DecidableEq, Repr

/-- What `vasprintf` makes of a format without arguments. -/
def vasprintf : List Char → Except FormatError (List Char)
  | [] => .ok []
  | ['%'] => .error .incomplete
  | '%' :: '%' :: cs => (vasprintf cs).map ('%' :: ·)
  | '%' :: _ :: _ => .error .undefined
  | c :: cs => (vasprintf cs).map (c :: ·)

/-- The text that `append_nolock` keeps for a format without arguments; `none` where an argument
would be read. -/
def formatOnly (format : String) : Option String :=
  match vasprintf format.toList with
  | .ok msg => some (.ofList msg)
  -- strdup(format)
  | .error .incomplete => some format
  | .error .undefined => none

/-- `fawkes::Exception`. -/
structure Exception where
  /-- Where its mutex is. -/
  messagesMutex : ℕ
  messages : Option ℕ := none
  messagesEnd : Option ℕ := none
  errno : ℤ := 0
  typeId : String := "unknown"
deriving DecidableEq, Repr

/-- The exceptions there are, by their names, and the memory of their messages and mutexes. -/
structure Exceptions where
  memory : MessageMemory
  /-- Where there is a mutex. -/
  mutexes : Finset ℕ
  exception : ℕ → Option Exception

/-- The operations, with the addresses that `new Mutex()` and `malloc` return. -/
inductive ExceptionStep where
  /-- The constructor for subclasses. -/
  | new (x mutex : ℕ)
  /-- The constructor with a format: the message, `none` without a format. -/
  | newMessage (x mutex : ℕ) (message : Option String) (address : ℕ)
  /-- The constructor with an error number as well. -/
  | newErrno (x mutex : ℕ) (errno : ℤ) (message : Option String) (address : ℕ)
  /-- The copy constructor. -/
  | copy (x y mutex : ℕ) (addresses : List ℕ)
  | append (x : ℕ) (message : Option String) (address : ℕ)
  | prepend (x : ℕ) (message : Option String) (address : ℕ)
  /-- `append` of an exception. -/
  | appendException (x y : ℕ) (addresses : List ℕ)
  /-- `operator=`. -/
  | assign (x y mutex : ℕ) (addresses : List ℕ)
  | setTypeId (x : ℕ) (id : String)
  /-- The destructor, with so many turns of its loop. -/
  | destroy (x : ℕ) (turns : ℕ)
deriving DecidableEq, Repr

namespace Exception

/-- `what`, `none` where the cell is not there. -/
def what (m : MessageMemory) (e : Exception) : Option String :=
  match e.messages with
  | none => some "Unknown error"
  | some p => (m p).map Prod.fst

/-- `append_nolock_nocopy`, to which the other ones come. -/
def appendNolock (m : MessageMemory) (e : Exception) (message : String) (address : ℕ) :
    MessageMemory × Exception :=
  let new := Function.update m address (some (message, none))
  match e.messages, e.messagesEnd with
  | none, _ => (new, { e with messages := some address, messagesEnd := some address })
  | some _, none => (new, e)
  | some _, some last =>
    -- messages_end->next = ml
    match new last with
    | none => (new, e)
    | some (text, _) =>
      (Function.update new last (some (text, some address)), { e with messagesEnd := some address })

/-- `prepend_nolock_va`. -/
def prependNolock (m : MessageMemory) (e : Exception) (message : String) (address : ℕ) :
    MessageMemory × Exception :=
  let new := Function.update m address (some (message, e.messages))
  match e.messages with
  | none => (new, { e with messages := some address, messagesEnd := some address })
  | some _ => (new, { e with messages := some address })

/-- The loop of `copy_messages`; `none` where a cell is not there, or a message taken for a format
reads an argument. -/
def copyMessages : MessageMemory → Exception → Option ℕ → List ℕ →
    Option (MessageMemory × Exception)
  | m, e, none, [] => some (m, e)
  | _, _, none, _ :: _ => none
  | _, _, some _, [] => none
  | m, e, some p, address :: addresses =>
    match m p with
    | none => none
    | some (text, _) =>
      (formatOnly text).bind fun message =>
        if m address = none then
          let (m', e') := e.appendNolock m message address
          -- the iterator is read again after the message was appended
          match m' p with
          | none => none
          | some (_, next) => copyMessages m' e' next addresses
        else none

end Exception

namespace Exceptions

/-- Memory and exception after an operation on the exception. -/
def put (w : Exceptions) (x : ℕ) (r : MessageMemory × Exception) : Exceptions :=
  { w with memory := r.1, exception := Function.update w.exception x (some r.2) }

/-- `new Mutex()`, in memory that is free. -/
def newMutex (w : Exceptions) (mutex : ℕ) : Option Exceptions :=
  if mutex ∈ w.mutexes then none else some { w with mutexes := insert mutex w.mutexes }

def errnoSuffix (strerror : ℤ → String) (errno : ℤ) : String :=
  " (errno: " ++ toString errno ++ ", " ++ strerror errno ++ ")"

/-- An operation on an exception that is there. -/
def withException (w : Exceptions) (x : ℕ)
    (f : Exception → Option (MessageMemory × Exception)) : Option Exceptions :=
  (w.exception x).bind fun e => (f e).map (w.put x)

/-- A constructor: the exception is not there yet, and gets a mutex. -/
def construct (w : Exceptions) (x mutex : ℕ) (r : Option (MessageMemory × Exception)) :
    Option Exceptions :=
  if w.exception x = none then (w.newMutex mutex).bind fun w => r.map (w.put x) else none

/-- The first message, in memory that is free. -/
def firstMessage (w : Exceptions) (e : Exception) (message : String) (address : ℕ) :
    Option (MessageMemory × Exception) :=
  if w.memory address = none then some (e.appendNolock w.memory message address) else none

/-- `copy_messages`. The mutex is not recursive: an exception cannot be copied to itself. -/
def copyFrom (w : Exceptions) (x : ℕ) (e : Exception) (y : ℕ) (addresses : List ℕ) :
    Option (MessageMemory × Exception) :=
  if x = y then none
  else (w.exception y).bind fun exc => Exception.copyMessages w.memory e exc.messages addresses

/-- A call of an operation, `none` where it does not return, its behaviour is undefined or memory
is not free. -/
def step (strerror : ℤ → String) (w : Exceptions) : ExceptionStep → Option Exceptions
  | .new x mutex => w.construct x mutex (some (w.memory, { messagesMutex := mutex }))
  | .newMessage x mutex message address =>
    w.construct x mutex
      (w.firstMessage { messagesMutex := mutex } (message.getD "Unnkown Exception") address)
  | .newErrno x mutex errno message address =>
    let text :=
      match message with
      | some text => text ++ errnoSuffix strerror errno
      | none =>
        "Exception with errno=" ++ toString errno ++ " (" ++ strerror errno ++ ")"
    w.construct x mutex (w.firstMessage { messagesMutex := mutex, errno := errno } text address)
  | .copy x y mutex addresses =>
    (w.exception y).bind fun exc =>
      w.construct x mutex (w.copyFrom x
        { messagesMutex := mutex, errno := exc.errno, typeId := exc.typeId } y addresses)
  | .append x message address =>
    w.withException x fun e =>
      match message with
      | none => some (w.memory, e)
      | some text => w.firstMessage e text address
  | .prepend x message address =>
    w.withException x fun e =>
      match message with
      | none => some (w.memory, e)
      | some text =>
        if w.memory address = none then some (e.prependNolock w.memory text address) else none
  | .appendException x y addresses => w.withException x fun e => w.copyFrom x e y addresses
  | .assign x y mutex addresses =>
    -- the pointer to the mutex it had is overwritten
    (w.newMutex mutex).bind fun w =>
      w.withException x fun e => w.copyFrom x { e with messagesMutex := mutex } y addresses
  | .setTypeId x id => w.withException x fun e => some (w.memory, { e with typeId := id })
  | .destroy x turns =>
    (w.exception x).bind fun e =>
      (Chain.freeAll turns w.memory e.messages).bind fun m =>
        if e.messagesMutex ∈ w.mutexes then
          some
            { memory := m
              mutexes := w.mutexes.erase e.messagesMutex
              exception := Function.update w.exception x none }
        else none

end Exceptions

/-- A program that works with exceptions. -/
def exceptionSystem (strerror : ℤ → String) : LTS Exceptions ExceptionStep where
  init w := w = ⟨fun _ => none, ∅, fun _ => none⟩
  next := Exceptions.step strerror

/-! ## Lists of messages -/

/-- What an exception is for. -/
structure MessageList where
  messages : List String := []
  errno : ℤ := 0
  typeId : String := "unknown"
deriving DecidableEq

/-- The exceptions by their names, and how often one was assigned to another. -/
structure MessageLists where
  list : ℕ → Option MessageList
  assignments : ℕ

/-- The message that a message taken for a format becomes. -/
def formatted (message : String) : String := (formatOnly message).getD message

namespace MessageLists

def set (a : MessageLists) (x : ℕ) (k : Option MessageList) : MessageLists :=
  { a with list := Function.update a.list x k }

@[simp] theorem set_list_self (a : MessageLists) (x : ℕ) (k : Option MessageList) :
    (a.set x k).list x = k := Function.update_self ..

def change (a : MessageLists) (x : ℕ) (f : MessageList → MessageList) : MessageLists :=
  a.set x ((a.list x).map f)

/-- The messages of an exception behind those of another one. -/
def takeOver (a : MessageLists) (x y : ℕ) : MessageLists :=
  match a.list y with
  | none => a
  | some l => a.change x fun k => { k with messages := k.messages ++ l.messages.map formatted }

/-- What an operation does with the lists. -/
def apply (strerror : ℤ → String) (a : MessageLists) : ExceptionStep → MessageLists
  | .new x _ => a.set x (some {})
  | .newMessage x _ message _ =>
    a.set x (some { messages := [message.getD "Unnkown Exception"] })
  | .newErrno x _ errno message _ =>
    a.set x (some
      { messages := [match message with
          | some text => text ++ Exceptions.errnoSuffix strerror errno
          | none => "Exception with errno=" ++ toString errno ++ " (" ++ strerror errno ++ ")"]
        errno := errno })
  | .copy x y _ _ =>
    match a.list y with
    | none => a
    | some l => a.set x (some { l with messages := l.messages.map formatted })
  | .append x message _ => a.change x fun k => { k with messages := k.messages ++ message.toList }
  | .prepend x message _ => a.change x fun k => { k with messages := message.toList ++ k.messages }
  | .appendException x y _ => a.takeOver x y
  | .assign x y _ _ => { a.takeOver x y with assignments := a.assignments + 1 }
  | .setTypeId x id => a.change x fun k => { k with typeId := id }
  | .destroy x _ => a.set x none

end MessageLists

/-- The lists that the operations so far amount to. -/
def messageLists (strerror : ℤ → String) : Monitor Exceptions ExceptionStep MessageLists where
  start _ := ⟨fun _ => none, 0⟩
  observe a _ l _ := a.apply strerror l

/-- How many mutexes an operation leaves behind: an assignment loses the one that the exception
had. -/
def ExceptionStep.lost : ExceptionStep → ℕ
  | .assign .. => 1
  | _ => 0

/-! ## One exception -/

open Chain (addresses)

namespace Exception

variable {m m' : MessageMemory} {e e' : Exception} {l l' : List (ℕ × String)}

/-- The cells of an exception. -/
structure Owns (m : MessageMemory) (e : Exception) (l : List (ℕ × String)) : Prop where
  chain : Chain m e.messages l
  last : e.messagesEnd = (addresses l).getLast?
  nodup : (addresses l).Nodup

/-- Only the messages differ. -/
structure SameRest (e e' : Exception) : Prop where
  mutex : e'.messagesMutex = e.messagesMutex
  errno : e'.errno = e.errno
  typeId : e'.typeId = e.typeId

/-- What an operation on an exception may do: it writes to its own cells, takes what is free, and
loses nothing. -/
structure Becomes (m : MessageMemory) (l : List (ℕ × String)) (m' : MessageMemory)
    (e' : Exception) (l' : List (ℕ × String)) : Prop where
  owns : Owns m' e' l'
  same : ∀ p, p ∉ addresses l' → m' p = m p
  fresh : ∀ p ∈ addresses l', p ∈ addresses l ∨ m p = none
  kept : ∀ p ∈ addresses l, p ∈ addresses l'

/-- A cell that is not in use belongs to no exception. -/
theorem Owns.notMem_of_free (h : Owns m e l) {p : ℕ} (hp : m p = none) : p ∉ addresses l :=
  fun hmem => h.chain.ne_none_of_mem hmem hp

/-- The cells are left as they are. -/
theorem Owns.becomes (h : Owns m e l) : Becomes m l m e l :=
  ⟨h, fun _ _ => rfl, fun _ hp => .inl hp, fun _ hp => hp⟩

/-- A message is appended. -/
theorem Owns.append (h : Owns m e l) {address : ℕ} (haddress : m address = none)
    (message : String) :
    Becomes m l (e.appendNolock m message address).1 (e.appendNolock m message address).2
      (l ++ [(address, message)]) := by
  have hnot := h.notMem_of_free haddress
  have hnodup : (addresses (l ++ [(address, message)])).Nodup := by
    rw [addresses, List.map_append]
    apply h.nodup.append (List.nodup_singleton address)
    simpa using hnot
  have hlast : (addresses (l ++ [(address, message)])).getLast? = some address := by
    simp [addresses]
  have hfresh : ∀ p ∈ addresses (l ++ [(address, message)]), p ∈ addresses l ∨ m p = none := by
    intro p hp
    rw [addresses, List.map_append, List.mem_append] at hp
    rcases hp with hold | hnew
    · exact .inl hold
    · exact .inr (by rw [List.mem_singleton.mp hnew]; exact haddress)
  have hkept : ∀ p ∈ addresses l, p ∈ addresses (l ++ [(address, message)]) := by
    intro p hp
    rw [addresses, List.map_append]
    exact List.mem_append_left _ hp
  rcases List.eq_nil_or_concat' l with rfl | ⟨front, ⟨last, text⟩, rfl⟩
  -- the first message
  · have hnone : e.messages = none := h.chain.eq_none_of_nil
    simp only [appendNolock, hnone]
    refine ⟨⟨.cons (Function.update_self ..) .nil, hlast.symm, hnodup⟩, ?_, hfresh, hkept⟩
    intro p hp
    apply Function.update_of_ne
    rintro rfl
    exact hp (by simp [addresses])
  -- the last cell is found at `messages_end` and linked to the new one
  · obtain ⟨hcell, hchain⟩ := h.chain.link h.nodup hnot message
    have hend : e.messagesEnd = some last := by
      rw [h.last]
      simp [addresses]
    have hsome : ∃ p, e.messages = some p := by
      by_contra hnone
      rw [not_exists] at hnone
      have hempty := h.chain
      rw [Option.eq_none_iff_forall_ne_some.mpr hnone] at hempty
      exact absurd hempty.eq_nil_of_none (by simp)
    obtain ⟨p₀, hmessages⟩ := hsome
    have hne : last ≠ address := by
      rintro rfl
      exact hnot (by simp [addresses])
    simp only [appendNolock, hmessages, hend, Function.update_of_ne hne, hcell]
    rw [hmessages] at hchain
    refine ⟨⟨hchain, hlast.symm, hnodup⟩, ?_, hfresh, hkept⟩
    intro p hp
    -- the two cells that are written
    have hp' : p ≠ last ∧ p ≠ address := by
      constructor
      · rintro rfl
        exact hp (by simp [addresses])
      · rintro rfl
        exact hp (by simp [addresses])
    rw [Function.update_of_ne hp'.1, Function.update_of_ne hp'.2]

/-- Appending changes the list of messages only. -/
theorem appendNolock_sameRest (message : String) (address : ℕ) :
    SameRest e (e.appendNolock m message address).2 := by
  rw [appendNolock]
  split
  · exact ⟨rfl, rfl, rfl⟩
  · exact ⟨rfl, rfl, rfl⟩
  · split <;> exact ⟨rfl, rfl, rfl⟩

/-- A message is prepended. -/
theorem Owns.prepend (h : Owns m e l) {address : ℕ} (haddress : m address = none)
    (message : String) :
    Becomes m l (e.prependNolock m message address).1 (e.prependNolock m message address).2
      ((address, message) :: l) := by
  have hnot := h.notMem_of_free haddress
  have hnodup : (addresses ((address, message) :: l)).Nodup := List.nodup_cons.mpr ⟨hnot, h.nodup⟩
  have hchain := h.chain.push hnot message
  have hsame : ∀ p, p ∉ addresses ((address, message) :: l) →
      Function.update m address (some (message, e.messages)) p = m p := by
    intro p hp
    apply Function.update_of_ne
    rintro rfl
    exact hp List.mem_cons_self
  have hfresh : ∀ p ∈ addresses ((address, message) :: l), p ∈ addresses l ∨ m p = none := by
    intro p hp
    rcases List.mem_cons.mp hp with rfl | hold
    · exact .inr haddress
    · exact .inl hold
  have hkept : ∀ p ∈ addresses l, p ∈ addresses ((address, message) :: l) :=
    fun p hp => List.mem_cons_of_mem _ hp
  rw [prependNolock]
  cases hmessages : e.messages with
  | none =>
    -- the first cell is the last one too
    have hnil : l = [] := by
      have hempty := h.chain
      rw [hmessages] at hempty
      exact hempty.eq_nil_of_none
    rw [hmessages] at hchain hsame
    refine ⟨⟨hchain, ?_, hnodup⟩, hsame, hfresh, hkept⟩
    rw [hnil]
    rfl
  | some p =>
    rw [hmessages] at hchain hsame
    refine ⟨⟨hchain, ?_, hnodup⟩, hsame, hfresh, hkept⟩
    -- the last cell stays the last one
    have hne : addresses l ≠ [] := by
      intro hnil
      have hempty := h.chain
      rw [List.map_eq_nil_iff.mp hnil] at hempty
      rw [hempty.eq_none_of_nil] at hmessages
      cases hmessages
    show e.messagesEnd = (address :: addresses l).getLast?
    rw [h.last, List.getLast?_cons_of_ne_nil hne]

/-- Prepending changes the list of messages only. -/
theorem prependNolock_sameRest (message : String) (address : ℕ) :
    SameRest e (e.prependNolock m message address).2 := by
  rw [prependNolock]
  split <;> exact ⟨rfl, rfl, rfl⟩

/-- Two changes of a list, one after the other. -/
theorem Becomes.trans {m₂ : MessageMemory} {e₂ : Exception} {l₂ : List (ℕ × String)}
    (h : Becomes m l m' e' l') (h' : Becomes m' l' m₂ e₂ l₂) : Becomes m l m₂ e₂ l₂ where
  owns := h'.owns
  same p hp := by
    rw [h'.same p hp]
    exact h.same p fun hmem => hp (h'.kept p hmem)
  fresh p hp := by
    rcases h'.fresh p hp with hold | hfree
    · exact h.fresh p hold
    · by_cases hmem : p ∈ addresses l'
      · exact h.fresh p hmem
      · rw [h.same p hmem] at hfree
        exact .inr hfree
  kept p hp := h'.kept p (h.kept p hp)

/-- The messages of another exception are appended one after the other. -/
theorem Owns.copyMessages (h : Owns m e l) {p : Option ℕ} {src : List (ℕ × String)}
    (hsrc : Chain m p src) (hapart : ∀ q ∈ addresses src, q ∉ addresses l) {taken : List ℕ}
    {r : MessageMemory × Exception} (hr : Exception.copyMessages m e p taken = some r) :
    ∃ new : List (ℕ × String), new.map Prod.snd = (src.map Prod.snd).map formatted ∧
      (∀ text ∈ src.map Prod.snd, (formatOnly text).isSome) ∧
      Becomes m l r.1 r.2 (l ++ new) := by
  induction src generalizing m e l p taken with
  | nil =>
    cases hsrc
    cases taken with
    | nil =>
      obtain rfl := Option.some.inj hr
      refine ⟨[], rfl, nofun, ?_⟩
      rw [List.append_nil]
      exact h.becomes
    | cons address taken => nomatch hr
  | cons c src ih =>
    obtain ⟨q, text⟩ := c
    cases hsrc with
    | @cons _ _ next _ hcell hrest =>
      cases taken with
      | nil => nomatch hr
      | cons address taken =>
        -- one message: printed, put into a new cell, appended
        simp only [Exception.copyMessages, hcell] at hr
        obtain ⟨message, hmessage, hr⟩ := Option.bind_eq_some_iff.mp hr
        obtain ⟨haddress, hr⟩ := Option.ite_none_right_eq_some.mp hr
        have happend := h.append haddress message
        -- the cells of the other exception are not among those that were written
        have hsame : ∀ a ∈ addresses ((q, text) :: src),
            a ∉ addresses (l ++ [(address, message)]) := by
          intro a ha hmem
          rcases happend.fresh a hmem with hold | hfree
          · exact hapart a ha hold
          · exact (Chain.cons hcell hrest).ne_none_of_mem ha hfree
        have hcell' := happend.same q (hsame q List.mem_cons_self)
        rw [hcell] at hcell'
        simp only [hcell'] at hr
        have hrest' := hrest.congr fun a ha => happend.same a (hsame a (List.mem_cons_of_mem _ ha))
        obtain ⟨new, hnew, hformats, hbecomes⟩ :=
          ih happend.owns hrest' (fun a ha => hsame a (List.mem_cons_of_mem _ ha)) hr
        refine ⟨(address, message) :: new, ?_, ?_, ?_⟩
        · rw [List.map_cons, List.map_cons, List.map_cons, hnew, formatted, hmessage]
          rfl
        · intro t ht
          rcases List.mem_cons.mp ht with rfl | hother
          · rw [hmessage]
            rfl
          · exact hformats t hother
        · rw [List.append_cons]
          exact happend.trans hbecomes

theorem SameRest.trans {e₂ : Exception} (h : SameRest e e') (h' : SameRest e' e₂) :
    SameRest e e₂ :=
  ⟨h'.mutex.trans h.mutex, h'.errno.trans h.errno, h'.typeId.trans h.typeId⟩

/-- Copying changes the list of messages only. -/
theorem copyMessages_sameRest {p : Option ℕ} {taken : List ℕ} {r : MessageMemory × Exception}
    (hr : Exception.copyMessages m e p taken = some r) : SameRest e r.2 := by
  induction taken generalizing m e p with
  | nil =>
    cases p with
    | none =>
      obtain rfl := Option.some.inj hr
      exact ⟨rfl, rfl, rfl⟩
    | some p => nomatch hr
  | cons address taken ih =>
    cases p with
    | none => nomatch hr
    | some p =>
      rw [Exception.copyMessages] at hr
      cases hcell : m p with
      | none => simp [hcell] at hr
      | some cell =>
        simp only [hcell] at hr
        obtain ⟨message, -, hr⟩ := Option.bind_eq_some_iff.mp hr
        obtain ⟨-, hr⟩ := Option.ite_none_right_eq_some.mp hr
        have happend := appendNolock_sameRest (m := m) (e := e) message address
        cases hnext : (e.appendNolock m message address).1 p with
        | none => simp [hnext] at hr
        | some next =>
          simp only [hnext] at hr
          exact happend.trans (ih hr)

end Exception

/-! ## All exceptions -/

namespace Exceptions

variable {strerror : ℤ → String} {w w' : Exceptions} {a : MessageLists} {x y : ℕ}

/-- Every cell belongs to one exception, and the cells of an exception are its list. -/
structure Holds (w : Exceptions) (a : MessageLists) (own : ℕ → List (ℕ × String)) : Prop where
  owns : ∀ x e, w.exception x = some e → e.Owns w.memory (own x)
  list : ∀ x, a.list x =
    (w.exception x).map fun e => ⟨(own x).map Prod.snd, e.errno, e.typeId⟩
  empty : ∀ x, w.exception x = none → own x = []
  apart : ∀ x y, x ≠ y → ∀ p ∈ addresses (own x), p ∉ addresses (own y)
  kept : ∀ p, w.memory p ≠ none → ∃ x, p ∈ addresses (own x)

/-- What is done with the cells of one exception. -/
theorem Holds.put {own : ℕ → List (ℕ × String)} (h : w.Holds a own)
    {m : MessageMemory} {e : Exception} {l : List (ℕ × String)}
    (hr : Exception.Becomes w.memory (own x) m e l) :
    (w.put x (m, e)).Holds (a.set x (some ⟨l.map Prod.snd, e.errno, e.typeId⟩))
      (Function.update own x l) := by
  -- the cells of another exception are not touched
  have hother : ∀ y, y ≠ x → ∀ p ∈ addresses (own y), p ∉ addresses l := by
    intro y hy p hp hmem
    rcases hr.fresh p hmem with hold | hfree
    · exact h.apart y x hy p hp hold
    · cases he : w.exception y with
      | none => rw [h.empty y he] at hp; exact List.not_mem_nil hp
      | some e' => exact (h.owns y e' he).chain.ne_none_of_mem hp hfree
  refine ⟨fun y e' he => ?_, fun y => ?_, fun y he => ?_, fun y z hyz p hp => ?_, fun p hp => ?_⟩
  -- the exception's own cells are the new ones, the others keep theirs
  · have hexception : Function.update w.exception x (some e) y = some e' := he
    by_cases hy : y = x
    · rw [hy, Function.update_self] at hexception ⊢
      obtain rfl := Option.some.inj hexception
      exact hr.owns
    · rw [Function.update_of_ne hy] at hexception ⊢
      have howns := h.owns y e' hexception
      exact ⟨howns.chain.congr fun p hp => hr.same p (hother y hy p hp), howns.last, howns.nodup⟩
  · show Function.update a.list x _ y = (Function.update w.exception x (some e) y).map _
    by_cases hy : y = x
    · rw [hy, Function.update_self, Function.update_self, Function.update_self]
      rfl
    · rw [Function.update_of_ne hy, Function.update_of_ne hy, Function.update_of_ne hy]
      exact h.list y
  · have hexception : Function.update w.exception x (some e) y = none := he
    by_cases hy : y = x
    · rw [hy, Function.update_self] at hexception
      nomatch hexception
    · rw [Function.update_of_ne hy] at hexception ⊢
      exact h.empty y hexception
  · by_cases hy : y = x
    · have hz : z ≠ x := fun hz => hyz (hy.trans hz.symm)
      rw [hy, Function.update_self] at hp
      rw [Function.update_of_ne hz]
      exact fun hmem => hother z hz p hmem hp
    · rw [Function.update_of_ne hy] at hp
      by_cases hz : z = x
      · rw [hz, Function.update_self]
        exact hother y hy p hp
      · rw [Function.update_of_ne hz]
        exact h.apart y z hyz p hp
  -- a cell in memory is a new one or one of another exception
  · by_cases hmem : p ∈ addresses l
    · exact ⟨x, by rw [Function.update_self]; exact hmem⟩
    · have hold : w.memory p ≠ none := by
        rw [← hr.same p hmem]
        exact hp
      obtain ⟨y, hy⟩ := h.kept p hold
      have hne : y ≠ x := by
        rintro rfl
        exact hmem (hr.kept p hy)
      exact ⟨y, by rw [Function.update_of_ne hne]; exact hy⟩

/-- The lists do not depend on the mutexes. -/
theorem Holds.withMutexes {own : ℕ → List (ℕ × String)} (h : w.Holds a own) (mutexes : Finset ℕ)
    (n : ℕ) : Holds { w with mutexes := mutexes } { a with assignments := n } own :=
  ⟨h.owns, h.list, h.empty, h.apart, h.kept⟩

/-- An exception is destroyed. -/
theorem Holds.destroy {own : ℕ → List (ℕ × String)} (h : w.Holds a own) {e : Exception}
    (he : w.exception x = some e) (mutexes : Finset ℕ) :
    Holds
      ⟨fun p => if p ∈ addresses (own x) then none else w.memory p, mutexes,
        Function.update w.exception x none⟩
      (a.set x none) (Function.update own x []) := by
  refine ⟨fun y e' he' => ?_, fun y => ?_, fun y he' => ?_, fun y z hyz p hp => ?_, fun p hp => ?_⟩
  · have hexception : Function.update w.exception x none y = some e' := he'
    by_cases hy : y = x
    · rw [hy, Function.update_self] at hexception
      nomatch hexception
    · rw [Function.update_of_ne hy] at hexception ⊢
      have howns := h.owns y e' hexception
      exact ⟨howns.chain.congr fun p hp => if_neg (h.apart y x hy p hp), howns.last, howns.nodup⟩
  · show Function.update a.list x _ y = (Function.update w.exception x none y).map _
    by_cases hy : y = x
    · rw [hy, Function.update_self, Function.update_self, Function.update_self]
      rfl
    · rw [Function.update_of_ne hy, Function.update_of_ne hy, Function.update_of_ne hy]
      exact h.list y
  · have hexception : Function.update w.exception x none y = none := he'
    by_cases hy : y = x
    · rw [hy, Function.update_self]
    · rw [Function.update_of_ne hy] at hexception ⊢
      exact h.empty y hexception
  · by_cases hy : y = x
    · rw [hy, Function.update_self] at hp
      nomatch hp
    · rw [Function.update_of_ne hy] at hp
      by_cases hz : z = x
      · rw [hz, Function.update_self]
        exact List.not_mem_nil
      · rw [Function.update_of_ne hz]
        exact h.apart y z hyz p hp
  -- what is still in memory belongs to another exception
  · have hmem : p ∉ addresses (own x) := fun hmem => hp (if_pos hmem)
    have hold : w.memory p ≠ none := by
      intro hnone
      exact hp ((if_neg hmem).trans hnone)
    obtain ⟨y, hy⟩ := h.kept p hold
    have hne : y ≠ x := by
      rintro rfl
      exact hmem hy
    exact ⟨y, by rw [Function.update_of_ne hne]; exact hy⟩

variable {own : ℕ → List (ℕ × String)} {f : Exception → Option (MessageMemory × Exception)}
variable {r : MessageMemory × Exception} {e : Exception}

/-- A step of an exception that is there. -/
theorem exists_of_withException (h : w.withException x f = some w') :
    ∃ e r, w.exception x = some e ∧ f e = some r ∧ w' = w.put x r := by
  obtain ⟨e, he, h⟩ := Option.bind_eq_some_iff.mp h
  obtain ⟨r, hr, rfl⟩ := Option.map_eq_some_iff.mp h
  exact ⟨e, r, he, hr, rfl⟩

/-- A new mutex is at a place where no other one is. -/
theorem newMutex_eq_some {mutex : ℕ} (h : w.newMutex mutex = some w') :
    mutex ∉ w.mutexes ∧ w' = { w with mutexes := insert mutex w.mutexes } := by
  obtain ⟨hfree, h⟩ := Option.ite_none_left_eq_some.mp h
  exact ⟨hfree, (Option.some.inj h).symm⟩

/-- A new exception, with its messages and a mutex of its own. -/
theorem exists_of_construct {mutex : ℕ} {o : Option (MessageMemory × Exception)}
    (h : w.construct x mutex o = some w') : ∃ r, w.exception x = none ∧ mutex ∉ w.mutexes ∧
      o = some r ∧ w' = { w.put x r with mutexes := insert mutex w.mutexes } := by
  obtain ⟨hx, h⟩ := Option.ite_none_right_eq_some.mp h
  obtain ⟨w₁, hw₁, h⟩ := Option.bind_eq_some_iff.mp h
  obtain ⟨hfree, rfl⟩ := newMutex_eq_some hw₁
  obtain ⟨r, hr, rfl⟩ := Option.map_eq_some_iff.mp h
  exact ⟨r, hx, hfree, hr, rfl⟩

/-- Before it is constructed an exception has no cells. -/
theorem Holds.owns_new (h : w.Holds a own) (hx : w.exception x = none) (mutex : ℕ) (errno : ℤ)
    (typeId : String) :
    Exception.Owns w.memory { messagesMutex := mutex, errno := errno, typeId := typeId }
      (own x) := by
  rw [h.empty x hx]
  exact ⟨.nil, rfl, List.nodup_nil⟩

theorem Holds.change_eq (h : w.Holds a own) (he : w.exception x = some e)
    (f : MessageList → MessageList) :
    a.change x f = a.set x (some (f ⟨(own x).map Prod.snd, e.errno, e.typeId⟩)) := by
  rw [MessageLists.change, h.list x, he]
  rfl

/-- The first message of an exception that is constructed. -/
theorem Holds.firstMessage (h : w.Holds a own) (hx : w.exception x = none) {mutex : ℕ}
    {errno : ℤ} {text : String} {address : ℕ}
    (hr : w.firstMessage { messagesMutex := mutex, errno := errno } text address = some r) :
    ∃ own', (w.put x r).Holds (a.set x (some { messages := [text], errno := errno })) own' := by
  obtain ⟨haddress, hr⟩ := Option.ite_none_right_eq_some.mp hr
  obtain rfl := Option.some.inj hr
  have hput := h.put ((h.owns_new hx mutex errno "unknown").append haddress text)
  rw [h.empty x hx] at hput
  exact ⟨_, hput⟩

/-- An exception is not copied to itself. -/
theorem copyFrom_eq_some {taken : List ℕ} (hr : w.copyFrom x e y taken = some r) :
    y ≠ x ∧ ∃ exc, w.exception y = some exc ∧
      Exception.copyMessages w.memory e exc.messages taken = some r := by
  obtain ⟨hxy, hr⟩ := Option.ite_none_left_eq_some.mp hr
  obtain ⟨exc, hexc, hr⟩ := Option.bind_eq_some_iff.mp hr
  exact ⟨Ne.symm hxy, exc, hexc, hr⟩

/-- The messages of another exception come behind those of this one. -/
theorem Holds.copyFrom (h : w.Holds a own) (howns : e.Owns w.memory (own x)) {taken : List ℕ}
    (hr : w.copyFrom x e y taken = some r) :
    ∃ own' exc, w.exception y = some exc ∧ (∀ text ∈ (own y).map Prod.snd,
        (formatOnly text).isSome) ∧
      (w.put x r).Holds (a.set x (some
        ⟨(own x).map Prod.snd ++ ((own y).map Prod.snd).map formatted, e.errno, e.typeId⟩))
          own' := by
  obtain ⟨hyx, exc, hexc, hr⟩ := copyFrom_eq_some hr
  obtain ⟨new, hnew, hformats, hbecomes⟩ :=
    howns.copyMessages (h.owns y exc hexc).chain (h.apart y x hyx) hr
  have hsame := Exception.copyMessages_sameRest hr
  have hput := h.put hbecomes
  rw [List.map_append, hnew, hsame.errno, hsame.typeId] at hput
  exact ⟨_, exc, hexc, hformats, hput⟩

/-- Taking over messages, with the mutex that the exception had or another one. -/
theorem Holds.takeOver (h : w.Holds a own) (he : w.exception x = some e) (mutex : ℕ)
    {taken : List ℕ} (hr : w.copyFrom x { e with messagesMutex := mutex } y taken = some r) :
    ∃ own', (w.put x r).Holds (a.takeOver x y) own' := by
  have howns := h.owns x e he
  have hsame : Exception.Owns w.memory { e with messagesMutex := mutex } (own x) :=
    ⟨howns.chain, howns.last, howns.nodup⟩
  obtain ⟨own', exc, hexc, -, hput⟩ := h.copyFrom hsame hr
  have hlist : a.takeOver x y = a.set x (some
      ⟨(own x).map Prod.snd ++ ((own y).map Prod.snd).map formatted, e.errno, e.typeId⟩) := by
    rw [MessageLists.takeOver, h.list y, hexc]
    exact h.change_eq he _
  rw [hlist]
  exact ⟨own', hput⟩

/-- After every step the lists in memory are those that the operations amount to. -/
theorem Holds.step (h : w.Holds a own) {l : ExceptionStep} (hs : w.step strerror l = some w') :
    ∃ own', w'.Holds (a.apply strerror l) own' := by
  cases l with
  | new x mutex =>
    obtain ⟨r, hx, -, hr, rfl⟩ := exists_of_construct hs
    obtain rfl := Option.some.inj hr
    have hput := h.put (h.owns_new hx mutex 0 "unknown").becomes
    rw [h.empty x hx] at hput
    -- the mutexes are no part of the lists
    exact ⟨_, hput.withMutexes _ _⟩
  | newMessage x mutex message address =>
    obtain ⟨r, hx, -, hr, rfl⟩ := exists_of_construct hs
    obtain ⟨own', hput⟩ := h.firstMessage hx hr
    exact ⟨own', hput.withMutexes _ _⟩
  | newErrno x mutex errno message address =>
    obtain ⟨r, hx, -, hr, rfl⟩ := exists_of_construct hs
    obtain ⟨own', hput⟩ := h.firstMessage hx hr
    exact ⟨own', hput.withMutexes _ _⟩
  | copy x y mutex taken =>
    obtain ⟨exc, hexc, hs⟩ := Option.bind_eq_some_iff.mp hs
    obtain ⟨r, hx, -, hr, rfl⟩ := exists_of_construct hs
    obtain ⟨own', _, _, -, hput⟩ := h.copyFrom (h.owns_new hx mutex exc.errno exc.typeId) hr
    rw [h.empty x hx] at hput
    refine ⟨own', ?_⟩
    rw [MessageLists.apply, h.list y, hexc]
    exact hput.withMutexes _ _
  | append x message address =>
    obtain ⟨e, r, he, hr, rfl⟩ := exists_of_withException hs
    rw [MessageLists.apply, h.change_eq he]
    cases message with
    -- a null message is not appended
    | none =>
      obtain rfl := Option.some.inj hr
      have hput := h.put (h.owns x e he).becomes
      exact ⟨_, by simpa using hput⟩
    | some text =>
      obtain ⟨haddress, hr⟩ := Option.ite_none_right_eq_some.mp hr
      obtain rfl := Option.some.inj hr
      have hsame := Exception.appendNolock_sameRest (m := w.memory) (e := e) text address
      have hput := h.put ((h.owns x e he).append haddress text)
      rw [List.map_append, hsame.errno, hsame.typeId] at hput
      exact ⟨_, hput⟩
  | prepend x message address =>
    obtain ⟨e, r, he, hr, rfl⟩ := exists_of_withException hs
    rw [MessageLists.apply, h.change_eq he]
    cases message with
    -- nor prepended
    | none =>
      obtain rfl := Option.some.inj hr
      have hput := h.put (h.owns x e he).becomes
      exact ⟨_, by simpa using hput⟩
    | some text =>
      obtain ⟨haddress, hr⟩ := Option.ite_none_right_eq_some.mp hr
      obtain rfl := Option.some.inj hr
      have hsame := Exception.prependNolock_sameRest (m := w.memory) (e := e) text address
      have hput := h.put ((h.owns x e he).prepend haddress text)
      rw [hsame.errno, hsame.typeId] at hput
      exact ⟨_, hput⟩
  | appendException x y taken =>
    obtain ⟨e, r, he, hr, rfl⟩ := exists_of_withException hs
    -- the copies come after the exception's own messages
    exact h.takeOver he e.messagesMutex hr
  | assign x y mutex taken =>
    obtain ⟨w₁, hw₁, hs⟩ := Option.bind_eq_some_iff.mp hs
    obtain ⟨-, rfl⟩ := newMutex_eq_some hw₁
    obtain ⟨e, r, he, hr, rfl⟩ := exists_of_withException hs
    obtain ⟨own', hput⟩ := h.takeOver he mutex hr
    exact ⟨own', hput.withMutexes _ _⟩
  | setTypeId x id =>
    obtain ⟨e, r, he, hr, rfl⟩ := exists_of_withException hs
    obtain rfl := Option.some.inj hr
    have howns := h.owns x e he
    have hnext : Exception.Owns w.memory { e with typeId := id } (own x) :=
      ⟨howns.chain, howns.last, howns.nodup⟩
    rw [MessageLists.apply, h.change_eq he]
    exact ⟨_, h.put hnext.becomes⟩
  | destroy x turns =>
    obtain ⟨e, he, hs⟩ := Option.bind_eq_some_iff.mp hs
    obtain ⟨m, hm, hs⟩ := Option.bind_eq_some_iff.mp hs
    obtain ⟨-, hs⟩ := Option.ite_none_right_eq_some.mp hs
    obtain rfl := Option.some.inj hs
    have howns := h.owns x e he
    -- the destructor's loop frees the cells in the order of the list
    rw [howns.chain.freeAll_eq howns.nodup] at hm
    obtain ⟨-, hm⟩ := Option.ite_none_right_eq_some.mp hm
    obtain rfl := Option.some.inj hm
    exact ⟨_, h.destroy he _⟩

/-- In every run the lists in memory are those that the operations amount to. -/
theorem holds_of_reach
    (h : ((exceptionSystem strerror).watch (messageLists strerror)).Reachable (w, a)) :
    ∃ own, w.Holds a own := by
  refine LTS.Reach.watch_invariant (P := fun w a => ∃ own, Holds w a own) ?_ ?_ h
  · rintro _ rfl
    exact ⟨fun _ => [], nofun, fun _ => rfl, fun _ _ => rfl, nofun, fun _ hp => absurd rfl hp⟩
  · rintro w a l w' ⟨own, hown⟩ - hs
    exact hown.step hs

/-! ### Mutexes -/

/-- The mutex of an exception. -/
def mutexOf (w : Exceptions) (x : ℕ) : Option ℕ := (w.exception x).map Exception.messagesMutex

/-- What a step does with the mutexes, and how many of them nobody knows any more behind it. -/
inductive MutexCase (w w' : Exceptions) (lost : ℕ) : Prop where
  | made (x p : ℕ) (hfree : p ∉ w.mutexes) (hmutexes : w'.mutexes = insert p w.mutexes)
      (howner : w'.mutexOf = Function.update w.mutexOf x (some p))
      (hlost : lost = (w.mutexOf x).toFinset.card)
  | kept (hmutexes : w'.mutexes = w.mutexes) (howner : w'.mutexOf = w.mutexOf) (hlost : lost = 0)
  | deleted (x p : ℕ) (hx : w.mutexOf x = some p) (hmutexes : w'.mutexes = w.mutexes.erase p)
      (howner : w'.mutexOf = Function.update w.mutexOf x none) (hlost : lost = 0)

theorem mutexOf_put (w : Exceptions) (x : ℕ) (r : MessageMemory × Exception) :
    (w.put x r).mutexOf = Function.update w.mutexOf x (some r.2.messagesMutex) := by
  funext y
  show (Function.update w.exception x (some r.2) y).map _ = _
  by_cases hy : y = x
  · rw [hy, Function.update_self, Function.update_self]
    rfl
  · rw [Function.update_of_ne hy, Function.update_of_ne hy]
    rfl

/-- A constructor of an exception with this mutex. -/
theorem MutexCase.construct {mutex : ℕ} {o : Option (MessageMemory × Exception)}
    (h : w.construct x mutex o = some w') (ho : ∀ r, o = some r → r.2.messagesMutex = mutex) :
    MutexCase w w' 0 := by
  obtain ⟨r, hx, hfree, hr, rfl⟩ := exists_of_construct h
  refine .made x mutex hfree rfl ?_ ?_
  · rw [← ho r hr]
    exact mutexOf_put w x r
  · rw [mutexOf, hx]
    rfl

/-- An operation on an exception that leaves it its mutex. -/
theorem MutexCase.withException (h : w.withException x f = some w')
    (hf : ∀ e r, f e = some r → r.2.messagesMutex = e.messagesMutex) : MutexCase w w' 0 := by
  obtain ⟨e, r, he, hr, rfl⟩ := exists_of_withException h
  refine .kept rfl ?_ rfl
  rw [mutexOf_put, hf e r hr, Function.update_eq_self_iff, mutexOf, he]
  rfl

theorem firstMessage_mutex {text : String} {address : ℕ}
    (hr : w.firstMessage e text address = some r) : r.2.messagesMutex = e.messagesMutex := by
  obtain ⟨-, hr⟩ := Option.ite_none_right_eq_some.mp hr
  obtain rfl := Option.some.inj hr
  exact (Exception.appendNolock_sameRest text address).mutex

/-- Copying messages leaves the mutex alone. -/
theorem copyFrom_mutex {taken : List ℕ} (hr : w.copyFrom x e y taken = some r) :
    r.2.messagesMutex = e.messagesMutex := by
  obtain ⟨-, exc, -, hr⟩ := copyFrom_eq_some hr
  exact (Exception.copyMessages_sameRest hr).mutex

/-- What a step does to the mutexes. -/
theorem mutex_cases {l : ExceptionStep} (hs : w.step strerror l = some w') :
    MutexCase w w' l.lost := by
  cases l with
  | new x mutex => exact .construct hs fun r hr => by rw [← Option.some.inj hr]
  | newMessage x mutex message address => exact .construct hs fun r hr => firstMessage_mutex hr
  | newErrno x mutex errno message address =>
    exact .construct hs fun r hr => firstMessage_mutex hr
  | copy x y mutex taken =>
    obtain ⟨exc, -, hs⟩ := Option.bind_eq_some_iff.mp hs
    exact .construct hs fun r hr => copyFrom_mutex hr
  | append x message address =>
    refine .withException hs fun e r hr => ?_
    cases message with
    | none => rw [← Option.some.inj hr]
    | some text => exact firstMessage_mutex hr
  | prepend x message address =>
    refine .withException hs fun e r hr => ?_
    cases message with
    | none => rw [← Option.some.inj hr]
    | some text =>
      obtain ⟨-, hr⟩ := Option.ite_none_right_eq_some.mp hr
      rw [← Option.some.inj hr]
      exact (Exception.prependNolock_sameRest text address).mutex
  | appendException x y taken => exact .withException hs fun e r hr => copyFrom_mutex hr
  | assign x y mutex taken =>
    obtain ⟨w₁, hw₁, hs⟩ := Option.bind_eq_some_iff.mp hs
    -- a new mutex over the old pointer, which is not deleted
    obtain ⟨hfree, rfl⟩ := newMutex_eq_some hw₁
    obtain ⟨e, r, he, hr, rfl⟩ := exists_of_withException hs
    refine .made x mutex hfree rfl ?_ ?_
    · rw [mutexOf_put, copyFrom_mutex hr]
      rfl
    · have hx : w.mutexOf x = some e.messagesMutex := by
        rw [mutexOf]
        exact congrArg (Option.map Exception.messagesMutex) he
      rw [hx]
      rfl
  | setTypeId x id => exact .withException hs fun e r hr => by rw [← Option.some.inj hr]
  | destroy x turns =>
    obtain ⟨e, he, hs⟩ := Option.bind_eq_some_iff.mp hs
    obtain ⟨m, -, hs⟩ := Option.bind_eq_some_iff.mp hs
    obtain ⟨-, hs⟩ := Option.ite_none_right_eq_some.mp hs
    obtain rfl := Option.some.inj hs
    refine .deleted x e.messagesMutex (by rw [mutexOf, he]; rfl) rfl ?_ rfl
    funext z
    show (Function.update w.exception x none z).map _ = _
    by_cases hz : z = x
    · rw [hz, Function.update_self, Function.update_self]
      rfl
    · rw [Function.update_of_ne hz, Function.update_of_ne hz]
      rfl

/-- Only an assignment loses a mutex. -/
theorem assignments_apply (a : MessageLists) (l : ExceptionStep) :
    (a.apply strerror l).assignments = a.assignments + l.lost := by
  have htakeOver : ∀ x y, (a.takeOver x y).assignments = a.assignments := by
    intro x y
    rw [MessageLists.takeOver]
    cases a.list y <;> rfl
  cases l with
  | copy x y mutex taken =>
    rw [MessageLists.apply]
    cases a.list y <;> rfl
  | appendException x y taken => exact htakeOver x y
  | assign x y mutex taken => rfl
  | _ => rfl

/-- The mutexes are those of the exceptions, each of one only, and the lost ones. -/
structure Guarded (w : Exceptions) (lost : Finset ℕ) : Prop where
  mem : ∀ p, p ∈ w.mutexes ↔ p ∈ lost ∨ ∃ x, w.mutexOf x = some p
  apart : ∀ x y p, w.mutexOf x = some p → w.mutexOf y = some p → x = y
  lost : ∀ x p, w.mutexOf x = some p → p ∉ lost

/-- A new mutex for an exception. The one it had is lost. -/
theorem Guarded.made {lost : Finset ℕ} (h : w.Guarded lost) {p : ℕ} (hfree : p ∉ w.mutexes)
    (hmutexes : w'.mutexes = insert p w.mutexes)
    (howner : w'.mutexOf = Function.update w.mutexOf x (some p)) :
    w'.Guarded (lost ∪ (w.mutexOf x).toFinset) := by
  have hself : w'.mutexOf x = some p := by rw [howner, Function.update_self]
  have hother : ∀ y, y ≠ x → w'.mutexOf y = w.mutexOf y := fun y hy => by
    rw [howner, Function.update_of_ne hy]
  -- the new mutex is none of the old ones
  have hne : ∀ y, w.mutexOf y ≠ some p := fun y hy => hfree ((h.mem p).mpr (.inr ⟨y, hy⟩))
  refine ⟨fun q => ?_, fun y z q hy hz => ?_, fun y q hy => ?_⟩
  -- the old mutex of `x`, if there is one, is lost from now on
  · rw [hmutexes, Finset.mem_insert, h.mem, Finset.mem_union, Option.mem_toFinset,
      Option.mem_def]
    constructor
    · rintro (rfl | hlost | ⟨y, hy⟩)
      · exact .inr ⟨x, hself⟩
      · exact .inl (.inl hlost)
      · by_cases hyx : y = x
        · exact .inl (.inr (hyx ▸ hy))
        · exact .inr ⟨y, (hother y hyx).trans hy⟩
    · rintro ((hlost | hold) | ⟨y, hy⟩)
      · exact .inr (.inl hlost)
      · exact .inr (.inr ⟨x, hold⟩)
      · by_cases hyx : y = x
        · rw [hyx, hself] at hy
          exact .inl (Option.some.inj hy).symm
        · exact .inr (.inr ⟨y, (hother y hyx).symm.trans hy⟩)
  · by_cases hyx : y = x
    · by_cases hzx : z = x
      · exact hyx.trans hzx.symm
      · rw [hyx, hself] at hy
        rw [hother z hzx, ← hy] at hz
        exact absurd hz (hne z)
    · rw [hother y hyx] at hy
      by_cases hzx : z = x
      · rw [hzx, hself] at hz
        rw [← hz] at hy
        exact absurd hy (hne y)
      · exact h.apart y z q hy ((hother z hzx).symm.trans hz)
  · rw [Finset.mem_union, Option.mem_toFinset, Option.mem_def, not_or]
    by_cases hyx : y = x
    · rw [hyx, hself] at hy
      obtain rfl := Option.some.inj hy
      exact ⟨fun hlost => hfree ((h.mem p).mpr (.inl hlost)), hne x⟩
    · rw [hother y hyx] at hy
      exact ⟨h.lost y q hy, fun hx => hyx (h.apart y x q hy hx)⟩

/-- The mutex of an exception is deleted with it. -/
theorem Guarded.deleted {lost : Finset ℕ} (h : w.Guarded lost) {p : ℕ}
    (hx : w.mutexOf x = some p) (hmutexes : w'.mutexes = w.mutexes.erase p)
    (howner : w'.mutexOf = Function.update w.mutexOf x none) : w'.Guarded lost := by
  have hkept : ∀ y q, w'.mutexOf y = some q ↔ y ≠ x ∧ w.mutexOf y = some q := by
    intro y q
    rw [howner]
    by_cases hy : y = x
    · rw [hy, Function.update_self]
      exact iff_of_false nofun fun hne => hne.1 rfl
    · rw [Function.update_of_ne hy, and_iff_right hy]
  refine ⟨fun q => ?_, fun y z q hy hz => ?_, fun y q hy => ?_⟩
  · simp only [hmutexes, Finset.mem_erase, h.mem, hkept]
    constructor
    · rintro ⟨hq, hlost | ⟨y, hy⟩⟩
      · exact .inl hlost
      · refine .inr ⟨y, ?_, hy⟩
        rintro rfl
        exact hq (Option.some.inj (hy.symm.trans hx))
    · rintro (hlost | ⟨y, hne, hy⟩)
      · refine ⟨?_, .inl hlost⟩
        rintro rfl
        exact h.lost x q hx hlost
      · refine ⟨?_, .inr ⟨y, hy⟩⟩
        rintro rfl
        exact hne (h.apart y x q hy hx)
  · exact h.apart y z q ((hkept y q).mp hy).2 ((hkept z q).mp hz).2
  · exact h.lost y q ((hkept y q).mp hy).2

/-- After every step an exception has a mutex of its own, and each assignment has lost one. -/
theorem Guarded.step {lost : Finset ℕ} (h : w.Guarded lost) {l : ExceptionStep}
    (hs : w.step strerror l = some w') :
    ∃ lost', lost'.card = lost.card + l.lost ∧ w'.Guarded lost' := by
  cases mutex_cases hs with
  | made x p hfree hmutexes howner hlost =>
    refine ⟨_, ?_, h.made hfree hmutexes howner⟩
    rw [hlost, Finset.card_union_of_disjoint]
    rw [Finset.disjoint_left]
    intro q hmem hold
    exact h.lost x q (Option.mem_toFinset.mp hold) hmem
  | kept hmutexes howner hlost =>
    refine ⟨lost, by rw [hlost]; rfl, ⟨?_, ?_, ?_⟩⟩
    · rw [hmutexes, howner]
      exact h.mem
    · rw [howner]
      exact h.apart
    · rw [howner]
      exact h.lost
  | deleted x p hx hmutexes howner hlost =>
    exact ⟨lost, by rw [hlost]; rfl, h.deleted hx hmutexes howner⟩

/-- Behind every assignment there is a mutex that is lost. -/
theorem guarded_of_reach
    (h : ((exceptionSystem strerror).watch (messageLists strerror)).Reachable (w, a)) :
    ∃ lost, lost.card = a.assignments ∧ w.Guarded lost := by
  refine LTS.Reach.watch_invariant
    (P := fun w a => ∃ lost, lost.card = a.assignments ∧ Guarded w lost) ?_ ?_ h
  · rintro _ rfl
    exact ⟨∅, rfl, fun p => by simp [mutexOf], nofun, nofun⟩
  · rintro w a l w' ⟨lost, hcard, hguarded⟩ - hs
    obtain ⟨lost', hcard', hguarded'⟩ := hguarded.step hs
    refine ⟨lost', ?_, hguarded'⟩
    rw [hcard', hcard]
    exact (assignments_apply a l).symm

/-! ### Reading the messages -/

/-- The messages that are read from the first pointer on. -/
def Lists (w : Exceptions) (e : Exception) (messages : List String) : Prop :=
  ∃ n, ∀ turns ≥ n, Chain.walk w.memory turns e.messages = (messages, true)

/-- The list of an exception can be read from its first pointer on. -/
theorem Holds.lists (h : w.Holds a own) (he : w.exception x = some e) :
    w.Lists e ((own x).map Prod.snd) :=
  ⟨(own x).length, fun _ hturns => (h.owns x e he).chain.walk_eq hturns⟩

/-- A list in memory is known by its first pointer. -/
theorem Lists.unique {l l' : List String} (h : w.Lists e l) (h' : w.Lists e l') : l = l' := by
  obtain ⟨n, hn⟩ := h
  obtain ⟨n', hn'⟩ := h'
  have heq := (hn (max n n') (Nat.le_max_left n n')).symm.trans
    (hn' (max n n') (Nat.le_max_right n n'))
  exact (Prod.mk.inj heq).1

end Exceptions

/-- Whatever was done with the exceptions: from its first pointer on each of them has the messages
that the operations amount to, up to an end, in cells that no other one has, `what` is the first of
them, and the destructor frees them all. Without an exception no cell is in memory, and one mutex
for each assignment. -/
theorem messages_refine {strerror : ℤ → String} {w : Exceptions} {a : MessageLists}
    (h : ((exceptionSystem strerror).watch (messageLists strerror)).Reachable (w, a)) :
    (∀ x, w.exception x = none ↔ a.list x = none) ∧
      (∀ x e k, w.exception x = some e → a.list x = some k →
        w.Lists e k.messages ∧ e.errno = k.errno ∧ e.typeId = k.typeId ∧
        e.what w.memory = some (k.messages.headD "Unknown error") ∧
        ∀ turns, (w.step strerror (.destroy x turns)).isSome ↔ turns = k.messages.length) ∧
      (∃ own : ℕ → List (ℕ × String),
        (∀ x e, w.exception x = some e → Chain w.memory e.messages (own x)) ∧
        ∀ x y, x ≠ y → ∀ p ∈ addresses (own x), p ∉ addresses (own y)) ∧
      ((∀ x, w.exception x = none) →
        (∀ p, w.memory p = none) ∧ w.mutexes.card = a.assignments) := by
  obtain ⟨own, hown⟩ := Exceptions.holds_of_reach h
  obtain ⟨lost, hcard, hguarded⟩ := Exceptions.guarded_of_reach h
  refine ⟨fun x => ?_, fun x e k he hk => ?_, ⟨own, fun x e he => (hown.owns x e he).chain,
    hown.apart⟩, fun hnone => ⟨fun p => ?_, ?_⟩⟩
  · rw [hown.list x, Option.map_eq_none_iff]
  · have howns := hown.owns x e he
    have hlist := hown.list x
    rw [hk, he] at hlist
    obtain rfl := Option.some.inj hlist
    refine ⟨hown.lists he, rfl, rfl, ?_, fun turns => ?_⟩
    · have hchain := howns.chain
      rw [Exception.what]
      cases hmessages : e.messages with
      -- `what` of an exception without messages
      | none =>
        rw [hmessages] at hchain
        rw [hchain.eq_nil_of_none]
        rfl
      | some p =>
        rw [hmessages] at hchain
        obtain ⟨text, next, rest, hcell, hcells⟩ := hchain.exists_of_some
        simp only [hcell, hcells, Option.map_some, List.map_cons, List.headD_cons]
    -- it can be destroyed, in as many turns as it has messages
    · have hmutex : e.messagesMutex ∈ w.mutexes :=
        (hguarded.mem _).mpr (.inr ⟨x, by rw [Exceptions.mutexOf, he]; rfl⟩)
      rw [Exceptions.step, he, Option.bind_some, howns.chain.freeAll_eq howns.nodup]
      show _ ↔ turns = ((own x).map Prod.snd).length
      rw [List.length_map]
      by_cases hturns : turns = (own x).length
      · rw [if_pos hturns, Option.bind_some, if_pos hmutex]
        exact iff_of_true rfl hturns
      · rw [if_neg hturns]
        exact iff_of_false nofun hturns
  -- every cell in memory belongs to a live exception
  · by_contra hp
    obtain ⟨x, hx⟩ := hown.kept p hp
    rw [hown.empty x (hnone x)] at hx
    nomatch hx
  -- and every mutex that nobody has was lost in an assignment
  · have hall : w.mutexes = lost := by
      ext p
      simp [hguarded.mem p, Exceptions.mutexOf, hnone]
    rw [hall, hcard]

/-- The messages of one exception go to another one, which is destroyed then. -/
theorem messages_refine_taken :
    ∃ (w : Exceptions) (e : Exception), w.exception 0 = some e ∧
      w.Lists e ["second", "first", "third", "100%"] ∧ e.what w.memory = some "second" := by
  obtain ⟨⟨w, a⟩, hreach, htest⟩ := LTS.exists_reachable
    (T := (exceptionSystem fun _ => "Success").watch (messageLists fun _ => "Success"))
    (s := (⟨fun _ => none, ∅, fun _ => none⟩, ⟨fun _ => none, 0⟩))
    (l := [.newMessage 0 0 (some "first") 0, .prepend 0 (some "second") 1,
      .newMessage 1 1 (some "third") 2, .append 1 (some "100%") 3, .assign 0 1 2 [4, 5],
      .destroy 1 2])
    (p := fun p => decide ((p.1.exception 0).isSome ∧
      p.2.list 0 = some { messages := ["second", "first", "third", "100%"] })) ⟨rfl, rfl⟩
      (by decide)
  obtain ⟨hsome, hk⟩ := of_decide_eq_true htest
  obtain ⟨e, he⟩ := Option.isSome_iff_exists.mp hsome
  obtain ⟨hlists, -, -, hwhat, -⟩ := (messages_refine hreach).2.1 0 e _ he hk
  exact ⟨w, e, he, hlists, hwhat⟩

/-! ## Copies -/

/-- A text that is printed is the format itself only without a `%`, and all `%` came in pairs. -/
theorem vasprintf_eq_ok {cs r : List Char} (h : vasprintf cs = .ok r) :
    r.length ≤ cs.length ∧ (r = cs ↔ '%' ∉ cs) ∧ cs.count '%' % 2 = 0 := by
  fun_induction vasprintf cs generalizing r with
  | case1 =>
    obtain rfl := Except.ok.inj h
    exact ⟨Nat.le_refl _, iff_of_true rfl List.not_mem_nil, rfl⟩
  | case2 => nomatch h
  | case3 cs ih =>
    -- `%%` prints one character
    cases hcs : vasprintf cs with
    | error e =>
      rw [hcs] at h
      nomatch h
    | ok t =>
      rw [hcs] at h
      obtain rfl := Except.ok.inj h
      obtain ⟨hlength, -, hcount⟩ := ih hcs
      refine ⟨?_, iff_of_false (fun heq => ?_) (by simp), ?_⟩
      · simp only [List.length_cons]
        omega
      · -- the printed text is shorter
        have heq' := congrArg List.length heq
        simp only [List.length_cons] at heq'
        omega
      · simp only [List.count_cons_self]
        omega
  -- any other conversion reads an argument that is not there
  | case4 c cs hne => nomatch h
  | case5 c cs hnil _ hc ih =>
    -- an ordinary character, printed as it is
    have hpercent : c ≠ '%' := by
      rintro rfl
      cases cs with
      | nil => exact hnil rfl rfl
      | cons d cs => exact hc d cs rfl rfl
    cases hcs : vasprintf cs with
    | error e =>
      rw [hcs] at h
      nomatch h
    | ok t =>
      rw [hcs] at h
      obtain rfl := Except.ok.inj h
      obtain ⟨hlength, hself, hcount⟩ := ih hcs
      refine ⟨?_, ?_, ?_⟩
      · simp only [List.length_cons]
        omega
      · rw [List.cons.injEq, and_iff_right rfl, hself, List.mem_cons, not_or,
          and_iff_right hpercent.symm]
      · rw [List.count_cons_of_ne hpercent]
        exact hcount

/-- A text without '%' is printed as it is. -/
theorem vasprintf_of_notMem {cs : List Char} (h : '%' ∉ cs) : vasprintf cs = .ok cs := by
  fun_induction vasprintf cs with
  | case1 => rfl
  | case2 => exact absurd List.mem_cons_self h
  | case3 cs => exact absurd List.mem_cons_self h
  | case4 c cs => exact absurd List.mem_cons_self h
  | case5 c cs _ _ _ ih =>
    rw [ih fun hmem => h (List.mem_cons_of_mem c hmem)]
    rfl

/-- A text without a `%` is kept as it is. -/
theorem formatOnly_of_notMem {text : String} (h : '%' ∉ text.toList) :
    formatOnly text = some text := by
  rw [formatOnly, vasprintf_of_notMem h]
  exact congrArg some (String.ofList_toList ..)

/-- `vasprintf` fails for a `%` at the end that is not the second one of a pair. -/
theorem count_of_vasprintf_eq_incomplete {cs : List Char}
    (h : vasprintf cs = .error .incomplete) : cs.count '%' % 2 = 1 := by
  fun_induction vasprintf cs with
  | case1 => nomatch h
  | case2 => rfl
  | case3 cs ih =>
    cases hcs : vasprintf cs with
    | error e =>
      rw [hcs] at h
      have hcount := ih (hcs.trans (congrArg Except.error (Except.error.inj h)))
      simp only [List.count_cons_self]
      omega
    | ok t =>
      rw [hcs] at h
      nomatch h
  | case4 c cs hne => nomatch h
  | case5 c cs hnil _ hc ih =>
    have hpercent : c ≠ '%' := by
      rintro rfl
      cases cs with
      | nil => exact hnil rfl rfl
      | cons d cs => exact hc d cs rfl rfl
    rw [List.count_cons_of_ne hpercent]
    cases hcs : vasprintf cs with
    | error e =>
      rw [hcs] at h
      exact ih (hcs.trans (congrArg Except.error (Except.error.inj h)))
    | ok t =>
      rw [hcs] at h
      nomatch h

/-- A message comes out as it is without a `%`, or where the format itself is kept. -/
theorem formatted_eq_self_iff {text : String} (h : (formatOnly text).isSome) :
    formatted text = text ↔ '%' ∉ text.toList ∨ text.toList.count '%' % 2 = 1 := by
  rw [formatted]
  rw [formatOnly] at h ⊢
  cases hprinted : vasprintf text.toList with
  | ok r =>
    obtain ⟨-, hself, hcount⟩ := vasprintf_eq_ok hprinted
    rw [or_iff_left (by omega), ← hself]
    show String.ofList r = text ↔ _
    constructor
    · intro heq
      rw [← heq, String.toList_ofList]
    · intro heq
      rw [heq, String.ofList_toList]
  | error e =>
    cases e with
    | incomplete => exact iff_of_true rfl (.inr (count_of_vasprintf_eq_incomplete hprinted))
    | undefined =>
      rw [hprinted] at h
      nomatch h

end GazeboRcll
