import Batchflow.Queue.Store

/-!
# A queue and everybody who waits for its messages

A call to dequeue looks for visible messages.  If there are none it waits: for a new batch, for
the next instant at which some message becomes visible, or for the end of its own patience; then
it looks again.  A call also ends when its token is cancelled.

An action is a call, a step of a pending call, or the passing of time; every order of possible
actions is a run.
-/

namespace Batchflow.Queue

/-- A call to dequeue that has not returned. -/
structure Call where
  token : String
  count : Nat
  /-- When its patience ends. -/
  deadline : Nat
  /-- When it looks again by itself. -/
  wakeAt : Nat
  /-- A batch has come since it looked last. -/
  notified : Bool
  deriving DecidableEq

/-- How a call to dequeue ends. -/
inductive Reply where
  | messages (ms : List Message)
  | refused (e : Error)
  | panicked (p : Panic)

inductive Event where
  | received (messages : List Message) (reception : Store.Reception)
  | replied (call : Nat) (reply : Reply)
  | deleted (result : Except Error Unit)

inductive Action where
  | enqueue (token : String) (batch : List Message)
  | dequeue (call : Nat) (token : String) (count : Nat) (wait : Duration)
  | delete (handle : Option String)
  | cancel (token : String)
  | abort (call : Nat)
  /-- A pending call looks again. -/
  | look (call : Nat)
  /-- A pending call sees that its token is cancelled. -/
  | noticeCancel (call : Nat)
  | advance (now : Nat)

structure System where
  store : Store
  /-- The tokens that are cancelled. -/
  cancelled : List String
  /-- The calls that have not returned, each with its number. -/
  calls : List (Nat × Call)
  now : Nat

namespace System

def new (options : Options) : System := { store := { options }, cancelled := [], calls := [], now := 0 }

/-- What an action leads to, with what can be seen of it. -/
abbrev Outcome := System × List Event

def call? (s : System) (call : Nat) : Option Call := s.calls.lookup call

def isCancelled (s : System) (token : String) : Bool := s.cancelled.contains token

/-- Every call that waits is told of a new batch. -/
def notifyAll (s : System) : System :=
  { s with calls := s.calls.map fun (n, c) => (n, { c with notified := true }) }

/-- A batch is handed over, with a token that is cancelled or not. -/
def submit (s : System) (cancelled : Bool) (batch : List Message) :
    System × List Message × Store.Reception :=
  match s.store.enqueue s.now cancelled batch with
  | (store, batch, .taken verdicts) => ({ s with store }.notifyAll, batch, .taken verdicts)
  | (store, batch, r) => ({ s with store }, batch, r)

def forget (s : System) (call : Nat) : System :=
  { s with calls := s.calls.filter (·.1 != call) }

def await (s : System) (call : Nat) (c : Call) : System :=
  { s.forget call with calls := (s.forget call).calls ++ [(call, c)] }

def reply (s : System) (call : Nat) (r : Reply) : Outcome := (s.forget call, [.replied call r])

/-- When a call that found nothing looks again by itself. -/
def wakeTime (s : System) (deadline : Nat) : Nat :=
  match s.store.nextVisible? s.now with
  | some t => min t deadline
  | none => deadline

/-- A call looks for messages, and waits if it finds none and still has patience. -/
def look (s : System) (call : Nat) (token : String) (count deadline : Nat) : Outcome :=
  match s.store.lease s.now count with
  | (store, .error p) => { s with store }.reply call (.panicked p)
  | (store, .ok messages) =>
    if messages.isEmpty ∧ s.now < deadline then
      let wakeAt := s.wakeTime deadline
      ({ s with store }.await call { token, count, deadline, wakeAt, notified := false }, [])
    else { s with store }.reply call (.messages messages)

def dequeue (s : System) (call : Nat) (token : String) (count : Nat) (wait : Duration) : Outcome :=
  if count = 0 then (s, [.replied call (.messages [])])
  else
    match Instant.after? s.now wait with
    | none => (s, [.replied call (.panicked clockPanic)])
    | some deadline => s.look call token count deadline

/-- A call looks again after a new batch, or when its time has come. -/
def look? (s : System) (call : Nat) : Option Outcome :=
  match s.call? call with
  | none => none
  | some c =>
    if c.notified ∨ c.wakeAt ≤ s.now then some (s.look call c.token c.count c.deadline) else none

def noticeCancel? (s : System) (call : Nat) : Option Outcome :=
  match s.call? call with
  | none => none
  | some c => if s.isCancelled c.token then some (s.reply call (.refused .cancelled)) else none

/-- Whether no call can go on by itself. -/
def quiet (s : System) : Bool :=
  s.calls.all fun (n, _) => (s.look? n).isNone && (s.noticeCancel? n).isNone

/-- The moments at which some call looks again by itself. -/
def dues (s : System) : List Nat := s.calls.map (·.2.wakeAt)

/-- Time passes only when nothing else can happen, and never past the moment at which a call has
to look again. -/
def advance? (s : System) (now : Nat) : Option System :=
  if s.now ≤ now ∧ s.quiet ∧ ∀ due ∈ s.dues, now ≤ Instant.tick due then some { s with now }
  else none

/-- One action, if it is possible.  A call takes a number by which none is pending. -/
def step (s : System) : Action → Option Outcome
  | .enqueue token batch =>
    match s.submit (s.isCancelled token) batch with
    | (s, batch, r) => some (s, [.received batch r])
  | .dequeue call token count wait =>
    if (s.call? call).isNone then some (s.dequeue call token count wait) else none
  | .delete handle =>
    match s.store.delete handle with
    | (store, r) => some ({ s with store }, [.deleted r])
  | .cancel token => some ({ s with cancelled := token :: s.cancelled }, [])
  | .abort call => if (s.call? call).isSome then some (s.forget call, []) else none
  | .look call => s.look? call
  | .noticeCancel call => s.noticeCancel? call
  | .advance now => (s.advance? now).map (·, [])

end System

end Batchflow.Queue
