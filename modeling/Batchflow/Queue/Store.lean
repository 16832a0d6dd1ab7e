import Batchflow.Message.Basic
import Batchflow.Message.Name
import Batchflow.Panic
import Batchflow.Queue.Error
import Batchflow.Time.Instant

/-!
# What a queue in memory holds

Messages stand in the order in which they were accepted.  Each becomes visible at some instant: a
new one after its delay, one that was delivered when its lease runs out.  A delivery gives the
message a new receipt, and whoever has the latest receipt can delete it.
-/

namespace Batchflow.Queue

structure Options where
  maxBatch : Nat := 10
  /-- How long a message stays hidden after a delivery. -/
  visibility : Duration := .ofSecs 30
  deriving DecidableEq, Repr

structure Entry where
  message : Message
  visibleAt : Nat
  /-- The handle of the latest delivery. -/
  receipt : Option String
  deriving DecidableEq

structure Store where
  options : Options
  entries : List Entry := []
  /-- So many names were given out. -/
  minted : Nat := 0

/-- The clock cannot reach an instant that is needed. -/
def clockPanic : Panic := .text Instant.overflowMessage

namespace Store

def size (s : Store) : Nat := s.entries.length

/-- Why a message can be sent nowhere. -/
def addressFault? (m : Message) : Option String :=
  if m.service.isEmpty then some "message has no target service"
  else if m.method.isEmpty then some "message has no target method"
  else none

/-- Accepts messages one after the other, and gives an id to each.  If a delay does not fit the
clock, those before it stay. -/
def accept (now : Nat) : Store → List Message → Store × List Message × Except Panic (List Verdict)
  | s, [] => (s, [], .ok [])
  | s, m :: rest =>
    match addressFault? m with
    | some fault =>
      let (s, rest, r) := accept now s rest
      (s, m :: rest, r.map (Verdict.failed m true fault :: ·))
    | none =>
      let m := { m with id := some (Name.mint .message s.minted) }
      let s := { s with minted := s.minted + 1 }
      match Instant.after? now m.delay with
      | none => (s, m :: rest, .error clockPanic)
      | some visibleAt =>
        let entry : Entry := { message := m, visibleAt, receipt := none }
        let (s, rest, r) := accept now { s with entries := s.entries ++ [entry] } rest
        (s, m :: rest, r.map (Verdict.succeeded m :: ·))

/-- How a batch was received. -/
inductive Reception where
  | taken (verdicts : List Verdict)
  | refused (e : Error)
  | panicked (p : Panic)

/-- A batch is refused as a whole, or each of its messages is judged by itself.  The messages come
back with their ids. -/
def enqueue (s : Store) (now : Nat) (cancelled : Bool) (batch : List Message) :
    Store × List Message × Reception :=
  if cancelled then (s, batch, .refused .cancelled)
  else if s.options.maxBatch < batch.length then
    (s, batch, .refused (.batchTooLarge batch.length s.options.maxBatch))
  else
    match accept now s batch with
    | (s, batch, .ok verdicts) => (s, batch, .taken verdicts)
    | (s, batch, .error p) => (s, batch, .panicked p)

def Entry.isVisible (now : Nat) (e : Entry) : Bool := e.visibleAt ≤ now

/-- Leases at most `count` visible messages, in their order, until `again`.  Receipts are numbered
from `minted`. -/
def leaseEntries (now again : Nat) : Nat → Nat → List Entry → List Entry × List Message
  | _, _, [] => ([], [])
  | 0, _, entries => (entries, [])
  | count + 1, minted, e :: entries =>
    if Entry.isVisible now e then
      let receipt := some (Name.mint .receipt minted)
      let (entries, messages) := leaseEntries now again count (minted + 1) entries
      ({ e with visibleAt := again, receipt } :: entries,
        { e.message with handle := receipt } :: messages)
    else
      let (entries, messages) := leaseEntries now again (count + 1) minted entries
      (e :: entries, messages)

/-- The first visible message loses its receipt when its lease cannot be set. -/
def loseReceipt (now : Nat) (receipt : Option String) : List Entry → List Entry
  | [] => []
  | e :: entries =>
    if Entry.isVisible now e then { e with receipt } :: entries
    else e :: loseReceipt now receipt entries

/-- Delivers at most `count` messages, which is not zero. -/
def lease (s : Store) (now count : Nat) : Store × Except Panic (List Message) :=
  match Instant.after? now s.options.visibility with
  | some again =>
    let (entries, messages) := leaseEntries now again count s.minted s.entries
    ({ s with entries, minted := s.minted + messages.length }, .ok messages)
  | none =>
    if s.entries.any (Entry.isVisible now) then
      let receipt := some (Name.mint .receipt s.minted)
      ({ s with entries := loseReceipt now receipt s.entries, minted := s.minted + 1 },
        .error clockPanic)
    else (s, .ok [])

/-- The next instant at which a hidden message becomes visible. -/
def nextVisible? (s : Store) (now : Nat) : Option Nat :=
  ((s.entries.map Entry.visibleAt).filter (now < ·)).min?

/-- Removes the message whose latest receipt is given. -/
def delete (s : Store) (handle : Option String) : Store × Except Error Unit :=
  match handle with
  | none => (s, .error (.messageNotFound "<none>"))
  | some handle =>
    if s.entries.any (·.receipt == some handle) then
      ({ s with entries := s.entries.eraseP (·.receipt == some handle) }, .ok ())
    else (s, .error (.messageNotFound handle))

end Store

end Batchflow.Queue
