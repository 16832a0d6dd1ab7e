import Batchflow.Channel
import Batchflow.Chunker.Options
import Batchflow.Panic
import Batchflow.Time.Ticker

/-!
# The worker of a chunker

One worker reads one source.  It collects items into a batch and hands the batch to a handler when
it is full, or when its ticker ticks.  The first item of a batch sets the ticker back, and a tick
that finds the batch empty is swallowed.  While the handler works the worker does nothing else,
and ticks come late.  When it is told to stop, or when the source has ended, the worker closes the
source, takes what is still to come, and hands over the rest.

Each move below is one thing the worker does between two moments at which it waits.  Which of
several possible moves comes first is left open.
-/

namespace Batchflow.Chunker

/-- What the worker goes back to when the handler returns. -/
inductive Resume where
  | collect
  | drain
  | finish
  deriving DecidableEq, Repr

inductive Worker (α : Type) where
  /-- It waits for an item, a tick or the order to stop. -/
  | collecting (batch : List α)
  /-- The handler has the chunk. -/
  | handling (chunk : List α) (resume : Resume)
  /-- It takes what is left in a source that it has closed. -/
  | draining (batch : List α)
  | returned
  | panicked (panic : Panic)
  deriving DecidableEq, Repr

namespace Worker

variable {α : Type}

/-- What it has received and not handed over. -/
def batch : Worker α → List α
  | .collecting batch => batch
  | .draining batch => batch
  | _ => []

def ended : Worker α → Bool
  | .returned => true
  | .panicked _ => true
  | _ => false

/-- How a worker that has ended came to its end. -/
def outcome? : Worker α → Option (Except Panic Unit)
  | .returned => some (.ok ())
  | .panicked p => some (.error p)
  | _ => none

end Worker

/-- A source together with the worker that reads it. -/
structure Feed (ι α : Type) where
  channel : Channel ι α
  stopRequested : Bool
  worker : Worker α
  ticker : Ticker

/-- What a worker may do next. -/
inductive Move where
  /-- It sees that it was told to stop. -/
  | noticeStop
  /-- It takes a tick; an empty batch stays as it is. -/
  | tick
  | receive
  /-- It sees that the source has ended. -/
  | noticeEnd
  /-- It hands over the rest, or is done if there is none. -/
  | finish
  | handlerReturns
  | handlerPanics (panic : Panic)
  deriving DecidableEq, Repr

namespace Feed

variable {ι α : Type}

/-- A worker that has just started on a source. -/
def start (channel : Channel ι α) (now : Nat) : Feed ι α :=
  { channel, stopRequested := false, worker := .collecting [], ticker := .start now }

/-- When the batch has to be handed over whatever its size. -/
def due? (f : Feed ι α) : Option Nat :=
  match f.worker with
  | .collecting (_ :: _) => some f.ticker.next
  | _ => none

def handOver (f : Feed ι α) (chunk : List α) (resume : Resume) : Feed ι α × Option (List α) :=
  ({ f with worker := .handling chunk resume }, some chunk)

def noticeStop? (f : Feed ι α) : Option (Feed ι α) :=
  match f.worker with
  | .collecting batch =>
    if f.stopRequested then some { f with channel := f.channel.close, worker := .draining batch }
    else none
  | _ => none

def tick? (o : Options) (now : Nat) (f : Feed ι α) : Option (Feed ι α × Option (List α)) :=
  if f.ticker.isDue now then
    let f' := { f with ticker := f.ticker.tick o.wait.total now }
    match f.worker with
    | .collecting [] => some (f', none)
    | .collecting (x :: batch) => some (f'.handOver (x :: batch) .collect)
    | _ => none
  else none

/-- The ticker when an item has joined a batch: the first item sets it back. -/
def tickerAfter (o : Options) (now : Nat) (f : Feed ι α) (batch : List α) : Ticker :=
  if batch.isEmpty then .reset o.wait.total now else f.ticker

def receive? (o : Options) (now : Nat) (f : Feed ι α) : Option (Feed ι α × Option (List α)) :=
  match f.channel.receive? with
  | none => none
  | some (x, channel) =>
    match f.worker with
    | .collecting batch =>
      let f := { f with channel, ticker := f.tickerAfter o now batch }
      if o.size ≤ batch.length + 1 then some (f.handOver (batch ++ [x]) .collect)
      else some ({ f with worker := .collecting (batch ++ [x]) }, none)
    | .draining batch =>
      let f := { f with channel }
      if o.size ≤ batch.length + 1 then some (f.handOver (batch ++ [x]) .drain)
      else some ({ f with worker := .draining (batch ++ [x]) }, none)
    | _ => none

def noticeEnd? (f : Feed ι α) : Option (Feed ι α) :=
  match f.worker with
  | .collecting batch =>
    if f.channel.exhausted then
      some { f with channel := f.channel.close, worker := .draining batch }
    else none
  | _ => none

def finish? (f : Feed ι α) : Option (Feed ι α × Option (List α)) :=
  match f.worker with
  | .draining batch =>
    if f.channel.exhausted then
      match batch with
      | [] => some ({ f with worker := .returned }, none)
      | x :: batch => some (f.handOver (x :: batch) .finish)
    else none
  | _ => none

/-- After a chunk the worker goes on as before; a batch starts anew. -/
def handlerReturns? (f : Feed ι α) : Option (Feed ι α) :=
  match f.worker with
  | .handling _ .collect => some { f with worker := .collecting [] }
  | .handling _ .drain => some { f with worker := .draining [] }
  | .handling _ .finish => some { f with worker := .returned }
  | _ => none

/-- A panic of the handler ends the worker, and with it the receiving end of the source. -/
def handlerPanics? (panic : Panic) (f : Feed ι α) : Option (Feed ι α) :=
  match f.worker with
  | .handling _ _ => some { f with channel := f.channel.discard, worker := .panicked panic }
  | _ => none

/-- One move of the worker, if it is possible, and the chunk that is handed over by it. -/
def step (o : Options) (now : Nat) (f : Feed ι α) : Move → Option (Feed ι α × Option (List α))
  | .noticeStop => f.noticeStop?.map (·, none)
  | .tick => f.tick? o now
  | .receive => f.receive? o now
  | .noticeEnd => f.noticeEnd?.map (·, none)
  | .finish => f.finish?
  | .handlerReturns => f.handlerReturns?.map (·, none)
  | .handlerPanics panic => (f.handlerPanics? panic).map (·, none)

/-- The moves that bring the worker forward by itself, apart from ticks that it swallows. -/
def ownMoves (f : Feed ι α) : List Move :=
  match f.worker with
  | .collecting [] => [.noticeStop, .receive, .noticeEnd]
  | .collecting _ => [.noticeStop, .tick, .receive, .noticeEnd]
  | .draining _ => [.receive, .finish]
  | _ => []

end Feed

end Batchflow.Chunker
