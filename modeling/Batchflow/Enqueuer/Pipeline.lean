import Batchflow.Chunker.Worker
import Batchflow.Enqueuer.Log

/-!
# The pipeline of a run

Each run of an enqueuer has a pipeline of its own.  Its worker makes batches of the messages of
the intake and submits each batch to the sink of the run.  When the sink has answered, the worker
puts the failures of the batch, one by one, into a channel, and waits while that is full.  A
reporter takes them from there and calls the failure handler for each, or writes them to the log.

The sink and the handler are not part of the pipeline.  They may answer anything, or panic.
-/

namespace Batchflow.Enqueuer

open Chunker (Feed)

/-- What the worker does with the batch it has made. -/
inductive Submission where
  | idle
  /-- The sink was called. -/
  | submitting
  /-- These failures are still to be reported. -/
  | reporting (rest : List Verdict)
  /-- It waits for room in the failure channel. -/
  | blocked (v : Verdict) (rest : List Verdict)
  deriving DecidableEq

inductive Reporter where
  | waiting
  /-- The handler was called. -/
  | handling (v : Verdict)
  | returned
  | panicked (p : Panic)
  deriving DecidableEq

namespace Reporter

def isHandling : Reporter → Bool
  | .handling _ => true
  | _ => false

def outcome? : Reporter → Option (Except Panic Unit)
  | .returned => some (.ok ())
  | .panicked p => some (.error p)
  | _ => none

end Reporter

structure Pipeline (ι : Type) where
  /-- The sink that was given to this run. -/
  sink : Nat
  feed : Feed ι Message
  submission : Submission
  /-- Handles are kept by the worker and by whoever may stop the run. -/
  failures : Channel Unit Verdict
  reporter : Reporter
  /-- The token that the sink is called with is cancelled. -/
  cancelled : Bool

/-- What a pipeline may do next. -/
inductive Move where
  | worker (m : Chunker.Move)
  /-- The sink returns, and leaves the messages of the batch like this. -/
  | sinkReturns (batch : List Message) (result : Except Queue.Error (List Verdict))
  | sinkPanics (p : Panic)
  /-- The worker reports the next failure, or is done with the batch. -/
  | report
  /-- The reporter takes the next failure. -/
  | take
  /-- The reporter sees that no failure will come any more. -/
  | noticeEnd
  | handlerReturns
  | handlerPanics (p : Panic)

/-- What can be seen of a move. -/
inductive Note where
  | batch (ms : List Message)
  | failure (v : Verdict)
  | log (l : Log)

namespace Pipeline

variable {ι : Type}

def start (o : Options) (sink now : Nat) : Pipeline ι :=
  { sink, feed := .start (.ofCapacity o.bufferSize 1) now, submission := .idle,
    failures := .ofCapacity o.failedBufferSize 2, reporter := .waiting, cancelled := false }

def dropFailures (p : Pipeline ι) : Pipeline ι := { p with failures := p.failures.dropHandle }

/-- The worker goes on like this; once it has ended it reports nothing any more. -/
def setFeed (p : Pipeline ι) (feed : Feed ι Message) : Pipeline ι :=
  if feed.worker.ended then { p with feed }.dropFailures else { p with feed }

def isOwn : Chunker.Move → Bool
  | .handlerReturns => false
  | .handlerPanics _ => false
  | _ => true

def moveWorker? (o : Options) (now : Nat) (p : Pipeline ι) (m : Chunker.Move) :
    Option (Pipeline ι × List Note) :=
  if isOwn m then
    match p.feed.step o.chunkerOptions now m with
    | none => none
    | some (feed, none) => some (p.setFeed feed, [])
    | some (feed, some batch) =>
      some ({ p.setFeed feed with submission := .submitting }, [.batch batch])
  else none

def failuresOf (vs : List Verdict) : List Verdict := vs.filter (!·.success)

def refusals (batch : List Message) (e : Queue.Error) : List Verdict :=
  batch.map (Verdict.failed · false e.message)

def sinkReturns? (p : Pipeline ι) (batch : List Message)
    (result : Except Queue.Error (List Verdict)) : Option (Pipeline ι × List Note) :=
  match p.submission, p.feed.worker with
  | .submitting, .handling chunk _ =>
    if batch.length = chunk.length then
      match result with
      | .ok vs => some ({ p with submission := .reporting (failuresOf vs) }, [])
      | .error e =>
        some ({ p with submission := .reporting (refusals batch e) },
          [.log (.submissionFailed chunk.length e)])
    else none
  | _, _ => none

def sinkPanics? (p : Pipeline ι) (panic : Panic) : Option (Pipeline ι) :=
  match p.submission with
  | .submitting => (p.feed.handlerPanics? panic).map fun feed => { p.setFeed feed with submission := .idle }
  | _ => none

/-- A failure that finds the channel closed goes to the log. -/
def lost (v : Verdict) : List Note := [.log .reportDropped, .log (.messageFailed v)]

def report? (p : Pipeline ι) : Option (Pipeline ι × List Note) :=
  match p.submission with
  | .reporting [] =>
    p.feed.handlerReturns?.map fun feed => ({ p.setFeed feed with submission := .idle }, [])
  | .reporting (v :: rest) =>
    match p.failures.send () v with
    | (failures, .accepted) => some ({ p with failures, submission := .reporting rest }, [])
    | (failures, .waiting) => some ({ p with failures, submission := .blocked v rest }, [])
    | (failures, .refused) => some ({ p with failures, submission := .reporting rest }, lost v)
  | .blocked v rest =>
    match p.failures.resume? () with
    | some .accepted =>
      some ({ p with failures := p.failures.fill () v, submission := .reporting rest }, [])
    | some .refused =>
      some ({ p with failures := p.failures.leave (), submission := .reporting rest }, lost v)
    | _ => none
  | _ => none

/-- The reporter takes a failure to the handler, if there is one to call. -/
def take? (p : Pipeline ι) (hasHandler : Bool) : Option (Pipeline ι × List Note) :=
  match p.reporter, p.failures.receive? with
  | .waiting, some (v, failures) =>
    if hasHandler then some ({ p with failures, reporter := .handling v }, [.failure v])
    else some ({ p with failures }, [.log (.messageFailed v)])
  | _, _ => none

def noticeEnd? (p : Pipeline ι) : Option (Pipeline ι) :=
  match p.reporter with
  | .waiting => if p.failures.exhausted then some { p with reporter := .returned } else none
  | _ => none

def handlerReturns? (p : Pipeline ι) : Option (Pipeline ι) :=
  match p.reporter with
  | .handling _ => some { p with reporter := .waiting }
  | _ => none

/-- With the reporter goes the receiving end of the failure channel. -/
def handlerPanics? (p : Pipeline ι) (panic : Panic) : Option (Pipeline ι) :=
  match p.reporter with
  | .handling _ => some { p with reporter := .panicked panic, failures := p.failures.discard }
  | _ => none

/-- One move, if it is possible, and what can be seen of it. -/
def step (o : Options) (hasHandler : Bool) (now : Nat) (p : Pipeline ι) :
    Move → Option (Pipeline ι × List Note)
  | .worker m => p.moveWorker? o now m
  | .sinkReturns batch result => p.sinkReturns? batch result
  | .sinkPanics panic => (p.sinkPanics? panic).map (·, [])
  | .report => p.report?
  | .take => p.take? hasHandler
  | .noticeEnd => p.noticeEnd?.map (·, [])
  | .handlerReturns => p.handlerReturns?.map (·, [])
  | .handlerPanics panic => (p.handlerPanics? panic).map (·, [])

def workerMoves (p : Pipeline ι) : List Move := .report :: p.feed.ownMoves.map .worker

def reporterMoves : List Move := [.take, .noticeEnd]

end Pipeline

end Batchflow.Enqueuer
