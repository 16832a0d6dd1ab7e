import Batchflow.Enqueuer.System
import Batchflow.Simulation.Queueing
import Batchflow.Simulation.Sink

/-!
# Playing a script against an enqueuer

A script is a list of steps: calls of the enqueuer, calls of the queue in memory that stands
behind its sink, and time that passes.  The sink and the failure handler are part of the script
too.  The handler may wait at a gate, take some time, panic, enqueue the message again, and try to
stop the enqueuer.
-/

namespace Batchflow.Simulation.Enqueueing

open Enqueuer (System Event Action Caller Pipeline)

structure Behaviour where
  /-- It only writes the failure to the log. -/
  logs : Bool := false
  gated : Bool := false
  /-- How long it sleeps, in milliseconds. -/
  delay : Nat := 0
  /-- It panics over a message with this trace. -/
  panicOn : Option String := none
  /-- How often it enqueues a message again, by trace. -/
  retries : Nat := 0
  /-- Then it tries to stop the enqueuer. -/
  stops : Bool := false

inductive Step where
  | start
  | stop
  | enqueue (batch : List Message) (counted : Bool)
  | openGate (n : Nat)
  | openHandlerGate (n : Nat)
  | options
  | drop
  /-- A call of the queue behind the sink. -/
  | queue (step : Queueing.Step)
  | abort (step : Nat)
  | advance (millis : Nat)

inductive Answer where
  | ok
  | failed (e : Enqueuer.Error)
  /-- After so many messages one was not accepted. -/
  | stuck (e : Enqueuer.Error) (accepted : Nat)
  | options (o : Enqueuer.Options)
  | dropped
  | queue (a : Queueing.Answer)
  | aborted
  | notPending
  | pending

def Answer.ofResult : Except Enqueuer.Error Unit → Answer
  | .ok () => .ok
  | .error e => .failed e

/-- A call of the sink. -/
structure BatchSeen where
  time : Nat
  traces : List String
  cancelled : Bool

/-- A call of the failure handler. -/
structure FailureSeen where
  time : Nat
  verdict : Verdict
  state : Lifecycle

/-- A call that the failure handler made itself, and that has returned. -/
structure CallSeen where
  time : Nat
  trace : String
  result : Except Enqueuer.Error Unit

/-- What was seen during a step. -/
structure Record where
  batches : List BatchSeen := []
  failures : List FailureSeen := []
  retries : List CallSeen := []
  stops : List CallSeen := []
  logs : List Enqueuer.Log := []
  done : List (Nat × Answer) := []

/-- The sink or the handler, by what it waits for. -/
inductive Stage where
  | atGate
  | asleep (until_ : Nat)
  /-- The handler has called the enqueuer. -/
  | calling
  /-- The handler has done all but to stop the enqueuer. -/
  | retried
  | over
  deriving DecidableEq

/-- A call that enqueues several messages, one after the other. -/
structure Errand where
  batch : List Message
  accepted : Nat
  /-- Its answer tells how many were accepted. -/
  counted : Bool

inductive Task where
  | client (n : Nat)
  | worker (run : Nat)
  | reporter (run : Nat)
  | consumer (n : Nat)
  deriving DecidableEq

structure Scene where
  system : System
  queue : Queue.System
  script : List SinkStep
  behaviour : Behaviour
  /-- The batch that each run has submitted last, with its number. -/
  submitted : List (Nat × Nat × List Message) := []
  batches : Nat := 0
  /-- The run whose batch was submitted last. -/
  latest : Option Nat := none
  gate : Permits Nat := .ofFree 0
  handlerGate : Permits Nat := .ofFree 0
  sinkStages : List (Nat × Stage) := []
  handlerStages : List (Nat × Stage) := []
  /-- How often each message was enqueued again. -/
  retried : List (String × Nat) := []
  errands : List (Nat × Errand) := []
  dropped : Bool := false
  record : Record := {}

namespace Scene

def now (s : Scene) : Nat := s.system.now

def finish (s : Scene) (call : Nat) (a : Answer) : Scene :=
  { s with
    errands := s.errands.filter (·.1 != call)
    record := { s.record with done := s.record.done ++ [(call, a)] } }

def putStage (stages : List (Nat × Stage)) (run : Nat) (stage : Stage) : List (Nat × Stage) :=
  stages.filter (·.1 != run) ++ [(run, stage)]

def setSinkStage (s : Scene) (run : Nat) (stage : Stage) : Scene :=
  { s with sinkStages := putStage s.sinkStages run stage }

def setHandlerStage (s : Scene) (run : Nat) (stage : Stage) : Scene :=
  { s with handlerStages := putStage s.handlerStages run stage }

def sleep (s : Scene) (millis : Nat) : Stage := .asleep (s.now + Instant.ofMillis millis)

def log (s : Scene) (l : Enqueuer.Log) : Scene :=
  { s with record := { s.record with logs := s.record.logs ++ [l] } }

def isCancelled (s : Scene) (run : Nat) : Bool :=
  ((s.system.pipeline? run).map Pipeline.cancelled).getD false

def seeBatch (s : Scene) (run : Nat) (ms : List Message) : Scene :=
  let seen : BatchSeen :=
    { time := s.now, traces := ms.map (·.trace), cancelled := s.isCancelled run }
  let step := sinkStep s.script s.batches
  let others := s.submitted.filter (·.1 != run)
  let s := { s with
    batches := s.batches + 1
    latest := some run
    submitted := others ++ [(run, s.batches, ms)]
    record := { s.record with batches := s.record.batches ++ [seen] } }
  if step.gated then { s with gate := s.gate.request run }.setSinkStage run .atGate
  else s.setSinkStage run (s.sleep step.delay)

def seeFailure (s : Scene) (run : Nat) (v : Verdict) : Scene :=
  let b := s.behaviour
  if b.logs then (s.log (.messageFailed v)).setHandlerStage run .over
  else
    let seen : FailureSeen := { time := s.now, verdict := v, state := s.system.state }
    let s := { s with record := { s.record with failures := s.record.failures ++ [seen] } }
    if b.gated then { s with handlerGate := s.handlerGate.request run }.setHandlerStage run .atGate
    else s.setHandlerStage run (s.sleep b.delay)

/-- The handle that an errand keeps for itself is dropped. -/
def dropHandle (s : Scene) : Scene :=
  match s.system.step .dropHandle with
  | some (system, _) => { s with system }
  | none => s

def seeEnqueued (s : Scene) (call : Nat) (r : Except Enqueuer.Error Unit) : Scene :=
  match s.errands.lookup call, r with
  | some { batch := _ :: m :: batch, accepted, counted }, .ok () =>
    { s with errands := s.errands.map fun (c, e) =>
        if c == call then (c, { batch := m :: batch, accepted := accepted + 1, counted }) else (c, e) }
  | some _, .ok () => (s.finish call .ok).dropHandle
  | some { accepted, counted := true, .. }, .error e => (s.finish call (.stuck e accepted)).dropHandle
  | some _, .error e => (s.finish call (.failed e)).dropHandle
  | none, r => s.finish call (.ofResult r)

def traceInHand (s : Scene) (run : Nat) : String :=
  match (s.system.pipeline? run).map Pipeline.reporter with
  | some (.handling v) => v.message.trace
  | _ => ""

def seeHandlerCall (s : Scene) (run : Nat) : Enqueuer.Reply → Scene
  | .enqueued result =>
    let seen : CallSeen := { time := s.now, trace := s.traceInHand run, result }
    { s with record := { s.record with retries := s.record.retries ++ [seen] } }.setHandlerStage
      run .retried
  | .started _ => s
  | .stopped result =>
    let seen : CallSeen := { time := s.now, trace := s.traceInHand run, result }
    { s with record := { s.record with stops := s.record.stops ++ [seen] } }.setHandlerStage run .over

def see (s : Scene) : Event → Scene
  | .replied (.client n) (.started r) => s.finish n (.ofResult r)
  | .replied (.client n) (.stopped r) => s.finish n (.ofResult r)
  | .replied (.client n) (.enqueued r) => s.seeEnqueued n r
  | .replied (.handler run) r => s.seeHandlerCall run r
  | .took .. => s
  | .batch run ms => s.seeBatch run ms
  | .failure run v => s.seeFailure run v
  | .log l => s.log l

def perform (s : Scene) (a : Action) : Option Scene :=
  match s.system.step a with
  | some (system, events) => some (events.foldl see { s with system })
  | none => none

def seeQueue (s : Scene) : Queue.Event → Scene
  | .replied call r => s.finish call (.queue (.ofReply r))
  | _ => s

def performQueue (s : Scene) (a : Queue.Action) : Option Scene :=
  match s.queue.step a with
  | some (queue, events) => some (events.foldl seeQueue { s with queue })
  | none => none

def answerSink (s : Scene) (run : Nat) : Option Scene :=
  match s.submitted.lookup run with
  | none => none
  | some (n, batch) =>
    let (queue, answer) := match (sinkStep s.script n).deed.answer? n batch with
      | some answer => (s.queue, answer)
      | none =>
        match s.queue.submit (s.isCancelled run) batch with
        | (queue, batch, reception) => (queue, SinkAnswer.ofReception batch reception)
    match answer with
    | .returned batch result => { s with queue }.perform (.move run (.sinkReturns batch result))
    | .panicked p => { s with queue }.perform (.move run (.sinkPanics p))

def actSink (s : Scene) (run : Nat) : Option Scene :=
  match s.sinkStages.lookup run with
  | some .atGate =>
    if s.gate.holds run then
      let delay := ((s.submitted.lookup run).map fun (n, _) => (sinkStep s.script n).delay).getD 0
      some ({ s with gate := s.gate.spend run }.setSinkStage run (s.sleep delay))
    else none
  | some (.asleep t) => if s.now < t then none else s.answerSink run
  | _ => none

def timesRetried (s : Scene) (trace : String) : Nat := (s.retried.lookup trace).getD 0

def finishHandler (s : Scene) (run : Nat) : Option Scene :=
  if s.behaviour.stops then (s.setHandlerStage run .calling).perform (.stop (.handler run))
  else s.perform (.move run .handlerReturns)

/-- What the handler does after its sleep. -/
def handle (s : Scene) (run : Nat) (m : Message) : Option Scene :=
  let b := s.behaviour
  if b.panicOn == some m.trace then
    s.perform (.move run (.handlerPanics (.text "handler gave up")))
  else if s.timesRetried m.trace < b.retries then
    let retried := (m.trace, s.timesRetried m.trace + 1) :: s.retried.filter (·.1 != m.trace)
    ({ s with retried }.setHandlerStage run .calling).perform (.enqueue (.handler run) m)
  else s.finishHandler run

def actHandler (s : Scene) (run : Nat) (m : Message) : Option Scene :=
  match s.handlerStages.lookup run with
  | some .atGate =>
    if s.handlerGate.holds run then
      some ({ s with handlerGate := s.handlerGate.spend run }.setHandlerStage run
        (s.sleep s.behaviour.delay))
    else none
  | some (.asleep t) => if s.now < t then none else s.handle run m
  | some .calling => s.perform (.resume (.handler run))
  | some .retried => s.finishHandler run
  | some .over => s.perform (.move run .handlerReturns)
  | none => none

def actClient (s : Scene) (n : Nat) : Option Scene :=
  if (s.system.call? (.client n)).isSome then s.perform (.resume (.client n))
  else match s.errands.lookup n with
    | some { batch := m :: _, .. } => s.perform (.enqueue (.client n) m)
    | _ => none

def act (s : Scene) : Task → Option Scene
  | .client n => s.actClient n
  | .worker run =>
    match s.system.pipeline? run with
    | none => none
    | some p =>
      match p.submission with
      | .submitting => s.actSink run
      | _ => p.workerMoves.findSome? fun m => s.perform (.move run m)
  | .reporter run =>
    match (s.system.pipeline? run).map Pipeline.reporter with
    | some (.handling v) => s.actHandler run v.message
    | _ => Pipeline.reporterMoves.findSome? fun m => s.perform (.move run m)
  | .consumer n =>
    match s.performQueue (.noticeCancel n) with
    | some s => some s
    | none => s.performQueue (.look n)

def clientCalls (s : Scene) : List Nat :=
  s.system.calls.filterMap fun (caller, _) =>
    match caller with
    | .client n => some n
    | .handler _ => none

def tasks (s : Scene) : List Task :=
  ((List.range s.system.pipelines.length).flatMap fun run => [.worker run, .reporter run]) ++
    s.clientCalls.map .client ++
    (s.errands.filter fun e => (s.system.call? (.client e.1)).isNone).map (.client ·.1) ++
    s.queue.calls.map (.consumer ·.1)

def stageDue? : Stage → Option Nat
  | .asleep t => some t
  | _ => none

def setClock (s : Scene) (now : Nat) : Scene :=
  let s := (s.perform (.advance now)).getD s
  (s.performQueue (.advance now)).getD s

def world : World Scene Task where
  tasks := tasks
  act := act
  now := now
  dues s := s.system.dues ++ s.queue.dues ++ s.sinkStages.filterMap (stageDue? ·.2) ++
    s.handlerStages.filterMap (stageDue? ·.2)
  setClock := setClock

def new (options : Enqueuer.Options) (queue : Queue.Options) (script : List SinkStep)
    (behaviour : Behaviour) : Scene :=
  { system := .new options, queue := .new queue, script, behaviour }

/-- Performs the first action of a call and lets everything run. -/
def launch (s : Scene) (a : Action) : Scene := world.settle ((s.perform a).getD s)

/-- What the call of the step has returned, as far as it has. -/
def answer (s : Scene) (call : Nat) : Answer := (s.record.done.lookup call).getD .pending

def enqueueStep (s : Scene) (call : Nat) (batch : List Message) (counted : Bool) : Scene :=
  let s := (s.perform .addHandle).getD s
  match batch with
  | [] => (s.finish call .ok).dropHandle
  | _ => world.settle { s with errands := s.errands ++ [(call, { batch, accepted := 0, counted })] }

/-- A call of the queue that is over at once. -/
def queueStep (s : Scene) (a : Queue.Action) : Scene × Answer :=
  match s.queue.step a with
  | some (queue, e :: _) => (world.settle { s with queue }, .queue (.ofEvent e))
  | some (queue, []) => (world.settle { s with queue }, .ok)
  | none => (s, .notPending)

def playQueue (s : Scene) (n : Nat) : Queueing.Step → Scene × Answer
  | .enqueue token batch => s.queueStep (.enqueue token batch)
  | .dequeue token count wait =>
    let s := world.settle ((s.performQueue (.dequeue n token count wait)).getD s)
    (s, s.answer n)
  | .delete handle => s.queueStep (.delete handle)
  | .cancel token => s.queueStep (.cancel token)
  | _ => (s, .notPending)

def abortStep (s : Scene) (call : Nat) : Option Scene :=
  match s.perform (.abort (.client call)) with
  | some s =>
    let errand := s.errands.lookup call
    let s := { s with errands := s.errands.filter (·.1 != call) }
    some (world.settle (if errand.isSome then s.dropHandle else s))
  | none => (s.performQueue (.abort call)).map world.settle

/-- Plays one step, whose number is also the number of its call. -/
def play (s : Scene) (n : Nat) (step : Step) : Scene × Answer :=
  let s := { s with record := {} }
  match step with
  | .start =>
    if s.dropped then (s, .dropped)
    else let s := s.launch (.start (.client n) 0); (s, s.answer n)
  | .stop =>
    if s.dropped then (s, .dropped) else let s := s.launch (.stop (.client n)); (s, s.answer n)
  | .enqueue batch counted =>
    if s.dropped then (s, .dropped)
    else let s := s.enqueueStep n batch counted; (s, s.answer n)
  | .openGate k => (world.settle { s with gate := s.gate.addMany k }, .ok)
  | .openHandlerGate k => (world.settle { s with handlerGate := s.handlerGate.addMany k }, .ok)
  | .options => if s.dropped then (s, .dropped) else (s, .options s.system.options)
  | .drop =>
    if s.dropped then (s, .dropped)
    else (world.settle ({ s with dropped := true }.dropHandle), .ok)
  | .queue step => s.playQueue n step
  | .abort call =>
    match s.abortStep call with
    | some s => (s, .aborted)
    | none => (s, .notPending)
  | .advance millis => (world.advanceTo (s.now + Instant.ofMillis millis) World.patience s, .ok)

def pendingCalls (s : Scene) : List Nat := s.clientCalls ++ s.queue.calls.map (·.1)

def sinkCancelled? (s : Scene) : Option Bool := s.latest.map s.isCancelled

end Scene

end Batchflow.Simulation.Enqueueing
