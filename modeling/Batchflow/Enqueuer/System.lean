import Batchflow.Enqueuer.Error
import Batchflow.Enqueuer.Pipeline
import Batchflow.Time.Instant

/-!
# An enqueuer and everybody who uses it

The state holds the enqueuer, the pipeline of every run there was, and the calls that have not
returned.  Calls come from clients, who need a handle of the enqueuer, and from failure handlers,
which have one while they run.  An action is a call, a step of a pending call, a move of a
pipeline, or the passing of time; every order of possible actions is a run of the system.

Starting and stopping take turns by a lock.  A call to stop keeps the lock until the worker and
then the reporter have ended.  A call that is given up leaves whatever it has changed so far.

When no handle is left anywhere the intake goes away, and the run winds down by itself.
-/

namespace Batchflow.Enqueuer

inductive Caller where
  | client (n : Nat)
  /-- The failure handler of a run. -/
  | handler (run : Nat)
  deriving DecidableEq, Repr

inductive Call where
  | start (sink : Nat)
  | stop
  /-- It has told the worker of the run to stop and waits for its end. -/
  | stopping (run : Nat)
  /-- The worker has ended like this; it waits for the end of the reporter. -/
  | draining (run : Nat) (worker : Except Panic Unit)
  /-- It waits for a place in the intake of the run. -/
  | enqueue (run : Nat) (m : Message)

inductive Reply where
  | started (result : Except Error Unit)
  | stopped (result : Except Error Unit)
  | enqueued (result : Except Error Unit)

/-- What can be seen of a run. -/
inductive Event where
  | replied (caller : Caller) (reply : Reply)
  /-- The intake of a run took a message. -/
  | took (run : Nat) (m : Message)
  /-- The sink of a run was called. -/
  | batch (run : Nat) (ms : List Message)
  /-- The failure handler was called. -/
  | failure (run : Nat) (v : Verdict)
  | log (l : Log)

inductive Action where
  | start (caller : Caller) (sink : Nat)
  | stop (caller : Caller)
  | enqueue (caller : Caller) (m : Message)
  /-- A pending call is given up. -/
  | abort (caller : Caller)
  | addHandle
  | dropHandle
  /-- A pending call goes on. -/
  | resume (caller : Caller)
  | move (run : Nat) (m : Move)
  | advance (now : Nat)

structure System where
  options : Options
  state : Lifecycle
  lock : Permits Caller
  /-- The run that the next call to stop takes over. -/
  slot : Option Nat
  /-- The run whose intake takes new messages. -/
  intake : Option Nat
  /-- Every run there was, oldest first. -/
  pipelines : List (Pipeline Caller)
  /-- The calls that have not returned. -/
  calls : List (Caller × Call)
  /-- The handles of the enqueuer that clients have, apart from those of pending calls. -/
  handles : Nat
  now : Nat

namespace System

def new (options : Options) : System :=
  { options, state := .stopped, lock := .ofFree 1, slot := none, intake := none, pipelines := [],
    calls := [], handles := 1, now := 0 }

/-- What an action leads to, with what can be seen of it. -/
abbrev Outcome := System × List Event

def call? (s : System) (caller : Caller) : Option Call := s.calls.lookup caller

def pipeline? (s : System) (run : Nat) : Option (Pipeline Caller) := s.pipelines[run]?

def modifyPipeline (s : System) (run : Nat) (f : Pipeline Caller → Pipeline Caller) : System :=
  { s with pipelines := s.pipelines.modify run f }

def setChannel (s : System) (run : Nat) (c : Channel Caller Message) : System :=
  s.modifyPipeline run fun p => { p with feed := { p.feed with channel := c } }

/-- Somebody can still get at the enqueuer. -/
def reachable (s : System) : Bool :=
  decide (0 < s.handles) || !s.calls.isEmpty || s.pipelines.any (·.reporter.isHandling)

def dropIntake (s : System) : System :=
  match s.intake with
  | some run =>
    { s.modifyPipeline run fun p =>
        { p with feed := { p.feed with channel := p.feed.channel.dropHandle } } with
      intake := none }
  | none => s

/-- Nobody will stop the run of the slot any more. -/
def dropSlot (s : System) : System :=
  match s.slot with
  | some run => { s.modifyPipeline run Pipeline.dropFailures with slot := none }
  | none => s

/-- Once nobody can get at the enqueuer, what it holds goes away. -/
def release (s : System) : System := if s.reachable then s else s.dropIntake.dropSlot

/-- The call is pending from now on, or goes on waiting for something else. -/
def await (s : System) (caller : Caller) (c : Call) : System :=
  { s with calls := s.calls.filter (·.1 != caller) ++ [(caller, c)] }

/-- The call is no longer pending. -/
def forget (s : System) (caller : Caller) : System :=
  ({ s with calls := s.calls.filter (·.1 != caller) } : System).release

def reply (s : System) (caller : Caller) (r : Reply) : Outcome :=
  (s.forget caller, [.replied caller r])

def unlock (s : System) (caller : Caller) : System :=
  { s with lock := s.lock.giveBack caller }

/-- A new run with a sink; the intake of the run before it is let go. -/
def startRun (s : System) (sink : Nat) : System :=
  let run := s.pipelines.length
  let s := s.dropIntake
  { s with
    state := .running, slot := some run, intake := some run
    pipelines := s.pipelines ++ [Pipeline.start s.options sink s.now] }

/-- What a call to start does once it holds the lock. -/
def runStart (s : System) (caller : Caller) (sink : Nat) : Outcome :=
  match s.state with
  | .stopped =>
    match s.options.validate with
    | .error e => (s.unlock caller).reply caller (.started (.error (.config e)))
    | .ok () =>
      let (s', events) := ((s.startRun sink).unlock caller).reply caller (.started (.ok ()))
      (s', .log (.started s.options) :: events)
  | state => (s.unlock caller).reply caller (.started (.error (.alreadyStarted state)))

/-- What a call to stop does once it holds the lock. -/
def runStop (s : System) (caller : Caller) : Outcome :=
  if s.state = .running then
    match s.slot with
    | some run =>
      let s := { s with slot := none }
      (((s.modifyPipeline run fun p =>
          { p with feed := { p.feed with stopRequested := true } }).await caller (.stopping run)), [])
    | none =>
      (({ s with state := .stopped }).unlock caller).reply caller (.stopped (.error .notRunning))
  else (s.unlock caller).reply caller (.stopped (.error .notRunning))

/-- What a call to stop returns; the end of the worker counts more than that of the reporter. -/
def stopResult : Except Panic Unit → Except Panic Unit → Except Error Unit
  | .error p, _ => .error (.chunker (.workerPanicked p.report))
  | .ok (), .error p => .error (.handlerPanicked p.report)
  | .ok (), .ok () => .ok ()

def takeLock (s : System) (caller : Caller) (c : Call) (run : System → Outcome) : Outcome :=
  let s := { s with lock := s.lock.request caller }
  if s.lock.holds caller then run s else (s.await caller c, [])

/-- The worker has ended: the intake goes away, and the failures that are left can end. -/
def workerEnded (s : System) (caller : Caller) (run : Nat) (worker : Except Panic Unit) : System :=
  (s.dropIntake.modifyPipeline run Pipeline.dropFailures).await caller (.draining run worker)

/-- The reporter has ended as well. -/
def finishStop (s : System) (caller : Caller) (run : Nat) (worker reporter : Except Panic Unit) :
    Outcome :=
  let s := s.modifyPipeline run fun p => { p with cancelled := true }
  let result := stopResult worker reporter
  let (s, events) := (({ s with state := .stopped }).unlock caller).reply caller (.stopped result)
  match result with
  | .ok () => (s, .log .stopped :: events)
  | .error _ => (s, events)

def enqueue (s : System) (caller : Caller) (m : Message) : Outcome :=
  let notRunning := (s, [Event.replied caller (.enqueued (.error .notRunning))])
  if s.state = .running then
    match s.intake with
    | none => notRunning
    | some run =>
      match s.pipeline? run with
      | none => notRunning
      | some p =>
        let (c, arrival) := p.feed.channel.send caller m
        let s := s.setChannel run c
        match arrival with
        | .accepted => (s, [.took run m, .replied caller (.enqueued (.ok ()))])
        | .waiting => (s.await caller (.enqueue run m), [])
        | .refused => (s, [.replied caller (.enqueued (.error (.rejected m)))])
  else notRunning

def leaveIntake (s : System) (run : Nat) (caller : Caller) : System :=
  match s.pipeline? run with
  | some p => s.setChannel run (p.feed.channel.leave caller)
  | none => s

/-- A pending call is given up where it stands. -/
def abort? (s : System) (caller : Caller) : Option System :=
  match s.call? caller with
  | none => none
  | some (.start _) => some ({ s with lock := s.lock.leave caller }.forget caller)
  | some .stop => some ({ s with lock := s.lock.leave caller }.forget caller)
  | some (.stopping run) =>
    some (((s.modifyPipeline run Pipeline.dropFailures).unlock caller).forget caller)
  | some (.draining ..) => some ((s.unlock caller).forget caller)
  | some (.enqueue run _) => some ((s.leaveIntake run caller).forget caller)

/-- A call that waits for a place in an intake looks again. -/
def resumeEnqueue? (s : System) (caller : Caller) (run : Nat) (m : Message) : Option Outcome :=
  match s.pipeline? run with
  | none => none
  | some p =>
    match p.feed.channel.resume? caller with
    | some .accepted =>
      some ((s.setChannel run (p.feed.channel.fill caller m)).forget caller,
        [.took run m, .replied caller (.enqueued (.ok ()))])
    | some .refused =>
      some ((s.setChannel run (p.feed.channel.leave caller)).reply caller
        (.enqueued (.error (.rejected m))))
    | _ => none

/-- A pending call that can go on does so. -/
def resume? (s : System) (caller : Caller) : Option Outcome :=
  match s.call? caller with
  | none => none
  | some (.start sink) => if s.lock.holds caller then some (s.runStart caller sink) else none
  | some .stop => if s.lock.holds caller then some (s.runStop caller) else none
  | some (.stopping run) =>
    match (s.pipeline? run).bind (·.feed.worker.outcome?) with
    | some worker => some (s.workerEnded caller run worker, [])
    | none => none
  | some (.draining run worker) =>
    match (s.pipeline? run).bind (·.reporter.outcome?) with
    | some reporter => some (s.finishStop caller run worker reporter)
    | none => none
  | some (.enqueue run m) => s.resumeEnqueue? caller run m

def Event.ofNote (run : Nat) : Note → Event
  | .batch ms => .batch run ms
  | .failure v => .failure run v
  | .log l => .log l

def handlerCalls (s : System) (run : Nat) : Bool := (s.call? (.handler run)).isSome

/-- The handler cannot end while it waits for a call. -/
def allowed (s : System) (run : Nat) : Move → Bool
  | .handlerReturns => !s.handlerCalls run
  | .handlerPanics _ => !s.handlerCalls run
  | _ => true

def move? (s : System) (run : Nat) (m : Move) : Option Outcome :=
  match s.pipeline? run with
  | none => none
  | some p =>
    if s.allowed run m then
      match p.step s.options (s.options.hasHandler && s.reachable) s.now m with
      | none => none
      | some (p, notes) =>
        some ((s.modifyPipeline run fun _ => p).release, notes.map (Event.ofNote run))
    else none

/-- Whether no call, no worker and no reporter can go on by itself. -/
def quiet (s : System) : Bool :=
  s.calls.all (fun (caller, _) => (s.resume? caller).isNone) &&
    (List.range s.pipelines.length).all fun run =>
      match s.pipeline? run with
      | some p => (p.workerMoves ++ Pipeline.reporterMoves).all fun m => (s.move? run m).isNone
      | none => true

/-- The moments at which some batch has to be submitted. -/
def dues (s : System) : List Nat :=
  s.pipelines.filterMap fun p => p.feed.due?

/-- Time passes only when nothing else can happen, and never past the moment at which a batch has
to be submitted. -/
def advance? (s : System) (now : Nat) : Option System :=
  if s.now ≤ now ∧ s.quiet ∧ ∀ due ∈ s.dues, now ≤ Instant.tick due then some { s with now }
  else none

/-- The caller has a handle and waits for nothing. -/
def mayCall (s : System) (caller : Caller) : Bool :=
  (s.call? caller).isNone &&
    match caller with
    | .client _ => 0 < s.handles
    | .handler run => ((s.pipeline? run).map (·.reporter.isHandling)).getD false

/-- One action, if it is possible. -/
def step (s : System) : Action → Option Outcome
  | .start caller sink =>
    if s.mayCall caller then some (s.takeLock caller (.start sink) (·.runStart caller sink)) else none
  | .stop caller =>
    if s.mayCall caller then some (s.takeLock caller .stop (·.runStop caller)) else none
  | .enqueue caller m => if s.mayCall caller then some (s.enqueue caller m) else none
  | .abort caller => (s.abort? caller).map (·, [])
  | .addHandle => if 0 < s.handles then some ({ s with handles := s.handles + 1 }, []) else none
  | .dropHandle =>
    if 0 < s.handles then some (({ s with handles := s.handles - 1 } : System).release, []) else none
  | .resume caller => s.resume? caller
  | .move run m => s.move? run m
  | .advance now => (s.advance? now).map (·, [])

end System

end Batchflow.Enqueuer
