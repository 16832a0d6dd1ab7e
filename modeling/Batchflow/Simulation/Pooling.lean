import Batchflow.Pool.System
import Batchflow.Simulation.Schedule

/-!
# Playing a script against a pool

The units of work belong to the script: each may wait at a gate of its own, take some time, panic,
and says whether its worker goes on.
-/

namespace Batchflow.Simulation.Pooling

open Pool (System Event Action)

/-- A unit of work. -/
structure Work where
  id : String
  gated : Bool := false
  /-- How long it sleeps, in milliseconds. -/
  delay : Nat := 0
  panics : Bool := false
  keep : Bool := true

inductive Step where
  | add
  | acquire
  | wait
  | drop
  | submit (worker : String) (work : Work)
  | exit (worker : String)
  | debug (worker : String)
  | release (id : String)
  | abort (step : Nat)
  | advance (millis : Nat)

inductive Answer where
  | ok
  | worker (name : Option String)
  | failed (e : Pool.Error)
  | shown (text : String)
  | dropped
  | noWorker
  | noGate
  | aborted
  | notPending
  | pending

/-- What was seen during a step. -/
structure Record where
  started : List (Nat × String) := []
  finished : List (Nat × String) := []
  done : List (Nat × Answer) := []

/-- A unit of work that was begun, by what it waits for. -/
inductive Stage where
  | atGate
  | asleep (until_ : Nat)

inductive Task where
  | call (n : Nat)
  | worker (n : Nat)
  deriving DecidableEq

structure Scene where
  system : System Work
  now : Nat := 0
  /-- The permits of the gates that were made, latest first. -/
  gates : List (String × Nat) := []
  stages : List (Nat × Stage) := []
  /-- The worker that each call to submit is for. -/
  targets : List (Nat × Nat) := []
  record : Record := {}

namespace Scene

def finish (s : Scene) (call : Nat) (a : Answer) : Scene :=
  { s with record := { s.record with done := s.record.done ++ [(call, a)] } }

def setStage (s : Scene) (worker : Nat) (stage : Stage) : Scene :=
  { s with stages := s.stages.filter (·.1 != worker) ++ [(worker, stage)] }

def seeReply (s : Scene) (call : Nat) : Pool.Reply Work → Scene
  | .acquired w => s.finish call (.worker (w.map s.system.workerName))
  | .accepted => s.finish call .ok
  | .exitedWorker _ =>
    s.finish call (.failed (.exited (s.system.workerName ((s.targets.lookup call).getD 0))))
  | .exited => s.finish call .ok
  | .waited => s.finish call .ok

def seeBegin (s : Scene) (worker : Nat) (work : Work) : Scene :=
  let s := { s with record := { s.record with started := s.record.started ++ [(s.now, work.id)] } }
  if work.gated then s.setStage worker .atGate
  else s.setStage worker (.asleep (s.now + Instant.ofMillis work.delay))

def see (s : Scene) : Event Work → Scene
  | .replied call r => s.seeReply call r
  | .began worker work => s.seeBegin worker work
  | _ => s

def perform (s : Scene) (a : Action Work) : Option Scene :=
  match s.system.step a with
  | some (system, events) => some (events.foldl see { s with system })
  | none => none

/-- One permit of a gate is taken for good. -/
def passGate? (s : Scene) (id : String) : Option Scene :=
  match s.gates.lookup id with
  | some (n + 1) =>
    some { s with gates := s.gates.map fun (i, k) => if i == id then (i, n) else (i, k) }
  | _ => none

def doWork (s : Scene) (worker : Nat) (work : Work) : Option Scene :=
  match s.stages.lookup worker with
  | some .atGate =>
    (s.passGate? work.id).map (·.setStage worker (.asleep (s.now + Instant.ofMillis work.delay)))
  | some (.asleep t) =>
    if s.now < t then none
    else if work.panics then s.perform (.move worker (.workPanics .other))
    else
      { s with record := { s.record with finished := s.record.finished ++ [(s.now, work.id)] } }.perform
        (.move worker (.workReturns work.keep))
  | none => none

def act (s : Scene) : Task → Option Scene
  | .call n => s.perform (.resume n)
  | .worker n =>
    match s.system.worker? n with
    | none => none
    | some w =>
      match w.phase with
      | .working work => s.doWork n work
      | .free => s.perform (.move n .register)
      | .waiting =>
        match s.perform (.move n .receive) with
        | some s => some s
        | none => s.perform (.move n .noticeEnd)
      | _ => none

def stageDue? : Stage → Option Nat
  | .atGate => none
  | .asleep t => some t

def world : World Scene Task where
  tasks s := (List.range s.system.workers.length).map .worker ++ s.system.calls.map (.call ·.1)
  act := act
  now := now
  dues s := s.stages.filterMap (stageDue? ·.2)
  setClock s now := { s with now }

def new (name : String) : Scene := { system := .new name }

def launch (s : Scene) (a : Action Work) : Scene := world.settle ((s.perform a).getD s)

def answer (s : Scene) (call : Nat) : Answer := (s.record.done.lookup call).getD .pending

def workerNumber? (s : Scene) (name : String) : Option Nat :=
  (List.range s.system.workers.length).find? fun n => s.system.workerName n == name

def makeGate (s : Scene) (work : Work) : Scene :=
  if work.gated then { s with gates := (work.id, 0) :: s.gates.filter (·.1 != work.id) } else s

def shown (s : Scene) (n : Nat) : String :=
  "Worker \x7b name: " ++ Text.quote (s.system.workerName n) ++ ", exited: " ++
    (if s.system.hasExited n then "true" else "false") ++ " \x7d"

/-- Plays one step, whose number is also the number of its call. -/
def play (s : Scene) (n : Nat) (step : Step) : Scene × Answer :=
  let s := { s with record := {} }
  let owned := s.system.owned
  match step with
  | .add =>
    if owned then
      (s.launch .addWorker, .worker (some (s.system.workerName s.system.workers.length)))
    else (s, .dropped)
  | .acquire => if owned then let s := s.launch (.acquire n); (s, s.answer n) else (s, .dropped)
  | .wait => if owned then let s := s.launch (.wait n); (s, s.answer n) else (s, .dropped)
  | .drop => if owned then (s.launch .drop, .ok) else (s, .dropped)
  | .submit name work =>
    match s.workerNumber? name with
    | none => (s, .noWorker)
    | some w =>
      let s := { s.makeGate work with targets := s.targets ++ [(n, w)] }.launch (.submit n w work)
      (s, s.answer n)
  | .exit name =>
    match s.workerNumber? name with
    | none => (s, .noWorker)
    | some w => let s := s.launch (.exit n w); (s, s.answer n)
  | .debug name =>
    match s.workerNumber? name with
    | none => (s, .noWorker)
    | some w => (s, .shown (s.shown w))
  | .release id =>
    if (s.gates.lookup id).isSome then
      (world.settle { s with gates := s.gates.map fun (i, k) => if i == id then (i, k + 1) else (i, k) },
        .ok)
    else (s, .noGate)
  | .abort call =>
    match s.perform (.abort call) with
    | some s => (world.settle s, .aborted)
    | none => (s, .notPending)
  | .advance millis => (world.advanceTo (s.now + Instant.ofMillis millis) World.patience s, .ok)

def pendingCalls (s : Scene) : List Nat := s.system.calls.map (·.1)

end Scene

end Batchflow.Simulation.Pooling
