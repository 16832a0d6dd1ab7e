import Batchflow.Chunker.System
import Batchflow.Simulation.Schedule

/-!
# Playing a script against a chunker

A script is a list of steps: calls of the chunker, items sent to its source, and time that passes.
The handler is part of the script too: it may wait at a gate, take some time, and panic on an
item.  Playing a step performs its action, lets the fair schedule run until everything waits, and
records what was seen.
-/

namespace Batchflow.Simulation.Chunking

open Chunker (System Feed Call Reply Event Action)

/-- How the handler of a run behaves. -/
structure Behaviour (α : Type) where
  /-- It waits for a permit of the gate. -/
  gated : Bool := false
  /-- Then it sleeps for so many milliseconds. -/
  delay : Nat := 0
  /-- Then it panics if the chunk holds this item. -/
  panicOn : Option α := none
  panic : Panic := .other

inductive Step (α : Type) where
  | start (capacity : Nat) (behaviour : Behaviour α)
  | stop
  | options
  | drop
  | send (items : List α)
  | reserve
  | fillReserved (item : α)
  | dropReserved
  | close
  | openGate (n : Nat)
  | abort (step : Nat)
  | advance (millis : Nat)

inductive Answer where
  | ok
  | failed (e : Chunker.Error)
  /-- The source takes nothing any more; so many items had been taken. -/
  | closed (sent : Option Nat)
  | options (o : Chunker.Options)
  | dropped
  | noSource
  | noPermit
  | aborted
  | notPending
  | pending

/-- What was seen during a step. -/
structure Record (α : Type) where
  chunks : List (Nat × List α) := []
  handled : List (Nat × Nat) := []
  done : List (Nat × Answer) := []

/-- A handler that was called, by what it waits for. -/
inductive Stage where
  | atGate
  | asleep (until_ : Nat)

/-- A call that is made of several actions, or whose result is kept. -/
inductive Errand (α : Type) where
  | send (source : Nat) (items : List α) (sent : Nat)
  | reserve (source : Nat)

inductive Task where
  | call (n : Nat)
  | worker (source : Nat)
  deriving DecidableEq

structure Scene (α : Type) where
  system : System α
  /-- The source that items are sent to. -/
  current : Option Nat := none
  gate : Permits Nat := .ofFree 0
  /-- The handler offered with each source. -/
  behaviours : List (Behaviour α) := []
  stages : List (Nat × Stage) := []
  errands : List (Nat × Errand α) := []
  /-- Reserved places, oldest first, by call and source. -/
  reserved : List (Nat × Nat) := []
  record : Record α := {}

variable {α : Type} [BEq α]

namespace Scene

/-- Nobody has the chunker any more. -/
def dropped (s : Scene α) : Bool := !s.system.owned

def finish (s : Scene α) (call : Nat) (a : Answer) : Scene α :=
  { s with
    errands := s.errands.filter (·.1 != call)
    record := { s.record with done := s.record.done ++ [(call, a)] } }

/-- The handle that an errand keeps for itself is dropped. -/
def dropHandle (s : Scene α) (source : Nat) : Scene α :=
  match s.system.step (.dropHandle source) with
  | some (system, _) => { s with system }
  | none => s

def setStage (s : Scene α) (source : Nat) (stage : Stage) : Scene α :=
  { s with stages := s.stages.filter (·.1 != source) ++ [(source, stage)] }

def behaviour (s : Scene α) (source : Nat) : Behaviour α := (s.behaviours[source]?).getD {}

/-- The moment at which a handler that has passed its gate wakes up. -/
def wakeTime (s : Scene α) (source : Nat) : Nat :=
  s.system.now + Instant.ofMillis (s.behaviour source).delay

def seeChunk (s : Scene α) (source : Nat) (items : List α) : Scene α :=
  let s := { s with record := { s.record with chunks := s.record.chunks ++ [(s.system.now, items)] } }
  if (s.behaviour source).gated then
    { s with gate := s.gate.request source }.setStage source .atGate
  else s.setStage source (.asleep (s.wakeTime source))

def seeAccepted (s : Scene α) (call : Nat) : Scene α :=
  match s.errands.lookup call with
  | some (.send source (_ :: y :: items) sent) =>
    { s with errands := s.errands.map fun (c, e) =>
        if c == call then (c, .send source (y :: items) (sent + 1)) else (c, e) }
  | some (.send source _ _) => (s.finish call .ok).dropHandle source
  | _ => s.finish call .ok

def seeRefused (s : Scene α) (call : Nat) : Scene α :=
  match s.errands.lookup call with
  | some (.send source _ sent) => (s.finish call (.closed (some sent))).dropHandle source
  | _ => s.finish call (.closed none)

def seeReserved (s : Scene α) (call : Nat) : Scene α :=
  match s.errands.lookup call with
  | some (.reserve source) =>
    { s.finish call .ok with reserved := s.reserved ++ [(call, source)] }
  | _ => s.finish call .ok

def result : Except Chunker.Error Unit → Answer
  | .ok () => .ok
  | .error e => .failed e

def see (s : Scene α) : Event α → Scene α
  | .took _ _ => s
  | .chunk source items => s.seeChunk source items
  | .replied call (.started r) => s.finish call (result r)
  | .replied call (.stopped r) => s.finish call (result r)
  | .replied call .accepted => s.seeAccepted call
  | .replied call (.refused _) => s.seeRefused call
  | .replied call .reserved => s.seeReserved call
  | .replied call .notReserved => s.finish call (.closed none)

def perform (s : Scene α) (a : Action α) : Option (Scene α) :=
  match s.system.step a with
  | some (system, events) => some (events.foldl see { s with system })
  | none => none

/-- The handler goes on: through the gate, or to its end. -/
def handle (s : Scene α) (source : Nat) (chunk : List α) : Option (Scene α) :=
  match s.stages.lookup source with
  | some .atGate =>
    if s.gate.holds source then
      some ({ s with gate := s.gate.spend source }.setStage source (.asleep (s.wakeTime source)))
    else none
  | some (.asleep t) =>
    if s.system.now < t then none
    else
      let b := s.behaviour source
      if (b.panicOn.map chunk.contains).getD false then
        s.perform (.move source (.handlerPanics b.panic))
      else
        { s with record := { s.record with
            handled := s.record.handled ++ [(s.system.now, chunk.length)] } }.perform
          (.move source .handlerReturns)
  | none => none

def act (s : Scene α) : Task → Option (Scene α)
  | .call n =>
    if (s.system.call? n).isSome then s.perform (.resume n)
    else match s.errands.lookup n with
      | some (.send source (x :: _) _) => s.perform (.send n source x)
      | _ => none
  | .worker source =>
    match s.system.feed? source with
    | none => none
    | some f =>
      match f.worker with
      | .handling chunk _ => s.handle source chunk
      | _ => f.ownMoves.findSome? fun m => s.perform (.move source m)

def tasks (s : Scene α) : List Task :=
  (List.range s.system.sources.length).map .worker ++ s.system.calls.map (.call ·.1) ++
    (s.errands.filter fun e => (s.system.call? e.1).isNone).map (.call ·.1)

def stageDue? : Stage → Option Nat
  | .atGate => none
  | .asleep t => some t

def world : World (Scene α) Task where
  tasks := tasks
  act := act
  now s := s.system.now
  dues s := s.system.dues ++ s.stages.filterMap (stageDue? ·.2)
  setClock s now := (s.perform (.advance now)).getD s

def new (options : Chunker.Options) : Scene α := { system := .new options }

def launch (s : Scene α) (a : Action α) : Scene α := world.settle ((s.perform a).getD s)

/-- What the call of the step has returned, as far as it has. -/
def answer (s : Scene α) (call : Nat) : Answer := (s.record.done.lookup call).getD .pending

def startStep (s : Scene α) (call capacity : Nat) (b : Behaviour α) : Scene α :=
  let source := s.system.sources.length
  let s := { s with behaviours := s.behaviours ++ [b] }.launch (.start call capacity)
  match s.answer call with
  | .failed _ => world.settle (s.dropHandle source)
  | _ =>
    let s' := { s with current := some source }
    match s.current with
    | some old => world.settle (s'.dropHandle old)
    | none => s'

def sendStep (s : Scene α) (call source : Nat) (items : List α) : Scene α :=
  let s := (s.perform (.addHandle source)).getD s
  match items with
  | [] => (s.finish call .ok).dropHandle source
  | _ => world.settle { s with errands := s.errands ++ [(call, Errand.send source items 0)] }

def reserveStep (s : Scene α) (call source : Nat) : Scene α :=
  { s with errands := s.errands ++ [(call, Errand.reserve source)] }.launch (.reserve call source)

def abortStep (s : Scene α) (call : Nat) : Option (Scene α) :=
  (s.perform (.abort call)).map fun s =>
    let errand := s.errands.lookup call
    let s := { s with errands := s.errands.filter (·.1 != call) }
    match errand with
    | some (.send source _ _) => world.settle (s.dropHandle source)
    | _ => world.settle s

/-- Plays one step, whose number is also the number of its call. -/
def play (s : Scene α) (n : Nat) (step : Step α) : Scene α × Answer :=
  let s := { s with record := {} }
  match step with
  | .start capacity b =>
    if s.dropped then (s, .dropped) else let s := s.startStep n capacity b; (s, s.answer n)
  | .stop => if s.dropped then (s, .dropped) else let s := s.launch (.stop n); (s, s.answer n)
  | .options => if s.dropped then (s, .dropped) else (s, .options s.system.options)
  | .drop => if s.dropped then (s, .dropped) else (s.launch .drop, .ok)
  | .send items =>
    match s.current with
    | none => (s, .noSource)
    | some source => let s := s.sendStep n source items; (s, s.answer n)
  | .reserve =>
    match s.current with
    | none => (s, .noSource)
    | some source => let s := s.reserveStep n source; (s, s.answer n)
  | .fillReserved item =>
    match s.reserved with
    | [] => (s, .noPermit)
    | (call, source) :: reserved =>
      ({ s with reserved }.launch (.fill call source item), .ok)
  | .dropReserved =>
    match s.reserved with
    | [] => (s, .noPermit)
    | (call, source) :: reserved => ({ s with reserved }.launch (.giveBack call source), .ok)
  | .close =>
    match s.current with
    | none => (s, .noSource)
    | some source => (world.settle ({ s with current := none }.dropHandle source), .ok)
  | .openGate k => (world.settle { s with gate := s.gate.addMany k }, .ok)
  | .abort call =>
    match s.abortStep call with
    | some s => (s, .aborted)
    | none => (s, .notPending)
  | .advance millis =>
    (world.advanceTo (s.system.now + Instant.ofMillis millis) World.patience s, .ok)

def pendingCalls (s : Scene α) : List Nat := s.system.calls.map (·.1)

end Scene

end Batchflow.Simulation.Chunking
