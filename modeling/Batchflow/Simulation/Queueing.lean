import Batchflow.Queue.System
import Batchflow.Simulation.Schedule

/-!
# Playing a script against a queue in memory

Every call takes a token by name, and a step of the script may cancel one.  Calls that look for
messages take their turns in the order in which they began to wait.
-/

namespace Batchflow.Simulation.Queueing

open Queue (System Event Action Reply)

inductive Step where
  | enqueue (token : String) (batch : List Message)
  | dequeue (token : String) (count : Nat) (wait : Duration)
  | delete (handle : Option String)
  | cancel (token : String)
  | abort (step : Nat)
  | advance (millis : Nat)

inductive Answer where
  | ok
  | received (batch : List Message) (reception : Queue.Store.Reception)
  | messages (ms : List Message)
  | failed (e : Queue.Error)
  | panicked (p : Panic)
  | aborted
  | notPending
  | pending

structure Scene where
  system : System
  /-- The calls that have returned during the step. -/
  done : List (Nat × Answer) := []

def Answer.ofReply : Reply → Answer
  | .messages ms => .messages ms
  | .refused e => .failed e
  | .panicked p => .panicked p

def Answer.ofEvent : Event → Answer
  | .received batch reception => .received batch reception
  | .replied _ r => .ofReply r
  | .deleted (.ok ()) => .ok
  | .deleted (.error e) => .failed e

namespace Scene

def see (s : Scene) : Event → Scene
  | .replied call r => { s with done := s.done ++ [(call, .ofReply r)] }
  | _ => s

def perform (s : Scene) (a : Action) : Option Scene :=
  match s.system.step a with
  | some (system, events) => some (events.foldl see { s with system })
  | none => none

def act (s : Scene) (call : Nat) : Option Scene :=
  match s.perform (.noticeCancel call) with
  | some s => some s
  | none => s.perform (.look call)

def world : World Scene Nat where
  tasks s := s.system.calls.map (·.1)
  act := act
  now s := s.system.now
  dues s := s.system.dues
  setClock s now := (s.perform (.advance now)).getD s

def new (options : Queue.Options) : Scene := { system := .new options }

def atOnce (s : Scene) (a : Action) : Scene × Answer :=
  match s.system.step a with
  | some (system, e :: _) => (world.settle { s with system }, .ofEvent e)
  | some (system, []) => (world.settle { s with system }, .ok)
  | none => (s, .notPending)

/-- Plays one step, whose number is also the number of its call. -/
def play (s : Scene) (n : Nat) (step : Step) : Scene × Answer :=
  let s := { s with done := [] }
  match step with
  | .enqueue token batch => s.atOnce (.enqueue token batch)
  | .dequeue token count wait =>
    let s := world.settle ((s.perform (.dequeue n token count wait)).getD s)
    (s, (s.done.lookup n).getD .pending)
  | .delete handle => s.atOnce (.delete handle)
  | .cancel token => s.atOnce (.cancel token)
  | .abort call =>
    match s.perform (.abort call) with
    | some s => (world.settle s, .aborted)
    | none => (s, .notPending)
  | .advance millis =>
    (world.advanceTo (s.system.now + Instant.ofMillis millis) World.patience s, .ok)

def pendingCalls (s : Scene) : List Nat := s.system.calls.map (·.1)

end Scene

end Batchflow.Simulation.Queueing
