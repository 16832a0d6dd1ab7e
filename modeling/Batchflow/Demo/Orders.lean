import Batchflow.Demo.Report
import Batchflow.Message.Written
import Batchflow.Simulation.Enqueueing
import Batchflow.Text.Utf8

/-!
# Orders on their way to a queue

Shows how failures are reported: forty-two orders are enqueued, some of them without a method to
call.  What the queue in memory does not take is printed, and a few of the others are taken from
it and deleted.
-/

namespace Batchflow.Demo.Orders

open Simulation (World)
open Simulation.Enqueueing (Scene Step Answer)

def orders : Nat := 42

/-- How long an order stays hidden. -/
def delay : Duration := .ofMillis 50

def order (i : Nat) : Message :=
  { trace := Name.mint .trace i, delay, service := "orders",
    method := if i % 10 = 0 then "" else "ship",
    body := Text.utf8Encode (String.ofList (Json.object [("order", .natural i)]).text) }

def patience : Duration := .ofSecs 1

def failureText (v : Verdict) : String :=
  "failed: trace=" ++ v.message.trace ++ " sender_fault=" ++
    (if v.senderFault then "true" else "false") ++ " error=" ++ v.error.getD ""

def dequeuedText (m : Message) : String :=
  "dequeued id=" ++ m.id.getD "-" ++ " body=" ++ (Text.utf8Decode? m.body).getD ""

/-- A script under way, with the number of its next step and what was printed so far. -/
structure Desk where
  scene : Scene
  next : Nat := 0
  lines : List Line := []

namespace Desk

/-- Prints the failures that were seen. -/
def note (d : Desk) : Desk :=
  let lines := d.scene.record.failures.map fun f =>
    { time := f.time, text := failureText f.verdict : Line }
  { d with lines := d.lines ++ lines }

/-- Plays a step and waits until its call has returned. -/
def play (d : Desk) (step : Step) : Desk × Answer :=
  let n := d.next
  let (scene, answer) := d.scene.play n step
  match answer with
  | .pending =>
    let scene := Scene.world.runUntil (fun s => (s.record.done.lookup n).isSome) World.patience scene
    ({ d with scene, next := n + 1 }.note, scene.answer n)
  | answer => ({ d with scene, next := n + 1 }.note, answer)

def print (d : Desk) (text : String) : Desk :=
  { d with lines := d.lines ++ [{ time := d.scene.now, text }] }

def report (d : Desk) (failure : Option String) : Report := { lines := d.lines, failure }

/-- Goes on unless the call has failed. -/
def onSuccess : Desk × Answer → (Desk → Report) → Report
  | (d, .failed e), _ => d.report (some e.message)
  | (d, .queue (.failed e)), _ => d.report (some e.message)
  | (d, _), next => next d

def consume : List Message → Desk → Report
  | [], d => d.report none
  | m :: ms, d => onSuccess ((d.print (dequeuedText m)).play (.queue (.delete m.handle))) (consume ms)

def collect (d : Desk) : Report :=
  let d := d.print ("\n" ++ Decimal.text d.scene.queue.store.size ++ " messages stored")
  match d.play (.queue (.dequeue "main" 5 patience)) with
  | (d, .queue (.messages ms)) => consume ms d
  | r => onSuccess r (·.report none)

end Desk

/-- Starts the enqueuer, enqueues every order, stops it, and looks at the queue. -/
def run (options : Enqueuer.Options) : Report :=
  let d : Desk := { scene := .new options {} [] {} }
  let d := d.print (options.text ++ "\n")
  Desk.onSuccess (d.play .start) fun d =>
    Desk.onSuccess (d.play (.enqueue ((List.range orders).map order) false)) fun d =>
      Desk.onSuccess (d.play .stop) Desk.collect

/-- The options come from the environment; failures are always printed. -/
def report (env : Config.Environment) : Report :=
  match Enqueuer.Options.ofEnvironment env with
  | .error e => { lines := [], failure := some e.message }
  | .ok options => run { options with hasHandler := true }

end Batchflow.Demo.Orders
