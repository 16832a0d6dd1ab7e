import Batchflow.Demo.Report
import Batchflow.Simulation.Pooling

/-!
# Jobs in a pool

Shows how a pool bounds what runs at once: three workers do nine jobs, each job as soon as a
worker is free for it.
-/

namespace Batchflow.Demo.Jobs

open Simulation (World)
open Simulation.Pooling (Scene Step Answer)

def workers : Nat := 3
def jobs : Nat := 9

def jobMillis : Nat := 100

structure Start where
  time : Nat
  worker : String
  job : Nat

/-- A pool in use, with the number of the next step and the worker that each job was given to. -/
structure Desk where
  scene : Scene
  next : Nat := 0
  given : List (Nat × String) := []
  starts : List Start := []

namespace Desk

/-- Takes note of the jobs that have begun. -/
def note (d : Desk) : Desk :=
  let starts := d.scene.record.started.filterMap fun (time, id) =>
    (d.given.find? fun (job, _) => Decimal.text job == id).map fun (job, worker) =>
      { time, worker, job : Start }
  { d with starts := d.starts ++ starts }

/-- Plays a step and waits until its call has returned. -/
def play (d : Desk) (step : Step) : Desk × Answer :=
  let n := d.next
  let (scene, answer) := d.scene.play n step
  match answer with
  | .pending =>
    let scene := Scene.world.runUntil (fun s => (s.record.done.lookup n).isSome) World.patience scene
    ({ d with scene, next := n + 1 }.note, scene.answer n)
  | answer => ({ d with scene, next := n + 1 }.note, answer)

def acquire (d : Desk) : Desk × Option String :=
  match d.play .acquire with
  | (d, .worker name) => (d, name)
  | (d, _) => (d, none)

def give (d : Desk) (job : Nat) : Desk :=
  match d.acquire with
  | (d, none) => d
  | (d, some worker) =>
    let d := { d with given := (job, worker) :: d.given }
    (d.play (.submit worker { id := Decimal.text job, delay := jobMillis })).1

/-- Lets the next worker that is free go. -/
def dismiss (d : Desk) : Desk :=
  match d.acquire with
  | (d, none) => d
  | (d, some worker) => (d.play (.exit worker)).1

end Desk

/-- The pool after all jobs, with everybody gone. -/
def finished : Desk :=
  let d : Desk := { scene := .new "demo" }
  let d := (List.range workers).foldl (fun d _ => (d.play .add).1) d
  let d := (List.range jobs).foldl Desk.give d
  let d := (List.range workers).foldl (fun d _ => d.dismiss) d
  (d.play .wait).1

def report : Report :=
  { lines := [{ time := finished.scene.now, text := "All workers exited" }] }

def startLines : List Line :=
  finished.starts.map fun s => { time := s.time, text := s.worker ++ " running job " ++ Decimal.text s.job }

/-- The jobs that began, in groups of one moment each. -/
def starts : List (List Start) := finished.starts.splitBy (·.time == ·.time)

end Batchflow.Demo.Jobs
