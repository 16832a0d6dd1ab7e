import Batchflow.Time.Instant

/-!
# A fair schedule on a clock of its own

A world is a number of tasks, each of which can take one action at a time or has to wait.  The
schedule here lets them run in turns: a task goes on until it has to wait, and tasks that can
proceed again stand in a queue.  The clock moves only when every task waits, and then to the next
moment at which some timer is due.
-/

namespace Batchflow.Simulation

structure World (σ τ : Type) where
  /-- Every task there is, in the order in which those that can proceed join the queue. -/
  tasks : σ → List τ
  /-- One action of a task, unless it has to wait. -/
  act : σ → τ → Option σ
  now : σ → Nat
  /-- The moments for which some task waits. -/
  dues : σ → List Nat
  setClock : σ → Nat → σ

namespace World

variable {σ τ : Type} [BEq τ] (w : World σ τ)

def ready (s : σ) (others : List τ) : List τ :=
  (w.tasks s).filter fun t => !others.contains t && (w.act s t).isSome

/-- Runs the tasks of a queue, and those that can proceed because of them, until all wait. -/
def run : Nat → List τ → σ → σ
  | 0, _, s => s
  | _ + 1, [], s => s
  | fuel + 1, t :: queue, s =>
    match w.act s t with
    | none => run fuel queue s
    | some s => run fuel (t :: queue ++ w.ready s (t :: queue)) s

/-- Enough for every task of a script to come to its end. -/
def patience : Nat := 1000000

/-- Lets everything proceed that can do so without the clock. -/
def settle (s : σ) : σ := w.run patience (w.ready s []) s

/-- The first moment after now for which some task waits. -/
def nextDue? (s : σ) : Option Nat :=
  ((w.dues s).map Instant.tick).filter (w.now s < ·) |>.min?

def advanceTo (target : Nat) : Nat → σ → σ
  | 0, s => s
  | fuel + 1, s =>
    match w.nextDue? s with
    | some due =>
      if due ≤ target then advanceTo target fuel (w.settle (w.setClock s due))
      else w.settle (w.setClock s target)
    | none => w.settle (w.setClock s target)

/-- Moves the clock from one due moment to the next until something has happened, or nothing is
left to happen. -/
def runUntil (happened : σ → Bool) : Nat → σ → σ
  | 0, s => s
  | fuel + 1, s =>
    if happened s then s
    else match w.nextDue? s with
      | some due => runUntil happened fuel (w.settle (w.setClock s due))
      | none => s

end World

end Batchflow.Simulation
