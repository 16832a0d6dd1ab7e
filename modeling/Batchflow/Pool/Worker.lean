import Batchflow.Channel
import Batchflow.Panic

/-!
# Workers of a pool

A worker has an inbox with one place.  It says that it is available, waits for a job, does it, and
starts over.  It ends when a unit of work tells it to, when it is told to stop, or when nobody can
send it anything any more; a panic ends it on the spot.
-/

namespace Batchflow.Pool

/-- What an inbox may hold. -/
inductive Job (ω : Type) where
  | work (w : ω)
  | stop
  deriving DecidableEq

inductive Phase (ω : Type) where
  /-- It is about to say that it is available. -/
  | free
  | waiting
  | working (w : ω)
  | returned
  | panicked (panic : Panic)
  deriving DecidableEq

namespace Phase

variable {ω : Type}

def ended : Phase ω → Bool
  | .returned => true
  | .panicked _ => true
  | _ => false

end Phase

structure Worker (ω : Type) where
  inbox : Channel Nat (Job ω)
  /-- The inbox takes no new callers: it was told to exit or has ended by itself. -/
  exited : Bool
  phase : Phase ω

namespace Worker

variable {ω : Type}

/-- A worker that has just been added; its inbox has one place. -/
def new : Worker ω := { inbox := .ofCapacity 1 1, exited := false, phase := .free }

/-- Nobody can send to it any more, apart from those who already wait. -/
def retire (w : Worker ω) : Worker ω :=
  if w.exited then w else { w with exited := true, inbox := w.inbox.dropHandle }

/-- Its task is over, and what was in the inbox is lost. -/
def finish (w : Worker ω) (phase : Phase ω) : Worker ω :=
  { w with phase, inbox := w.inbox.discard }

end Worker

/-- Why work was not taken. -/
inductive Error where
  | exited (worker : String)
  deriving DecidableEq, Repr

def Error.message : Error → String
  | .exited worker => "worker " ++ worker ++ " has exited"

end Batchflow.Pool
