/-!
# Lifecycle

What a chunker or an enqueuer says of itself.  It is started and stopped any number of times.
-/

namespace Batchflow

inductive Lifecycle where
  | stopped
  /-- Reserved: no transition enters it. -/
  | draining
  | running
  deriving DecidableEq, Repr, Inhabited

/-- The name of a state. -/
def Lifecycle.text : Lifecycle → String
  | .stopped => "stopped"
  | .draining => "draining"
  | .running => "running"

end Batchflow
