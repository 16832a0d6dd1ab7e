import Batchflow.Config
import Batchflow.Lifecycle

/-!
# Errors of a chunker

What starting and stopping may answer.
-/

namespace Batchflow.Chunker

inductive Error where
  /-- It was started while it was not stopped. -/
  | alreadyStarted (state : Lifecycle)
  /-- It was stopped while it was not running. -/
  | notRunning
  | config (cause : ConfigError)
  /-- The worker ended in a panic; the chunker is stopped all the same. -/
  | workerPanicked (report : String)
  deriving DecidableEq, Repr

namespace Error

def message : Error → String
  | .alreadyStarted state => "chunker is already " ++ state.text
  | .notRunning => "chunker is not running"
  | .config cause => "invalid chunker options: " ++ cause.message
  | .workerPanicked report => "chunker worker panicked: " ++ report

def chain (e : Error) : List String :=
  match e with
  | .config cause => [e.message, cause.message]
  | _ => [e.message]

end Error

end Batchflow.Chunker
