import Batchflow.Chunker.Error
import Batchflow.Message.Basic

/-!
# Errors of an enqueuer

What starting, stopping and enqueuing may answer.
-/

namespace Batchflow.Enqueuer

inductive Error where
  /-- It was started while it was not stopped. -/
  | alreadyStarted (state : Lifecycle)
  | notRunning
  | config (cause : ConfigError)
  | chunker (cause : Chunker.Error)
  /-- The intake closed before it took the message, which goes back. -/
  | rejected (message : Message)
  /-- The enqueuer is stopped all the same. -/
  | handlerPanicked (report : String)
  deriving DecidableEq

namespace Error

def message : Error → String
  | .alreadyStarted state => "enqueuer is already " ++ state.text
  | .notRunning => "enqueuer is not running"
  | .config cause => "invalid enqueuer options: " ++ cause.message
  | .chunker cause => "chunker failed: " ++ cause.message
  | .rejected m => "enqueuer stopped before message " ++ m.trace ++ " was accepted"
  | .handlerPanicked report => "failure handler panicked: " ++ report

def chain (e : Error) : List String :=
  match e with
  | .config cause => [e.message, cause.message]
  | .chunker cause => e.message :: cause.chain
  | _ => [e.message]

end Error

end Batchflow.Enqueuer
