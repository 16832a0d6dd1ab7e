import Batchflow.Enqueuer.Options
import Batchflow.Message.Basic
import Batchflow.Queue.Error

/-!
# What an enqueuer writes to its log

Every event has a level, a text and fields.
-/

namespace Batchflow.Enqueuer

inductive Level where
  | info
  | warn
  | error
  deriving DecidableEq, Repr

inductive Log where
  | started (options : Options)
  | stopped
  /-- A batch of some size was refused as a whole. -/
  | submissionFailed (size : Nat) (e : Queue.Error)
  /-- A failure cannot reach its handler any more. -/
  | reportDropped
  | messageFailed (v : Verdict)
  deriving DecidableEq

def Level.text : Level → String
  | .info => "INFO"
  | .warn => "WARN"
  | .error => "ERROR"

namespace Log

def level : Log → Level
  | .started _ => .info
  | .stopped => .info
  | .submissionFailed .. => .warn
  | .reportDropped => .error
  | .messageFailed _ => .warn

def text : Log → String
  | .started _ => "enqueuer started"
  | .stopped => "enqueuer stopped"
  | .submissionFailed .. => "batch submission failed"
  | .reportDropped => "failure channel closed, dropping failure report"
  | .messageFailed _ => "failed to enqueue message"

def failureFields (v : Verdict) : List (String × String) :=
  [("trace_id", v.message.trace), ("service", v.message.service), ("method", v.message.method),
    ("sender_fault", if v.senderFault then "true" else "false"),
    ("error", v.error.getD "unknown error")]

def fields : Log → List (String × String)
  | .started o =>
    [("buffer_size", Decimal.text o.bufferSize), ("batch_size", Decimal.text o.batchSize),
      ("max_message_wait", o.maxWait.text)]
  | .submissionFailed size e => [("size", Decimal.text size), ("error", e.message)]
  | .messageFailed v => failureFields v
  | _ => []

end Log

end Batchflow.Enqueuer
