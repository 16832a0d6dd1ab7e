import Batchflow.Time.Duration
import Batchflow.Time.Timestamp

/-!
# Messages and what becomes of them

A message is addressed to a method of a service and carries bytes.  A queue that accepts it gives
it an id, and every delivery gives it a handle, by which it is deleted.  The trace is the name by
which its sender follows it.
-/

namespace Batchflow

structure Message where
  id : Option String := none
  handle : Option String := none
  trace : String
  /-- How long the queue hides the message after it has accepted it. -/
  delay : Duration := .zero
  service : String
  method : String
  body : List UInt8
  deadline : Option Timestamp := none
  deriving DecidableEq

/-- Whether the deadline has come; a message without one never expires. -/
def Message.isExpired (m : Message) (now : Timestamp) : Bool :=
  match m.deadline with
  | some deadline => deadline.le now
  | none => false

/-- What became of a message that was handed to a queue. -/
structure Verdict where
  message : Message
  success : Bool
  /-- The sender, and not the queue, is to blame. -/
  senderFault : Bool
  error : Option String
  deriving DecidableEq

namespace Verdict

def succeeded (message : Message) : Verdict :=
  { message, success := true, senderFault := false, error := none }

def failed (message : Message) (senderFault : Bool) (error : String) : Verdict :=
  { message, success := false, senderFault, error := some error }

end Verdict

end Batchflow
