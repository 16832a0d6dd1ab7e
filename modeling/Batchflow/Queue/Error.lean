import Batchflow.Decimal.Natural

/-!
# Errors of a queue

What a queue may answer when it cannot do what it was asked for.
-/

namespace Batchflow.Queue

inductive Error where
  | unavailable (reason : String)
  | batchTooLarge (size limit : Nat)
  | messageNotFound (handle : String)
  | cancelled
  | backend (reason : String)
  deriving DecidableEq, Repr

def Error.message : Error → String
  | .unavailable reason => "queue backend unavailable: " ++ reason
  | .batchTooLarge size limit =>
    "batch of " ++ Decimal.text size ++ " messages exceeds limit of " ++ Decimal.text limit
  | .messageNotFound handle => "message not found: " ++ handle
  | .cancelled => "queue operation cancelled"
  | .backend reason => "queue backend error: " ++ reason

end Batchflow.Queue
