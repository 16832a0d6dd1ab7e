import Batchflow.Text.Quoted

/-!
# Panics

A task that cannot go on panics: it ends, and whoever waits for it is told what it left behind.
Usually that is a text, but any other value may be left instead.
-/

namespace Batchflow

/-- What a task leaves when it panics. -/
inductive Panic where
  | text (s : String)
  | other
  deriving DecidableEq, Repr

/-- What is told to whoever waits for the task.  Tasks have no numbers here. -/
def Panic.report : Panic → String
  | .text s => "task N panicked with message " ++ Text.quote s
  | .other => "task N panicked"

end Batchflow
