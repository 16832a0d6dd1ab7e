import Batchflow.Demo.Jobs
import Batchflow.Demo.Numbers
import Batchflow.Demo.Orders

/-!
# Running a demonstration

The program takes the name of a demonstration, prints its lines, and ends with an error if the
demonstration does.  The clock of a demonstration is its own, so nothing is waited for.
-/

namespace Batchflow.Demo

/-- The variables of the environment that a demonstration may read. -/
def variableNames : List String :=
  ["ENQUEUER_BUFFER_SIZE", "ENQUEUER_BATCH_SIZE", "ENQUEUER_FAILED_BUFFER_SIZE",
    "ENQUEUER_MAX_MESSAGE_WAIT_MS"]

def ofName? (env : Config.Environment) : String → Option Report
  | "numbers" => some Numbers.report
  | "jobs" => some { lines := Jobs.startLines ++ Jobs.report.lines }
  | "orders" => some (Orders.report env)
  | _ => none

end Batchflow.Demo

def main (args : List String) : IO UInt32 := do
  let values ← Batchflow.Demo.variableNames.filterMapM fun name => do
    return (← IO.getEnv name).map (name, ·)
  match Batchflow.Demo.ofName? (fun name => values.lookup name) (args.headD "") with
  | none =>
    IO.eprintln "give the name of a demonstration: numbers, jobs or orders"
    return 2
  | some report =>
    for line in report.lines do
      IO.println line.text
    match report.failure with
    | none => return 0
    | some message =>
      IO.eprintln message
      return 1
