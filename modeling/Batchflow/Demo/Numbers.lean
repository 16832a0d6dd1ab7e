import Batchflow.Demo.Report
import Batchflow.Simulation.Chunking

/-!
# Numbers in chunks

Shows how size and age bound a chunk: twenty-five numbers are sent at once and three more slowly,
and every chunk is printed.
-/

namespace Batchflow.Demo.Numbers

open Simulation.Chunking (Scene Step)

def options : Chunker.Options := { size := 10, wait := .ofMillis 200 }

def numbers (start n : Nat) : Step Nat := .send ((List.range n).map (start + ·))

def steps : List (Step Nat) :=
  [.start 32 {}, numbers 0 25, .advance 300, numbers 25 1, .advance 300, numbers 26 1,
    .advance 300, numbers 27 1, .stop]

def listText (xs : List Nat) : String :=
  "[" ++ String.intercalate ", " (xs.map Decimal.text) ++ "]"

def chunkText (xs : List Nat) : String :=
  "Chunk of " ++ Decimal.text xs.length ++ " items: " ++ listText xs

/-- The chunks that were seen during a step. -/
def chunkLines (s : Scene Nat) : List Line :=
  s.record.chunks.map fun (time, xs) => { time, text := chunkText xs }

def play : Nat → Scene Nat → List (Step Nat) → Scene Nat × List Line
  | _, s, [] => (s, [])
  | n, s, step :: steps =>
    let (s, _) := s.play n step
    let (s', lines) := play (n + 1) s steps
    (s', chunkLines s ++ lines)

def report : Report :=
  let (s, chunks) := play 0 (.new options) steps
  let first : Line := { time := 0, text := "Sending 25 items quickly, then 3 items slowly\n" }
  { lines := first :: chunks ++ [{ time := s.system.now, text := "\nChunker stopped" }] }

end Batchflow.Demo.Numbers
