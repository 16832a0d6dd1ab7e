import Batchflow.Config

/-!
# Options of a chunker

How large a chunk may grow and how long its oldest item may wait.
-/

namespace Batchflow.Chunker

structure Options where
  /-- The number of items at which a chunk is handed over at once. -/
  size : Nat := 10
  /-- How long the oldest item of a smaller chunk may wait. -/
  wait : Duration := .ofSecs 10
  deriving DecidableEq, Repr

namespace Options

def minSize : Nat := 1
def maxSize : Nat := 1024
def minWait : Duration := .ofMillis 1
def maxWait : Duration := .ofSecs 86400

/-- Checks every option against its range; the size comes first. -/
def validate (o : Options) : Except ConfigError Unit :=
  match Config.checkNumber "Size" o.size minSize maxSize with
  | .error e => .error e
  | .ok () => Config.checkDuration "ElementExpiry" o.wait minWait maxWait

/-- The options that an environment sets; the others keep their defaults. -/
def ofEnvironment (env : Config.Environment) : Except ConfigError Options :=
  match Config.readNumber env "CHUNKER_SIZE" with
  | .error e => .error e
  | .ok size =>
    match Config.readMillis env "CHUNKER_MAX_ELEMENT_WAIT_MS" with
    | .error e => .error e
    | .ok wait =>
      let defaults : Options := {}
      .ok { size := (size.map (·.toNat)).getD defaults.size, wait := wait.getD defaults.wait }

/-- The options as a report shows them. -/
def text (o : Options) : String :=
  "ChunkerOptions \x7b chunk_size: " ++ Decimal.text o.size ++ ", max_element_wait: " ++
    o.wait.text ++ " \x7d"

end Options

end Batchflow.Chunker
