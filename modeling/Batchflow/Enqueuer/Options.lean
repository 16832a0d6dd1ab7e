import Batchflow.Chunker.Options

/-!
# Options of an enqueuer

Sizes of the two buffers and of a batch, and how long a message may wait in an incomplete batch.
The intake buffer is larger than a batch.
-/

namespace Batchflow.Enqueuer

structure Options where
  /-- How many messages may wait for the worker. -/
  bufferSize : Nat := 20
  batchSize : Nat := 10
  /-- How many failures may wait for their handler. -/
  failedBufferSize : Nat := 15
  maxWait : Duration := .ofSecs 10
  /-- Failures go to a handler of the owner's; otherwise they are only logged. -/
  hasHandler : Bool := false
  deriving DecidableEq, Repr

namespace Options

def minBuffer : Nat := 2
def maxBuffer : Nat := 1024
def minFailedBuffer : Nat := 1
def maxFailedBuffer : Nat := 1024
def minWait : Duration := .ofMillis 1
def maxWaitLimit : Duration := .ofSecs 3600

/-- Checks every option against its range, in the order of the fields.  The upper bound of the
batch size is only taken once the buffer size is known not to be zero. -/
def validate (o : Options) : Except ConfigError Unit :=
  match Config.checkNumber "BufferSize" o.bufferSize minBuffer maxBuffer with
  | .error e => .error e
  | .ok () =>
    match Config.checkNumber "BatchSize" o.batchSize 1 (o.bufferSize - 1) with
    | .error e => .error e
    | .ok () =>
      match Config.checkNumber "FailedBufferSize" o.failedBufferSize minFailedBuffer
          maxFailedBuffer with
      | .error e => .error e
      | .ok () => Config.checkDuration "MaxMessageWait" o.maxWait minWait maxWaitLimit

def chunkerOptions (o : Options) : Chunker.Options := { size := o.batchSize, wait := o.maxWait }

/-- The options that an environment sets; the others keep their defaults. -/
def ofEnvironment (env : Config.Environment) : Except ConfigError Options :=
  match Config.readNumber env "ENQUEUER_BUFFER_SIZE" with
  | .error e => .error e
  | .ok buffer =>
    match Config.readNumber env "ENQUEUER_BATCH_SIZE" with
    | .error e => .error e
    | .ok batch =>
      match Config.readNumber env "ENQUEUER_FAILED_BUFFER_SIZE" with
      | .error e => .error e
      | .ok failed =>
        match Config.readMillis env "ENQUEUER_MAX_MESSAGE_WAIT_MS" with
        | .error e => .error e
        | .ok wait =>
          let defaults : Options := {}
          .ok { defaults with
            bufferSize := (buffer.map (·.toNat)).getD defaults.bufferSize
            batchSize := (batch.map (·.toNat)).getD defaults.batchSize
            failedBufferSize := (failed.map (·.toNat)).getD defaults.failedBufferSize
            maxWait := wait.getD defaults.maxWait }

/-- The options as a report shows them. -/
def text (o : Options) : String :=
  "EnqueuerOptions \x7b .., buffer_size: " ++ Decimal.text o.bufferSize ++
    ", batch_size: " ++ Decimal.text o.batchSize ++
    ", failed_buffer_size: " ++ Decimal.text o.failedBufferSize ++
    ", max_message_wait: " ++ o.maxWait.text ++
    ", failure_handler: " ++ (if o.hasHandler then "true" else "false") ++ " \x7d"

end Options

end Batchflow.Enqueuer
