import Batchflow.Json.Shape
import Batchflow.Message.Basic
import Batchflow.Time.TimestampText

/-!
# The shape of messages in JSON

What is read is either the object or the array of the fields.  A field that may be absent may also
be left out of the object; fields of other names do not count.
-/

namespace Batchflow

open Json

def demand {α : Type} (field : String) : Option α → Except Mismatch α
  | some v => .ok v
  | none => .error (.missing field)

namespace Duration

structure Draft where
  secs : Option Nat := none
  nanos : Option Nat := none

def Draft.finish (d : Draft) : Except Mismatch Duration := do
  let secs ← demand "secs" d.secs
  let nanos ← demand "nanos" d.nanos
  match ofParts? secs nanos with
  | some d => .ok d
  | none => .error (.refused "overflow deserializing Duration")

/-- A delay has exactly two fields; nanoseconds past a second are carried. -/
def shape : Shape Draft Duration where
  expected := "struct Duration"
  expectedArray := "struct Duration"
  expectedFields := some "`secs` or `nanos`"
  slots :=
    [.of "secs" (·.secs) (fun d v => { d with secs := some v }) (readNatural UInt64.size "u64"),
      .of "nanos" (·.nanos) (fun d v => { d with nanos := some v }) (readNatural UInt32.size "u32")]
  empty := {}
  finish := Draft.finish

end Duration

/-- A timestamp as a string. -/
def Timestamp.readJson (cs : List Char) : Json.Part Timestamp :=
  match readTextAs "an RFC 3339 formatted date and time string" cs with
  | .error e => .error e
  | .ok (s, cs) =>
    match Timestamp.read s.toList with
    | .ok t => .ok (t, cs)
    | .error fault => refuse (.refused fault.message)

def readByte (cs : List Char) : Json.Part UInt8 :=
  match readNatural 256 "u8" cs with
  | .ok (n, cs) => .ok (UInt8.ofNat n, cs)
  | .error e => .error e

namespace Message

structure Draft where
  id : Option (Option String) := none
  handle : Option (Option String) := none
  trace : Option String := none
  delay : Option Duration := none
  service : Option String := none
  method : Option String := none
  body : Option (List UInt8) := none
  deadline : Option (Option Timestamp) := none

def Draft.finish (d : Draft) : Except Mismatch Message := do
  let trace ← demand "trace_id" d.trace
  let delay ← demand "delay" d.delay
  let service ← demand "service" d.service
  let method ← demand "method" d.method
  let body ← demand "body" d.body
  return { id := d.id.join, handle := d.handle.join, trace, delay, service, method, body,
           deadline := d.deadline.join }

def slots : List (Slot Draft) :=
  [.of "id" (·.id) (fun d v => { d with id := some v }) (readOptional readText),
    .of "external_handle" (·.handle) (fun d v => { d with handle := some v })
      (readOptional readText),
    .of "trace_id" (·.trace) (fun d v => { d with trace := some v }) readText,
    .of "delay" (·.delay) (fun d v => { d with delay := some v }) Duration.shape.read,
    .of "service" (·.service) (fun d v => { d with service := some v }) readText,
    .of "method" (·.method) (fun d v => { d with method := some v }) readText,
    .of "body" (·.body) (fun d v => { d with body := some v }) (readList readByte),
    .of "deadline" (·.deadline) (fun d v => { d with deadline := some v })
      (readOptional Timestamp.readJson)]

def shape : Shape Draft Message where
  expected := "struct Message"
  expectedArray := "struct Message with 8 elements"
  expectedFields := none
  slots := slots
  empty := {}
  finish := Draft.finish

end Message

namespace Verdict

structure Draft where
  message : Option Message := none
  success : Option Bool := none
  senderFault : Option Bool := none
  error : Option (Option String) := none

def Draft.finish (d : Draft) : Except Mismatch Verdict := do
  let message ← demand "message" d.message
  let success ← demand "success" d.success
  let senderFault ← demand "sender_fault" d.senderFault
  return { message, success, senderFault, error := d.error.join }

def slots : List (Slot Draft) :=
  [.of "message" (·.message) (fun d v => { d with message := some v }) Message.shape.read,
    .of "success" (·.success) (fun d v => { d with success := some v }) readBool,
    .of "sender_fault" (·.senderFault) (fun d v => { d with senderFault := some v }) readBool,
    .of "error" (·.error) (fun d v => { d with error := some v }) (readOptional readText)]

def shape : Shape Draft Verdict where
  expected := "struct EnqueueMessageResult"
  expectedArray := "struct EnqueueMessageResult with 4 elements"
  expectedFields := none
  slots := slots
  empty := {}
  finish := Draft.finish

end Verdict

end Batchflow
