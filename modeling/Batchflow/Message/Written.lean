import Batchflow.Json.Value
import Batchflow.Message.Basic
import Batchflow.Time.TimestampText

/-!
# Messages as JSON

A message is an object of eight fields, always in one order.  The body is the array of its bytes,
a deadline is the text of its timestamp, and what is absent is null.
-/

namespace Batchflow

namespace Json

def natural (n : Nat) : Json := .number (.natural n)

def optional {α : Type} (f : α → Json) : Option α → Json
  | none => .null
  | some v => f v

end Json

def Duration.json (d : Duration) : Json :=
  .object [("secs", .natural d.secs), ("nanos", .natural d.nanos)]

def Timestamp.json (t : Timestamp) : Json := .string (String.ofList t.text)

def Message.json (m : Message) : Json :=
  .object [("id", .optional .string m.id), ("external_handle", .optional .string m.handle),
    ("trace_id", .string m.trace), ("delay", m.delay.json), ("service", .string m.service),
    ("method", .string m.method), ("body", .array (m.body.map fun b => .natural b.toNat)),
    ("deadline", .optional Timestamp.json m.deadline)]

def Verdict.json (v : Verdict) : Json :=
  .object [("message", v.message.json), ("success", .bool v.success),
    ("sender_fault", .bool v.senderFault), ("error", .optional .string v.error)]

end Batchflow
