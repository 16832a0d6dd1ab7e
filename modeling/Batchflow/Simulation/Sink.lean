import Batchflow.Queue.System

/-!
# Sinks for scripts

A script says for each batch how the sink behaves: whether it waits at a gate, how long it sleeps,
and what it does then.  Most of what it may do depends on the batch alone; it may also hand the
batch to a queue in memory.
-/

namespace Batchflow.Simulation

/-- A message that the sink refuses, by its place in the batch. -/
structure Refusal where
  place : Nat
  senderFault : Bool
  error : Option String

inductive SinkDeed where
  | memory
  /-- Every message is accepted. -/
  | accept
  | refuse (e : Queue.Error)
  /-- Every message but these is accepted. -/
  | refuseSome (refusals : List Refusal)
  /-- Only so many messages are accepted, and nothing is said of the others. -/
  | acceptFirst (n : Nat)
  /-- So many failures for every message. -/
  | failEach (n : Nat)
  | panic (text : String)

structure SinkStep where
  gated : Bool := false
  /-- How long it sleeps, in milliseconds. -/
  delay : Nat := 0
  deed : SinkDeed := .memory

def sinkStep (script : List SinkStep) (n : Nat) : SinkStep :=
  ((script[n]?).or script.getLast?).getD {}

inductive SinkAnswer where
  | returned (batch : List Message) (result : Except Queue.Error (List Verdict))
  | panicked (p : Panic)

namespace SinkDeed

def idOf (n place : Nat) : String := "sink-" ++ Decimal.text n ++ "-" ++ Decimal.text place

def accepted (n place : Nat) (m : Message) : Message := { m with id := some (idOf n place) }

def judge (n : Nat) (refusals : List Refusal) (place : Nat) (m : Message) : Message × Verdict :=
  match refusals.find? (·.place == place) with
  | some r =>
    (m, { message := m, success := false, senderFault := r.senderFault, error := r.error })
  | none => (accepted n place m, .succeeded (accepted n place m))

def copies (k : Nat) (m : Message) : List Verdict :=
  (List.range k).map fun i => .failed m true ("copy " ++ Decimal.text i)

def judgeAll (n : Nat) (refusals : List Refusal) (batch : List Message) : SinkAnswer :=
  let judged := batch.mapIdx (judge n refusals)
  .returned (judged.map (·.1)) (.ok (judged.map (·.2)))

/-- What a sink does with the `n`-th batch, unless it hands it to a queue. -/
def answer? (n : Nat) (batch : List Message) : SinkDeed → Option SinkAnswer
  | .memory => none
  | .accept => some (judgeAll n [] batch)
  | .refuse e => some (.returned batch (.error e))
  | .refuseSome refusals => some (judgeAll n refusals batch)
  | .acceptFirst k =>
    let taken := (batch.take k).mapIdx (accepted n)
    some (.returned (taken ++ batch.drop k) (.ok (taken.map .succeeded)))
  | .failEach k => some (.returned batch (.ok (batch.flatMap (copies k))))
  | .panic text => some (.panicked (.text text))

end SinkDeed

def SinkAnswer.ofReception (batch : List Message) : Queue.Store.Reception → SinkAnswer
  | .taken verdicts => .returned batch (.ok verdicts)
  | .refused e => .returned batch (.error e)
  | .panicked p => .panicked p

end Batchflow.Simulation
