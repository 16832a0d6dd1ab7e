import Batchflow.Decimal.Natural
import Batchflow.Pool.Worker

/-!
# A pool of workers and everybody who uses it

Workers that become available put themselves on a list; callers take them from it in turn, each
passing over those that have exited in the meantime.  A caller gives up with no worker only when
the list is empty and no worker is left that could still come back.

`live` counts the workers that have not ended in an orderly way, `active` those whose task has not
ended at all.  An action is a call, a step of a pending call or of a worker, or the end of a unit
of work; every order of possible actions is a run.
-/

namespace Batchflow.Pool

/-- A call that has not returned. -/
inductive Call (ω : Type) where
  /-- It waits for its turn, or has it and waits for a worker. -/
  | acquire
  | submit (worker : Nat) (work : ω)
  | exit (worker : Nat)
  /-- It waits for all workers to end, or has been told that they have. -/
  | wait (released : Bool)

inductive Reply (ω : Type) where
  | acquired (worker : Option Nat)
  | accepted
  | exitedWorker (work : ω)
  | exited
  | waited

inductive Event (ω : Type) where
  | replied (call : Nat) (reply : Reply ω)
  /-- The inbox of a worker took a job. -/
  | took (worker : Nat) (job : Job ω)
  /-- A worker said that it is available. -/
  | registered (worker : Nat)
  | began (worker : Nat) (work : ω)
  | ended (worker : Nat)

inductive Move where
  | register
  | receive
  /-- It sees that nobody can send to it any more. -/
  | noticeEnd
  | workReturns (keep : Bool)
  | workPanics (panic : Panic)
  deriving DecidableEq

inductive Action (ω : Type) where
  | addWorker
  | acquire (call : Nat)
  | submit (call worker : Nat) (work : ω)
  | exit (call worker : Nat)
  | wait (call : Nat)
  | drop
  | abort (call : Nat)
  | resume (call : Nat)
  | move (worker : Nat) (move : Move)

structure System (ω : Type) where
  name : String
  workers : List (Worker ω)
  /-- The workers on the list of those available, oldest entry first. -/
  available : List Nat
  /-- Whose turn it is to take from the list. -/
  turn : Permits Nat
  live : Nat
  /-- Somebody has begun to wait for the end of all workers. -/
  closed : Bool
  /-- The owner of the pool has not dropped it. -/
  owned : Bool
  /-- Somebody can still take from the list. -/
  listening : Bool
  calls : List (Nat × Call ω)

namespace System

variable {ω : Type}

def new (name : String) : System ω :=
  { name, workers := [], available := [], turn := .ofFree 1, live := 0, closed := false,
    owned := true, listening := true, calls := [] }

abbrev Outcome (ω : Type) := System ω × List (Event ω)

def workerName (s : System ω) (worker : Nat) : String := s.name ++ "-" ++ Decimal.text worker

def call? (s : System ω) (call : Nat) : Option (Call ω) := s.calls.lookup call

def worker? (s : System ω) (worker : Nat) : Option (Worker ω) := s.workers[worker]?

def setWorker (s : System ω) (worker : Nat) (w : Worker ω) : System ω :=
  { s with workers := s.workers.set worker w }

/-- Workers whose task has not ended. -/
def active (s : System ω) : Nat := s.workers.countP fun w => !w.phase.ended

def hasExited (s : System ω) (worker : Nat) : Bool :=
  match s.worker? worker with
  | some w => w.exited
  | none => true

/-- A call keeps the pool as long as it may take from the list or waits for the workers. -/
def keepsPool : Call ω → Bool
  | .acquire => true
  | .wait _ => true
  | _ => false

/-- Once the pool is dropped and no call keeps it, the list goes away. -/
def releasePool (s : System ω) : System ω :=
  if s.owned || s.calls.any (keepsPool ·.2) then s
  else { s with listening := false, available := [] }

def await (s : System ω) (call : Nat) (c : Call ω) : System ω :=
  { s with calls := s.calls.filter (·.1 != call) ++ [(call, c)] }

def forget (s : System ω) (call : Nat) : System ω :=
  ({ s with calls := s.calls.filter (·.1 != call) } : System ω).releasePool

def reply (s : System ω) (call : Nat) (r : Reply ω) : Outcome ω := (s.forget call, [.replied call r])

/-- Calls that wait for the end of all workers are told when the last one has ended. -/
def releaseWaiting (s : System ω) : System ω :=
  if s.closed && s.active == 0 then
    { s with calls := s.calls.map fun (n, c) =>
        match c with
        | .wait _ => (n, .wait true)
        | c => (n, c) }
  else s

def endWorker (s : System ω) (worker : Nat) (w : Worker ω) : Outcome ω :=
  let s := { s.setWorker worker (w.retire.finish .returned) with live := s.live - 1 }
  (s.releaseWaiting, [.ended worker])

/-- The caller whose turn it is looks at the list. -/
def takeAvailable (s : System ω) (call : Nat) : Option (Outcome ω) :=
  match s.available with
  | worker :: available =>
    let s := { s with available }
    if s.hasExited worker then some (s, [])
    else some (({ s with turn := s.turn.giveBack call }).reply call (.acquired (some worker)))
  | [] =>
    if s.live = 0 then
      some (({ s with turn := s.turn.giveBack call }).reply call (.acquired none))
    else none

def acquire (s : System ω) (call : Nat) : Outcome ω :=
  let s := ({ s with turn := s.turn.request call }).await call .acquire
  if s.turn.holds call then (s.takeAvailable call).getD (s, []) else (s, [])

def submit? (s : System ω) (call worker : Nat) (work : ω) : Option (Outcome ω) :=
  match s.worker? worker with
  | none => none
  | some w =>
    if w.exited then some (s, [.replied call (.exitedWorker work)])
    else
      let (inbox, arrival) := w.inbox.send call (.work work)
      let s := s.setWorker worker { w with inbox }
      match arrival with
      | .accepted => some (s, [.took worker (.work work), .replied call .accepted])
      | .waiting => some (s.await call (.submit worker work), [])
      | .refused => some (s, [.replied call (.exitedWorker work)])

/-- Only the first call to exit sends the order to stop; the inbox is closed to new callers at
once. -/
def exit? (s : System ω) (call worker : Nat) : Option (Outcome ω) :=
  match s.worker? worker with
  | none => none
  | some w =>
    if w.exited then some (s, [.replied call .exited])
    else
      let (inbox, arrival) := w.inbox.send call .stop
      let s := s.setWorker worker ({ w with inbox } : Worker ω).retire
      match arrival with
      | .accepted => some (s, [.took worker .stop, .replied call .exited])
      | .waiting => some (s.await call (.exit worker), [])
      | .refused => some (s, [.replied call .exited])

def wait (s : System ω) (call : Nat) : Outcome ω :=
  let s := { s with closed := true }
  if s.active = 0 then (s, [.replied call .waited]) else (s.await call (.wait false), [])

def resumeSend (s : System ω) (call worker : Nat) (job : Job ω) (taken refused : Reply ω) :
    Option (Outcome ω) :=
  match s.worker? worker with
  | none => none
  | some w =>
    match w.inbox.resume? call with
    | some .accepted =>
      let s := s.setWorker worker { w with inbox := w.inbox.fill call job }
      some (s.forget call, [.took worker job, .replied call taken])
    | some .refused =>
      some ((s.setWorker worker { w with inbox := w.inbox.leave call }).reply call refused)
    | _ => none

def resume? (s : System ω) (call : Nat) : Option (Outcome ω) :=
  match s.call? call with
  | none => none
  | some .acquire => if s.turn.holds call then s.takeAvailable call else none
  | some (.submit worker work) => s.resumeSend call worker (.work work) .accepted (.exitedWorker work)
  | some (.exit worker) => s.resumeSend call worker .stop .exited .exited
  | some (.wait released) =>
    if released || s.active == 0 then some (s.reply call .waited) else none

def leaveInbox (s : System ω) (worker call : Nat) : System ω :=
  match s.worker? worker with
  | some w => s.setWorker worker { w with inbox := w.inbox.leave call }
  | none => s

def abort? (s : System ω) (call : Nat) : Option (System ω) :=
  match s.call? call with
  | none => none
  | some .acquire => some (({ s with turn := s.turn.leave call }).forget call)
  | some (.submit worker _) => some ((s.leaveInbox worker call).forget call)
  | some (.exit worker) => some ((s.leaveInbox worker call).forget call)
  | some (.wait _) => some (s.forget call)

/-- The worker takes the job that has waited longest. -/
def receive? (s : System ω) (worker : Nat) (w : Worker ω) : Option (Outcome ω) :=
  match w.inbox.receive? with
  | none => none
  | some (.work work, inbox) =>
    some (s.setWorker worker { w with inbox, phase := .working work }, [.began worker work])
  | some (.stop, inbox) => some (s.endWorker worker { w with inbox })

def move? (s : System ω) (worker : Nat) (m : Move) : Option (Outcome ω) :=
  match s.worker? worker with
  | none => none
  | some w =>
    match w.phase, m with
    | .free, .register =>
      if s.listening then
        let s := { s with available := s.available ++ [worker] }
        some (s.setWorker worker { w with phase := .waiting }, [.registered worker])
      else some (s.endWorker worker w)
    | .waiting, .receive => s.receive? worker w
    | .waiting, .noticeEnd => if w.inbox.exhausted then some (s.endWorker worker w) else none
    | .working _, .workReturns true => some (s.setWorker worker { w with phase := .free }, [])
    | .working _, .workReturns false => some (s.endWorker worker w)
    | .working _, .workPanics p =>
      some ((s.setWorker worker (w.finish (.panicked p))).releaseWaiting, [.ended worker])
    | _, _ => none

def unused (s : System ω) (call : Nat) : Bool := (s.call? call).isNone

/-- One action, if it is possible.  Only the owner adds workers and begins to acquire or wait. -/
def step (s : System ω) : Action ω → Option (Outcome ω)
  | .addWorker =>
    if s.owned then some ({ s with workers := s.workers ++ [.new], live := s.live + 1 }, []) else none
  | .acquire call => if s.owned && s.unused call then some (s.acquire call) else none
  | .submit call worker work => if s.unused call then s.submit? call worker work else none
  | .exit call worker => if s.unused call then s.exit? call worker else none
  | .wait call => if s.owned && s.unused call then some (s.wait call) else none
  | .drop =>
    if s.owned then some (({ s with owned := false } : System ω).releasePool, []) else none
  | .abort call => (s.abort? call).map (·, [])
  | .resume call => s.resume? call
  | .move worker m => s.move? worker m

end System

end Batchflow.Pool
