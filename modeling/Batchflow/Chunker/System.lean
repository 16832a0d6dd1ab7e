import Batchflow.Chunker.Error
import Batchflow.Chunker.Worker
import Batchflow.Time.Instant

/-!
# A chunker and everybody who uses it

The state holds the chunker, every source that was ever offered to it, and the calls that have not
returned.  An action is either a call from outside, something that the surroundings decide (the
handler returns, time passes), or one step of a call or a worker that can go on.  Every order of
the possible actions is a run.

Starting and stopping take turns by a lock.  A call to stop keeps the lock until the worker has
ended.  A call that is given up leaves whatever it has changed so far as it is.  When the chunker
is dropped its worker lives on until its source ends.
-/

namespace Batchflow.Chunker

/-- A source of items, by what has become of its receiving end. -/
inductive Source (α : Type) where
  /-- It was offered with a call to start that still waits for its turn. -/
  | offered (channel : Channel Nat α)
  /-- A worker reads it, or has read it. -/
  | read (feed : Feed Nat α)
  /-- Nobody reads it. -/
  | abandoned (channel : Channel Nat α)

namespace Source

variable {α : Type}

def channel : Source α → Channel Nat α
  | .offered c => c
  | .read f => f.channel
  | .abandoned c => c

def setChannel (s : Source α) (c : Channel Nat α) : Source α :=
  match s with
  | .offered _ => .offered c
  | .read f => .read { f with channel := c }
  | .abandoned _ => .abandoned c

def feed? : Source α → Option (Feed Nat α)
  | .read f => some f
  | _ => none

end Source

inductive Call (α : Type) where
  | start (source : Nat)
  | stop
  /-- It has told the worker of the source to stop and waits for its end. -/
  | stopping (source : Nat)
  | send (source : Nat) (item : α)
  | reserve (source : Nat)

/-- What a call returns. -/
inductive Reply (α : Type) where
  | started (result : Except Error Unit)
  | stopped (result : Except Error Unit)
  | accepted
  /-- The source takes nothing any more; the item goes back. -/
  | refused (item : α)
  | reserved
  | notReserved

/-- What can be seen of a run. -/
inductive Event (α : Type) where
  | replied (call : Nat) (reply : Reply α)
  /-- The source took an item. -/
  | took (source : Nat) (item : α)
  /-- The handler was called. -/
  | chunk (source : Nat) (items : List α)

inductive Action (α : Type) where
  /-- A new source of some capacity is offered; its number is the count of those before it. -/
  | start (call : Nat) (capacity : Nat)
  | stop (call : Nat)
  | send (call source : Nat) (item : α)
  | reserve (call source : Nat)
  /-- A reserved place is filled, or given back. -/
  | fill (call source : Nat) (item : α)
  | giveBack (call source : Nat)
  /-- A pending call is given up. -/
  | abort (call : Nat)
  | addHandle (source : Nat)
  | dropHandle (source : Nat)
  /-- The chunker itself is dropped, so that nobody can call it any more. -/
  | drop
  /-- A pending call goes on. -/
  | resume (call : Nat)
  | move (source : Nat) (move : Move)
  | advance (now : Nat)

structure System (α : Type) where
  options : Options
  state : Lifecycle
  lock : Permits Nat
  /-- The source whose worker runs, until a call to stop takes it over. -/
  running : Option Nat
  /-- Every source that was offered, oldest first. -/
  sources : List (Source α)
  /-- The calls that have not returned, each with its number. -/
  calls : List (Nat × Call α)
  /-- Somebody has the chunker and may start or stop it. -/
  owned : Bool
  now : Nat

namespace System

variable {α : Type}

def new (options : Options) : System α :=
  { options, state := .stopped, lock := .ofFree 1, running := none, sources := [], calls := [],
    owned := true, now := 0 }

/-- What an action leads to, with what can be seen of it. -/
abbrev Outcome (α : Type) := System α × List (Event α)

def call? (s : System α) (call : Nat) : Option (Call α) := s.calls.lookup call

def feed? (s : System α) (source : Nat) : Option (Feed Nat α) :=
  s.sources[source]?.bind Source.feed?

def setSource (s : System α) (source : Nat) (x : Source α) : System α :=
  { s with sources := s.sources.set source x }

def setChannel (s : System α) (source : Nat) (c : Channel Nat α) : System α :=
  { s with sources := s.sources.modify source (·.setChannel c) }

def setFeed (s : System α) (source : Nat) (f : Feed Nat α) : System α :=
  s.setSource source (.read f)

/-- The call is pending from now on, or goes on waiting for something else. -/
def await (s : System α) (call : Nat) (c : Call α) : System α :=
  { s with calls := s.calls.filter (·.1 != call) ++ [(call, c)] }

def forget (s : System α) (call : Nat) : System α :=
  { s with calls := s.calls.filter (·.1 != call) }

def reply (s : System α) (call : Nat) (r : Reply α) : Outcome α := (s.forget call, [.replied call r])

/-- The receiving end of a source that was offered in vain goes away. -/
def abandon (s : System α) (source : Nat) : System α :=
  match s.sources[source]? with
  | some (.offered c) => s.setSource source (.abandoned c.discard)
  | _ => s

def unlock (s : System α) (call : Nat) : System α := { s with lock := s.lock.giveBack call }

/-- The source whose worker runs is told to stop. -/
def requestStop (s : System α) (source : Nat) : System α :=
  match s.feed? source with
  | some f => s.setFeed source { f with stopRequested := true }
  | none => s

/-- What a call to start does once it holds the lock. -/
def runStart (s : System α) (call source : Nat) : Outcome α :=
  match s.state with
  | .stopped =>
    match s.options.validate with
    | .error e => ((s.abandon source).unlock call).reply call (.started (.error (.config e)))
    | .ok () =>
      match s.sources[source]? with
      | some x =>
        let s := { s with state := .running, running := some source }
        ((s.setFeed source (.start x.channel s.now)).unlock call).reply call (.started (.ok ()))
      | none => (s.unlock call).reply call (.started (.ok ()))
  | state => ((s.abandon source).unlock call).reply call (.started (.error (.alreadyStarted state)))

def runStop (s : System α) (call : Nat) : Outcome α :=
  if s.state = .running then
    match s.running with
    | some source => ((({ s with running := none }).requestStop source).await call (.stopping source), [])
    | none => (({ s with state := .stopped }).unlock call).reply call (.stopped (.error .notRunning))
  else (s.unlock call).reply call (.stopped (.error .notRunning))

/-- What the end of the worker means for the call that has stopped it. -/
def stopResult : Except Panic Unit → Except Error Unit
  | .ok () => .ok ()
  | .error p => .error (.workerPanicked p.report)

def takeLock (s : System α) (call : Nat) (c : Call α) (run : System α → Outcome α) : Outcome α :=
  let s := { s with lock := s.lock.request call }
  if s.lock.holds call then run s else (s.await call c, [])

def openChannel? (s : System α) (source : Nat) : Option (Channel Nat α) :=
  match s.sources[source]? with
  | some x => if 0 < x.channel.handles then some x.channel else none
  | none => none

def send? (s : System α) (call source : Nat) (item : α) : Option (Outcome α) :=
  match s.openChannel? source with
  | none => none
  | some c =>
    let (c, arrival) := c.send call item
    let s := s.setChannel source c
    match arrival with
    | .accepted => some (s, [.took source item, .replied call .accepted])
    | .waiting => some (s.await call (.send source item), [])
    | .refused => some (s, [.replied call (.refused item)])

def reserve? (s : System α) (call source : Nat) : Option (Outcome α) :=
  match s.openChannel? source with
  | none => none
  | some c =>
    let (c, arrival) := c.reserve call
    let s := s.setChannel source c
    match arrival with
    | .accepted => some (s, [.replied call .reserved])
    | .waiting => some (s.await call (.reserve source), [])
    | .refused => some (s, [.replied call .notReserved])

def fill? (s : System α) (call source : Nat) (item : α) : Option (Outcome α) :=
  match s.sources[source]? with
  | none => none
  | some x =>
    if x.channel.places.holds call ∧ (s.call? call).isNone then
      some (s.setChannel source (x.channel.fill call item), [.took source item])
    else none

def giveBack? (s : System α) (call source : Nat) : Option (Outcome α) :=
  match s.sources[source]? with
  | none => none
  | some x =>
    if x.channel.places.holds call ∧ (s.call? call).isNone then
      some (s.setChannel source (x.channel.leave call), [])
    else none

def leaveChannel (s : System α) (source call : Nat) : System α :=
  match s.sources[source]? with
  | some x => s.setChannel source (x.channel.leave call)
  | none => s

/-- A pending call is given up where it stands. -/
def abort? (s : System α) (call : Nat) : Option (System α) :=
  match s.call? call with
  | none => none
  | some (.start source) =>
    some ({ s.abandon source with lock := s.lock.leave call }.forget call)
  | some .stop => some ({ s with lock := s.lock.leave call }.forget call)
  | some (.stopping _) => some ((s.unlock call).forget call)
  | some (.send source _) => some ((s.leaveChannel source call).forget call)
  | some (.reserve source) => some ((s.leaveChannel source call).forget call)

/-- A pending call that can go on does so. -/
def resume? (s : System α) (call : Nat) : Option (Outcome α) :=
  match s.call? call with
  | none => none
  | some (.start source) => if s.lock.holds call then some (s.runStart call source) else none
  | some .stop => if s.lock.holds call then some (s.runStop call) else none
  | some (.stopping source) =>
    match (s.feed? source).bind (·.worker.outcome?) with
    | none => none
    | some outcome =>
      some ((({ s with state := .stopped }).unlock call).reply call (.stopped (stopResult outcome)))
  | some (.send source item) =>
    match s.sources[source]? with
    | none => none
    | some x =>
      match x.channel.resume? call with
      | some .accepted =>
        some ((s.setChannel source (x.channel.fill call item)).forget call,
          [.took source item, .replied call .accepted])
      | some .refused =>
        some ((s.setChannel source (x.channel.leave call)).reply call (.refused item))
      | _ => none
  | some (.reserve source) =>
    match s.sources[source]? with
    | none => none
    | some x =>
      match x.channel.resume? call with
      | some .accepted => some (s.reply call .reserved)
      | some .refused => some ((s.setChannel source (x.channel.leave call)).reply call .notReserved)
      | _ => none

def move? (s : System α) (source : Nat) (m : Move) : Option (Outcome α) :=
  match s.feed? source with
  | none => none
  | some f =>
    match f.step s.options s.now m with
    | none => none
    | some (f, none) => some (s.setFeed source f, [])
    | some (f, some chunk) => some (s.setFeed source f, [.chunk source chunk])

/-- Whether no call and no worker can go on by itself. -/
def quiet (s : System α) : Bool :=
  s.calls.all (fun (call, _) => (s.resume? call).isNone) &&
    (List.range s.sources.length).all fun source =>
      match s.feed? source with
      | some f => f.ownMoves.all fun m => (s.move? source m).isNone
      | none => true

/-- The moments at which some batch has to be handed over. -/
def dues (s : System α) : List Nat :=
  s.sources.filterMap fun x => x.feed?.bind Feed.due?

/-- Time passes only when nothing else can happen, and never past the moment at which a batch has
to be handed over. -/
def advance? (s : System α) (now : Nat) : Option (System α) :=
  if s.now ≤ now ∧ s.quiet ∧ ∀ due ∈ s.dues, now ≤ Instant.tick due then some { s with now }
  else none

def dropHandle? (s : System α) (source : Nat) : Option (System α) :=
  (s.openChannel? source).map fun c => s.setChannel source c.dropHandle

def addHandle? (s : System α) (source : Nat) : Option (System α) :=
  (s.openChannel? source).map fun c => s.setChannel source c.addHandle

def unused (s : System α) (call : Nat) : Bool :=
  (s.call? call).isNone && s.sources.all fun x => !x.channel.places.holds call

/-- One action, if it is possible.  A call takes a number that is not in use. -/
def step (s : System α) : Action α → Option (Outcome α)
  | .start call capacity =>
    if s.owned && s.unused call then
      let source := s.sources.length
      let s := { s with sources := s.sources ++ [Source.offered (.ofCapacity capacity 1)] }
      some (s.takeLock call (.start source) (·.runStart call source))
    else none
  | .stop call =>
    if s.owned && s.unused call then some (s.takeLock call .stop (·.runStop call)) else none
  | .send call source item => if s.unused call then s.send? call source item else none
  | .reserve call source => if s.unused call then s.reserve? call source else none
  | .fill call source item => s.fill? call source item
  | .giveBack call source => s.giveBack? call source
  | .abort call => (s.abort? call).map (·, [])
  | .addHandle source => (s.addHandle? source).map (·, [])
  | .dropHandle source => (s.dropHandle? source).map (·, [])
  | .drop => if s.owned then some ({ s with owned := false }, []) else none
  | .resume call => s.resume? call
  | .move source m => s.move? source m
  | .advance now => (s.advance? now).map (·, [])

end System

end Batchflow.Chunker
