import Batchflow.Proofs.Queue.Action
import Batchflow.Proofs.Run

/-!
# The history of a queue

What was accepted, what was delivered, and how many messages a call asked for is read off the turns
so far.  As long as the clock can reach every instant that is needed, an action accepts a batch,
delivers messages, or at most takes an entry out of the store.
-/

namespace Batchflow.Queue

open Store

/-- What has happened to a queue so far. -/
abbrev History := List (Turn System Action Event)

structure Acceptance where
  message : Message
  time : Nat

/-- The messages that one call came back with, and when. -/
structure Delivery where
  messages : List Message
  time : Nat
  deriving DecidableEq

def Event.accepted : Event → List Message
  | .received _ (.taken verdicts) => (verdicts.filter (·.success)).map (·.message)
  | _ => []

def Event.delivered? : Event → Option (List Message)
  | .replied _ (.messages ms) => some ms
  | _ => none

/-- An instant was needed that the clock cannot reach. -/
def Event.isPanic : Event → Bool
  | .received _ (.panicked _) => true
  | .replied _ (.panicked _) => true
  | _ => false

def Action.count? (call : Nat) : Action → Option Nat
  | .dequeue caller _ count _ => if caller = call then some count else none
  | _ => none

/-- The messages accepted so far, in order. -/
def acceptances (turns : History) : List Acceptance :=
  turns.flatMap fun t => (t.events.flatMap Event.accepted).map (⟨·, t.before.now⟩)

/-- The deliveries so far, in order. -/
def deliveries (turns : History) : List Delivery :=
  turns.flatMap fun t => (t.events.filterMap Event.delivered?).map (⟨·, t.before.now⟩)

/-- How many messages the latest call of a number asked for. -/
def asked? (call : Nat) (turns : History) : Option Nat :=
  (turns.filterMap fun t => t.action.count? call).getLast?

def used? : Action → List Event → Option String
  | .delete handle, [.deleted (.ok ())] => handle
  | _, _ => none

/-- The receipts by which messages were deleted so far, in order. -/
def used (turns : History) : List String := turns.filterMap fun t => used? t.action t.events

/-- The clock could reach every instant that was needed. -/
def InRange (turns : History) : Prop := ∀ t ∈ turns, ∀ e ∈ t.events, e.isPanic = false

theorem acceptances_snoc (turns : History) (t : Turn System Action Event) :
    acceptances (turns ++ [t]) =
      acceptances turns ++ (t.events.flatMap Event.accepted).map (⟨·, t.before.now⟩) := by
  simp [acceptances]

theorem deliveries_snoc (turns : History) (t : Turn System Action Event) :
    deliveries (turns ++ [t]) =
      deliveries turns ++ (t.events.filterMap Event.delivered?).map (⟨·, t.before.now⟩) := by
  simp [deliveries]

theorem InRange.left {turns later : History} (h : InRange (turns ++ later)) : InRange turns :=
  fun t ht => h t (List.mem_append_left _ ht)

theorem InRange.last {turns : History} {t : Turn System Action Event}
    (h : InRange (turns ++ [t])) : ∀ e ∈ t.events, e.isPanic = false :=
  h t (by simp)

theorem InRange.of_all {turns : History}
    (h : (turns.all fun t => t.events.all fun e => !e.isPanic) = true) : InRange turns := by
  intro t ht e he
  simpa using List.all_eq_true.mp (List.all_eq_true.mp h t ht) e he

theorem asked?_snoc (call : Nat) (turns : History) (t : Turn System Action Event) :
    asked? call (turns ++ [t]) = (t.action.count? call).or (asked? call turns) := by
  unfold asked?
  cases hcount : t.action.count? call with
  | none => simp [hcount]
  | some count => simp [hcount]

namespace System

variable {s s' : System} {a : Action} {out : Outcome} {events : List Event}

inductive Change (s : System) : Action → Outcome → Prop
  | accepted {token batch back entries verdicts s'} :
      Accepted s.now s.store.minted batch entries verdicts →
      s'.store = { s.store with
        entries := s.store.entries ++ entries, minted := s.store.minted + entries.length } →
      Change s (.enqueue token batch) (s', [.received back (.taken verdicts)])
  | delivered {a call entries messages s'} :
      Leased s.now (s.now + s.store.options.visibility.total) s.store.minted s.store.entries entries
        messages →
      s'.store = { s.store with entries, minted := s.store.minted + messages.length } →
      Change s a (s', [.replied call (.messages messages)])
  | deleted {receipt before e after s'} : s.store.entries = before ++ e :: after →
      e.receipt = some receipt → s'.store = { s.store with entries := before ++ after } →
      Change s (.delete (some receipt)) (s', [.deleted (.ok ())])
  | same {a : Action} {s' : System} {events : List Event} : s'.store = s.store →
      events.flatMap Event.accepted = [] → events.filterMap Event.delivered? = [] →
      used? a events = none → Change s a (s', events)

theorem change_of_looked {call count deadline : Nat} {token : String}
    (h : s.Looked call token count deadline out) (hrange : ∀ e ∈ out.2, e.isPanic = false) :
    s.Change a out := by
  cases h with
  | panicked =>
    have := hrange _ List.mem_cons_self
    contradiction
  | found hlease =>
    obtain ⟨entries, rfl, -, hleased⟩ := leased_of_lease hlease
    exact .delivered hleased rfl
  | waits hlease =>
    obtain ⟨entries, rfl, -, hleased⟩ := leased_of_lease hlease
    obtain rfl := hleased.eq_self
    exact .same rfl rfl rfl (by simp [used?])

theorem change_of_step (h : s.step a = some out) (hrange : ∀ e ∈ out.2, e.isPanic = false) :
    s.Change a out := by
  cases did_of_step h with
  | taken henqueue =>
    obtain ⟨entries, haccepted, rfl⟩ := accepted_of_enqueue henqueue
    exact .accepted haccepted rfl
  | @notTaken _ _ _ r _ henqueue hr =>
    cases r with
    | taken verdicts => exact absurd rfl (hr verdicts)
    | refused e =>
      obtain rfl := eq_of_enqueue_refused henqueue
      exact .same rfl rfl rfl rfl
    | panicked p =>
      have := hrange _ List.mem_cons_self
      contradiction
  | nothingWanted => exact .delivered .refl rfl
  | overflowed =>
    have := hrange _ List.mem_cons_self
    contradiction
  | asked _ _ _ hlooked => exact change_of_looked hlooked hrange
  | deleted hdelete =>
    cases deleted_of_delete hdelete with
    | done hentries hreceipt => exact .deleted hentries hreceipt rfl
    | notFound => exact .same rfl rfl rfl rfl
  | cancelled => exact .same rfl rfl rfl rfl
  | aborted => exact .same rfl rfl rfl rfl
  | lookedAgain _ _ hlooked => exact change_of_looked hlooked hrange
  | cancelNoticed => exact .same rfl rfl rfl rfl
  | advanced => exact .same rfl rfl rfl rfl

inductive Effect (s : System) : Action → Outcome → Prop
  | accepted {token batch back entries verdicts s'} :
      Accepted s.now s.store.minted batch entries verdicts →
      s'.store = { s.store with
        entries := s.store.entries ++ entries, minted := s.store.minted + entries.length } →
      Effect s (.enqueue token batch) (s', [.received back (.taken verdicts)])
  | delivered {a call entries messages s'} :
      Leased s.now (s.now + s.store.options.visibility.total) s.store.minted s.store.entries entries
        messages →
      s'.store = { s.store with entries, minted := s.store.minted + messages.length } →
      Effect s a (s', [.replied call (.messages messages)])
  | removed {a s' entries events} : entries.Sublist s.store.entries →
      s'.store = { s.store with entries } →
      events.flatMap Event.accepted = [] → events.filterMap Event.delivered? = [] →
      Effect s a (s', events)

theorem effect_of_step (h : s.step a = some out) (hrange : ∀ e ∈ out.2, e.isPanic = false) :
    s.Effect a out := by
  cases change_of_step h hrange with
  | accepted haccepted hstore => exact .accepted haccepted hstore
  | delivered hleased hstore => exact .delivered hleased hstore
  | @deleted receipt before e after _ hentries _ hstore =>
    refine .removed ?_ hstore rfl rfl
    rw [hentries]
    exact (List.sublist_cons_self e after).append_left before
  | same hstore haccepted hdelivered _ =>
    exact .removed (.refl _) (by rw [hstore]) haccepted hdelivered

end System

end Batchflow.Queue
