import Mathlib.Data.List.Flatten
import Batchflow.Proofs.Enqueuer.Settling
import Batchflow.Proofs.Queue.Stock
import Batchflow.Simulation.Enqueueing

/-!
# An enqueuer that fills a queue

An enqueuer and a queue in memory stand side by side, each with all that its users may do, and one
clock goes for both.  A run whose sink is the queue hands its batches over to it: the batch that the
worker waits for is submitted to the queue, and what the queue says is the answer of the sink.  The
other runs have sinks that may answer anything, and the queue has other producers and consumers.

A run of the two together is a run of the enqueuer, with the queue for a sink.
-/

namespace Batchflow.Supply

open Simulation (SinkAnswer)

inductive Action where
  /-- The batch of a run is submitted to the queue. -/
  | submit (run : Nat)
  | enqueuer (a : Enqueuer.Action)
  | queue (a : Queue.Action)
  | advance (now : Nat)

inductive Event where
  | enqueuer (e : Enqueuer.Event)
  | queue (e : Queue.Event)

def Event.enqueuer? : Event → Option Enqueuer.Event
  | .enqueuer e => some e
  | _ => none

@[simp] theorem enqueuer?_enqueuer (e : Enqueuer.Event) : (Event.enqueuer e).enqueuer? = some e :=
  rfl

theorem filterMap_enqueuer (events : List Enqueuer.Event) :
    (events.map Event.enqueuer).filterMap Event.enqueuer? = events := by
  simp [Function.comp_def]

structure System where
  enqueuer : Enqueuer.System
  queue : Queue.System
  /-- The number by which the enqueuer is given the queue for a sink. -/
  sink : Nat

structure Handover where
  batch : List Message
  queue : Queue.System
  /-- The batch as the queue leaves it. -/
  back : List Message
  reception : Queue.Store.Reception

def moveOf : SinkAnswer → Enqueuer.Move
  | .returned batch result => .sinkReturns batch result
  | .panicked p => .sinkPanics p

def Handover.move (x : Handover) : Enqueuer.Move := moveOf (.ofReception x.back x.reception)

namespace System

/-- The queue gets a number, and the enqueuer is new. -/
def new (options : Enqueuer.Options) (queue : Queue.Options) (sink : Nat) : System :=
  { enqueuer := .new options, queue := .new queue, sink }

/-- What an action leads to, with what can be seen of it. -/
abbrev Outcome := System × List Event

def fills (s : System) (run : Nat) : Bool :=
  (s.enqueuer.pipeline? run).any (·.sink == s.sink)

def handover? (s : System) (run : Nat) : Option Handover :=
  match s.enqueuer.pipeline? run with
  | none => none
  | some p =>
    if p.sink = s.sink then
      p.unanswered.head?.map fun batch =>
        let (queue, back, reception) := s.queue.submit p.cancelled batch
        { batch, queue, back, reception }
    else none

def isSinks : Enqueuer.Move → Bool
  | .sinkReturns .. => true
  | .sinkPanics _ => true
  | _ => false

/-- What the enqueuer may do without the queue, which alone answers the batches that it gets. -/
def allows (s : System) : Enqueuer.Action → Bool
  | .move run m => !(isSinks m && s.fills run)
  | .advance _ => false
  | _ => true

def isTimeless : Queue.Action → Bool
  | .advance _ => false
  | _ => true

/-- One action, if it is possible. -/
def step (s : System) : Action → Option Outcome
  | .submit run =>
    match s.handover? run with
    | none => none
    | some x =>
      (s.enqueuer.step (.move run x.move)).map fun (enqueuer, events) =>
        ({ s with enqueuer, queue := x.queue }, events.map .enqueuer)
  | .enqueuer a =>
    if s.allows a then
      (s.enqueuer.step a).map fun (enqueuer, events) =>
        ({ s with enqueuer }, events.map .enqueuer)
    else none
  | .queue a =>
    if isTimeless a then
      (s.queue.step a).map fun (queue, events) => ({ s with queue }, events.map .queue)
    else none
  | .advance now =>
    match s.enqueuer.advance? now, s.queue.advance? now with
    | some enqueuer, some queue => some ({ s with enqueuer, queue }, [])
    | _, _ => none

inductive Did (s : System) : Action → System → List Event → Prop
  | submitted {run x enqueuer events} : s.handover? run = some x →
      s.enqueuer.step (.move run x.move) = some (enqueuer, events) →
      Did s (.submit run) { s with enqueuer, queue := x.queue } (events.map .enqueuer)
  | enqueuer {a enqueuer events} : s.allows a = true →
      s.enqueuer.step a = some (enqueuer, events) →
      Did s (.enqueuer a) { s with enqueuer } (events.map .enqueuer)
  | queue {a queue events} : isTimeless a = true → s.queue.step a = some (queue, events) →
      Did s (.queue a) { s with queue } (events.map .queue)
  | advanced {now enqueuer queue} : s.enqueuer.advance? now = some enqueuer →
      s.queue.advance? now = some queue → Did s (.advance now) { s with enqueuer, queue } []

variable {s s' : System} {a : Action} {events : List Event}

theorem did_of_step (h : s.step a = some (s', events)) : s.Did a s' events := by
  cases a with
  | submit run =>
    simp only [step] at h
    split at h
    · contradiction
    · rename_i x hx
      obtain ⟨⟨enqueuer, seen⟩, hstep, hout⟩ := Option.map_eq_some_iff.mp h
      obtain ⟨rfl, rfl⟩ := Prod.mk.inj hout
      exact .submitted hx hstep
  | enqueuer a =>
    obtain ⟨hallows, h⟩ := Option.ite_none_right_eq_some.mp h
    obtain ⟨⟨enqueuer, seen⟩, hstep, hout⟩ := Option.map_eq_some_iff.mp h
    obtain ⟨rfl, rfl⟩ := Prod.mk.inj hout
    exact .enqueuer hallows hstep
  | queue a =>
    obtain ⟨htimeless, h⟩ := Option.ite_none_right_eq_some.mp h
    obtain ⟨⟨queue, seen⟩, hstep, hout⟩ := Option.map_eq_some_iff.mp h
    obtain ⟨rfl, rfl⟩ := Prod.mk.inj hout
    exact .queue htimeless hstep
  | advance now =>
    simp only [step] at h
    split at h
    · rename_i enqueuer queue henqueuer hqueue
      obtain ⟨rfl, rfl⟩ := Prod.mk.inj (Option.some.inj h)
      exact .advanced henqueuer hqueue
    · contradiction

/-- Scripts do the same with a sink that hands its batches to the queue. -/
theorem answerSink_eq_submit {scene : Simulation.Enqueueing.Scene} {run n : Nat}
    {batch : List Message} {p : Enqueuer.Pipeline Enqueuer.Caller}
    (hsubmitted : scene.submitted.lookup run = some (n, batch))
    (hdeed : (Simulation.sinkStep scene.script n).deed = .memory)
    (hp : scene.system.pipeline? run = some p) (hbatch : p.unanswered = [batch]) :
    scene.answerSink run =
      ((⟨scene.system, scene.queue, p.sink⟩ : System).step (.submit run)).map fun (s, events) =>
        (events.filterMap Event.enqueuer?).foldl Simulation.Enqueueing.Scene.see
          { scene with system := s.enqueuer, queue := s.queue } := by
  have hcancelled : scene.isCancelled run = p.cancelled := by
    simp [Simulation.Enqueueing.Scene.isCancelled, hp]
  rcases hsubmit : scene.queue.submit p.cancelled batch with ⟨queue, back, reception⟩
  have hhandover : (⟨scene.system, scene.queue, p.sink⟩ : System).handover? run =
      some { batch, queue, back, reception } := by
    simp [handover?, hp, hbatch, hsubmit]
  simp only [Simulation.Enqueueing.Scene.answerSink, hsubmitted, hdeed,
    Simulation.SinkDeed.answer?, hcancelled, hsubmit, step, hhandover, Handover.move]
  cases SinkAnswer.ofReception back reception with
  | returned batch result =>
    simp only [moveOf, Simulation.Enqueueing.Scene.perform]
    cases scene.system.step (.move run (.sinkReturns batch result)) <;>
      simp [Function.comp_def]
  | panicked panic =>
    simp only [moveOf, Simulation.Enqueueing.Scene.perform]
    cases scene.system.step (.move run (.sinkPanics panic)) <;>
      simp [Function.comp_def]

end System

/-- What has happened to both of them so far. -/
abbrev History := List (Turn System Action Event)

/-- What the enqueuer does when both do something. -/
def System.part? (s : System) : Action → Option Enqueuer.Action
  | .submit run => (s.handover? run).map fun x => .move run x.move
  | .enqueuer a => some a
  | .queue _ => none
  | .advance now => some (.advance now)

def turn? (t : Turn System Action Event) :
    Option (Turn Enqueuer.System Enqueuer.Action Enqueuer.Event) :=
  (t.before.part? t.action).map fun a =>
    ⟨t.before.enqueuer, a, t.events.filterMap Event.enqueuer?⟩

/-- What has happened to the enqueuer. -/
def ofEnqueuer (turns : History) : Enqueuer.History := turns.filterMap turn?

theorem exists_of_mem_ofEnqueuer {turns : History}
    {u : Turn Enqueuer.System Enqueuer.Action Enqueuer.Event} (hu : u ∈ ofEnqueuer turns) :
    ∃ t ∈ turns, t.before.part? t.action = some u.action ∧ t.before.enqueuer = u.before := by
  obtain ⟨t, ht, hturn⟩ := List.mem_filterMap.mp hu
  obtain ⟨a, hpart, rfl⟩ := Option.map_eq_some_iff.mp hturn
  exact ⟨t, ht, hpart, rfl⟩

theorem mem_ofEnqueuer {turns : History} {t : Turn System Action Event} {a : Enqueuer.Action}
    (ht : t ∈ turns) (hpart : t.before.part? t.action = some a) :
    ⟨t.before.enqueuer, a, t.events.filterMap Event.enqueuer?⟩ ∈ ofEnqueuer turns :=
  List.mem_filterMap.mpr ⟨t, ht, by simp [turn?, hpart]⟩

def System.came (s : System) : Action → List Message
  | .submit run => (s.handover? run).elim [] fun x => s.queue.store.arrivals x.queue.store
  | .queue a => s.queue.came a
  | _ => []

def System.gone? (s : System) : Action → Option Message
  | .queue a => s.queue.gone? a
  | _ => none

/-- All messages that have come into the queue, in order. -/
def incoming (turns : History) : List Message := turns.flatMap fun t => t.before.came t.action

/-- The messages that were deleted, in order. -/
def deleted (turns : History) : List Message := turns.filterMap fun t => t.before.gone? t.action

def Action.isSubmit (run : Nat) : Action → Bool
  | .submit i => i == run
  | _ => false

theorem Action.isSubmit_iff {run : Nat} {a : Action} : a.isSubmit run = true ↔ a = .submit run := by
  cases a <;> simp [isSubmit]

def stored (run : Nat) (turns : History) : List Message :=
  turns.flatMap fun t => if t.action.isSubmit run then t.before.came t.action else []

theorem stored_sublist (run : Nat) (turns : History) :
    (stored run turns).Sublist (incoming turns) := by
  refine List.Sublist.flatMap_right turns fun t _ => ?_
  split
  · exact .refl _
  · exact List.nil_sublist _

namespace System

variable {s s' : System} {a : Action} {events : List Event} {turns : History} {run sink : Nat}
  {o : Enqueuer.Options} {q : Queue.Options}

/-- The queue gets the one batch that the worker of the run waits for. -/
theorem handover_inv {x : Handover} (h : s.handover? run = some x) :
    ∃ p, s.enqueuer.pipelines[run]? = some p ∧ p.sink = s.sink ∧ p.unanswered = [x.batch] ∧
      s.queue.submit p.cancelled x.batch = (x.queue, x.back, x.reception) := by
  unfold handover? at h
  split at h
  · contradiction
  · rename_i p hp
    obtain ⟨hsink, h⟩ := Option.ite_none_right_eq_some.mp h
    obtain ⟨batch, hbatch, rfl⟩ := Option.map_eq_some_iff.mp h
    refine ⟨p, hp, hsink, ?_, rfl⟩
    unfold Enqueuer.Pipeline.unanswered at hbatch ⊢
    split at hbatch
    · obtain rfl := Option.some.inj hbatch
      rfl
    · contradiction

theorem submit_of_part {m : Enqueuer.Move} (h : s.Did a s' events)
    (hfills : ∀ p, s.enqueuer.pipelines[run]? = some p → p.sink = s.sink)
    (hpart : s.part? a = some (.move run m)) (hm : isSinks m = true) :
    a = .submit run ∧ ∃ x, s.handover? run = some x ∧ x.move = m := by
  cases h with
  | submitted hx =>
    simp only [part?, hx, Option.map_some, Option.some.injEq, Enqueuer.Action.move.injEq] at hpart
    obtain ⟨rfl, rfl⟩ := hpart
    exact ⟨rfl, _, hx, rfl⟩
  | enqueuer hallows hstep =>
    obtain rfl := Option.some.inj hpart
    cases hp : s.enqueuer.pipeline? run with
    | none => simp [Enqueuer.System.step, Enqueuer.System.move?, hp] at hstep
    | some p => simp [allows, hm, fills, hp, hfills p hp] at hallows
  | queue | advanced => cases hpart

theorem enqueuer_of_did (h : s.Did a s' events) :
    Run Enqueuer.System.step s.enqueuer (turn? ⟨s, a, events⟩).toList s'.enqueuer := by
  cases h with
  | submitted hx hstep =>
    simp only [turn?, part?, hx, filterMap_enqueuer, Option.map_some, Option.toList_some]
    exact .of_step hstep
  | enqueuer _ hstep =>
    simp only [turn?, part?, filterMap_enqueuer, Option.map_some, Option.toList_some]
    exact .of_step hstep
  | queue => exact .nil
  | advanced henqueuer =>
    have hstep := congrArg (Option.map (·, ([] : List Enqueuer.Event))) henqueuer
    exact .of_step hstep

theorem enqueuer_of_run (h : Run step s turns s') :
    Run Enqueuer.System.step s.enqueuer (ofEnqueuer turns) s'.enqueuer := by
  induction h with
  | nil => exact .nil
  | snoc _ hstep ih =>
    rw [ofEnqueuer, Enqueuer.System.filterMap_concat]
    exact ih.append (enqueuer_of_did (did_of_step hstep))

theorem part_of_event {e : Enqueuer.Event} (h : s.Did a s' events)
    (he : .enqueuer e ∈ events) : ∃ b seen, s.part? a = some b ∧
      s.enqueuer.step b = some (s'.enqueuer, seen) ∧ e ∈ seen := by
  cases h with
  | @submitted _ _ _ seen hx hstep =>
    refine ⟨_, seen, by simp only [part?, hx, Option.map_some], hstep, ?_⟩
    simpa using he
  | @enqueuer b _ seen _ hstep => exact ⟨b, seen, rfl, hstep, by simpa using he⟩
  | queue | advanced => simp at he

theorem did_of_mem {t : Turn System Action Event} (h : Run step (new o q sink) turns s)
    (ht : t ∈ turns) : ∃ s', t.before.Did t.action s' t.events := by
  obtain ⟨-, -, s', -, -, hstep, -⟩ := h.split ht
  exact ⟨s', did_of_step hstep⟩

theorem sink_of_step (h : s.step a = some (s', events)) : s'.sink = s.sink := by
  cases did_of_step h <;> rfl

theorem sink_of_run (h : Run step (new o q sink) turns s) : s.sink = sink :=
  h.invariant (P := fun s => s.sink = sink) rfl fun _ _ _ _ hs hstep => (sink_of_step hstep).trans hs

theorem turnover_of_did (h : s.Did a s' events) :
    s.queue.store.Turnover s'.queue.store (s.came a) (s.gone? a).toList := by
  cases h with
  | @submitted _ x _ _ hx =>
    obtain ⟨p, -, -, -, hsubmit⟩ := handover_inv hx
    simpa [came, gone?, hx] using Queue.System.turnover_of_submit hsubmit
  | enqueuer => exact .same rfl (Nat.le_refl _)
  | queue _ hstep => exact Queue.System.turnover_of_step hstep
  | @advanced now _ queue _ hqueue =>
    have hstep : s.queue.step (.advance now) = some (queue, []) := by
      simp [Queue.System.step, hqueue]
    exact Queue.System.turnover_of_step hstep

theorem stocked_of_run (h : Run step (new o q sink) turns s) :
    s.queue.store.Stocked (incoming turns) (deleted turns) := by
  induction h with
  | nil => exact .new q
  | snoc _ hstep ih =>
    rw [deleted, Enqueuer.System.filterMap_concat, incoming, List.flatMap_append,
      List.flatMap_singleton]
    exact ih.turnover (turnover_of_did (did_of_step hstep))

end System

end Batchflow.Supply
