import Batchflow.Proofs.Enqueuer.Ownership

/-!
# What happens to a pipeline

An action of the enqueuer changes a pipeline in few ways: the run begins, a message is sent to its
intake, or the pipeline moves.  Whatever else an action does to a pipeline concerns its handles and
the orders it was given, and nothing of that can be seen.
-/

namespace Batchflow.Enqueuer

variable {ι : Type}

def Action.move? (run : Nat) : Action → Option Move
  | .move i m => if i = run then some m else none
  | _ => none

theorem Action.move?_eq_some {run : Nat} {a : Action} {m : Move} :
    a.move? run = some m ↔ a = .move run m := by
  cases a <;> simp [move?]

theorem Asks.move?_eq_none {a : Action} {caller : Caller} {c : Call} (h : Asks a caller c) :
    ∀ run, a.move? run = none := by
  cases h <;> exact fun _ => rfl

def Event.took? (run : Nat) : Event → Option Message
  | .took i m => if i = run then some m else none
  | _ => none

def Event.batch? (run : Nat) : Event → Option (List Message)
  | .batch i ms => if i = run then some ms else none
  | _ => none

def Event.failure? (run : Nat) : Event → Option Verdict
  | .failure i v => if i = run then some v else none
  | _ => none

namespace Pipeline

/-- Only handles and orders are different. -/
inductive Tended (p : Pipeline ι) : Pipeline ι → Prop
  | mk (handles : Nat) (stopRequested : Bool) (owners : Nat) (cancelled : Bool) :
      Tended p { p with
        feed := { p.feed with channel := { p.feed.channel with handles }, stopRequested }
        failures := { p.failures with handles := owners }
        cancelled }

theorem Tended.refl (p : Pipeline ι) : p.Tended p :=
  .mk p.feed.channel.handles p.feed.stopRequested p.failures.handles p.cancelled

theorem Tended.trans {p q r : Pipeline ι} (h : p.Tended q) (h' : q.Tended r) : p.Tended r := by
  cases h
  cases h'
  exact .mk _ _ _ _

/-- What may happen to a pipeline, which moves or does not, with the message taken by the intake and
what is seen. -/
inductive Change (o : Options) (hasHandler : Bool) (now : Nat) : Option Move →
    Option (Pipeline Caller) → Option Message → List Note → Option (Pipeline Caller) → Prop
  | same {x} : Change o hasHandler now none x none [] x
  | born (sink : Nat) : o.validate = .ok () →
      Change o hasHandler now none none none [] (some (.start o sink now))
  | sent {p taken c} : p.feed.channel.Sent taken c →
      Change o hasHandler now none (some p) taken []
        (some { p with feed := { p.feed with channel := c } })
  | moved {p p' m notes} : p.Moved o hasHandler now m p' notes →
      Change o hasHandler now (some m) (some p) none notes (some p')
  | tended {move x taken notes p q} : Change o hasHandler now move x taken notes (some p) →
      p.Tended q → Change o hasHandler now move x taken notes (some q)

end Pipeline

namespace System

open Pipeline

variable {s s' : System} {hasHandler : Bool} {a : Action} {run : Nat} {events : List Event}
  {caller : Caller} {out : Outcome}

def Effect (s : System) (hasHandler : Bool) (a : Action) (out : Outcome) : Prop :=
  ∀ run, ∃ taken notes,
    Change s.options hasHandler s.now (a.move? run) s.pipelines[run]? taken notes
        out.1.pipelines[run]? ∧
      out.2.filterMap (Event.took? run) = taken.toList ∧
      out.2.filterMap (Event.batch? run) = notes.filterMap Note.batch? ∧
      out.2.filterMap (Event.failure? run) = notes.filterMap Note.failure?

/-- Nothing that concerns a pipeline is seen. -/
def Silent (events : List Event) : Prop :=
  ∀ run, events.filterMap (Event.took? run) = [] ∧ events.filterMap (Event.batch? run) = [] ∧
    events.filterMap (Event.failure? run) = []

@[simp] theorem silent_nil : Silent [] := fun _ => ⟨rfl, rfl, rfl⟩

@[simp] theorem silent_replied (caller : Caller) (r : Reply) : Silent [.replied caller r] :=
  fun _ => ⟨rfl, rfl, rfl⟩

@[simp] theorem silent_started (caller : Caller) (l : Log) (r : Reply) :
    Silent [.log l, .replied caller r] :=
  fun _ => ⟨rfl, rfl, rfl⟩

@[simp] theorem silent_stopEvents (caller : Caller) (result : Except Error Unit) :
    Silent (stopEvents caller result) := by
  cases result <;> exact fun _ => ⟨rfl, rfl, rfl⟩

theorem Effect.tended (h : s.Effect hasHandler a out)
    (halike : Alike Tended out.1.pipelines s'.pipelines) : s.Effect hasHandler a (s', out.2) := by
  intro run
  obtain ⟨taken, notes, hchange, hevents⟩ := h run
  refine ⟨taken, notes, ?_, hevents⟩
  dsimp only
  cases hq : s'.pipelines[run]? with
  | none =>
    have hnone : out.1.pipelines[run]? = none := by
      rw [List.getElem?_eq_none_iff, ← halike.length]
      exact List.getElem?_eq_none_iff.mp hq
    rwa [hnone] at hchange
  | some q =>
    obtain ⟨p, hp, hpq⟩ := halike.exists_left hq
    rw [hp] at hchange
    exact .tended hchange hpq

theorem effect_same (ha : ∀ run, a.move? run = none) (h : s'.pipelines = s.pipelines)
    (hsilent : Silent events) : s.Effect hasHandler a (s', events) := by
  intro run
  obtain ⟨htook, hbatch, hfailure⟩ := hsilent run
  refine ⟨none, [], ?_, htook, hbatch, hfailure⟩
  rw [ha, h]
  exact .same

theorem effect_tended (ha : ∀ run, a.move? run = none)
    (h : Alike Tended s.pipelines s'.pipelines) (hsilent : Silent events) :
    s.Effect hasHandler a (s', events) :=
  (effect_same ha rfl hsilent : s.Effect hasHandler a (s, events)).tended h

theorem effect_of_change {f : Pipeline Caller → Pipeline Caller} {p : Pipeline Caller}
    {taken : Option Message} {notes : List Note} (hp : s.pipelines[run]? = some p)
    (hout : s'.pipelines = s.pipelines.modify run f)
    (hchange : Change s.options hasHandler s.now (a.move? run) (some p) taken notes (some (f p)))
    (hother : ∀ i, run ≠ i → a.move? i = none)
    (htook : ∀ i, events.filterMap (Event.took? i) = if run = i then taken.toList else [])
    (hbatch : ∀ i, events.filterMap (Event.batch? i) =
      if run = i then notes.filterMap Note.batch? else [])
    (hfailure : ∀ i, events.filterMap (Event.failure? i) =
      if run = i then notes.filterMap Note.failure? else []) :
    s.Effect hasHandler a (s', events) := by
  intro i
  by_cases hi : run = i
  · subst hi
    refine ⟨taken, notes, ?_, by simpa using htook run, by simpa using hbatch run,
      by simpa using hfailure run⟩
    simpa [hout, hp] using hchange
  · refine ⟨none, [], ?_, by simp [htook, hi], by simp [hbatch, hi], by simp [hfailure, hi]⟩
    simpa [hout, hi, hother i hi] using Change.same

theorem change_sent {p : Pipeline Caller} {taken : Option Message} {c : Channel Caller Message}
    (ha : a.move? run = none) (hsent : p.feed.channel.Sent taken c) :
    Change s.options hasHandler s.now (a.move? run) (some p) taken []
      (some { p with feed := { p.feed with channel := c } }) := by
  rw [ha]
  exact .sent hsent

/-- Somebody sends to the intake of a run, and it takes the message. -/
theorem effect_took {p : Pipeline Caller} {m : Message} {c : Channel Caller Message} {r : Reply}
    (ha : ∀ run, a.move? run = none) (hp : s.pipelines[run]? = some p)
    (hsent : p.feed.channel.Sent (some m) c)
    (hout : s'.pipelines = (s.setChannel run c).pipelines) :
    s.Effect hasHandler a (s', [.took run m, .replied caller r]) := by
  refine effect_of_change hp hout (change_sent (ha run) hsent) (fun i _ => ha i) ?_ ?_ ?_
  · intro i
    by_cases hi : run = i <;> simp [Event.took?, hi]
  · intro i
    simp [Event.batch?]
  · intro i
    simp [Event.failure?]

theorem effect_silently_sent {p : Pipeline Caller} {c : Channel Caller Message}
    (ha : ∀ run, a.move? run = none) (hp : s.pipelines[run]? = some p)
    (hsent : p.feed.channel.Sent none c)
    (hout : s'.pipelines = (s.setChannel run c).pipelines) (hsilent : Silent events) :
    s.Effect hasHandler a (s', events) := by
  refine effect_of_change hp hout (change_sent (ha run) hsent) (fun i _ => ha i) ?_ ?_ ?_
  · simp [fun i => (hsilent i).1]
  · simp [fun i => (hsilent i).2.1]
  · simp [fun i => (hsilent i).2.2]

theorem tended_modify (s : System) (run : Nat) {f : Pipeline Caller → Pipeline Caller}
    (hf : ∀ p, Pipeline.Tended p (f p)) :
    Alike Tended s.pipelines (s.modifyPipeline run f).pipelines :=
  .of_modify rfl .refl fun p _ => hf p

theorem tended_dropFailures (s : System) (run : Nat) :
    Alike Tended s.pipelines (s.modifyPipeline run Pipeline.dropFailures).pipelines :=
  s.tended_modify run fun _ => .mk _ _ _ _

theorem tended_takeOver (s : System) (caller : Caller) (run : Nat) :
    Alike Tended s.pipelines (s.takeOver caller run).pipelines :=
  s.tended_modify run fun _ => .mk _ _ _ _

theorem tended_conclude (s : System) (run : Nat) :
    Alike Tended s.pipelines (s.conclude run).pipelines :=
  s.tended_modify run fun _ => .mk _ _ _ _

theorem tended_dropIntake (s : System) : Alike Tended s.pipelines s.dropIntake.pipelines :=
  s.related_dropIntake .refl fun _ _ => .mk _ _ _ _

theorem tended_release (s : System) : Alike Tended s.pipelines s.release.pipelines :=
  s.related_release .refl (fun _ _ => .mk _ _ _ _) .trans fun _ => .mk _ _ _ _

theorem tended_workerEnded (s : System) (caller : Caller) (run : Nat)
    (worker : Except Panic Unit) :
    Alike Tended s.pipelines (s.workerEnded caller run worker).pipelines := by
  have hdropped : Alike Tended s.dropIntake.pipelines
      (s.workerEnded caller run worker).pipelines := s.dropIntake.tended_dropFailures run
  exact s.tended_dropIntake.trans .trans hdropped

@[simp] theorem options_dropIntake (s : System) : s.dropIntake.options = s.options := by
  unfold dropIntake
  split <;> rfl

@[simp] theorem now_dropIntake (s : System) : s.dropIntake.now = s.now := by
  unfold dropIntake
  split <;> rfl

/-- A new run begins after all that there were. -/
theorem effect_startRun {sink : Nat} (ha : ∀ run, a.move? run = none)
    (hvalid : s.options.validate = .ok ())
    (hout : s'.pipelines = (s.startRun sink).pipelines) (hsilent : Silent events) :
    s.Effect hasHandler a (s', events) := by
  have hpipelines : s'.pipelines = s.dropIntake.pipelines ++ [.start s.options sink s.now] := by
    rw [hout, ← s.options_dropIntake, ← s.now_dropIntake]
    rfl
  intro i
  obtain ⟨htook, hbatch, hfailure⟩ := hsilent i
  refine ⟨none, [], ?_, htook, hbatch, hfailure⟩
  dsimp only
  rw [ha, hpipelines]
  cases hx : s.pipelines[i]? with
  | some p =>
    obtain ⟨q, hq, hpq⟩ := s.tended_dropIntake.exists_right hx
    rw [List.getElem?_append_left (List.getElem?_eq_some_iff.mp hq).1, hq]
    exact .tended .same hpq
  | none =>
    cases hy : (s.dropIntake.pipelines ++ [Pipeline.start s.options sink s.now])[i]? with
    | none => exact .same
    | some y =>
      rcases getElem?_concat_eq_some hy with hy | ⟨-, rfl⟩
      · obtain ⟨p, hp, -⟩ := s.tended_dropIntake.exists_left hy
        simp [hp] at hx
      · exact .born sink hvalid

theorem effect_of_went (ha : ∀ run, a.move? run = none) (h : s.Went caller s' events) :
    s.Effect hasHandler a (s', events) := by
  cases h with
  | started _ _ _ hvalid => exact effect_startRun ha hvalid rfl (by simp)
  | startRefused | stopRefused => exact effect_same ha rfl (by simp)
  | stopTaken => exact effect_tended ha (s.tended_takeOver _ _) (by simp)
  | stopped => exact effect_tended ha (s.tended_conclude _) (by simp)
  | workerEnded => exact effect_tended ha (s.tended_workerEnded _ _ _) (by simp)
  | @enqueued _ m _ _ hp hresume =>
    exact effect_took ha hp (.filled m (Channel.resume?_eq_accepted hresume).2) rfl
  | rejected _ hp => exact effect_silently_sent ha hp (.left _) rfl (by simp)

theorem effect_moved {m : Move} {p p' : Pipeline Caller} {notes : List Note}
    (hp : s.pipelines[run]? = some p) (hm : p.Moved s.options hasHandler s.now m p' notes) :
    s.Effect hasHandler (.move run m)
      (s.modifyPipeline run fun _ => p', notes.map (Event.ofNote run)) := by
  have htook (i : Nat) (n : Note) : (Event.ofNote run n).took? i = none := by
    cases n <;> rfl
  have hbatch (i : Nat) (n : Note) :
      (Event.ofNote run n).batch? i = if run = i then n.batch? else none := by
    cases n <;> simp [Event.ofNote, Event.batch?, Note.batch?]
  have hfailure (i : Nat) (n : Note) :
      (Event.ofNote run n).failure? i = if run = i then n.failure? else none := by
    cases n <;> simp [Event.ofNote, Event.failure?, Note.failure?]
  have hmove (i : Nat) : (Action.move run m).move? i = if run = i then some m else none := rfl
  refine effect_of_change hp rfl (by simpa [hmove] using .moved hm) (by simp [hmove]) ?_ ?_ ?_ <;>
    intro i <;> rw [List.filterMap_map]
  · simp [htook]
  · by_cases hi : run = i
    · subst hi
      simp [hbatch]
    · simp [hbatch, hi]
  · by_cases hi : run = i
    · subst hi
      simp [hfailure]
    · simp [hfailure, hi]

theorem effect_of_did (h : s.Did a s' events) :
    s.Effect (s.options.hasHandler && s.reachable) a (s', events) := by
  cases h with
  | asked ha => exact effect_same ha.move?_eq_none rfl (by simp)
  | @atOnce _ caller c _ _ ha _ hwent =>
    exact (effect_of_went ha.move?_eq_none hwent : (s.ask caller c).Effect _ a (s', events))
  | enqueued _ _ _ hp hsend => exact effect_took (fun _ => rfl) hp (Channel.sent_of_send hsend) rfl
  | enqueueWaits _ _ _ hp hsend | rejected _ _ _ hp hsend =>
    exact effect_silently_sent (fun _ => rfl) hp (Channel.sent_of_send hsend) rfl (by simp)
  | notRunning | lockAborted | drainingAborted => exact effect_same (fun _ => rfl) rfl (by simp)
  | stoppingAborted =>
    exact effect_tended (fun _ => rfl) (s.tended_dropFailures _) (by simp)
  | @enqueueAborted caller run m hcall =>
    unfold leaveIntake pipeline?
    split
    · exact effect_silently_sent (fun _ => rfl) ‹_› (.left caller) rfl (by simp)
    · exact effect_same (fun _ => rfl) rfl (by simp)
  | handleAdded | handleDropped | advanced => exact effect_same (fun _ => rfl) rfl (by simp)
  | resumed hwent => exact effect_of_went (fun _ => rfl) hwent
  | moved hp _ hm => exact effect_moved hp hm

/-- What one action of the system may do to its pipelines. -/
theorem effect_of_step (h : s.step a = some out) :
    s.Effect (s.options.hasHandler && s.reachable) a out := by
  obtain ⟨x, hdid, hout | hout⟩ := does_of_step h
  · obtain ⟨s', events⟩ := out
    obtain rfl : s' = x := hout
    exact effect_of_did hdid
  · have heffect := (effect_of_did hdid).tended x.tended_release
    rwa [← hout] at heffect

end System

end Batchflow.Enqueuer
