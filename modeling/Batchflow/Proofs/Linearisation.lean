import Batchflow.Proofs.Chunker.Lifecycle
import Batchflow.Proofs.Enqueuer.Lifecycle

/-!
# Starting and stopping one after the other

Calls to start and to stop may come at any time and from anybody, and a call that stops a worker
takes as long as the worker does.  They still look as if one came after the other, in the order in
which they get the lock.  The chunker and the enqueuer are alike in this, although the enqueuer has
a chunker of its own for each run.
-/

namespace Batchflow

namespace Chunker.System

variable {α : Type} {o : Options} {turns : History α} {s : System α}

/-- Starting and stopping look as if one call came after the other. -/
structure Linear (turns : History α) (s : System α) : Prop where
  /-- By the order in which they got the lock. -/
  alternates : Alternates (marks turns)
  one_alive : ∀ {i j}, s.Alive i → s.Alive j → i = j
  not_draining : s.state ≠ .draining
  served : ∀ {a call c s' events}, s.step a = some (s', events) →
    s.entered? a = some (call, c) → s.Served call c s' events
  /-- A call to start returns when it gets the lock. -/
  started : ∀ {a call r s' events}, s.step a = some (s', events) →
    .replied call (.started r) ∈ events → ∃ source, s.entered? a = some (call, .start source)
  /-- A call to stop that found the chunker running returns when the worker has ended. -/
  stopped : ∀ {before t₀ mid t call reply}, turns = before ++ t₀ :: (mid ++ [t]) →
    t₀.before.entered? t₀.action = some (call, .stop) → t₀.before.state = .running →
    (∀ u ∈ mid, ∀ r, .replied call r ∉ u.events) → .replied call reply ∈ t.events →
    (∃ outcome, reply = .stopped (stopResult outcome)) ∧ s.state = .stopped ∧
      ∀ i, ¬ s.Alive i

theorem linear_of_run (h : Run step (new o) turns s) (hpatient : Patient turns) :
    Linear turns s where
  alternates := alternates_of_run h hpatient
  one_alive {i j} hi hj := by
    have hs := orderly_of_run h hpatient
    rcases hs.alive hi with hi | ⟨v, hv⟩ <;> rcases hs.alive hj with hj | ⟨w, hw⟩
    · exact Option.some.inj (hi.symm.trans hj)
    · exact absurd rfl (hs.not_inside hi hw)
    · exact absurd rfl (hs.not_inside hj hv)
    · obtain rfl := hs.locked.eq_of_held (hs.locked.inside _ _ hv rfl)
        (hs.locked.inside _ _ hw rfl)
      exact Call.stopping.inj (hs.locked.eq_of_mem hv hw)
  not_draining := (orderly_of_run h hpatient).not_draining
  served hstep hentered :=
    served_of_entered (wellFormed_of_run h) (orderly_of_run h hpatient) hentered hstep
  started hstep hreply := entered_of_started (locked_of_run h) hstep hreply
  stopped heq hentered hstate hmid hreply := by
    subst heq
    exact stopped_of_entered h hpatient hentered hstate hmid hreply

end Chunker.System

namespace Enqueuer.System

variable {o : Options} {turns : History} {s : System}

/-- Starting and stopping look as if one call came after the other. -/
structure Linear (turns : History) (s : System) : Prop where
  /-- By the order in which they got the lock. -/
  alternates : Alternates (marks turns)
  one_alive : ∀ {i j}, s.Alive i → s.Alive j → i = j
  not_draining : s.state ≠ .draining
  served : ∀ {a caller c s' events}, s.step a = some (s', events) →
    s.entered? a = some (caller, c) → s.Served caller c s' events
  /-- A call to start returns when it gets the lock. -/
  started : ∀ {a caller r s' events}, s.step a = some (s', events) →
    .replied caller (.started r) ∈ events → ∃ sink, s.entered? a = some (caller, .start sink)
  /-- A call to stop that found the enqueuer running returns when the worker has ended. -/
  stopped : ∀ {before t₀ mid t caller reply}, turns = before ++ t₀ :: (mid ++ [t]) →
    t₀.before.entered? t₀.action = some (caller, .stop) → t₀.before.state = .running →
    (∀ u ∈ mid, ∀ r, .replied caller r ∉ u.events) → .replied caller reply ∈ t.events →
    (∃ worker reporter, reply = .stopped (stopResult worker reporter)) ∧ s.state = .stopped ∧
      ∀ i, ¬ s.Alive i

theorem linear_of_run (h : Run step (new o) turns s) (hpatient : Patient turns) :
    Linear turns s where
  alternates := alternates_of_run h hpatient
  one_alive hi hj := by
    have hs := orderly_of_run h hpatient
    exact Nat.succ.inj ((hs.alive hi).2.trans (hs.alive hj).2.symm)
  not_draining := (orderly_of_run h hpatient).not_draining
  served hstep hentered :=
    served_of_entered (wellFormed_of_run h) (orderly_of_run h hpatient) hentered hstep
  started hstep hreply := entered_of_started (wellFormed_of_run h) hstep hreply
  stopped heq hentered hstate hmid hreply := by
    subst heq
    exact stopped_of_entered h hpatient hentered hstate hmid hreply

end Enqueuer.System

/-- However calls to start and stop meet, and whatever handlers, sinks and sources do, as long as
none of these calls is given up they take effect one after the other. -/
theorem lifecycles_linear :
    (∀ {α : Type} {o : Chunker.Options} {turns : Chunker.History α} {s : Chunker.System α},
      Run Chunker.System.step (.new o) turns s → Chunker.Patient turns →
        Chunker.System.Linear turns s) ∧
    ∀ {o : Enqueuer.Options} {turns : Enqueuer.History} {s : Enqueuer.System},
      Run Enqueuer.System.step (.new o) turns s → Enqueuer.Patient turns →
        Enqueuer.System.Linear turns s :=
  ⟨Chunker.System.linear_of_run, Enqueuer.System.linear_of_run⟩

/-- A second call to start fails, the handler panics while two calls queue up behind the one that
stops it, and the first of them starts the chunker again for the second to stop. -/
def Chunker.queuedRun : List (Chunker.Action Nat) :=
  [.start 0 2, .start 1 2, .send 2 0 10, .stop 3, .start 4 2, .stop 5, .move 0 .noticeStop,
    .move 0 .receive, .move 0 .finish, .move 0 (.handlerPanics (.text "h")), .resume 3, .resume 4,
    .resume 5]

/-- The sink panics while a call to start waits for the one that stops the enqueuer. -/
def Enqueuer.queuedRun : List Enqueuer.Action :=
  [.start (.client 0) 7, .start (.client 1) 8, .enqueue (.client 2) (System.letter "a"),
    .stop (.client 0), .start (.client 1) 8, .move 0 (.worker .noticeStop),
    .move 0 (.worker .receive), .move 0 (.sinkPanics (.text "s")), .resume (.client 0),
    .move 0 .noticeEnd, .resume (.client 0), .resume (.client 1)]

theorem lifecycles_linear_queuedRun :
    (∃ (turns : Chunker.History Nat) (s : Chunker.System Nat),
      Run Chunker.System.step (.new {}) turns s ∧ Chunker.Patient turns ∧
      Chunker.marks turns = [.start, .stop, .start, .stop] ∧ Chunker.System.Linear turns s) ∧
    ∃ turns s, Run Enqueuer.System.step (.new { bufferSize := 2, batchSize := 1 }) turns s ∧
      Enqueuer.Patient turns ∧ Enqueuer.marks turns = [.start, .stop, .start] ∧
      Enqueuer.System.Linear turns s := by
  constructor
  · have hseen : (replay Chunker.System.step (.new {}) Chunker.queuedRun).map
        (fun r => Chunker.marks r.1) = some [.start, .stop, .start, .stop] := by
      decide +kernel
    obtain ⟨⟨turns, s⟩, hreplay, hmarks⟩ := Option.map_eq_some_iff.mp hseen
    have hrun := Run.of_replay hreplay
    have hpatient : Chunker.Patient turns := fun t ht call c ha => by
      have hmem := Run.action_mem_of_replay hreplay ht
      simp [Chunker.queuedRun, ha] at hmem
    exact ⟨turns, s, hrun, hpatient, hmarks, lifecycles_linear.1 hrun hpatient⟩
  · have hseen : (replay Enqueuer.System.step (.new { bufferSize := 2, batchSize := 1 })
        Enqueuer.queuedRun).map (fun r => Enqueuer.marks r.1) = some [.start, .stop, .start] := by
      decide +kernel
    obtain ⟨⟨turns, s⟩, hreplay, hmarks⟩ := Option.map_eq_some_iff.mp hseen
    have hrun := Run.of_replay hreplay
    have hpatient : Enqueuer.Patient turns := fun t ht caller c ha => by
      have hmem := Run.action_mem_of_replay hreplay ht
      simp [Enqueuer.queuedRun, ha] at hmem
    exact ⟨turns, s, hrun, hpatient, hmarks, lifecycles_linear.2 hrun hpatient⟩

end Batchflow
