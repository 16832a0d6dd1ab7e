import Batchflow.Proofs.Enqueuer.Failures
import Batchflow.Proofs.Enqueuer.Shutdown

/-!
# What the sink has said of each message

An answer of the sink has a verdict for each message of its batch.  When a call has stopped a run
whose sink and handler have returned every time, all that the run took was submitted and answered,
the handler was called with the verdicts that are failures, and the call returns success.  If the
sink has panicked, the call returns the panic.
-/

namespace Batchflow.Enqueuer

open Pipeline

/-- What the sink has said of the messages of a batch. -/
def Answer.verdicts (a : Answer) : List Verdict :=
  match a.result with
  | .ok vs => vs
  | .error e => refusals a.batch e

theorem Answer.failures_eq (a : Answer) : a.failures = a.verdicts.filter (!·.success) := by
  obtain ⟨batch, result⟩ := a
  cases result with
  | ok vs => rfl
  | error e =>
    have hall : ∀ v ∈ refusals batch e, (!v.success) = true := by simp [refusals, Verdict.failed]
    exact (List.filter_eq_self.mpr hall).symm

namespace Pipeline

variable {o : Options} {hasHandler : Bool} {now : Nat} {move : Option Move}
  {x y : Option (Pipeline Caller)} {item : Option Message} {notes : List Note}

def Agree (R : List Message → Answer → Prop) (batches : List (List Message))
    (answers : List Answer) : Option (Pipeline Caller) → Prop
  | none => batches = [] ∧ answers = []
  | some p => ∃ done, batches = done ++ p.unanswered ∧ List.Forall₂ R done answers

theorem Change.agree {R : List Message → Answer → Prop} {batches : List (List Message)}
    {answers : List Answer} (h : Change o hasHandler now move x item notes y) (hsound : Sound o x)
    (hsink : ∀ panic, move ≠ some (.sinkPanics panic))
    (hR : ∀ p ∈ x, ∀ chunk answer, p.unanswered = [chunk] →
      move.bind Move.answer? = some answer → R chunk answer)
    (hx : Agree R batches answers x) :
    Agree R (batches ++ notes.filterMap Note.batch?) (answers ++ (move.bind Move.answer?).toList)
      y := by
  induction h with
  | same => simpa using hx
  | born sink =>
    obtain ⟨rfl, rfl⟩ := hx
    exact ⟨[], rfl, .nil⟩
  | sent =>
    simp only [List.filterMap_nil, Option.bind_none, Option.toList_none, List.append_nil]
    exact hx
  | @moved p p' m notes hm =>
    obtain ⟨done, hdone, hrel⟩ := hx
    have hpanic (panic : Panic) : m ≠ .sinkPanics panic := fun h => hsink panic (congrArg some h)
    rcases hm.unanswered (hsound p rfl).2 hpanic with
      ⟨hno, hafter⟩ | ⟨chunk, answer, hanswer, -, hbefore, hafter, hno⟩
    · refine ⟨done, ?_, by simpa [hno] using hrel⟩
      rw [hdone, hafter, List.append_assoc]
    · refine ⟨done ++ [chunk], by rw [hdone, hbefore, hafter, hno], ?_⟩
      rw [Option.bind_some, hanswer]
      exact List.rel_append hrel (.cons (hR p rfl chunk answer hbefore hanswer) .nil)
  | tended _ htended ih =>
    have hp := ih hsound hsink hR hx
    cases htended
    exact hp

/-- A worker whose sink panics ends with that panic. -/
theorem Change.sinkPanicked {panic : Panic} (h : Change o hasHandler now move x item notes y)
    (hmove : move = some (.sinkPanics panic)) :
    ∃ q, y = some q ∧ q.feed.worker.outcome? = some (.error panic) := by
  induction h with
  | same | born | sent => cases hmove
  | moved hm =>
    obtain rfl := Option.some.inj hmove
    cases hm with
    | sinkPanicked _ _ hfeed =>
      cases hfeed
      exact ⟨_, rfl, by simp [Chunker.Worker.outcome?]⟩
  | tended _ htended ih =>
    obtain ⟨q, hq, hworker⟩ := ih hmove
    cases hq
    cases htended
    exact ⟨_, rfl, hworker⟩

end Pipeline

namespace System

variable {o : Options} {s s' : System} {a : Action} {out : Outcome} {events : List Event}
  {caller : Caller} {turns before after : History} {run : Nat} {t : Turn System Action Event}
  {result : Except Error Unit}

/-- What relates each batch to its answer when the sink answers relates all of them. -/
theorem agree_of_run {R : List Message → Answer → Prop} (h : Run step (new o) turns s)
    (hsink : SinkReturned run turns)
    (hR : ∀ t ∈ turns, ∀ p, t.before.pipelines[run]? = some p → ∀ chunk answer,
      p.unanswered = [chunk] → (t.action.move? run).bind Move.answer? = some answer →
      R chunk answer) :
    Agree R (batches run turns) (answered run turns) s.pipelines[run]? := by
  induction h with
  | nil => exact ⟨rfl, rfl⟩
  | @snoc turns s₁ s₂ a events hrun hstep ih =>
    obtain ⟨item, notes, hchange, -, hbatch, -⟩ := effect_of_step hstep run
    rw [options_of_run hrun] at hchange
    have hagree := hchange.agree (sound_of_run hrun run)
      (fun panic hmove => hsink ⟨s₁, a, events⟩ (by simp) panic (Action.move?_eq_some.mp hmove))
      (hR ⟨s₁, a, events⟩ (by simp))
      (ih (fun t ht => hsink t (by simp [ht])) fun t ht => hR t (by simp [ht]))
    rw [batches_append, answered, filterMap_concat]
    simpa [batches, answered, hbatch] using hagree

theorem flatten_batches_of_ended {p : Pipeline Caller} (h : Run step (new o) turns s)
    (hsink : SinkReturned run turns) (hp : s.pipelines[run]? = some p)
    (hended : p.feed.worker.ended = true) : (batches run turns).flatten = taken run turns := by
  have hsound := sound_of_run h run
  have haccounts := accounts_of_run h hsink
  rw [hp] at hsound haccounts
  obtain ⟨hitems, hworker⟩ := haccounts
  obtain ⟨hspent, hbatch⟩ := (hsound p rfl).1.buffer_of_ended hended hworker
  rw [hitems, Chunker.Feed.kept, hbatch, hspent.buffer]
  simp

theorem sinks_prefix (h : Run step (new o) before s) (h' : Run step (new o) (before ++ after) s') :
    s.sinks <+: s'.sinks := by
  rw [sinks_of_run h, sinks_of_run h']
  exact ⟨starts after, List.filterMap_append.symm⟩

theorem getElem?_sinks_of_run {sink : Nat} (h : Run step (new o) before s)
    (h' : Run step (new o) (before ++ after) s') (hsink : s.sinks[run]? = some sink) :
    s'.sinks[run]? = some sink := by
  obtain ⟨rest, hrest⟩ := sinks_prefix h h'
  have hlt : run < s.sinks.length := (List.getElem?_eq_some_iff.mp hsink).1
  rw [← hrest, List.getElem?_append_left hlt, hsink]

/-- The call that has stopped a run waited for the end of the worker and of the reporter, and is
told how they have ended. -/
structure Drained (s : System) (run : Nat) (p : Pipeline Caller) (result : Except Error Unit) :
    Prop where
  pipeline : s.pipelines[run]? = some p
  last : run + 1 = s.pipelines.length
  reachable : s.reachable = true
  ended : ∃ worker reporter, p.feed.worker.outcome? = some worker ∧
    p.reporter.outcome? = some reporter ∧ result = stopResult worker reporter

theorem drained_of_step (hs : s.WellFormed) (h : s.step a = some out)
    (hreply : .replied caller (.stopped result) ∈ out.2) (hfound : result ≠ .error .notRunning) :
    ∃ run p, s.Drained run p result := by
  obtain ⟨x, hdid, -⟩ := does_of_step h
  obtain ⟨run, worker, p, reporter, hcall, hp, hreporter, hresult⟩ :=
    stopped_of_did hdid hreply hfound
  obtain ⟨htaken, -, q, hq, hworker⟩ := hs.draining (Calls.mem_of_lookup hcall)
  obtain rfl := Option.some.inj (hq.symm.trans hp)
  exact ⟨run, q, hp, htaken.last, reachable_of_call hcall, worker, reporter, hworker, hreporter,
    hresult⟩

/-- When the sink and the handler have returned every time, the handler was called with all failures
and the caller is told that all went well. -/
theorem Drained.handled {p : Pipeline Caller} (hs : s.Drained run p result)
    (h : Run step (new o) before s) (hrest : Run step s after s') (hhandler : o.hasHandler = true)
    (hsink : SinkReturned run before) (hreturned : HandlerReturned run before) :
    result = .ok () ∧
      failures run (before ++ after) = (answered run (before ++ after)).flatMap Answer.failures ∧
      ∃ q, s'.pipelines[run]? = some q ∧ q.Finished := by
  obtain ⟨worker, reporter, hworker, hreporter, hresult⟩ := hs.ended
  have hconcluded : p.Concluded result := hresult ▸ concluded_of_outcomes hworker hreporter
  have hreports := reports_of_run h hhandler hs.reachable hsink hreturned
  have haccounts := accounts_of_run h hsink
  have hsound := sound_of_run h run
  rw [hs.pipeline] at hreports haccounts hsound
  have hfinished : p.Finished :=
    hreports.finished (Reporter.eq_returned (by simp [hreporter]) hreports.not_panicked)
  obtain ⟨hquiet, q, hq, hstill⟩ := quiet_of_run h hrest hs.pipeline hfinished.over
  refine ⟨?_, ?_, q, hq, hstill.finished hfinished⟩
  · cases hconcluded with
    | workerPanicked hpanic => exact absurd hpanic (haccounts.2 _)
    | reporterPanicked _ hpanic => exact absurd hpanic (hreports.not_panicked _)
    | returned => rfl
  · have hall := (hreports.all hfinished (hsound p rfl).2).1
    have hfails : failures run (before ++ after) = failures run before ++ failures run after :=
      List.flatMap_append
    have hanswers : answered run (before ++ after) = answered run before ++ answered run after :=
      List.filterMap_append
    rw [hfails, hanswers, hquiet.failures, hquiet.answered, List.append_nil, List.append_nil,
      hall]

theorem Drained.panicked {p : Pipeline Caller} {panic : Panic} (hs : s.Drained run p result)
    (h : Run step s after s') (hall : Run step (new o) turns s') (ht : t ∈ turns)
    (hpanic : t.action = .move run (.sinkPanics panic)) :
    result = .error (.chunker (.workerPanicked panic.report)) := by
  obtain ⟨worker, reporter, hworker, -, rfl⟩ := hs.ended
  obtain ⟨q, hq, hend⟩ := outcome_of_run h hs.pipeline hworker
  obtain ⟨-, rest, s₁, -, -, hstep, hrest⟩ := hall.split ht
  obtain ⟨item, notes, hchange, -⟩ := effect_of_step hstep run
  obtain ⟨q₁, hq₁, hworker₁⟩ := hchange.sinkPanicked (Action.move?_eq_some.mpr hpanic)
  obtain ⟨r, hr, hend₁⟩ := outcome_of_run hrest hq₁ hworker₁
  obtain rfl := Option.some.inj (hq.symm.trans hr)
  obtain rfl := Option.some.inj (hend.symm.trans hend₁)
  rfl

end System

end Batchflow.Enqueuer
