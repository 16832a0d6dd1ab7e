import Batchflow.Proofs.Enqueuer.Desertion
import Batchflow.Proofs.Enqueuer.Room

/-!
# Failures that nobody hears of

A failure of a batch goes to the handler, and to the log once the handler has panicked.  Between the
two lies what was in the failure channel at the moment of the panic: it goes away with the reporter,
and nobody is told of it.  All failures that the sink has answered are, in this order, those that the
handler was called with, those that went away, those that were written to the log, and those that
are still on their way.
-/

namespace Batchflow.Enqueuer

open Pipeline

variable {ι : Type}

def Event.logged? : Event → Option Verdict
  | .log (.messageFailed v) => some v
  | _ => none

def Note.logged? : Note → Option Verdict
  | .log (.messageFailed v) => some v
  | _ => none

def loggedBy (run : Nat) (t : Turn System Action Event) : List Verdict :=
  if (t.action.move? run).isSome then t.events.filterMap Event.logged? else []

/-- The failures of a run that were written to the log, in order. -/
def logged (run : Nat) (turns : History) : List Verdict := turns.flatMap (loggedBy run)

def Pipeline.discards (p : Pipeline ι) : Move → List Verdict
  | .handlerPanics _ => p.failures.buffer
  | _ => []

def discardedBy (run : Nat) (t : Turn System Action Event) : List Verdict :=
  match t.action.move? run, t.before.pipelines[run]? with
  | some m, some p => p.discards m
  | _, _ => []

/-- The failures of a run that went away unreported, in order. -/
def discarded (run : Nat) (turns : History) : List Verdict := turns.flatMap (discardedBy run)

theorem Quiet.discarded {run : Nat} {turns : History} (h : Quiet run turns) :
    discarded run turns = [] :=
  List.flatMap_eq_nil_iff.mpr fun t ht => by simp [discardedBy, h.moves t ht]

theorem Quiet.logged {run : Nat} {turns : History} (h : Quiet run turns) : logged run turns = [] :=
  List.flatMap_eq_nil_iff.mpr fun t ht => by simp [loggedBy, h.moves t ht]

theorem reported_eq_logged {notes : List Note} (h : notes.filterMap Note.failure? = []) :
    notes.filterMap Note.reported? = notes.filterMap Note.logged? := by
  refine List.filterMap_congr fun n hn => ?_
  have hno := List.filterMap_eq_nil_iff.mp h n hn
  cases n with
  | failure => simp [Note.failure?] at hno
  | log l => cases l <;> rfl
  | batch => rfl

theorem logged_answerNotes (size : Nat) (result : Except Queue.Error (List Verdict)) :
    (answerNotes size result).filterMap Note.logged? = [] := by
  cases result <;> rfl

theorem logged_lost (v : Verdict) : (Pipeline.lost v).filterMap Note.logged? = [v] := rfl

namespace Pipeline

variable {o : Options} {hasHandler : Bool} {now : Nat} {p p' q : Pipeline ι} {m : Move}
  {notes : List Note} {answers : List Answer} {handled discarded logged : List Verdict}

theorem Moved.logged_eq_nil (h : Moved o hasHandler now p m p' notes)
    (hopen : p.failures.closed = false) (hhandler : hasHandler = true) :
    notes.filterMap Note.logged? = [] := by
  cases h with
  | answered => exact logged_answerNotes _ _
  | unheard _ hsend => simp [Channel.closed_of_send_refused hsend] at hopen
  | cutOff _ hresume => simp [Channel.closed_of_resume_refused hresume] at hopen
  | logged hno => simp [hhandler] at hno
  | _ => rfl

theorem Moved.failure_eq_nil (h : Moved o hasHandler now p m p' notes) (hno : hasHandler = false) :
    notes.filterMap Note.failure? = [] := by
  cases h with
  | answered => exact failures_answerNotes _ _
  | taken hhandler => simp [hno] at hhandler
  | _ => rfl

theorem discards_eq_nil (p : Pipeline ι) (hm : ∀ panic, m ≠ .handlerPanics panic) :
    p.discards m = [] := by
  cases m with
  | handlerPanics panic => exact absurd rfl (hm panic)
  | _ => rfl

structure Shut (p : Pipeline ι) : Prop where
  closed : p.failures.closed = true
  buffer : p.failures.buffer = []
  reporter : ∃ panic, p.reporter = .panicked panic

theorem Shut.frame (h : p.Shut) (hclosed : q.failures.closed = p.failures.closed)
    (hbuffer : q.failures.buffer = p.failures.buffer) (hreporter : q.reporter = p.reporter) :
    q.Shut where
  closed := hclosed.trans h.closed
  buffer := hbuffer.trans h.buffer
  reporter := hreporter ▸ h.reporter

theorem Shut.moved (h : p.Shut) (hmoved : Moved o hasHandler now p m p' notes) : p'.Shut := by
  have hclosed := h.closed
  have hbuffer := h.buffer
  obtain ⟨late, hreporter⟩ := h.reporter
  cases hmoved with
  | worked | submitted | sinkPanicked | reported =>
    exact h.frame (closed_setFeed _ _) (buffer_setFeed _ _) (reporter_setFeed _ _)
  | answered => exact h.frame rfl rfl rfl
  | queued _ hsend => simp [(Channel.send_eq_accepted hsend).1] at hclosed
  | blocked _ hsend => simp [(Channel.send_eq_waiting hsend).1] at hclosed
  | unheard _ hsend =>
    obtain rfl := Channel.eq_of_send_refused hsend
    exact h.frame rfl rfl rfl
  | unblocked _ hresume => simp [(Channel.resume?_eq_accepted hresume).1] at hclosed
  | cutOff => exact h.frame rfl rfl rfl
  | taken _ hr | logged _ hr | endNoticed hr | handled hr | handlerPanicked _ hr =>
    simp [hr] at hreporter

theorem Shut.flow (h : p.Shut) (hp : p.Engaged) (hmoved : Moved o hasHandler now p m p' notes)
    (hsink : ∀ panic, m ≠ .sinkPanics panic) :
    notes.filterMap Note.failure? = [] ∧ p.discards m = [] ∧
      p.unhandled ++ m.answer?.toList.flatMap Answer.failures =
        notes.filterMap Note.logged? ++ p'.unhandled := by
  have hclosed := h.closed
  obtain ⟨late, hreporter⟩ := h.reporter
  cases hmoved with
  | worked => exact ⟨rfl, rfl, by simp [Pipeline.unhandled, Move.answer?]⟩
  | submitted hown hfeed =>
    have hidle := hp.mpr (isHandling_of_own hfeed hown).1
    refine ⟨rfl, rfl, ?_⟩
    simp [Pipeline.unhandled, Move.answer?, Note.logged?, hidle, Submission.pending]
  | answered batch result hsubmission =>
    refine ⟨failures_answerNotes _ _, rfl, ?_⟩
    rw [logged_answerNotes]
    simp [Pipeline.unhandled, Move.answer?, Answer.failures, hsubmission, Submission.pending]
  | sinkPanicked panic => exact absurd rfl (hsink panic)
  | reported hsubmission =>
    refine ⟨rfl, rfl, ?_⟩
    simp [Pipeline.unhandled, Move.answer?, hsubmission, Submission.pending]
  | queued _ hsend => simp [(Channel.send_eq_accepted hsend).1] at hclosed
  | blocked _ hsend => simp [(Channel.send_eq_waiting hsend).1] at hclosed
  | unheard hsubmission hsend =>
    obtain rfl := Channel.eq_of_send_refused hsend
    refine ⟨rfl, rfl, ?_⟩
    rw [logged_lost]
    simp [Pipeline.unhandled, Move.answer?, hsubmission, Submission.pending, h.buffer]
  | unblocked _ hresume => simp [(Channel.resume?_eq_accepted hresume).1] at hclosed
  | cutOff hsubmission =>
    refine ⟨rfl, rfl, ?_⟩
    rw [logged_lost]
    simp [Pipeline.unhandled, Move.answer?, hsubmission, Submission.pending, h.buffer,
      Channel.leave]
  | taken _ hr | logged _ hr | endNoticed hr | handled hr | handlerPanicked _ hr =>
    simp [hr] at hreporter

/-- The failures that the sink has answered were handled, went away, were logged or are on their
way.  They go one way only until the handler panics. -/
inductive Sifted (o : Options) (hasHandler : Bool) (answers : List Answer) :
    List Verdict → List Verdict → List Verdict → Pipeline ι → Prop
  | toHandler {handled : List Verdict} {p : Pipeline ι} : hasHandler = true → Conveyed answers handled p →
      Sifted o hasHandler answers handled [] [] p
  | toLog {logged : List Verdict} {p : Pipeline ι} : hasHandler = false → p.reporter.isHandling = false →
      Conveyed answers logged p → Sifted o hasHandler answers [] [] logged p
  | shut {handled discarded logged : List Verdict} {p : Pipeline ι} : hasHandler = true → p.Shut →
      discarded.length ≤ o.failedBufferSize →
      answers.flatMap Answer.failures = handled ++ discarded ++ logged ++ p.unhandled →
      Sifted o hasHandler answers handled discarded logged p

namespace Sifted

theorem start (o : Options) (hasHandler : Bool) (sink now : Nat) :
    Sifted o hasHandler [] [] [] [] (Pipeline.start o sink now : Pipeline ι) := by
  cases hasHandler with
  | true => exact .toHandler rfl (.start o sink now)
  | false => exact .toLog rfl rfl (.start o sink now)

theorem frame (h : Sifted o hasHandler answers handled discarded logged p)
    (hconveyed : ∀ {failures}, Conveyed answers failures p → Conveyed answers failures q)
    (hfailures : q.failures.closed = p.failures.closed ∧ q.failures.buffer = p.failures.buffer)
    (hsubmission : q.submission = p.submission) (hreporter : q.reporter = p.reporter) :
    Sifted o hasHandler answers handled discarded logged q := by
  cases h with
  | toHandler hhandler h => exact .toHandler hhandler (hconveyed h)
  | toLog hno hr h => exact .toLog hno (hreporter ▸ hr) (hconveyed h)
  | shut hhandler hshut hlength hflow =>
    refine .shut hhandler (hshut.frame hfailures.1 hfailures.2 hreporter) hlength ?_
    rw [hflow, Pipeline.unhandled, Pipeline.unhandled, hfailures.2, hsubmission]

theorem tended (h : Sifted o hasHandler answers handled discarded logged p) (ht : p.Tended q) :
    Sifted o hasHandler answers handled discarded logged q := by
  have hconveyed {failures : List Verdict} (h : Conveyed answers failures p) :
      Conveyed answers failures q := h.tended ht
  cases ht
  exact h.frame hconveyed ⟨rfl, rfl⟩ rfl rfl

theorem moved (h : Sifted o hasHandler answers handled discarded logged p) (hp : p.Engaged)
    (hhandles : p.workers ≤ p.failures.handles) (hroomed : p.Roomed o)
    (hmoved : Moved o hasHandler now p m p' notes) (hsink : ∀ panic, m ≠ .sinkPanics panic) :
    Sifted o hasHandler (answers ++ m.answer?.toList) (handled ++ notes.filterMap Note.failure?)
      (discarded ++ p.discards m) (logged ++ notes.filterMap Note.logged?) p' := by
  cases h with
  | shut hhandler hshut hlength hflow =>
    obtain ⟨hfailure, hdiscards, hrest⟩ := hshut.flow hp hmoved hsink
    rw [hfailure, hdiscards, List.append_nil, List.append_nil]
    refine .shut hhandler (hshut.moved hmoved) hlength ?_
    rw [List.flatMap_append, hflow, List.append_assoc, hrest, ← List.append_assoc,
      ← List.append_assoc]
  | toLog hno hr h =>
    have hm : ∀ panic, m ≠ .handlerPanics panic := by
      rintro panic rfl
      cases hmoved with
      | handlerPanicked _ hhandling => simp [hhandling, Reporter.isHandling] at hr
    have hafter : p'.reporter.isHandling = false := by
      rw [Bool.eq_false_iff]
      intro hhandling
      rcases hmoved.isHandling hhandling with hhandler | hbefore
      · simp [hno] at hhandler
      · simp [hr] at hbefore
    have hconveyed := h.moved hp hhandles hmoved hsink hm
    rw [reported_eq_logged (hmoved.failure_eq_nil hno)] at hconveyed
    rw [hmoved.failure_eq_nil hno, p.discards_eq_nil hm]
    exact .toLog hno hafter hconveyed
  | toHandler hhandler h =>
    by_cases hm : ∀ panic, m ≠ .handlerPanics panic
    · have hconveyed := h.moved hp hhandles hmoved hsink hm
      rw [hmoved.reported_eq h.opened hhandler] at hconveyed
      rw [hmoved.logged_eq_nil h.opened hhandler, p.discards_eq_nil hm]
      exact .toHandler hhandler hconveyed
    · obtain ⟨panic, rfl⟩ : ∃ panic, m = .handlerPanics panic := by simpa using hm
      have hcapacity := hroomed.failures.capacity
      have hflow := h.flow
      cases hmoved with
      | handlerPanicked _ hhandling =>
        refine .shut hhandler ⟨rfl, rfl, panic, rfl⟩ ?_ ?_
        · simp only [Channel.capacity] at hcapacity
          simp only [List.nil_append, Pipeline.discards]
          omega
        · simpa [Pipeline.discards, Pipeline.unhandled, Move.answer?, Channel.discard] using hflow

/-- When the worker and the reporter have ended, nothing is on its way any more. -/
theorem ended (h : Sifted o hasHandler answers handled discarded logged p) (hp : p.Engaged)
    (hover : p.Over) :
    answers.flatMap Answer.failures = handled ++ discarded ++ logged ∧
      discarded.length ≤ o.failedBufferSize ∧
      (p.reporter = .returned → discarded = [] ∧ (hasHandler = true → logged = [])) := by
  have hidle := hp.idle_of_ended hover.worker
  have hconveyed {failures : List Verdict} (h : Conveyed answers failures p) :
      answers.flatMap Answer.failures = failures := by
    have hreporter := Reporter.eq_returned hover.reporter h.not_panicked
    simpa only [Pipeline.unhandled, (h.finished hreporter).buffer, hidle, Submission.pending,
      List.append_nil] using h.flow
  cases h with
  | toHandler _ h => exact ⟨by simpa using hconveyed h, Nat.zero_le _, fun _ => ⟨rfl, fun _ => rfl⟩⟩
  | toLog hno _ h =>
    exact ⟨by simpa using hconveyed h, Nat.zero_le _, fun _ => ⟨rfl, by simp [hno]⟩⟩
  | shut _ hshut hlength hflow =>
    refine ⟨?_, hlength, fun hreturned => ?_⟩
    · simpa only [Pipeline.unhandled, hshut.buffer, hidle, Submission.pending,
        List.append_nil] using hflow
    · obtain ⟨panic, hpanic⟩ := hshut.reporter
      simp [hreturned] at hpanic

end Sifted

def Sifts (o : Options) (hasHandler : Bool) (answers : List Answer)
    (handled discarded logged : List Verdict) : Option (Pipeline Caller) → Prop
  | none => answers = [] ∧ handled = [] ∧ discarded = [] ∧ logged = []
  | some p => Sifted o hasHandler answers handled discarded logged p

/-- What is no move of a pipeline leaves its failures alone, and nothing is seen of it. -/
theorem Change.sifts {move : Option Move} {x y : Option (Pipeline Caller)}
    {item : Option Message} (h : Change o hasHandler now move x item notes y) (hmove : move = none)
    (hx : Sifts o hasHandler answers handled discarded logged x) :
    notes = [] ∧ Sifts o hasHandler answers handled discarded logged y := by
  induction h with
  | same => exact ⟨rfl, hx⟩
  | born sink =>
    obtain ⟨rfl, rfl, rfl, rfl⟩ := hx
    exact ⟨rfl, .start o hasHandler sink now⟩
  | @sent p taken c =>
    exact ⟨rfl, hx.frame (fun h => h.withChannel c) ⟨rfl, rfl⟩ rfl rfl⟩
  | moved => cases hmove
  | tended _ htended ih =>
    obtain ⟨hnotes, hp⟩ := ih hmove hx
    exact ⟨hnotes, hp.tended htended⟩

theorem over_of_outcomes {worker reporter : Except Panic Unit}
    (hworker : p.feed.worker.outcome? = some worker)
    (hreporter : p.reporter.outcome? = some reporter) : p.Over where
  worker := Chunker.Worker.ended_of_outcome hworker
  reporter := by simp [hreporter]

end Pipeline

namespace System

variable {o : Options} {s s' : System} {a : Action} {events : List Event}
  {turns before after : History} {run : Nat}

theorem loggedBy_move (s : System) (run : Nat) (m : Move) (notes : List Note) :
    loggedBy run ⟨s, .move run m, notes.map (Event.ofNote run)⟩ = notes.filterMap Note.logged? := by
  rw [loggedBy, if_pos (by simp [Action.move?]), List.filterMap_map]
  refine List.filterMap_congr fun n _ => ?_
  cases n with
  | log l => cases l <;> rfl
  | batch | failure => rfl

theorem failures_ofNote (run : Nat) (notes : List Note) :
    (notes.map (Event.ofNote run)).filterMap (Event.failure? run) =
      notes.filterMap Note.failure? := by
  rw [List.filterMap_map]
  refine List.filterMap_congr fun n _ => ?_
  cases n <;> simp [Event.ofNote, Event.failure?, Note.failure?]

/-- As long as somebody can get at the enqueuer, all failures of a run are accounted for. -/
theorem sifts_of_run (h : Run step (new o) turns s) (hs : s.reachable = true)
    (hsink : SinkReturned run turns) :
    Sifts o o.hasHandler (answered run turns) (failures run turns) (discarded run turns)
      (logged run turns) s.pipelines[run]? := by
  induction h with
  | nil => exact ⟨rfl, rfl, rfl, rfl⟩
  | @snoc turns s₁ s₂ a events hrun hstep ih =>
    have hreachable := reachable_of_step hstep hs
    have hbefore := ih hreachable fun t ht => hsink t (by simp [ht])
    have hfailures : failures run (turns ++ [⟨s₁, a, events⟩]) =
        failures run turns ++ events.filterMap (Event.failure? run) := by
      simp [failures]
    have hdiscarded : discarded run (turns ++ [⟨s₁, a, events⟩]) =
        discarded run turns ++ discardedBy run ⟨s₁, a, events⟩ := by
      simp [discarded]
    have hlogged : logged run (turns ++ [⟨s₁, a, events⟩]) =
        logged run turns ++ loggedBy run ⟨s₁, a, events⟩ := by
      simp [logged]
    rw [answered, filterMap_concat, hfailures, hdiscarded, hlogged]
    cases hmove : a.move? run with
    | none =>
      obtain ⟨item, notes, hchange, -, -, hfailure⟩ := effect_of_step hstep run
      rw [options_of_run hrun, hreachable, Bool.and_true] at hchange
      obtain ⟨rfl, hafter⟩ := hchange.sifts hmove hbefore
      simpa [hfailure, discardedBy, loggedBy, hmove, answered] using hafter
    | some m =>
      obtain rfl := Action.move?_eq_some.mp hmove
      obtain ⟨p, p', notes, hp, -, hm, hout⟩ := moved_of_move hstep
      obtain ⟨rfl, rfl⟩ := Prod.mk.inj hout
      have hmodified : (s₁.modifyPipeline run fun _ => p').pipelines[run]? = some p' := by
        simp [modifyPipeline, hp]
      obtain ⟨q, hq, htended⟩ := (s₁.modifyPipeline run fun _ => p').tended_release.exists_right
        hmodified
      have hdiscards : discardedBy run ⟨s₁, .move run m, notes.map (Event.ofNote run)⟩ =
          p.discards m := by
        simp [discardedBy, hmove, hp]
      rw [options_of_run hrun, hreachable, Bool.and_true] at hm
      rw [hp] at hbefore
      rw [hq, loggedBy_move, failures_ofNote, hdiscards]
      have hsifted := hbefore.moved (sound_of_run hrun run p hp).2
        ((wellFormed_of_run hrun).workers_le hp) (roomed_of_run hrun run p hp) hm
        fun panic hpanic => hsink _ (List.mem_append_right _ List.mem_cons_self) panic
          (congrArg (Action.move run) hpanic)
      simpa [answered, hmove, Sifts] using hsifted.tended htended

theorem discarded_eq_nil (hreturned : HandlerReturned run turns) : discarded run turns = [] := by
  refine List.flatMap_eq_nil_iff.mpr fun t ht => ?_
  unfold discardedBy
  split
  · rename_i m p hmove _
    refine p.discards_eq_nil ?_
    rintro panic rfl
    exact hreturned t ht panic (Action.move?_eq_some.mp hmove)
  · rfl

/-- When a stop that found the enqueuer running has returned, the sink has answered every batch of the
run, and each failure among its answers has gone one way, once and in order: first those that the
handler was called with, then those that were in the failure channel when the handler panicked, then
those that were written to the log.  What was in the channel went away with it, and nobody is told;
that is as many as have room there at most.  It happens only if the handler has panicked, and then
the caller is told so. -/
theorem failures_handled_or_discarded {o : Options} {before after : History} {s : System}
    {t : Turn System Action Event} {caller : Caller} {result : Except Error Unit}
    (h : Run step (new o) (before ++ t :: after) s)
    (hreply : .replied caller (.stopped result) ∈ t.events)
    (hfound : result ≠ .error .notRunning) (hsinks : ∀ run, SinkReturned run before) :
    ∃ run, t.before.pipelines.length = run + 1 ∧
      List.Forall₂ (fun ms a => a.batch.length = ms.length) (batches run before)
        (answered run before) ∧
      (answered run before).flatMap Answer.failures =
        failures run before ++ discarded run before ++ logged run before ∧
      (discarded run before).length ≤ o.failedBufferSize ∧
      (HandlerReturned run before → discarded run before = []) ∧
      (result = .ok () ∧ discarded run before = [] ∧ (o.hasHandler = true → logged run before = []) ∨
        ∃ panic : Panic, result = .error (.handlerPanicked panic.report)) ∧
      batches run (t :: after) = [] ∧ answered run (t :: after) = [] ∧
        failures run (t :: after) = [] ∧ discarded run (t :: after) = [] ∧
        logged run (t :: after) = [] := by
  rw [List.append_cons] at h
  obtain ⟨s₁, hupto, hafter⟩ := h.cut
  obtain ⟨hbefore, hstep⟩ := hupto.snoc_inv
  obtain ⟨run, p, hdrained⟩ := drained_of_step (wellFormed_of_run hbefore) hstep hreply hfound
  obtain ⟨worker, reporter, hworker, hreporter, hresult⟩ := hdrained.ended
  have hover : p.Over := over_of_outcomes hworker hreporter
  have hconcluded : p.Concluded result := hresult ▸ concluded_of_outcomes hworker hreporter
  have hsifted := sifts_of_run hbefore hdrained.reachable (hsinks run)
  have haccounts := accounts_of_run hbefore (hsinks run)
  have hanswers := answers_of_run hbefore (hsinks run)
  have hsound := sound_of_run hbefore run p hdrained.pipeline
  rw [hdrained.pipeline] at hsifted haccounts hanswers
  obtain ⟨hflow, hlength, hreturned⟩ := hsifted.ended hsound.2 hover
  obtain ⟨hquiet, -⟩ :=
    quiet_of_run hbefore ((Run.of_step hstep).append hafter) hdrained.pipeline hover
  refine ⟨run, hdrained.last.symm, ?_, hflow, hlength, discarded_eq_nil, ?_, hquiet.batches,
    hquiet.answered, hquiet.failures, hquiet.discarded, hquiet.logged⟩
  · obtain ⟨done, hdone, hsizes⟩ := hanswers
    rw [unanswered_of_ne (by simp [hsound.2.idle_of_ended hover.worker]), List.append_nil] at hdone
    exact hdone ▸ hsizes
  · cases hconcluded with
    | workerPanicked hpanic => exact absurd hpanic (haccounts.2 _)
    | reporterPanicked => exact .inr ⟨_, rfl⟩
    | returned _ hr => exact .inl ⟨rfl, hreturned hr⟩

/-- Whole batches of three, and one place in the failure channel. -/
def tripleOptions : Options :=
  { bufferSize := 4, batchSize := 3, failedBufferSize := 1, hasHandler := true }

/-- Three messages fail together.  The handler panics on the first while the second is in the failure
channel and the worker waits for room for the third. -/
def panickedRun : List Action :=
  [.start (.client 0) 7, .enqueue (.client 1) (letter "a"), .enqueue (.client 1) (letter "b"),
    .enqueue (.client 1) (letter "c"), .move 0 (.worker .receive), .move 0 (.worker .receive),
    .move 0 (.worker .receive),
    .move 0 (.sinkReturns [letter "a", letter "b", letter "c"] (.error .cancelled)),
    .move 0 .report, .move 0 .report, .move 0 .take, .move 0 .report, .move 0 .report,
    .move 0 (.handlerPanics (.text "h")), .move 0 .report, .move 0 .report,
    .stop (.client 0), .move 0 (.worker .noticeStop), .move 0 (.worker .finish),
    .resume (.client 0)]

def isHandlerPanicked (e : Event) : Bool :=
  match e with
  | .replied (.client 0) (.stopped (.error (.handlerPanicked _))) => true
  | _ => false

theorem replied_of_isHandlerPanicked (h : events.any isHandlerPanicked = true) :
    ∃ report, .replied (.client 0) (.stopped (.error (.handlerPanicked report))) ∈ events := by
  obtain ⟨e, he, hpanicked⟩ := List.any_eq_true.mp h
  unfold isHandlerPanicked at hpanicked
  split at hpanicked
  · exact ⟨_, he⟩
  · contradiction

/-- The second of the three failures. -/
def untoldFailure : Verdict := .failed (letter "b") false "queue operation cancelled"

theorem panickedRun_seen : ∃ before s₀ out,
    replay step (new tripleOptions) panickedRun = some (before, s₀) ∧
      step s₀ (.resume (.client 0)) = some out ∧ out.2.any isHandlerPanicked = true ∧
      s₀.pipelines.length = 1 ∧
      untoldFailure ∈ (answered 0 before).flatMap Answer.failures ∧
      (failures 0 before).map (·.message) = [letter "a"] ∧
      discarded 0 before = [untoldFailure] ∧
      (logged 0 before).map (·.message) = [letter "c"] ∧
      ∀ u ∈ before ++ [⟨s₀, .resume (.client 0), out.2⟩],
        untoldFailure ∉ u.events.filterMap Event.reported? := by
  have hseen : ((replay step (new tripleOptions) panickedRun).bind fun r =>
      (step r.2 (.resume (.client 0))).map fun out =>
        (decide (out.2.any isHandlerPanicked = true ∧ r.2.pipelines.length = 1 ∧
            untoldFailure ∈ (answered 0 r.1).flatMap Answer.failures),
          decide ((failures 0 r.1).map (·.message) = [letter "a"] ∧
            discarded 0 r.1 = [untoldFailure] ∧
            (logged 0 r.1).map (·.message) = [letter "c"]),
          (r.1 ++ [Turn.mk r.2 (Action.resume (.client 0)) out.2]).all fun u =>
            decide (untoldFailure ∉ u.events.filterMap Event.reported?))) =
      some (true, true, true) := by
    decide +kernel
  obtain ⟨⟨before, s₀⟩, hbefore, hseen⟩ := Option.bind_eq_some_iff.mp hseen
  obtain ⟨out, hstep, hseen⟩ := Option.map_eq_some_iff.mp hseen
  simp only [Prod.mk.injEq, decide_eq_true_eq] at hseen
  obtain ⟨⟨htold, hlength, hfailed⟩, ⟨hhandled, hdiscarded, hlogged⟩, hall⟩ := hseen
  exact ⟨before, s₀, out, hbefore, hstep, htold, hlength, hfailed, hhandled, hdiscarded, hlogged,
    fun u hu => of_decide_eq_true (List.all_eq_true.mp hall u hu)⟩

theorem sinkReturned_panickedRun {before : History} {s₀ : System}
    (h : replay step (new tripleOptions) panickedRun = some (before, s₀)) (run : Nat) :
    SinkReturned run before := by
  intro t ht panic ha
  have hmem := Run.action_mem_of_replay h ht
  simp [panickedRun, ha] at hmem

theorem failures_handled_or_discarded_panickedRun : ∃ before t s report,
    Run step (new tripleOptions) (before ++ [t]) s ∧
      .replied (.client 0) (.stopped (.error (.handlerPanicked report))) ∈ t.events ∧
      (∀ run, SinkReturned run before) ∧
      (failures 0 before).map (·.message) = [letter "a"] ∧
      (discarded 0 before).map (·.message) = [letter "b"] ∧
      (logged 0 before).map (·.message) = [letter "c"] ∧
      (answered 0 before).flatMap Answer.failures =
        failures 0 before ++ discarded 0 before ++ logged 0 before := by
  obtain ⟨before, s₀, out, hreplay, hstep, htold, hlength, -, hhandled, hdiscarded, hlogged, -⟩ :=
    panickedRun_seen
  obtain ⟨report, hreply⟩ := replied_of_isHandlerPanicked htold
  have hrun := (Run.of_replay hreplay).snoc hstep
  have hsinks := sinkReturned_panickedRun hreplay
  obtain ⟨run, hlast, -, hflow, -⟩ := failures_handled_or_discarded hrun hreply (by simp) hsinks
  obtain rfl : run = 0 := by
    rw [hlength] at hlast
    omega
  exact ⟨before, _, out.1, report, hrun, hreply, hsinks, hhandled, by rw [hdiscarded]; rfl, hlogged,
    hflow⟩

/-- The sink has refused the message, and neither the handler nor the log hears of it. -/
theorem unreported_panickedRun : ∃ before t s report,
    Run step (new tripleOptions) (before ++ [t]) s ∧
      .replied (.client 0) (.stopped (.error (.handlerPanicked report))) ∈ t.events ∧
      (∀ run, SinkReturned run before) ∧
      untoldFailure ∈ (answered 0 before).flatMap Answer.failures ∧
      ∀ u ∈ before ++ [t], untoldFailure ∉ u.events.filterMap Event.reported? := by
  obtain ⟨before, s₀, out, hreplay, hstep, htold, -, hfailed, -, -, -, hall⟩ := panickedRun_seen
  obtain ⟨report, hreply⟩ := replied_of_isHandlerPanicked htold
  exact ⟨before, _, out.1, report, (Run.of_replay hreplay).snoc hstep, hreply,
    sinkReturned_panickedRun hreplay, hfailed, hall⟩

end System

end Batchflow.Enqueuer
