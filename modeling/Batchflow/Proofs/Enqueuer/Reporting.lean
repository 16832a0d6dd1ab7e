import Batchflow.Proofs.Enqueuer.History

/-!
# How failures reach their handler

The sink answers a batch, the worker puts the failures of the answer into a channel, and the
reporter takes them from there to the handler.  All failures that the sink has answered are, in
this order, those that the handler was called with, those in the channel, and those that the worker
has still to report.  The reporter ends only when the worker has ended and the channel is empty.
-/

namespace Batchflow.Enqueuer

variable {ι : Type}

/-- What the sink answered, with the batch as it left it. -/
structure Answer where
  batch : List Message
  result : Except Queue.Error (List Verdict)
  deriving DecidableEq

def Answer.failures (a : Answer) : List Verdict := failuresOfAnswer a.batch a.result

def Move.answer? : Move → Option Answer
  | .sinkReturns batch result => some { batch, result }
  | _ => none

/-- The failure that goes to the handler or to the log. -/
def Note.reported? : Note → Option Verdict
  | .failure v => some v
  | .log (.messageFailed v) => some v
  | _ => none

def Move.isReturn : Move → Bool
  | .handlerReturns => true
  | _ => false

theorem Reporter.eq_returned {r : Reporter} (h : r.outcome?.isSome = true)
    (hnot : ∀ panic, r ≠ .panicked panic) : r = .returned := by
  cases r with
  | returned => rfl
  | panicked panic => exact absurd rfl (hnot panic)
  | waiting | handling => simp [outcome?] at h

/-- The failures that the worker has still to report. -/
def Submission.pending : Submission → List Verdict
  | .reporting rest => rest
  | .blocked v rest => v :: rest
  | _ => []

namespace Pipeline

/-- The batch that the sink has not answered yet. -/
def unanswered (p : Pipeline ι) : List (List Message) :=
  match p.submission, p.feed.worker with
  | .submitting, .handling chunk _ => [chunk]
  | _, _ => []

/-- The failures that are on their way to the handler, oldest first. -/
def unhandled (p : Pipeline ι) : List Verdict := p.failures.buffer ++ p.submission.pending

def busy (p : Pipeline ι) : Nat := if p.reporter.isHandling then 1 else 0

structure Over (p : Pipeline ι) : Prop where
  worker : p.feed.worker.ended = true
  reporter : p.reporter.outcome?.isSome = true

/-- Nothing is left to report, now or later. -/
structure Finished (p : Pipeline ι) : Prop where
  reporter : p.reporter = .returned
  worker : p.feed.worker.ended = true
  buffer : p.failures.buffer = []

structure Still (p q : Pipeline ι) : Prop where
  worker : q.feed.worker = p.feed.worker
  reporter : q.reporter = p.reporter
  buffer : q.failures.buffer = p.failures.buffer

variable {o : Options} {hasHandler : Bool} {now : Nat} {p p' q r : Pipeline ι} {m : Move}
  {notes : List Note}

theorem Finished.over (h : p.Finished) : p.Over where
  worker := h.worker
  reporter := by simp [h.reporter, Reporter.outcome?]

theorem Still.refl (p : Pipeline ι) : p.Still p := ⟨rfl, rfl, rfl⟩

theorem Still.trans (h : p.Still q) (h' : q.Still r) : p.Still r :=
  ⟨h'.worker.trans h.worker, h'.reporter.trans h.reporter, h'.buffer.trans h.buffer⟩

theorem Still.over (h : p.Still q) (hp : p.Over) : q.Over :=
  ⟨h.worker ▸ hp.worker, h.reporter ▸ hp.reporter⟩

theorem Still.finished (h : p.Still q) (hp : p.Finished) : q.Finished :=
  ⟨h.reporter.trans hp.reporter, h.worker ▸ hp.worker, h.buffer.trans hp.buffer⟩

theorem still_withChannel (p : Pipeline ι) (c : Channel ι Message) :
    p.Still { p with feed := { p.feed with channel := c } } := ⟨rfl, rfl, rfl⟩

theorem Tended.still (h : p.Tended q) : p.Still q := by
  cases h
  exact ⟨rfl, rfl, rfl⟩

@[simp] theorem buffer_setFeed (p : Pipeline ι) (feed : Chunker.Feed ι Message) :
    (p.setFeed feed).failures.buffer = p.failures.buffer := by
  unfold setFeed
  split <;> rfl

@[simp] theorem closed_setFeed (p : Pipeline ι) (feed : Chunker.Feed ι Message) :
    (p.setFeed feed).failures.closed = p.failures.closed := by
  unfold setFeed
  split <;> rfl

theorem reported_answerNotes (size : Nat) (result : Except Queue.Error (List Verdict)) :
    (answerNotes size result).filterMap Note.reported? = [] := by
  cases result <;> rfl

theorem failures_answerNotes (size : Nat) (result : Except Queue.Error (List Verdict)) :
    (answerNotes size result).filterMap Note.failure? = [] := by
  cases result <;> rfl

theorem unanswered_of_ne {p : Pipeline ι} (h : p.submission ≠ .submitting) : p.unanswered = [] := by
  unfold unanswered
  split
  · exact absurd ‹_› h
  · rfl

theorem handling_of_own {f f' : Chunker.Feed ι Message} {k : Chunker.Move} {co : Chunker.Options}
    {batch : List Message} (h : f.Moved co now k f' (some batch)) :
    ∃ resume, f'.worker = .handling batch resume := by
  cases h <;> exact ⟨_, rfl⟩

/-- The sink answers the batch that it was called with, and the batch keeps its size. -/
theorem Moved.unanswered (h : Moved o hasHandler now p m p' notes) (hp : p.Engaged)
    (hm : ∀ panic, m ≠ .sinkPanics panic) :
    (m.answer? = none ∧ p'.unanswered = p.unanswered ++ notes.filterMap Note.batch?) ∨
      ∃ chunk answer, m.answer? = some answer ∧ answer.batch.length = chunk.length ∧
        p.unanswered = [chunk] ∧ p'.unanswered = [] ∧ notes.filterMap Note.batch? = [] := by
  cases h with
  | worked hown hfeed =>
    have hidle := hp.mpr (isHandling_of_own hfeed hown).1
    refine .inl ⟨rfl, ?_⟩
    rw [unanswered_of_ne (by simp [hidle]), unanswered_of_ne (by simp [hidle])]
    rfl
  | submitted hown hfeed =>
    have hidle := hp.mpr (isHandling_of_own hfeed hown).1
    obtain ⟨resume, hworker⟩ := handling_of_own hfeed
    refine .inl ⟨rfl, ?_⟩
    rw [unanswered_of_ne (p := p) (by simp [hidle])]
    simp [Pipeline.unanswered, hworker, Note.batch?]
  | answered batch result hsubmission hworker hlength =>
    refine .inr ⟨_, ⟨batch, result⟩, rfl, hlength, ?_, unanswered_of_ne (by simp), ?_⟩
    · simp [Pipeline.unanswered, hsubmission, hworker]
    · cases result <;> rfl
  | sinkPanicked panic => exact absurd rfl (hm panic)
  | reported hsubmission | queued hsubmission | blocked hsubmission | unheard hsubmission
  | unblocked hsubmission | cutOff hsubmission =>
    refine .inl ⟨rfl, ?_⟩
    rw [unanswered_of_ne (by simp), unanswered_of_ne (by simp [hsubmission])]
    rfl
  | taken | logged | endNoticed | handled | handlerPanicked =>
    exact .inl ⟨rfl, (List.append_nil _).symm⟩

/-- A failure channel that is open takes what the worker sends, or lets it wait. -/
theorem Moved.unreported (h : Moved o hasHandler now p m p' notes) (hp : p.Engaged)
    (hopen : p.failures.closed = false) (hsink : ∀ panic, m ≠ .sinkPanics panic)
    (hm : ∀ panic, m ≠ .handlerPanics panic) :
    p.unhandled ++ m.answer?.toList.flatMap Answer.failures =
      notes.filterMap Note.reported? ++ p'.unhandled := by
  cases h with
  | worked => simp [Pipeline.unhandled, Move.answer?]
  | submitted hown hfeed =>
    have hidle := hp.mpr (isHandling_of_own hfeed hown).1
    simp [Pipeline.unhandled, Move.answer?, Note.reported?, hidle, Submission.pending]
  | answered batch result hsubmission =>
    rw [reported_answerNotes]
    simp [Pipeline.unhandled, Move.answer?, Answer.failures, hsubmission, Submission.pending]
  | sinkPanicked panic => exact absurd rfl (hsink panic)
  | reported hsubmission =>
    simp [Pipeline.unhandled, Move.answer?, hsubmission, Submission.pending]
  | queued hsubmission hsend | blocked hsubmission hsend =>
    have hbuffer := (Channel.sent_of_send hsend).buffer
    simp [Pipeline.unhandled, Move.answer?, hsubmission, Submission.pending, hbuffer,
      Channel.Arrival.taken]
  | unheard _ hsend =>
    rw [Channel.closed_of_send_refused hsend] at hopen
    contradiction
  | unblocked hsubmission =>
    simp [Pipeline.unhandled, Move.answer?, hsubmission, Submission.pending, Channel.fill]
  | cutOff _ hresume =>
    rw [Channel.closed_of_resume_refused hresume] at hopen
    contradiction
  | taken _ _ hreceive | logged _ _ hreceive =>
    simp [Pipeline.unhandled, Move.answer?, Note.reported?, (Channel.receive?_eq_some hreceive).1]
  | endNoticed | handled => simp [Pipeline.unhandled, Move.answer?]
  | handlerPanicked panic => exact absurd rfl (hm panic)

theorem Moved.reported_eq (h : Moved o hasHandler now p m p' notes)
    (hopen : p.failures.closed = false) (hhandler : hasHandler = true) :
    notes.filterMap Note.reported? = notes.filterMap Note.failure? := by
  cases h with
  | answered => rw [reported_answerNotes, failures_answerNotes]
  | unheard _ hsend => simp [Channel.closed_of_send_refused hsend] at hopen
  | cutOff _ hresume => simp [Channel.closed_of_resume_refused hresume] at hopen
  | logged hno => simp [hhandler] at hno
  | _ => rfl

theorem Moved.busy (h : Moved o hasHandler now p m p' notes)
    (hm : ∀ panic, m ≠ .handlerPanics panic) :
    (notes.filterMap Note.failure?).length + p.busy = m.isReturn.toNat + p'.busy := by
  cases h with
  | answered => simp [failures_answerNotes, Move.isReturn, Pipeline.busy]
  | taken _ hreporter =>
    simp [Note.failure?, Move.isReturn, Pipeline.busy, hreporter, Reporter.isHandling]
  | endNoticed hreporter | handled hreporter =>
    simp [Move.isReturn, Pipeline.busy, hreporter, Reporter.isHandling]
  | handlerPanicked panic => exact absurd rfl (hm panic)
  | _ => simp [Note.failure?, lost, Move.isReturn, Pipeline.busy]

theorem Moved.closed (h : Moved o hasHandler now p m p' notes)
    (hm : ∀ panic, m ≠ .handlerPanics panic) : p'.failures.closed = p.failures.closed := by
  cases h with
  | worked | submitted | sinkPanicked | reported => exact closed_setFeed _ _
  | queued _ hsend | blocked _ hsend | unheard _ hsend => exact (Channel.sent_of_send hsend).closed
  | taken _ _ hreceive | logged _ _ hreceive => exact Channel.closed_receive hreceive
  | handlerPanicked panic => exact absurd rfl (hm panic)
  | _ => rfl

theorem Moved.not_panicked (h : Moved o hasHandler now p m p' notes)
    (hm : ∀ panic, m ≠ .handlerPanics panic) (hp : ∀ panic, p.reporter ≠ .panicked panic) :
    ∀ panic, p'.reporter ≠ .panicked panic := by
  cases h with
  | worked | submitted | sinkPanicked | reported => simpa using hp
  | handlerPanicked panic => exact absurd rfl (hm panic)
  | _ => first | exact hp | simp

theorem Moved.finished (h : Moved o hasHandler now p m p' notes)
    (hopen : p.failures.closed = false) (hhandles : p.workers ≤ p.failures.handles)
    (hbefore : p.reporter ≠ .returned) (hafter : p'.reporter = .returned) : p'.Finished := by
  cases h with
  | endNoticed _ hend =>
    obtain ⟨hnone, -, -⟩ := Channel.deserted_of_exhausted hend hopen
    rw [hnone, Nat.le_zero, workers] at hhandles
    exact ⟨rfl, by simpa using hhandles, (Channel.exhausted_iff.mp hend).1.1⟩
  | worked | submitted | sinkPanicked | reported => exact absurd (by simpa using hafter) hbefore
  | taken | handled | handlerPanicked => simp at hafter
  | _ => exact absurd hafter hbefore

theorem Over.not_moved (hp : p.Over) (hengaged : p.Engaged) :
    ¬ Moved o hasHandler now p m p' notes := by
  have hidle := hengaged.idle_of_ended hp.worker
  have hreporter := hp.reporter
  have hworker := hp.worker
  intro h
  cases h with
  | worked _ hfeed | submitted _ hfeed => simp [hfeed.not_ended] at hworker
  | taken _ hr | logged _ hr | endNoticed hr | handled hr | handlerPanicked _ hr =>
    simp [hr, Reporter.outcome?] at hreporter
  | _ => simp_all

variable {batches : List (List Message)} {answers : List Answer} {failures : List Verdict}
  {returned : Nat}

/-- What the sink has answered and what was reported agree with where a pipeline is. -/
structure Conveyed (answers : List Answer) (failures : List Verdict) (p : Pipeline ι) : Prop where
  flow : answers.flatMap Answer.failures = failures ++ p.unhandled
  opened : p.failures.closed = false
  not_panicked : ∀ panic, p.reporter ≠ .panicked panic
  finished : p.reporter = .returned → p.Finished

namespace Conveyed

theorem start (o : Options) (sink now : Nat) :
    Conveyed [] [] (Pipeline.start o sink now : Pipeline ι) where
  flow := rfl
  opened := rfl
  not_panicked := by simp [Pipeline.start]
  finished := by simp [Pipeline.start]

theorem tended (h : Conveyed answers failures p) (ht : p.Tended q) :
    Conveyed answers failures q := by
  have hstill := ht.still
  cases ht
  exact ⟨h.flow, h.opened, h.not_panicked, fun hr => hstill.finished (h.finished hr)⟩

theorem withChannel (h : Conveyed answers failures p) (c : Channel ι Message) :
    Conveyed answers failures { p with feed := { p.feed with channel := c } } :=
  ⟨h.flow, h.opened, h.not_panicked, fun hr => (p.still_withChannel c).finished (h.finished hr)⟩

theorem moved (h : Conveyed answers failures p) (hp : p.Engaged)
    (hhandles : p.workers ≤ p.failures.handles) (hmoved : Moved o hasHandler now p m p' notes)
    (hsink : ∀ panic, m ≠ .sinkPanics panic) (hm : ∀ panic, m ≠ .handlerPanics panic) :
    Conveyed (answers ++ m.answer?.toList) (failures ++ notes.filterMap Note.reported?) p' where
  flow := by
    rw [List.flatMap_append, h.flow, List.append_assoc, hmoved.unreported hp h.opened hsink hm,
      List.append_assoc]
  opened := (hmoved.closed hm).trans h.opened
  not_panicked := hmoved.not_panicked hm h.not_panicked
  finished := by
    intro hafter
    by_cases hbefore : p.reporter = .returned
    · exact absurd hmoved ((h.finished hbefore).over.not_moved hp)
    · exact hmoved.finished h.opened hhandles hbefore hafter

end Conveyed

/-- The batches that the sink was called with, what it answered, the failures that the handler was
called with and the number of its calls that have returned agree with where a pipeline is. -/
structure Reported (batches : List (List Message)) (answers : List Answer)
    (failures : List Verdict) (returned : Nat) (p : Pipeline ι) : Prop
    extends Conveyed answers failures p where
  answered : ∃ done, batches = done ++ p.unanswered ∧
    List.Forall₂ (fun ms a => a.batch.length = ms.length) done answers
  calls : failures.length = returned + p.busy

theorem Reported.start (o : Options) (sink now : Nat) :
    Reported [] [] [] 0 (Pipeline.start o sink now : Pipeline ι) where
  toConveyed := .start o sink now
  answered := ⟨[], rfl, .nil⟩
  calls := rfl

theorem Reported.tended (h : Reported batches answers failures returned p) (ht : p.Tended q) :
    Reported batches answers failures returned q := by
  have hconveyed := h.toConveyed.tended ht
  cases ht
  exact ⟨hconveyed, h.answered, h.calls⟩

theorem Reported.moved (h : Reported batches answers failures returned p) (hp : p.Engaged)
    (hhandles : p.workers ≤ p.failures.handles) (hmoved : Moved o true now p m p' notes)
    (hsink : ∀ panic, m ≠ .sinkPanics panic) (hm : ∀ panic, m ≠ .handlerPanics panic) :
    Reported (batches ++ notes.filterMap Note.batch?) (answers ++ m.answer?.toList)
      (failures ++ notes.filterMap Note.failure?) (returned + m.isReturn.toNat) p' where
  toConveyed := by
    rw [← hmoved.reported_eq h.opened rfl]
    exact h.toConveyed.moved hp hhandles hmoved hsink hm
  answered := by
    obtain ⟨done, hdone, hsizes⟩ := h.answered
    rcases hmoved.unanswered hp hsink with ⟨hno, hafter⟩ | ⟨chunk, answer, ha, hsize, hb, ha', hno⟩
    · refine ⟨done, ?_, by simpa [hno] using hsizes⟩
      rw [hdone, hafter, List.append_assoc]
    · refine ⟨done ++ [chunk], by rw [hdone, hb, ha', hno], ?_⟩
      rw [ha]
      exact List.rel_append hsizes (.cons hsize .nil)
  calls := by
    have hcalls := h.calls
    have hbusy := hmoved.busy hm
    rw [List.length_append]
    omega

theorem Reported.all (h : Reported batches answers failures returned p) (hp : p.Finished)
    (hengaged : p.Engaged) :
    failures = answers.flatMap Answer.failures ∧ failures.length = returned ∧
      List.Forall₂ (fun ms a => a.batch.length = ms.length) batches answers := by
  have hidle := hengaged.idle_of_ended hp.worker
  obtain ⟨done, hdone, hsizes⟩ := h.answered
  have hflow := h.flow
  have hcalls := h.calls
  rw [unanswered_of_ne (by simp [hidle]), List.append_nil] at hdone
  simp only [Pipeline.unhandled, hp.buffer, hidle, Submission.pending, List.append_nil] at hflow
  simp only [Pipeline.busy, hp.reporter, Reporter.isHandling] at hcalls
  exact ⟨hflow.symm, hcalls, hdone ▸ hsizes⟩

def Reports (batches : List (List Message)) (answers : List Answer) (failures : List Verdict)
    (returned : Nat) : Option (Pipeline Caller) → Prop
  | none => batches = [] ∧ answers = [] ∧ failures = [] ∧ returned = 0
  | some p => Reported batches answers failures returned p

/-- The handler was called with what was answered first, and is inside one call at most. -/
theorem Reports.so_far {x : Option (Pipeline Caller)}
    (h : Reports batches answers failures returned x) :
    failures <+: answers.flatMap Answer.failures ∧ returned ≤ failures.length ∧
      failures.length ≤ returned + 1 := by
  cases x with
  | none =>
    obtain ⟨-, rfl, rfl, rfl⟩ := h
    simp
  | some p =>
    have hcalls := h.calls
    have hbusy : p.busy ≤ 1 := by
      unfold busy
      split <;> omega
    exact ⟨⟨p.unhandled, h.flow.symm⟩, by omega, by omega⟩

theorem Change.reports {move : Option Move} {x y : Option (Pipeline Caller)}
    {item : Option Message} (h : Change o true now move x item notes y) (hsound : Sound o x)
    (hhandles : ∀ p ∈ x, p.workers ≤ p.failures.handles)
    (hsink : ∀ panic, move ≠ some (.sinkPanics panic))
    (hhandler : ∀ panic, move ≠ some (.handlerPanics panic))
    (hx : Reports batches answers failures returned x) :
    Reports (batches ++ notes.filterMap Note.batch?) (answers ++ (move.bind Move.answer?).toList)
      (failures ++ notes.filterMap Note.failure?)
      (returned + (move.any Move.isReturn).toNat) y := by
  induction h with
  | same => simpa using hx
  | born sink =>
    obtain ⟨rfl, rfl, rfl, rfl⟩ := hx
    exact .start o sink now
  | @sent p taken c =>
    simp only [List.filterMap_nil, Option.bind_none, Option.toList_none, List.append_nil]
    exact ⟨hx.toConveyed.withChannel c, hx.answered, hx.calls⟩
  | moved hm =>
    exact hx.moved (hsound _ rfl).2 (hhandles _ rfl) hm (fun p hp => hsink p (congrArg some hp))
      fun p hp => hhandler p (congrArg some hp)
  | tended _ htended ih => exact (ih hsound hhandles hsink hhandler hx).tended htended

/-- After the end of the worker and the reporter nothing happens that can be seen. -/
theorem Change.over {move : Option Move} {x y : Option (Pipeline Caller)} {item : Option Message}
    {p : Pipeline Caller} (h : Change o hasHandler now move x item notes y) (hsound : Sound o x)
    (hx : x = some p) (hp : p.Over) :
    move = none ∧ notes = [] ∧ ∃ q, y = some q ∧ p.Still q := by
  induction h with
  | same => exact ⟨rfl, rfl, p, hx, .refl p⟩
  | born => cases hx
  | sent =>
    cases hx
    exact ⟨rfl, rfl, _, rfl, still_withChannel _ _⟩
  | moved hm =>
    cases hx
    exact absurd hm (hp.not_moved (hsound p rfl).2)
  | tended _ htended ih =>
    obtain ⟨hmove, hnotes, q, hq, hstill⟩ := ih hsound hx
    cases hq
    exact ⟨hmove, hnotes, _, rfl, hstill.trans htended.still⟩

end Pipeline

end Batchflow.Enqueuer
