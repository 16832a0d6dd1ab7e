import Batchflow.Proofs.Enqueuer.Room
import Batchflow.Proofs.Enqueuer.Shutdown
import Mathlib.Algebra.Order.BigOperators.Group.List
import Mathlib.Algebra.GroupWithZero.Nat
import Mathlib.Algebra.Order.Group.Nat

/-!
# Who waits for whom

A worker waits for room in the failure channel, where there is room again when the failure handler
returns.  A handler that enqueues waits for room in an intake, where a worker makes room.  So they
may wait for each other, but only with both channels full and a failure in the hands of each; with
less on the way the worker or the reporter of a run goes on, or has nothing to do.  Once the worker
and the handler of a run wait for each other, with no place of the intake left to be filled, they
do so for good, and the run cannot be stopped any more.
-/

namespace Batchflow.Enqueuer

open Pipeline

def Move.isWorkers : Move → Bool
  | .worker _ => true
  | .sinkReturns .. => true
  | .report => true
  | _ => false

/-- The moves that bring a reporter forward. -/
def Move.isReporters : Move → Bool
  | .take => true
  | .noticeEnd => true
  | .handlerReturns => true
  | _ => false

def Action.resubmitted? (run : Nat) : Action → Option Message
  | .enqueue (.handler i) m => if i = run then some m else none
  | _ => none

/-- The messages that the handler of a run enqueues, in order. -/
def resubmitted (run : Nat) (turns : History) : List Message :=
  turns.filterMap (·.action.resubmitted? run)

def Call.isEnqueue (run : Nat) : Call → Bool
  | .enqueue i _ => i = run
  | _ => false

def Call.isStopping (run : Nat) : Call → Bool
  | .stopping i => i = run
  | _ => false

namespace Pipeline

variable {ι : Type} {o : Options} {hasHandler : Bool} {now : Nat} {p p' : Pipeline ι} {m : Move}
  {notes : List Note}

/-- The worker waits for room in the failure channel. -/
def IsBlocked (p : Pipeline ι) : Prop :=
  ∃ v rest, p.submission = .blocked v rest ∧ p.failures.resume? () = none

instance (p : Pipeline ι) : Decidable p.IsBlocked :=
  match hs : p.submission with
  | .blocked v rest => decidable_of_iff (p.failures.resume? () = none)
      ⟨fun h => ⟨v, rest, hs, h⟩, fun ⟨_, _, _, h⟩ => h⟩
  | .idle | .submitting | .reporting _ => isFalse fun ⟨_, _, h, _⟩ => by simp [hs] at h

/-- The worker has nothing to do: it has ended, or has handed over no batch and has nothing to
receive. -/
def Unfed (p : Pipeline ι) : Prop :=
  p.feed.worker.ended = true ∨ p.submission = .idle ∧ p.feed.channel.buffer = []

def Untroubled (p : Pipeline ι) : Prop :=
  p.reporter.outcome?.isSome = true ∨ p.reporter = .waiting ∧ p.failures.buffer = []

def placed (p : Pipeline ι) : Nat :=
  p.feed.channel.buffer.length + p.feed.channel.places.held.length

/-- The failures that are not handled. -/
def failing (p : Pipeline ι) : Nat := p.unhandled.length + p.busy

theorem isSome_moveWorker {k : Chunker.Move} (hown : isOwn k = true)
    (h : (p.feed.step o.chunkerOptions now k).isSome = true) :
    (p.moveWorker? o now k).isSome = true := by
  obtain ⟨⟨feed, chunk⟩, hstep⟩ := Option.isSome_iff_exists.mp h
  cases chunk <;> simp [moveWorker?, hown, hstep]

theorem isSome_receive {x : Message} {buffer batch : List Message}
    (hbuffer : p.feed.channel.buffer = x :: buffer)
    (hworker : p.feed.worker = .collecting batch ∨ p.feed.worker = .draining batch) :
    (p.moveWorker? o now .receive).isSome = true := by
  refine isSome_moveWorker rfl ?_
  rcases hworker with hworker | hworker <;>
    simp only [Chunker.Feed.step, Chunker.Feed.receive?, Channel.receive?, hbuffer, hworker] <;>
    split <;> rfl

theorem isSome_report {v : Verdict} {rest : List Verdict}
    (h : p.submission = .reporting (v :: rest)) : p.report?.isSome = true := by
  generalize hsend : p.failures.send () v = sent
  obtain ⟨failures, arrival⟩ := sent
  cases arrival <;> simp [report?, h, hsend]

theorem isSome_unblock {v : Verdict} {rest : List Verdict} (h : p.submission = .blocked v rest)
    (hfree : p.failures.resume? () ≠ none) : p.report?.isSome = true := by
  cases hresume : p.failures.resume? () with
  | none => exact absurd hresume hfree
  | some arrival =>
    cases arrival with
    | waiting => exact absurd hresume Channel.resume?_ne_waiting
    | accepted | refused => simp [report?, h, hresume]

/-- A worker that is not blocked goes on, or has nothing to do. -/
theorem Engaged.worker_proceeds (hp : p.Engaged) (hfree : ¬ p.IsBlocked) :
    (∃ m, m.isWorkers = true ∧ (p.step o hasHandler now m).isSome = true) ∨ p.Unfed := by
  have hbusy (h : p.submission ≠ .idle) :
      ∃ chunk resume, p.feed.worker = .handling chunk resume := by
    cases hw : p.feed.worker with
    | handling chunk resume => exact ⟨chunk, resume, rfl⟩
    | collecting | draining | returned | panicked =>
      exact absurd (hp.mpr (by simp [hw, Chunker.Worker.isHandling])) h
  cases hs : p.submission with
  | idle =>
    cases hbuffer : p.feed.channel.buffer with
    | nil => exact .inr (.inr ⟨hs, hbuffer⟩)
    | cons x buffer =>
      cases hw : p.feed.worker with
      | handling =>
        have hidle := hp.mp hs
        simp [hw, Chunker.Worker.isHandling] at hidle
      | collecting => exact .inl ⟨.worker .receive, rfl, isSome_receive hbuffer (.inl hw)⟩
      | draining => exact .inl ⟨.worker .receive, rfl, isSome_receive hbuffer (.inr hw)⟩
      | returned | panicked => exact .inr (.inl (by simp [hw, Chunker.Worker.ended]))
  | submitting =>
    obtain ⟨chunk, resume, hw⟩ := hbusy (by simp [hs])
    refine .inl ⟨.sinkReturns chunk (.ok []), rfl, ?_⟩
    simp [step, sinkReturns?, hs, hw]
  | reporting rest =>
    refine .inl ⟨.report, rfl, ?_⟩
    cases rest with
    | nil =>
      obtain ⟨chunk, resume, hw⟩ := hbusy (by simp [hs])
      cases resume <;> simp [step, report?, hs, Chunker.Feed.handlerReturns?, hw]
    | cons v rest => exact isSome_report hs
  | blocked v rest =>
    exact .inl ⟨.report, rfl, isSome_unblock hs fun hwaits => hfree ⟨v, rest, hs, hwaits⟩⟩

theorem IsBlocked.not_moved (hblocked : p.IsBlocked) (hp : p.Engaged)
    (hm : m.isWorkers = true) : ¬ Moved o hasHandler now p m p' notes := by
  obtain ⟨v, rest, hs, hwaits⟩ := hblocked
  intro h
  cases h with
  | worked hown hfeed | submitted hown hfeed =>
    have hidle := hp.mpr (isHandling_of_own hfeed hown).1
    simp [hs] at hidle
  | answered _ _ hother | reported hother | queued hother | blocked hother | unheard hother =>
    simp [hs] at hother
  | unblocked _ hresume | cutOff _ hresume => simp [hwaits] at hresume
  | sinkPanicked | taken | logged | endNoticed | handled | handlerPanicked =>
    simp [Move.isWorkers] at hm

theorem IsBlocked.not_unfed (hblocked : p.IsBlocked) (hp : p.Engaged) : ¬ p.Unfed := by
  obtain ⟨v, rest, hs, -⟩ := hblocked
  rintro (hended | ⟨hidle, -⟩)
  · have hidle := hp.idle_of_ended hended
    simp [hs] at hidle
  · simp [hs] at hidle

theorem reporter_takes (h : p.reporter.isHandling = false) :
    (p.step o hasHandler now .take).isSome = true ∨ p.Untroubled := by
  cases hr : p.reporter with
  | waiting =>
    cases hbuffer : p.failures.buffer with
    | nil => exact .inr (.inr ⟨hr, hbuffer⟩)
    | cons v buffer =>
      refine .inl ?_
      cases hasHandler <;> simp [step, take?, hr, Channel.receive?, hbuffer]
  | handling => simp [hr, Reporter.isHandling] at h
  | returned | panicked => exact .inr (.inl (by simp [hr, Reporter.outcome?]))

theorem Moved.eq_handlerReturns (h : Moved o hasHandler now p m p' notes)
    (hm : m.isReporters = true) (hp : p.reporter.isHandling = true) : m = .handlerReturns := by
  cases h with
  | taken _ hr | logged _ hr | endNoticed hr => simp [hr, Reporter.isHandling] at hp
  | handled => rfl
  | _ => simp [Move.isReporters] at hm

theorem not_untroubled (hp : p.reporter.isHandling = true) : ¬ p.Untroubled := by
  cases hr : p.reporter <;> simp_all [Untroubled, Reporter.isHandling, Reporter.outcome?]

theorem isSome_handlerReturns (h : p.reporter.isHandling = true) :
    (p.step o hasHandler now .handlerReturns).isSome = true := by
  cases hr : p.reporter <;> simp_all [step, handlerReturns?, Reporter.isHandling]

/-- The worker is blocked, the handler is at work, and all places of the intake are filled. -/
structure Jammed (p : Pipeline ι) : Prop where
  blocked : p.IsBlocked
  handling : p.reporter.isHandling = true
  opened : p.feed.channel.closed = false
  free : p.feed.channel.places.free = 0
  held : p.feed.channel.places.held = []

instance [DecidableEq ι] (p : Pipeline ι) : Decidable p.Jammed :=
  decidable_of_iff (p.IsBlocked ∧ p.reporter.isHandling = true ∧ p.feed.channel.closed = false ∧
      p.feed.channel.places.free = 0 ∧ p.feed.channel.places.held = [])
    ⟨fun ⟨hblocked, hhandling, hopened, hfree, hheld⟩ =>
        ⟨hblocked, hhandling, hopened, hfree, hheld⟩,
      fun h => ⟨h.blocked, h.handling, h.opened, h.free, h.held⟩⟩

/-- As long as the handler stays at work a jammed pipeline does not move. -/
theorem Jammed.not_moved (hp : p.Jammed) (hengaged : p.Engaged) (hreturn : m ≠ .handlerReturns)
    (hpanic : ∀ panic, m ≠ .handlerPanics panic) : ¬ Moved o hasHandler now p m p' notes := by
  intro h
  have hhandling := hp.handling
  by_cases hworkers : m.isWorkers = true
  · exact hp.blocked.not_moved hengaged hworkers h
  · cases h with
    | sinkPanicked _ hs =>
      obtain ⟨v, rest, hblocked, -⟩ := hp.blocked
      simp [hs] at hblocked
    | taken _ hr | logged _ hr | endNoticed hr => simp [hr, Reporter.isHandling] at hhandling
    | handled => exact hreturn rfl
    | handlerPanicked panic => exact hpanic panic rfl
    | _ => exact hworkers rfl

theorem Jammed.sent {q : Pipeline Caller} {item : Option Message} {c : Channel Caller Message}
    (hq : q.Jammed) (h : q.feed.channel.Sent item c) :
    ({ q with feed := { q.feed with channel := c } } : Pipeline Caller).Jammed := by
  obtain ⟨hblocked, hhandling, hopened, hfree, hheld⟩ := hq
  refine ⟨hblocked, hhandling, h.closed.trans hopened, ?_, ?_⟩ <;> cases h with
  | refused | counted => first | exact hfree | exact hheld
  | accepted _ _ hroom => simp [hfree] at hroom
  | requested who => simp [Permits.request, hfree, hheld]
  | filled _ hholder => simp [hheld] at hholder
  | left who => simp [Channel.leave, Permits.leave, hfree, hheld]

theorem Change.jammed {move : Option Move} {x y : Option (Pipeline Caller)}
    {item : Option Message} {q : Pipeline Caller}
    (h : Change o hasHandler now move x item notes y) (hsound : Sound o x) (hx : x = some q)
    (hq : q.Jammed) (hreturn : move ≠ some .handlerReturns)
    (hpanic : ∀ panic, move ≠ some (.handlerPanics panic)) : ∃ r, y = some r ∧ r.Jammed := by
  induction h with
  | same => exact ⟨q, hx, hq⟩
  | born => cases hx
  | sent hsent =>
    cases hx
    exact ⟨_, rfl, hq.sent hsent⟩
  | moved hm =>
    cases hx
    exact absurd hm (hq.not_moved (hsound q rfl).2 (by simpa using hreturn) (by simpa using hpanic))
  | tended _ htended ih =>
    obtain ⟨r, hr, hjammed⟩ := ih hsound hx hreturn hpanic
    cases hr
    cases htended
    exact ⟨_, rfl, hjammed.blocked, hjammed.handling, hjammed.opened, hjammed.free, hjammed.held⟩

end Pipeline

namespace System

variable {o : Options} {s s' : System} {a : Action} {out : Outcome} {events : List Event}
  {caller : Caller} {turns later : History} {run i : Nat} {m : Move} {c : Call}
  {p : Pipeline Caller}

/-- A call to enqueue waits for room in the intake of a run. -/
def Waits (s : System) (caller : Caller) (run : Nat) : Prop :=
  ∃ m p, s.call? caller = some (.enqueue run m) ∧ s.pipelines[run]? = some p ∧
    p.feed.channel.resume? caller = none

/-- The worker of a run waits for room in the failure channel, and the handler that would make room
there waits for room in an intake. -/
structure CircularWait (s : System) (run : Nat) (p : Pipeline Caller) : Prop where
  pipeline : s.pipelines[run]? = some p
  blocked : p.IsBlocked
  handling : p.reporter.isHandling = true
  waits : ∃ i, s.Waits (.handler run) i

/-- The worker of a run can go on, or has nothing to do. -/
def WorkerProceeds (s : System) (run : Nat) (p : Pipeline Caller) : Prop :=
  (∃ m, m.isWorkers = true ∧ (s.move? run m).isSome = true) ∨ p.Unfed

/-- The reporter of a run, or its handler, can go on, or has nothing to do. -/
def ReporterProceeds (s : System) (run : Nat) (p : Pipeline Caller) : Prop :=
  (∃ m, m.isReporters = true ∧ (s.move? run m).isSome = true) ∨
    (s.resume? (.handler run)).isSome = true ∨ p.Untroubled

/-- All messages that have a place in an intake, and all failures that are not handled. -/
def load (s : System) : Nat :=
  (s.pipelines.map Pipeline.placed).sum + (s.pipelines.map Pipeline.failing).sum

/-- Failure handlers make no calls but to enqueue. -/
def HandlersEnqueue (turns : History) : Prop :=
  ∀ t ∈ turns, ∀ run, (∀ sink, t.action ≠ .start (.handler run) sink) ∧
    t.action ≠ .stop (.handler run)

def EnqueueOnly (s : System) : Prop :=
  ∀ run c, (.handler run, c) ∈ s.calls → ∃ i m, c = .enqueue i m

theorem EnqueueOnly.mono (hs : s.EnqueueOnly) (h : ∀ e ∈ s'.calls, e ∈ s.calls) :
    s'.EnqueueOnly := fun run c hc => hs run c (h _ hc)

theorem EnqueueOnly.without (hs : s.EnqueueOnly) (h : s'.calls = s.calls) (caller : Caller) :
    (s'.without caller).EnqueueOnly := hs.mono fun _ he => h ▸ List.mem_of_mem_filter he

theorem EnqueueOnly.await {k : Call} (hs : s.EnqueueOnly) (h : s'.calls = s.calls)
    (hcall : s.call? caller = some c) (hc : ∀ i m, c ≠ .enqueue i m) :
    (s'.await caller k).EnqueueOnly := by
  intro run d hd
  rcases Calls.mem_await.mp hd with ⟨hd, -⟩ | ⟨rfl, -⟩
  · exact hs run d (h ▸ hd)
  · obtain ⟨i, m, heq⟩ := hs run c (Calls.mem_of_lookup hcall)
    exact absurd heq (hc i m)

theorem EnqueueOnly.went (hs : s.EnqueueOnly) (h : s.Went caller s' events) :
    s'.EnqueueOnly := by
  cases h with
  | started => exact hs.without s.calls_dropIntake caller
  | startRefused | stopRefused | stopped | enqueued | rejected => exact hs.without rfl caller
  | stopTaken hcall => exact hs.await rfl hcall (by simp)
  | workerEnded hcall => exact hs.await s.calls_dropIntake hcall (by simp)

theorem EnqueueOnly.did (hs : s.EnqueueOnly) (h : s.Did a s' events)
    (ha : ∀ run, (∀ sink, a ≠ .start (.handler run) sink) ∧ a ≠ .stop (.handler run)) :
    s'.EnqueueOnly := by
  have hasked {caller : Caller} {c : Call} (hasks : Asks a caller c) :
      (s.ask caller c).EnqueueOnly := by
    intro run d hd
    rcases Calls.mem_await.mp hd with ⟨hd, -⟩ | ⟨rfl, -⟩
    · exact hs run d hd
    · cases hasks with
      | start => exact absurd rfl ((ha run).1 _)
      | stop => exact absurd rfl (ha run).2
  cases h with
  | asked hasks => exact hasked hasks
  | atOnce hasks _ hwent => exact (hasked hasks).went hwent
  | enqueueWaits =>
    intro run d hd
    rcases Calls.mem_await.mp hd with ⟨hd, -⟩ | ⟨-, rfl⟩
    · exact hs run d hd
    · exact ⟨_, _, rfl⟩
  | lockAborted | stoppingAborted | drainingAborted => exact hs.without rfl _
  | enqueueAborted =>
    unfold leaveIntake
    split <;> exact hs.without rfl _
  | enqueued | rejected | notRunning | handleAdded | handleDropped | moved | advanced => exact hs
  | resumed hwent => exact hs.went hwent

theorem enqueueOnly_of_run (h : Run step (new o) turns s) (hcalls : HandlersEnqueue turns) :
    s.EnqueueOnly := by
  induction h with
  | nil => simp [EnqueueOnly, new]
  | @snoc turns s₁ s₂ a events hrun hstep ih =>
    obtain ⟨x, hdid, hx⟩ := does_of_step hstep
    have hx' := (ih fun t ht => hcalls t (by simp [ht])).did hdid (hcalls ⟨s₁, a, events⟩ (by simp))
    dsimp only at hx
    rcases hx with rfl | rfl
    · exact hx'
    · exact hx'.mono fun _ he => calls_release x ▸ he

theorem resume?_eq_none_of_waits (h : s.Waits caller run) : s.resume? caller = none := by
  obtain ⟨m, p, hcall, hp, hwaits⟩ := h
  simp [resume?, hcall, resumeEnqueue?, pipeline?, hp, hwaits]

theorem isSome_resume_or_waits {message : Message} (hs : s.WellFormed)
    (hcall : s.call? caller = some (.enqueue run message)) :
    (s.resume? caller).isSome = true ∨ s.Waits caller run := by
  have hlt := hs.enqueue (Calls.mem_of_lookup hcall)
  have hp := List.getElem?_eq_getElem hlt
  cases hresume : (s.pipelines[run]).feed.channel.resume? caller with
  | none => exact .inr ⟨message, _, hcall, hp, hresume⟩
  | some arrival =>
    refine .inl ?_
    cases arrival with
    | waiting => exact absurd hresume Channel.resume?_ne_waiting
    | accepted | refused => simp [resume?, hcall, resumeEnqueue?, pipeline?, hp, hresume]

theorem isSome_move (hp : s.pipelines[run]? = some p) (hallowed : s.allowed run m = true)
    (h : (p.step s.options (s.options.hasHandler && s.reachable) s.now m).isSome = true) :
    (s.move? run m).isSome = true := by
  obtain ⟨⟨p', notes⟩, hstep⟩ := Option.isSome_iff_exists.mp h
  simp [move?, pipeline?, hp, hallowed, hstep]

theorem allowed_of_isWorkers (hm : m.isWorkers = true) : s.allowed run m = true := by
  cases m <;> first | rfl | simp [Move.isWorkers] at hm

/-- The worker or the reporter of a run goes on or has nothing to do, unless the worker and the
handler wait for each other. -/
theorem proceeds_of_not_circularWait (h : Run step (new o) turns s)
    (hcalls : HandlersEnqueue turns) (hp : s.pipelines[run]? = some p)
    (hno : ¬ s.CircularWait run p) : s.WorkerProceeds run p ∨ s.ReporterProceeds run p := by
  by_cases hblocked : p.IsBlocked
  · refine .inr ?_
    cases hhandling : p.reporter.isHandling with
    | false =>
      rcases p.reporter_takes hhandling with htakes | hnothing
      · exact .inl ⟨.take, rfl, isSome_move hp rfl htakes⟩
      · exact .inr (.inr hnothing)
    | true =>
      cases hcall : s.call? (.handler run) with
      | none =>
        have hallowed : s.allowed run .handlerReturns = true := by
          simp [allowed, handlerCalls, hcall]
        exact .inl ⟨.handlerReturns, rfl, isSome_move hp hallowed (isSome_handlerReturns hhandling)⟩
      | some c =>
        obtain ⟨i, message, rfl⟩ :=
          enqueueOnly_of_run h hcalls run c (Calls.mem_of_lookup hcall)
        rcases isSome_resume_or_waits (wellFormed_of_run h) hcall with hresume | hwaits
        · exact .inr (.inl hresume)
        · exact absurd ⟨hp, hblocked, hhandling, i, hwaits⟩ hno
  · have hengaged : p.Engaged := (sound_of_run h run p hp).2
    rcases hengaged.worker_proceeds hblocked with ⟨m, hm, hstep⟩ | hunfed
    · exact .inl (.inl ⟨m, hm, isSome_move hp (allowed_of_isWorkers hm) hstep⟩)
    · exact .inl (.inr hunfed)

theorem moved_of_isSome (hp : s.pipelines[run]? = some p) (h : (s.move? run m).isSome = true) :
    s.allowed run m = true ∧ ∃ p' notes,
      p.Moved s.options (s.options.hasHandler && s.reachable) s.now m p' notes := by
  obtain ⟨out, hout⟩ := Option.isSome_iff_exists.mp h
  obtain ⟨x, hdid, -⟩ := does_of_move hout
  generalize hevents : out.2 = events at hdid
  cases hdid with
  | asked ha | atOnce ha => cases ha
  | moved hq hallowed hm =>
    obtain rfl := Option.some.inj (hp.symm.trans hq)
    exact ⟨hallowed, _, _, hm⟩

/-- While the worker and the handler of a run wait for each other, neither can go on. -/
theorem CircularWait.not_proceeds (h : Run step (new o) turns s) (hwait : s.CircularWait run p) :
    ¬ s.WorkerProceeds run p ∧ ¬ s.ReporterProceeds run p := by
  obtain ⟨hp, hblocked, hhandling, i, hwaits⟩ := hwait
  have hengaged : p.Engaged := (sound_of_run h run p hp).2
  constructor
  · rintro (⟨m, hm, hstep⟩ | hunfed)
    · obtain ⟨-, _, _, hmoved⟩ := moved_of_isSome hp hstep
      exact hblocked.not_moved hengaged hm hmoved
    · exact hblocked.not_unfed hengaged hunfed
  · rintro (⟨m, hm, hstep⟩ | hresume | hnothing)
    · obtain ⟨hallowed, _, _, hmoved⟩ := moved_of_isSome hp hstep
      obtain rfl := hmoved.eq_handlerReturns hm hhandling
      obtain ⟨_, _, hcall, -⟩ := hwaits
      simp [allowed, handlerCalls, hcall] at hallowed
    · simp [resume?_eq_none_of_waits hwaits] at hresume
    · exact not_untroubled hhandling hnothing

theorem placed_of_waits (h : Run step (new o) turns s) (hwaits : s.Waits caller run) :
    ∃ q ∈ s.pipelines, q.placed = o.bufferSize := by
  obtain ⟨m, q, hcall, hq, hresume⟩ := hwaits
  have hserves := lined_of_run h caller run m q (Calls.mem_of_lookup hcall) hq
  exact ⟨q, List.mem_of_getElem? hq, ((roomed_of_run h run q hq).intake.full hserves hresume).2⟩

/-- When the worker and the handler wait for each other both channels are full, and each has one
failure more. -/
theorem load_of_circularWait (h : Run step (new o) turns s) (hwait : s.CircularWait run p) :
    o.bufferSize + o.failedBufferSize + 2 ≤ s.load := by
  obtain ⟨hp, ⟨v, rest, hs, hresume⟩, hhandling, i, hwaits⟩ := hwait
  have hroomed := roomed_of_run h run p hp
  have hfull := (hroomed.failures.full (hroomed.blocked hs) hresume).2
  have hheld : p.failures.places.held = [] :=
    List.eq_nil_iff_forall_not_mem.mpr fun _ => (Channel.resume?_eq_none.mp hresume).2
  have hfailing : o.failedBufferSize + 2 ≤ p.failing := by
    rw [hheld, List.length_nil] at hfull
    simp only [failing, unhandled, busy, hs, hhandling, Submission.pending, List.length_append,
      List.length_cons, if_true]
    omega
  obtain ⟨q, hq, hplaced⟩ := placed_of_waits h hwaits
  have hintake := List.le_sum_of_mem (List.mem_map_of_mem (f := Pipeline.placed) hq)
  have hfailures := List.le_sum_of_mem
    (List.mem_map_of_mem (f := Pipeline.failing) (List.mem_of_getElem? hp))
  rw [load]
  omega

/-- The worker and the handler of a run wait for each other at a full intake. -/
structure Wedged (s : System) (run : Nat) : Prop where
  jammed : ∃ p, s.pipelines[run]? = some p ∧ p.Jammed
  waits : ∃ m, s.call? (.handler run) = some (.enqueue run m)

theorem Wedged.circularWait (hs : s.Wedged run) : ∃ p, s.CircularWait run p := by
  obtain ⟨⟨p, hp, hjammed⟩, m, hcall⟩ := hs
  have hresume : p.feed.channel.resume? (.handler run) = none :=
    Channel.resume?_eq_none.mpr ⟨hjammed.opened, by simp [hjammed.held]⟩
  exact ⟨p, hp, hjammed.blocked, hjammed.handling, run, m, p, hcall, hp, hresume⟩

theorem wedged_of_step (hbefore : Run step (new o) turns s) (hs : s.Wedged run)
    (h : s.step a = some (s', events)) (ha : a ≠ .abort (.handler run)) : s'.Wedged run := by
  obtain ⟨p', hwait⟩ := hs.circularWait
  obtain ⟨i, hwaits⟩ := hwait.waits
  obtain ⟨⟨p, hp, hjammed⟩, m, hcall⟩ := hs
  have hresume : a ≠ .resume (.handler run) := by
    rintro rfl
    rw [step, resume?_eq_none_of_waits hwaits] at h
    cases h
  have hallowed {k : Move} (hk : a.move? run = some k) : s.allowed run k = true := by
    rw [Action.move?_eq_some.mp hk, step] at h
    exact (moved_of_isSome hp (by rw [h]; rfl)).1
  obtain ⟨item, notes, hchange, -⟩ := effect_of_step h run
  rw [options_of_run hbefore] at hchange
  refine ⟨hchange.jammed (sound_of_run hbefore run) hp hjammed ?_ ?_, m, ?_⟩
  · intro hk
    simpa [allowed, handlerCalls, hcall] using hallowed hk
  · intro panic hk
    simpa [allowed, handlerCalls, hcall] using hallowed hk
  · have hmem := (untouched_of_step h (Calls.mem_of_lookup hcall) hresume ha).1
    exact Calls.lookup_of_mem (wellFormed_of_run (hbefore.snoc h)).guarded.keys hmem

/-- As long as the handler does not give up, it and the worker wait for each other, and a call that
stops the run does not return. -/
theorem wedged_of_run (hbefore : Run step (new o) turns s) (hs : s.Wedged run)
    (hstops : s.Stops caller run) (h : Run step s later s')
    (hpatient : ∀ t ∈ later, t.action ≠ .abort (.handler run) ∧ t.action ≠ .abort caller) :
    s'.Wedged run ∧ s'.Stops caller run := by
  induction h with
  | nil => exact ⟨hs, hstops⟩
  | @snoc later s₁ s₂ a events hrun hstep ih =>
    obtain ⟨hs₁, hstops₁⟩ := ih fun t ht => hpatient t (by simp [ht])
    obtain ⟨hhandler, hcaller⟩ := hpatient ⟨s₁, a, events⟩ (by simp)
    have hbefore₁ := hbefore.append hrun
    refine ⟨wedged_of_step hbefore₁ hs₁ hstep hhandler, ?_⟩
    rcases stops_of_step (wellFormed_of_run hbefore₁) hstep hstops₁ hcaller with hkept | hend
    · exact hkept.1
    · obtain ⟨worker, p, reporter, -, hp, hreporter, -⟩ := hend
      obtain ⟨q, hq, hjammed⟩ := hs₁.jammed
      obtain rfl := Option.some.inj (hp.symm.trans hq)
      exact absurd (.inl (by rw [hreporter]; rfl)) (not_untroubled hjammed.handling)

/-- With less on the way than both channels hold, a failure for the worker and one for the handler,
the worker and the handler of a run do not wait for each other: the worker does not wait for room
in the failure channel while the handler waits for room in an intake.  So one of the two can go on,
or has nothing to do. -/
theorem proceeds_below_capacity {o : Options} {turns : History} {s : System} {run : Nat}
    {p : Pipeline Caller} (h : Run step (new o) turns s) (hcalls : HandlersEnqueue turns)
    (hp : s.pipelines[run]? = some p)
    (hload : s.load < o.bufferSize + o.failedBufferSize + 2) :
    ¬ s.CircularWait run p ∧ (s.WorkerProceeds run p ∨ s.ReporterProceeds run p) := by
  have hno : ¬ s.CircularWait run p := fun hwait => by
    have := load_of_circularWait h hwait
    omega
  exact ⟨hno, proceeds_of_not_circularWait h hcalls hp hno⟩

/-- Small channels, and a handler. -/
def crowdedOptions : Options :=
  { bufferSize := 2, batchSize := 1, failedBufferSize := 1, hasHandler := true }

def refuses (m : Message) : Action := .move 0 (.sinkReturns [m] (.error (.unavailable "down")))

/-- The first of five messages has failed, and its handler has to wait for room in the intake. -/
def retriedRun : List Action :=
  [.start (.client 0) 7, .enqueue (.client 1) (letter "a"), .move 0 (.worker .receive),
    .enqueue (.client 1) (letter "b"), .enqueue (.client 1) (letter "c"),
    .enqueue (.client 2) (letter "d"), .enqueue (.client 3) (letter "e"), refuses (letter "a"),
    .move 0 .report, .move 0 .report, .move 0 .take, .enqueue (.handler 0) (letter "a")]

/-- Two more messages have failed, and the intake is full of those that came before the handler. -/
def crowdedRest : List Action :=
  [.move 0 (.worker .receive), .resume (.client 2), refuses (letter "b"), .move 0 .report,
    .move 0 .report, .move 0 (.worker .receive), .resume (.client 3), refuses (letter "c"),
    .move 0 .report, .stop (.client 0)]

theorem handlersEnqueue_of_replay {actions : List Action}
    (h : replay step s actions = some (turns, s'))
    (hactions : ∀ run, (∀ sink, Action.start (.handler run) sink ∉ actions) ∧
      Action.stop (.handler run) ∉ actions) : HandlersEnqueue turns := fun _ ht run =>
  ⟨fun sink ha => (hactions run).1 sink (ha ▸ Run.action_mem_of_replay h ht),
    fun ha => (hactions run).2 (ha ▸ Run.action_mem_of_replay h ht)⟩

theorem call_of_isEnqueue (h : (s.call? caller).any (Call.isEnqueue run) = true) :
    ∃ m, s.call? caller = some (.enqueue run m) := by
  cases hcall : s.call? caller with
  | none => simp [hcall] at h
  | some c =>
    cases c with
    | enqueue i m =>
      obtain rfl : i = run := by simpa [hcall, Call.isEnqueue] using h
      exact ⟨m, rfl⟩
    | _ => simp [hcall, Call.isEnqueue] at h

theorem stops_of_isStopping (h : (s.call? caller).any (Call.isStopping run) = true) :
    s.Stops caller run := by
  cases hcall : s.call? caller with
  | none => simp [hcall] at h
  | some c =>
    cases c with
    | stopping i =>
      obtain rfl : i = run := by simpa [hcall, Call.isStopping] using h
      exact ⟨_, Calls.mem_of_lookup hcall, .inl rfl⟩
    | _ => simp [hcall, Call.isStopping] at h

theorem proceeds_below_capacity_retriedRun : ∃ turns s p,
    Run step (new crowdedOptions) turns s ∧ HandlersEnqueue turns ∧
      s.pipelines[0]? = some p ∧ s.Waits (.handler 0) 0 ∧
      s.load < crowdedOptions.bufferSize + crowdedOptions.failedBufferSize + 2 ∧
      ¬ s.CircularWait 0 p ∧ (s.WorkerProceeds 0 p ∨ s.ReporterProceeds 0 p) := by
  have hseen : (replay step (new crowdedOptions) retriedRun).map (fun r =>
      (r.2.load, (r.2.call? (.handler 0)).any (Call.isEnqueue 0),
        r.2.pipelines[0]?.map fun p => p.feed.channel.resume? (.handler 0))) =
      some (3, true, some none) := by
    decide +kernel
  obtain ⟨⟨turns, s⟩, hreplay, hseen⟩ := Option.map_eq_some_iff.mp hseen
  simp only [Prod.mk.injEq] at hseen
  obtain ⟨hload, hcall, hseen⟩ := hseen
  obtain ⟨p, hp, hresume⟩ := Option.map_eq_some_iff.mp hseen
  obtain ⟨m, hcall⟩ := call_of_isEnqueue hcall
  have hrun := Run.of_replay hreplay
  have hcalls := handlersEnqueue_of_replay hreplay (by simp [retriedRun, refuses])
  have hless : s.load < crowdedOptions.bufferSize + crowdedOptions.failedBufferSize + 2 := by
    rw [hload]
    decide
  exact ⟨turns, s, p, hrun, hcalls, hp, ⟨m, p, hcall, hp, hresume⟩, hless,
    proceeds_below_capacity hrun hcalls hp hless⟩

/-- One more failure in each hand, and the worker and the handler wait for each other for good.  The
sink has always returned, and the handler has enqueued each message again that failed.  A call that
stops the run never returns. -/
theorem circularWait_crowdedRun : crowdedOptions.validate = .ok () ∧ ∃ turns s p,
    Run step (new crowdedOptions) turns s ∧ SinkReturned 0 turns ∧
      (answered 0 turns).length = (batches 0 turns).length ∧ HandlersEnqueue turns ∧
      resubmitted 0 turns = (failures 0 turns).map (·.message) ∧ s.state = .running ∧
      s.load = crowdedOptions.bufferSize + crowdedOptions.failedBufferSize + 2 ∧
      s.CircularWait 0 p ∧ ¬ (s.WorkerProceeds 0 p ∨ s.ReporterProceeds 0 p) ∧
      s.Stops (.client 0) 0 ∧
      ∀ later s', Run step s later s' →
        (∀ t ∈ later, t.action ≠ .abort (.handler 0) ∧ t.action ≠ .abort (.client 0)) →
        (∃ q, s'.CircularWait 0 q) ∧ s'.Stops (.client 0) 0 := by
  have hseen : (replay step (new crowdedOptions) (retriedRun ++ crowdedRest)).map (fun r =>
      (decide ((answered 0 r.1).length = (batches 0 r.1).length ∧
          resubmitted 0 r.1 = (failures 0 r.1).map (·.message) ∧ r.2.state = .running),
        r.2.load, (r.2.call? (.handler 0)).any (Call.isEnqueue 0),
        (r.2.call? (.client 0)).any (Call.isStopping 0),
        r.2.pipelines[0]?.map fun p => decide p.Jammed)) =
      some (true, 5, true, true, some true) := by
    decide +kernel
  obtain ⟨⟨turns, s⟩, hreplay, hseen⟩ := Option.map_eq_some_iff.mp hseen
  simp only [Prod.mk.injEq, decide_eq_true_eq] at hseen
  obtain ⟨⟨hanswered, hagain, hstate⟩, hload, hcall, hstop, hseen⟩ := hseen
  obtain ⟨p, hp, hjammed⟩ := Option.map_eq_some_iff.mp hseen
  have hrun := Run.of_replay hreplay
  have hwedged : s.Wedged 0 := ⟨⟨p, hp, of_decide_eq_true hjammed⟩, call_of_isEnqueue hcall⟩
  have hstops := stops_of_isStopping hstop
  obtain ⟨q, hwait⟩ := hwedged.circularWait
  have hnot := hwait.not_proceeds hrun
  refine ⟨by decide +kernel, turns, s, q, hrun, ?_, hanswered,
    handlersEnqueue_of_replay hreplay (by simp [retriedRun, crowdedRest, refuses]), hagain, hstate,
    hload, hwait, not_or.mpr hnot, hstops, ?_⟩
  · intro t ht panic ha
    have hmem := Run.action_mem_of_replay hreplay ht
    simp [retriedRun, crowdedRest, refuses, ha] at hmem
  · intro later s' hlater hpatient
    obtain ⟨hlast, hkept⟩ := wedged_of_run hrun hwedged hstops hlater hpatient
    exact ⟨hlast.circularWait, hkept⟩

end System

end Batchflow.Enqueuer
