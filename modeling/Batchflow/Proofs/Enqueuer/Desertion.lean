import Batchflow.Proofs.Enqueuer.Backpressure
import Batchflow.Proofs.Enqueuer.Emptying
import Batchflow.Proofs.Enqueuer.Outlets
import Batchflow.Proofs.Enqueuer.Settling

/-!
# When the last handle is dropped

The last handle that a client has may be dropped while a run goes on, and nobody stops the run.
Then only handlers at work can get at the enqueuer, and when the last of them returns it lets go of
the intake and of the run.  All that was accepted is still submitted, under a token that nobody
cancels, and every failure still goes to the handler or to the log.
-/

namespace Batchflow.Enqueuer

open Pipeline

def Pipeline.SameToken (p q : Pipeline Caller) : Prop := q.cancelled = p.cancelled

theorem Pipeline.SameToken.refl (p : Pipeline Caller) : SameToken p p := rfl

theorem Pipeline.SameToken.trans {p q r : Pipeline Caller} (h : SameToken p q)
    (h' : SameToken q r) : SameToken p r := Eq.trans h' h

theorem Alike.exists_getLast? {ι : Type} {R : Pipeline ι → Pipeline ι → Prop}
    {ps qs : List (Pipeline ι)} {q : Pipeline ι} (h : Alike R ps qs) (hq : qs.getLast? = some q) :
    ∃ p, ps.getLast? = some p ∧ R p q := by
  rw [List.getLast?_eq_getElem?] at hq ⊢
  rw [h.length] at hq
  exact h.exists_left hq

namespace System

variable {o : Options} {s s' x : System} {a : Action} {out : Outcome} {events : List Event}
  {caller w : Caller} {c : Call} {turns before after : History} {run : Nat} {p : Pipeline Caller}
  {t : Turn System Action Event}

theorem sameToken_modify (s : System) (run : Nat) {f : Pipeline Caller → Pipeline Caller}
    (hf : ∀ p, SameToken p (f p)) :
    Alike SameToken s.pipelines (s.modifyPipeline run f).pipelines :=
  .of_modify rfl .refl fun p _ => hf p

theorem sameToken_dropIntake (s : System) :
    Alike SameToken s.pipelines s.dropIntake.pipelines :=
  s.related_dropIntake SameToken.refl fun _ _ => rfl

theorem sameToken_release (s : System) : Alike SameToken s.pipelines s.release.pipelines :=
  s.related_release SameToken.refl (fun _ _ => rfl) SameToken.trans fun _ => rfl

/-- What becomes of the state of the enqueuer and of the token of its last run: both stay as they
are, or a run begins, or a call to stop sees to it. -/
inductive Steered (s s' : System) (stops : Prop) : Prop
  | kept : s'.state = s.state → Alike SameToken s.pipelines s'.pipelines → Steered s s' stops
  | begun : s.state = .stopped →
      (∀ p, s'.pipelines.getLast? = some p → p.cancelled = false) → Steered s s' stops
  | halted : stops → s'.state = .stopped → Steered s s' stops

/-- A call to stop is pending, or just made. -/
def Halts (s : System) (a : Action) : Prop :=
  (∃ w c, (w, c) ∈ s.calls ∧ c.isStop = true) ∨ ∃ w, a = .stop w

theorem Steered.release {stops : Prop} (h : s.Steered x stops) : s.Steered x.release stops := by
  cases h with
  | kept hstate halike =>
    exact .kept (x.state_release.trans hstate) (halike.trans SameToken.trans x.sameToken_release)
  | begun hstate htoken =>
    refine .begun hstate fun q hq => ?_
    obtain ⟨p, hp, hpq⟩ := x.sameToken_release.exists_getLast? hq
    exact Eq.trans hpq (htoken p hp)
  | halted hstops hstate => exact .halted hstops (x.state_release.trans hstate)

theorem steered_of_went (h : s.Went caller s' events) :
    s.Steered s' (∃ c, (caller, c) ∈ s.calls ∧ c.isStop = true) := by
  cases h with
  | started _ _ hstate =>
    refine .begun hstate fun p hp => ?_
    obtain rfl : Pipeline.start s.options _ s.now = p := by
      simpa [System.without, unlock, startRun] using hp
    rfl
  | startRefused => exact .kept rfl (.refl .refl _)
  | stopTaken | enqueued | rejected => exact .kept rfl (s.sameToken_modify _ fun _ => rfl)
  | stopRefused state hcall _ hrefused =>
    rcases hrefused with ⟨-, rfl⟩ | ⟨-, rfl⟩
    · exact .kept rfl (.refl .refl _)
    · exact .halted ⟨_, Calls.mem_of_lookup hcall, rfl⟩ rfl
  | workerEnded =>
    exact .kept s.state_dropIntake (s.sameToken_dropIntake.trans SameToken.trans
      (s.dropIntake.sameToken_modify _ fun _ => rfl))
  | stopped hcall => exact .halted ⟨_, Calls.mem_of_lookup hcall, rfl⟩ rfl

theorem steered_of_did (h : s.Did a s' events) : s.Steered s' (s.Halts a) := by
  cases h with
  | @atOnce _ caller c _ _ ha hcall hwent =>
    cases steered_of_went hwent with
    | kept hstate halike => exact .kept hstate halike
    | begun hstate htoken => exact .begun hstate htoken
    | halted hstops hstate =>
      refine .halted ?_ hstate
      obtain ⟨k, hk, hstop⟩ := hstops
      rcases Calls.mem_await.mp hk with ⟨hk, -⟩ | ⟨-, rfl⟩
      · exact .inl ⟨_, k, hk, hstop⟩
      · cases ha with
        | start => cases hstop
        | stop => exact .inr ⟨_, rfl⟩
  | resumed hwent =>
    cases steered_of_went hwent with
    | kept hstate halike => exact .kept hstate halike
    | begun hstate htoken => exact .begun hstate htoken
    | halted hstops hstate => exact .halted (.inl ⟨_, hstops⟩) hstate
  | enqueued | enqueueWaits | rejected | stoppingAborted =>
    exact .kept rfl (s.sameToken_modify _ fun _ => rfl)
  | enqueueAborted =>
    unfold leaveIntake
    split
    · exact .kept rfl (s.sameToken_modify _ fun _ => rfl)
    · exact .kept rfl (.refl .refl _)
  | moved hp _ hm =>
    refine .kept rfl (.of_modify rfl .refl fun q hq => ?_)
    obtain rfl := Option.some.inj (hp.symm.trans hq)
    exact hm.cancelled
  | _ => exact .kept rfl (.refl .refl _)

theorem steered_of_step (h : s.step a = some out) : s.Steered out.1 (s.Halts a) := by
  obtain ⟨x, hdid, hx⟩ := does_of_step h
  rcases hx with hx | hx
  · exact hx ▸ steered_of_did hdid
  · exact hx ▸ (steered_of_did hdid).release

def TokenKept (s : System) : Prop :=
  s.state = .running → ∀ p, s.pipelines.getLast? = some p → p.cancelled = false

theorem tokenKept_of_run (h : Run step (new o) turns s) : s.TokenKept := by
  refine h.invariant (P := TokenKept) (by simp [TokenKept, new]) fun s a s' events hs hstep => ?_
  intro hstate q hq
  cases steered_of_step hstep with
  | kept hsame halike =>
    obtain ⟨p, hp, hpq⟩ := halike.exists_getLast? hq
    exact Eq.trans hpq (hs (hsame.symm.trans hstate) p hp)
  | begun _ htoken => exact htoken q hq
  | halted _ hstopped =>
    dsimp only at hstopped
    simp [hstopped] at hstate

theorem handles_dropIntake (s : System) : s.dropIntake.handles = s.handles := by
  unfold dropIntake
  split <;> rfl

theorem handles_of_went (h : s.Went caller s' events) : s'.handles = s.handles := by
  cases h with
  | started | workerEnded => exact s.handles_dropIntake
  | _ => rfl

/-- Without a handle nobody gets another one. -/
theorem handles_of_step (hs : s.handles = 0) (h : s.step a = some out) : out.1.handles = 0 := by
  obtain ⟨x, hdid, hx⟩ := does_of_step h
  have hnone : x.handles = 0 := by
    generalize out.2 = events at hdid
    cases hdid with
    | atOnce _ _ hwent | resumed hwent => exact (handles_of_went hwent).trans hs
    | enqueueAborted =>
      unfold leaveIntake
      split <;> exact hs
    | handleAdded hpos | handleDropped hpos => simp [hs] at hpos
    | _ => exact hs
  rcases hx with hx | hx
  · exact hx ▸ hnone
  · rw [hx, handles_release, hnone]

/-- The enqueuer runs its last run.  Clients have no handle and are in no call, and nobody stops the
run. -/
structure LeftAlone (s : System) (run : Nat) : Prop where
  handles : s.handles = 0
  state : s.state = .running
  last : run + 1 = s.pipelines.length
  calls : ∀ w c, (w, c) ∈ s.calls → (∃ i, w = .handler i) ∧ c.isStop = false
  token : ∀ p, s.pipelines[run]? = some p → p.cancelled = false

theorem LeftAlone.step (hs : s.LeftAlone run) (h : s.step a = some out)
    (ha : ∀ w, a ≠ .stop w) : out.1.LeftAlone run := by
  have hno : ¬ s.Halts a := by
    rintro (⟨w, c, hc, hstop⟩ | ⟨w, hw⟩)
    · simp [(hs.calls w c hc).2] at hstop
    · exact ha w hw
  cases steered_of_step h with
  | kept hstate halike =>
    refine ⟨handles_of_step hs.handles h, hstate.trans hs.state, ?_, fun w c hc => ?_,
      fun q hq => ?_⟩
    · rw [halike.length]
      exact hs.last
    · rcases pends_of_step h hc with ⟨k, hk, hkc⟩ | ⟨hcall, hstop⟩
      · obtain ⟨hw, hquiet⟩ := hs.calls w k hk
        rcases hkc with rfl | hstop
        · exact ⟨hw, hquiet⟩
        · simp [hquiet] at hstop
      · refine ⟨?_, Bool.eq_false_iff.mpr fun hc => ha w (hstop hc)⟩
        cases w with
        | client n => simp [mayCall, hs.handles] at hcall
        | handler i => exact ⟨i, rfl⟩
    · obtain ⟨p, hp, hpq⟩ := halike.exists_left hq
      exact Eq.trans hpq (hs.token p hp)
  | begun hstopped => simp [hs.state] at hstopped
  | halted hstops => exact absurd hstops hno

theorem LeftAlone.of_run (hs : s.LeftAlone run) (h : Run System.step s turns s')
    (hstop : ∀ t ∈ turns, ∀ w, t.action ≠ .stop w) : s'.LeftAlone run := by
  induction h with
  | nil => exact hs
  | @snoc turns s₁ s₂ a events _ hstep ih =>
    exact (ih fun t ht => hstop t (by simp [ht])).step hstep (hstop ⟨s₁, a, events⟩ (by simp))

/-- One handle is left to clients, who are in no call, and the enqueuer runs its last run. -/
structure LastHandle (s : System) (run : Nat) : Prop where
  handles : s.handles = 1
  state : s.state = .running
  last : run + 1 = s.pipelines.length
  calls : ∀ w c, (w, c) ∈ s.calls → (∃ i, w = .handler i) ∧ c.isStop = false

theorem LastHandle.dropped (hs : s.LastHandle run) (h : Run System.step (new o) turns s)
    (hstep : s.step .dropHandle = some (s', events)) : s'.LeftAlone run := by
  simp only [System.step, hs.handles, Nat.one_pos, if_true, Option.some.injEq,
    Prod.mk.injEq] at hstep
  obtain ⟨rfl, -⟩ := hstep
  have hsame := sameToken_release { s with handles := 1 - 1 }
  refine ⟨handles_release _, (state_release _).trans hs.state, hs.last.trans hsame.length.symm,
    fun w c hc => hs.calls w c (by rwa [calls_release] at hc), fun q hq => ?_⟩
  obtain ⟨p, hp, hpq⟩ := hsame.exists_left hq
  refine Eq.trans hpq (tokenKept_of_run h hs.state p ?_)
  rw [List.getLast?_eq_getElem?, ← hs.last]
  exact hp

/-- Each answer of the sink has as many messages as its batch. -/
theorem answers_of_run (h : Run step (new o) turns s) (hsink : SinkReturned run turns) :
    Agree (fun ms a => a.batch.length = ms.length) (batches run turns) (answered run turns)
      s.pipelines[run]? := by
  refine agree_of_run h hsink fun t ht p hp chunk answer hchunk hanswer => ?_
  obtain ⟨m, hm, hanswer⟩ := Option.bind_eq_some_iff.mp hanswer
  obtain ⟨before, _, _, -, hbefore, hstep, -⟩ := h.split ht
  rw [Action.move?_eq_some.mp hm] at hstep
  obtain ⟨q, _, _, hq, -, hmoved, -⟩ := moved_of_move hstep
  obtain rfl := Option.some.inj (hp.symm.trans hq)
  have hpanic (panic : Panic) : m ≠ .sinkPanics panic := by
    rintro rfl
    cases hanswer
  rcases hmoved.unanswered (sound_of_run hbefore run p hp).2 hpanic with
    ⟨hno, -⟩ | ⟨_, _, hsome, hlength, hbatch, -⟩
  · simp [hno] at hanswer
  · obtain rfl := Option.some.inj (hsome.symm.trans hanswer)
    obtain rfl := List.singleton_inj.mp (hbatch.symm.trans hchunk)
    exact hlength

/-- The worker and the reporter have returned.  All that the intake took was submitted, once and in
order, the sink has answered every batch, and every failure was reported, once and in order. -/
structure Flushed (run : Nat) (turns : History) (p : Pipeline Caller) : Prop where
  worker : p.feed.worker = .returned
  reporter : p.reporter = .returned
  kept : p.feed.kept = []
  submitted : (batches run turns).flatten = taken run turns
  answers : List.Forall₂ (fun ms a => a.batch.length = ms.length) (batches run turns)
    (answered run turns)
  failures : (answered run turns).flatMap Answer.failures = reported run turns

theorem flushed_of_over (h : Run step (new o) turns s) (hsink : SinkReturned run turns)
    (hhandler : HandlerReturned run turns) (hp : s.pipelines[run]? = some p) (hover : p.Over) :
    Flushed run turns p := by
  have haccounts := accounts_of_run h hsink
  have hconveyed := conveys_of_run h hsink hhandler
  have hanswers := answers_of_run h hsink
  rw [hp] at haccounts hconveyed hanswers
  have hidle := (sound_of_run h run p hp).2.idle_of_ended hover.worker
  have hreporter := Reporter.eq_returned hover.reporter hconveyed.not_panicked
  have hsubmitted := flatten_batches_of_ended h hsink hp hover.worker
  refine ⟨?_, hreporter, ?_, hsubmitted, ?_, ?_⟩
  · have hnot := haccounts.2
    have hended := hover.worker
    cases hw : p.feed.worker <;> simp_all [Chunker.Worker.ended]
  · simpa [hsubmitted] using haccounts.1
  · obtain ⟨done, hdone, hlengths⟩ := hanswers
    rw [unanswered_of_ne (by simp [hidle]), List.append_nil] at hdone
    exact hdone ▸ hlengths
  · have hflow := hconveyed.flow
    simpa only [Pipeline.unhandled, (hconveyed.finished hreporter).buffer, hidle,
      Submission.pending, List.append_nil] using hflow

/-- What has become of a run whose last handle was dropped, where `p₀` is its pipeline at that time
and `p` is its pipeline now. -/
structure Flushes (o : Options) (run : Nat) (before after : History) (p₀ p : Pipeline Caller)
    (s : System) : Prop where
  /-- Of what was accepted `p₀` keeps what was not submitted. -/
  accepted : (batches run before).flatten ++ p₀.feed.kept = taken run before
  /-- That is submitted, once and in order, before what handlers enqueue afterwards. -/
  submitted : (batches run after).flatten ++ p.feed.kept = p₀.feed.kept ++ taken run after
  sizes : ∀ ms ∈ batches run after, 1 ≤ ms.length ∧ ms.length ≤ o.batchSize
  token : p.cancelled = false
  /-- A handle can be obtained as long as a handler is at work. -/
  reachable : s.reachable = true ↔
    ∃ (i : Nat) (q : Pipeline Caller), s.pipelines[i]? = some q ∧ q.reporter.isHandling = true
  /-- What has failed was reported, once and in order, or is on its way. -/
  failures : (answered run (before ++ after)).flatMap Answer.failures =
    reported run (before ++ after) ++ p.unhandled
  /-- A failure that is taken from the channel goes to the handler if a handle can be obtained
  then, and to the log otherwise. -/
  outlet : ∀ t ∈ before ++ after, t.action = .move run .take →
    ∃ v, t.events = [if o.hasHandler && t.before.reachable then .failure run v
      else .log (.messageFailed v)]
  /-- Nothing else reports a failure of the run. -/
  elsewhere : ∀ t ∈ before ++ after, t.action ≠ .move run .take → reportedBy run t = []
  /-- The worker and the reporter come to their end, when no handler waits for a call. -/
  empties : s.calls = [] → s.Empties
  flushed : p.Over → Flushed run (before ++ after) p

/-- A client drops the last handle while the enqueuer runs, and nobody stops the run.  Whatever the
worker and the handlers are doing, at any later time: what was accepted and not submitted is
submitted, once, in order and before all that handlers enqueue afterwards, in batches of one to
`batchSize` messages and with a token that is not cancelled.  Each failure of the run is reported
once, and in order: to the handler if a handle can be obtained when the reporter takes the failure,
which is so as long as some handler is at work, and to the log otherwise.  Unless a handler waits for
a call, the workers and the reporters come to their end after so many steps, and then nothing is
left.  The sink and the handler of the run have to return, and nothing else. -/
theorem flushed_without_handles {o : Options} {before after : History} {s : System}
    {t : Turn System Action Event} {run : Nat} (h : Run step (new o) (before ++ t :: after) s)
    (hdrop : t.action = .dropHandle) (hlast : t.before.LastHandle run)
    (hstop : ∀ u ∈ after, ∀ w, u.action ≠ .stop w)
    (hsink : SinkReturned run (before ++ t :: after))
    (hhandler : HandlerReturned run (before ++ t :: after)) :
    ∃ p₀ p, t.before.pipelines[run]? = some p₀ ∧ s.pipelines[run]? = some p ∧
      Flushes o run before (t :: after) p₀ p s := by
  have hall := h
  rw [List.append_cons] at h
  obtain ⟨s₁, hupto, hafter⟩ := h.cut
  obtain ⟨hbefore, hstep⟩ := hupto.snoc_inv
  rw [hdrop] at hstep
  have halone := (hlast.dropped hbefore hstep).of_run hafter hstop
  obtain ⟨p₀, hp₀⟩ : ∃ p₀, t.before.pipelines[run]? = some p₀ :=
    ⟨_, List.getElem?_eq_getElem (by have := hlast.last; omega)⟩
  obtain ⟨p, hp⟩ : ∃ p, s.pipelines[run]? = some p :=
    ⟨_, List.getElem?_eq_getElem (by have := halone.last; omega)⟩
  have haccepted := accounts_of_run hbefore fun u hu => hsink u (List.mem_append_left _ hu)
  have haccounts := accounts_of_run hall hsink
  have hconveyed := conveys_of_run hall hsink hhandler
  rw [hp₀] at haccepted
  rw [hp] at haccounts hconveyed
  refine ⟨p₀, p, hp₀, hp, haccepted.1.symm, ?_, ?_, halone.token p hp,
    reachable_iff_of_run hall halone.handles fun w c hc => (halone.calls w c hc).1,
    hconveyed.flow, fun u hu => outlet_of_run hall hu,
    fun u hu => reportedBy_eq_nil hall hsink hhandler hu,
    fun hcalls => Vacant.empties hall ⟨halone.handles, hcalls⟩,
    flushed_of_over hall hsink hhandler hp⟩
  · have hitems := haccounts.1
    rw [taken_append, batches_append, haccepted.1, List.flatten_append, List.append_assoc,
      List.append_assoc] at hitems
    exact (List.append_cancel_left hitems).symm
  · intro ms hms
    refine length_batch_of_run hall run ms ?_
    rw [batches_append]
    exact List.mem_append_right _ hms

/-- The handler is at work on the first failure, the worker submits the second message, and the third
is in the intake. -/
def desertedRun : List Action :=
  [.start (.client 0) 7, .enqueue (.client 1) (letter "a"), .move 0 (.worker .receive),
    refuses (letter "a"), .move 0 .report, .move 0 .report, .move 0 .take,
    .enqueue (.client 1) (letter "b"), .move 0 (.worker .receive),
    .enqueue (.client 1) (letter "c")]

/-- The handler enqueues one more message and returns; then the second message fails as well. -/
def desertedRest : List Action :=
  [.enqueue (.handler 0) (letter "d"), .move 0 .handlerReturns, refuses (letter "b"),
    .move 0 .report, .move 0 .report, .move 0 .take, .move 0 (.worker .receive),
    .move 0 (.sinkReturns [letter "c"] (.ok [.succeeded (letter "c")])), .move 0 .report,
    .move 0 (.worker .receive),
    .move 0 (.sinkReturns [letter "d"] (.ok [.succeeded (letter "d")])), .move 0 .report,
    .move 0 (.worker .noticeEnd), .move 0 (.worker .finish), .move 0 .noticeEnd]

theorem flushed_without_handles_desertedRun : ∃ before t after s p₀ p,
    Run step (new crowdedOptions) (before ++ t :: after) s ∧ t.action = .dropHandle ∧
      t.before.LastHandle 0 ∧ (∀ u ∈ after, ∀ w, u.action ≠ .stop w) ∧
      SinkReturned 0 (before ++ t :: after) ∧ HandlerReturned 0 (before ++ t :: after) ∧
      t.before.pipelines = [p₀] ∧ p₀.submission = .submitting ∧
      p₀.reporter.isHandling = true ∧ p₀.feed.kept = [letter "c"] ∧
      batches 0 (t :: after) = [[letter "c"], [letter "d"]] ∧
      (reported 0 (before ++ t :: after)).map (·.message) = [letter "a", letter "b"] ∧
      (failures 0 (before ++ t :: after)).map (·.message) = [letter "a"] ∧
      Flushes crowdedOptions 0 before (t :: after) p₀ p s ∧
      Flushed 0 (before ++ t :: after) p := by
  have hseen : ((replay step (new crowdedOptions) desertedRun).bind fun r =>
      (step r.2 .dropHandle).bind fun r₁ => (replay step r₁.1 desertedRest).map fun r₂ =>
        (decide (r.2.handles = 1 ∧ r.2.state = .running ∧ r.2.calls.isEmpty),
          r.2.pipelines.map fun p => decide (p.submission = .submitting ∧
            p.reporter.isHandling = true ∧ p.feed.kept = [letter "c"]),
          decide (batches 0 (⟨r.2, .dropHandle, r₁.2⟩ :: r₂.1) = [[letter "c"], [letter "d"]] ∧
            (reported 0 (r.1 ++ ⟨r.2, .dropHandle, r₁.2⟩ :: r₂.1)).map (·.message) =
              [letter "a", letter "b"] ∧
            (failures 0 (r.1 ++ ⟨r.2, .dropHandle, r₁.2⟩ :: r₂.1)).map (·.message) =
              [letter "a"]),
          r₂.2.pipelines.all fun p => p.feed.worker.ended && p.reporter.outcome?.isSome)) =
      some (true, [true], true, true) := by
    decide +kernel
  obtain ⟨⟨before, s₀⟩, hbefore, hseen⟩ := Option.bind_eq_some_iff.mp hseen
  obtain ⟨⟨s₁, events⟩, hdrop, hseen⟩ := Option.bind_eq_some_iff.mp hseen
  obtain ⟨⟨after, s⟩, hafter, hseen⟩ := Option.map_eq_some_iff.mp hseen
  simp only [Prod.mk.injEq, decide_eq_true_eq] at hseen
  obtain ⟨⟨hhandles, hstate, hcalls⟩, hpipelines, ⟨hbatches, hreported, hfailures⟩, hover⟩ := hseen
  obtain ⟨p₀, hp₀, hsigns⟩ := List.map_eq_singleton_iff.mp hpipelines
  obtain ⟨hsubmitting, hhandling, hkept⟩ := of_decide_eq_true hsigns
  have hrun := ((Run.of_replay hbefore).snoc hdrop).append (Run.of_replay hafter)
  rw [← List.append_cons] at hrun
  have hlast : s₀.LastHandle 0 :=
    ⟨hhandles, hstate, by rw [hp₀]; rfl, by simp [List.isEmpty_iff.mp hcalls]⟩
  have hactions {u : Turn System Action Event}
      (hu : u ∈ before ++ ⟨s₀, .dropHandle, events⟩ :: after) : u.action ∈ desertedRun ++ .dropHandle :: desertedRest := by
    rcases List.mem_append.mp hu with hu | hu
    · exact List.mem_append_left _ (Run.action_mem_of_replay hbefore hu)
    · refine List.mem_append_right _ ?_
      rcases List.mem_cons.mp hu with rfl | hu
      · exact List.mem_cons_self
      · exact List.mem_cons_of_mem _ (Run.action_mem_of_replay hafter hu)
  have hstop : ∀ u ∈ after, ∀ w, u.action ≠ .stop w := by
    intro u hu w ha
    have hmem := Run.action_mem_of_replay hafter hu
    simp [desertedRest, refuses, ha] at hmem
  have hsink : SinkReturned 0 (before ++ ⟨s₀, .dropHandle, events⟩ :: after) := by
    intro u hu panic ha
    have hmem := hactions hu
    simp [desertedRun, desertedRest, refuses, ha] at hmem
  have hhandler : HandlerReturned 0 (before ++ ⟨s₀, .dropHandle, events⟩ :: after) := by
    intro u hu panic ha
    have hmem := hactions hu
    simp [desertedRun, desertedRest, refuses, ha] at hmem
  obtain ⟨q₀, p, hq₀, hp, hflushes⟩ :=
    flushed_without_handles hrun rfl hlast hstop hsink hhandler
  obtain rfl : p₀ = q₀ := by simpa [hp₀] using hq₀
  have hend : p.Over := by
    have hboth := List.all_eq_true.mp hover p (List.mem_of_getElem? hp)
    exact ⟨(Bool.and_eq_true_iff.mp hboth).1, (Bool.and_eq_true_iff.mp hboth).2⟩
  exact ⟨before, _, after, s, p₀, p, hrun, rfl, hlast, hstop, hsink, hhandler, hp₀, hsubmitting,
    hhandling, hkept, hbatches, hreported, hfailures, hflushes, hflushes.flushed hend⟩

end System

end Batchflow.Enqueuer
