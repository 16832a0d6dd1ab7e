import Batchflow.Proofs.Enqueuer.Delivery
import Batchflow.Proofs.Enqueuer.Reporting

/-!
# What becomes of the failures of a run

When a call has stopped a run, the handler was called with all failures that the sink of the run
has answered, one call after the other, and all calls have returned.  As long as somebody can get
at the enqueuer each failure goes to the handler; a call that stops a run is such a somebody, and
nobody gets at an enqueuer again that nobody could get at before.
-/

namespace Batchflow.Enqueuer

open Pipeline

/-- What the sink of a run has answered, in order. -/
def answered (run : Nat) (turns : History) : List Answer :=
  turns.filterMap fun t => (t.action.move? run).bind Move.answer?

/-- The failures that the handler was called with in a run, in order. -/
def failures (run : Nat) (turns : History) : List Verdict :=
  turns.flatMap fun t => t.events.filterMap (Event.failure? run)

/-- How many calls of the handler have returned in a run. -/
def returned (run : Nat) (turns : History) : Nat :=
  turns.countP fun t => (t.action.move? run).any Move.isReturn

theorem returned_concat (run : Nat) (turns : History) (t : Turn System Action Event) :
    returned run (turns ++ [t]) =
      returned run turns + ((t.action.move? run).any Move.isReturn).toNat := by
  cases h : (t.action.move? run).any Move.isReturn <;> simp [returned, h]

def HandlerReturned (run : Nat) (turns : History) : Prop :=
  ∀ t ∈ turns, ∀ panic, t.action ≠ .move run (.handlerPanics panic)

/-- Nothing is seen of a run, and nothing moves in it. -/
structure Quiet (run : Nat) (turns : History) : Prop where
  moves : ∀ t ∈ turns, t.action.move? run = none
  batches : batches run turns = []
  failures : failures run turns = []

theorem Quiet.answered {run : Nat} {turns : History} (h : Quiet run turns) :
    answered run turns = [] :=
  List.filterMap_eq_nil_iff.mpr fun t ht => by rw [h.moves t ht, Option.bind_none]

theorem Pipeline.Moved.isHandling {ι : Type} {o : Options} {hasHandler : Bool} {now : Nat}
    {p p' : Pipeline ι} {m : Move} {notes : List Note} (h : Moved o hasHandler now p m p' notes)
    (hafter : p'.reporter.isHandling = true) :
    hasHandler = true ∨ p.reporter.isHandling = true := by
  cases h with
  | worked | submitted | sinkPanicked | reported => exact .inr (by simpa using hafter)
  | taken hhandler => exact .inl hhandler
  | endNoticed | handled | handlerPanicked => simp [Reporter.isHandling] at hafter
  | _ => exact .inr hafter

namespace System

variable {o : Options} {s s' : System} {a : Action} {out : Outcome} {events : List Event}
  {caller : Caller} {turns before after : History} {run : Nat} {c : Call}

theorem reachable_eq (hhandles : s'.handles = s.handles) (hcalls : s'.calls = s.calls)
    (halike : Alike (fun p q => q.reporter = p.reporter) s.pipelines s'.pipelines) :
    s'.reachable = s.reachable := by
  have hmap := congrArg (List.any · Reporter.isHandling) halike.map_eq
  simp only [List.any_map] at hmap
  simp only [reachable, hhandles, hcalls]
  exact congrArg _ hmap

theorem handles_release (s : System) : s.release.handles = s.handles := by
  unfold release dropSlot dropIntake
  split
  · rfl
  · split <;> split <;> rfl

theorem reachable_release (s : System) : s.release.reachable = s.reachable :=
  reachable_eq s.handles_release (calls_release s) (s.tended_release.imp fun h => by cases h; rfl)

theorem reachable_of_handles (h : 0 < s.handles) : s.reachable = true := by
  simp [reachable, h]

theorem reachable_of_call (h : s.call? caller = some c) : s.reachable = true := by
  have hne : s.calls ≠ [] := List.ne_nil_of_mem (Calls.mem_of_lookup h)
  simp [reachable, hne]

theorem reachable_of_reporter {p : Pipeline Caller} (hp : s.pipelines[run]? = some p)
    (h : p.reporter.isHandling = true) : s.reachable = true := by
  have hany : s.pipelines.any (·.reporter.isHandling) = true :=
    List.any_eq_true.mpr ⟨p, List.mem_of_getElem? hp, h⟩
  simp [reachable, hany]

theorem handling_of_mayCall (h : s.mayCall (.handler run) = true) :
    ∃ p, s.pipelines[run]? = some p ∧ p.reporter.isHandling = true := by
  simp only [mayCall, Bool.and_eq_true] at h
  cases hp : s.pipelines[run]? with
  | none => simp [pipeline?, hp] at h
  | some p => exact ⟨p, rfl, by simpa [pipeline?, hp] using h.2⟩

theorem reachable_of_mayCall (h : s.mayCall caller = true) : s.reachable = true := by
  cases caller with
  | client =>
    simp only [mayCall, Bool.and_eq_true] at h
    exact reachable_of_handles (by simpa using h.2)
  | handler run =>
    obtain ⟨p, hp, hhandling⟩ := handling_of_mayCall h
    exact reachable_of_reporter hp hhandling

theorem reachable_of_went (h : s.Went caller s' events) : s.reachable = true := by
  cases h <;> exact reachable_of_call ‹_›

/-- A move of a pipeline does not let anybody in. -/
theorem reachable_of_moved {p p' : Pipeline Caller} {m : Move} {notes : List Note}
    (hp : s.pipelines[run]? = some p)
    (hm : p.Moved s.options (s.options.hasHandler && s.reachable) s.now m p' notes)
    (h : (s.modifyPipeline run fun _ => p').reachable = true) : s.reachable = true := by
  simp only [reachable, Bool.or_eq_true, modifyPipeline] at h
  rcases h with (hhandles | hcalls) | hany
  · exact reachable_of_handles (of_decide_eq_true hhandles)
  · simp [reachable, hcalls]
  · obtain ⟨q, hq, hhandling⟩ := List.any_eq_true.mp hany
    obtain ⟨i, hi⟩ := List.mem_iff_getElem?.mp hq
    by_cases hrun : run = i
    · subst hrun
      obtain rfl : p' = q := by simpa [hp] using hi
      rcases hm.isHandling hhandling with hhandler | hbefore
      · exact (Bool.and_eq_true_iff.mp hhandler).2
      · exact reachable_of_reporter hp hbefore
    · exact reachable_of_reporter (by simpa [hrun] using hi) hhandling

theorem reachable_of_did (h : s.Did a s' events) (hs' : s'.reachable = true) :
    s.reachable = true := by
  cases h with
  | asked _ hcall | atOnce _ hcall => exact reachable_of_mayCall hcall
  | enqueued hcall | enqueueWaits hcall | rejected hcall | notRunning hcall =>
    exact reachable_of_mayCall hcall
  | lockAborted hcall | stoppingAborted hcall | drainingAborted hcall | enqueueAborted hcall =>
    exact reachable_of_call hcall
  | handleAdded hhandles | handleDropped hhandles => exact reachable_of_handles hhandles
  | resumed hwent => exact reachable_of_went hwent
  | moved hp _ hm => exact reachable_of_moved hp hm hs'
  | advanced => exact hs'

theorem reachable_of_step (h : s.step a = some out) (hout : out.1.reachable = true) :
    s.reachable = true := by
  obtain ⟨x, hdid, hx | hx⟩ := does_of_step h
  · exact reachable_of_did hdid (hx ▸ hout)
  · rw [hx, reachable_release] at hout
    exact reachable_of_did hdid hout

theorem reachable_of_run (h : Run step s turns s') (hs' : s'.reachable = true) :
    s.reachable = true := by
  induction h with
  | nil => exact hs'
  | snoc _ hstep ih => exact ih (reachable_of_step hstep hs')

/-- As long as somebody can get at the enqueuer, what has been seen of a run agrees with it. -/
theorem reports_of_run (h : Run step (new o) turns s) (hhandler : o.hasHandler = true)
    (hs : s.reachable = true) (hsink : SinkReturned run turns)
    (hreturned : HandlerReturned run turns) :
    Reports (batches run turns) (answered run turns) (failures run turns) (returned run turns)
      s.pipelines[run]? := by
  induction h with
  | nil => exact ⟨rfl, rfl, rfl, rfl⟩
  | @snoc turns s₁ s₂ a events hrun hstep ih =>
    have hreachable := reachable_of_step hstep hs
    obtain ⟨item, notes, hchange, -, hbatch, hfailure⟩ := effect_of_step hstep run
    rw [options_of_run hrun, hhandler, hreachable] at hchange
    have hreports := hchange.reports (sound_of_run hrun run)
      (fun p hp => (wellFormed_of_run hrun).workers_le hp)
      (fun panic hmove => hsink ⟨s₁, a, events⟩ (by simp) panic (Action.move?_eq_some.mp hmove))
      (fun panic hmove => hreturned ⟨s₁, a, events⟩ (by simp) panic (Action.move?_eq_some.mp hmove))
      (ih hreachable (fun t ht => hsink t (by simp [ht])) fun t ht => hreturned t (by simp [ht]))
    rw [answered, filterMap_concat, returned_concat]
    simpa [batches, answered, failures, hbatch, hfailure] using hreports

/-- After the end of the worker and the reporter nothing is seen of a run any more. -/
theorem quiet_of_run {p : Pipeline Caller} (hbefore : Run step (new o) before s)
    (h : Run step s after s') (hp : s.pipelines[run]? = some p) (hover : p.Over) :
    Quiet run after ∧ ∃ q, s'.pipelines[run]? = some q ∧ p.Still q := by
  induction h with
  | nil => exact ⟨⟨by simp, rfl, rfl⟩, p, hp, .refl p⟩
  | snoc hrun hstep ih =>
    obtain ⟨hquiet, q, hq, hstill⟩ := ih
    obtain ⟨item, notes, hchange, -, hbatch, hfailure⟩ := effect_of_step hstep run
    have hsound := sound_of_run (hbefore.append hrun) run
    rw [options_of_run (hbefore.append hrun)] at hchange
    obtain ⟨hmove, rfl, r, hr, hlater⟩ := hchange.over hsound hq (hstill.over hover)
    refine ⟨⟨?_, ?_, ?_⟩, r, hr, hstill.trans hlater⟩
    · exact List.forall_mem_append.mpr ⟨hquiet.moves, by simpa using hmove⟩
    · simpa [batches, hbatch] using hquiet.batches
    · simpa [failures, hfailure] using hquiet.failures

/-- When a stop that found the enqueuer running has returned, the handler was called with the
failures of all batches of the run, batch after batch: those among the verdicts of the sink, as
they are and in their order, or, when the sink refused a batch, one for each message as the sink
left it.  The sink has answered every batch, and every call of the handler has returned.  At any
time before, the handler had been called with the first of these failures and was inside one call
at most.  Afterwards nothing more is submitted, answered or handled.  A call to stop has a handle
of the enqueuer until it returns, so the failures go to the handler all that time. -/
theorem failures_handled {o : Options} {before after : History} {s : System}
    {t : Turn System Action Event} {caller : Caller} {result : Except Error Unit}
    (h : Run step (new o) (before ++ t :: after) s) (hhandler : o.hasHandler = true)
    (hreply : .replied caller (.stopped result) ∈ t.events)
    (hfound : result ≠ .error .notRunning) (hsinks : ∀ run, SinkReturned run before)
    (hreturned : ∀ run, HandlerReturned run before) :
    ∃ run, t.before.pipelines.length = run + 1 ∧
      failures run before = (answered run before).flatMap Answer.failures ∧
      List.Forall₂ (fun ms a => a.batch.length = ms.length) (batches run before)
        (answered run before) ∧
      (failures run before).length = returned run before ∧
      (∀ earlier later, before = earlier ++ later →
        failures run earlier <+: (answered run earlier).flatMap Answer.failures ∧
          returned run earlier ≤ (failures run earlier).length ∧
          (failures run earlier).length ≤ returned run earlier + 1) ∧
      batches run (t :: after) = [] ∧ answered run (t :: after) = [] ∧
        failures run (t :: after) = [] := by
  rw [List.append_cons] at h
  obtain ⟨s₁, hupto, hafter⟩ := h.cut
  obtain ⟨hbefore, hstep⟩ := hupto.snoc_inv
  obtain ⟨w, run, worker, p, reporter, hcall, hp, hreporter⟩ :=
    stopped_of_step hstep hreply hfound
  have hlast := ((wellFormed_of_run hbefore).draining (Calls.mem_of_lookup hcall)).1.last
  have hreachable := reachable_of_call hcall
  have hreports := reports_of_run hbefore hhandler hreachable (hsinks run) (hreturned run)
  have hsound := sound_of_run hbefore run
  rw [hp] at hreports hsound
  have hfinished : p.Finished :=
    hreports.finished (Reporter.eq_returned (by simp [hreporter]) hreports.not_panicked)
  obtain ⟨hall, hlength, hsizes⟩ := hreports.all hfinished (hsound p rfl).2
  obtain ⟨hquiet, -⟩ := quiet_of_run hbefore ((Run.of_step hstep).append hafter) hp hfinished.over
  refine ⟨run, hlast.symm, hall, hsizes, hlength, ?_, hquiet.batches, hquiet.answered,
    hquiet.failures⟩
  rintro earlier later rfl
  obtain ⟨s₀, hearlier, hlater⟩ := hbefore.cut
  exact (reports_of_run hearlier hhandler (reachable_of_run hlater hreachable)
    (fun t ht => hsinks run t (by simp [ht])) fun t ht => hreturned run t (by simp [ht])).so_far

/-- One failure only has room in the failure channel. -/
def narrowOptions : Options :=
  { bufferSize := 3, batchSize := 2, failedBufferSize := 1, hasHandler := true }

/-- The sink refuses a batch, and later finds fault with something that was not in the batch.  The
worker waits for the handler before it has reported all failures. -/
def refusedRun : List Action :=
  [.start (.client 0) 7, .enqueue (.client 1) (letter "a"), .enqueue (.client 1) (letter "b"),
    .move 0 (.worker .receive), .move 0 (.worker .receive), .enqueue (.client 1) (letter "c"),
    .move 0 (.sinkReturns [letter "a", letter "e"] (.error .cancelled)), .move 0 .report,
    .move 0 .report, .move 0 .take, .stop (.client 0), .move 0 .report, .move 0 .report,
    .move 0 (.worker .noticeStop), .move 0 (.worker .receive), .move 0 (.worker .finish),
    .move 0 (.sinkReturns [letter "c"]
      (.ok [.succeeded (letter "c"), .failed (letter "d") true "late"])),
    .move 0 .report, .move 0 .handlerReturns, .move 0 .take, .move 0 .report, .move 0 .report,
    .resume (.client 0), .move 0 .handlerReturns, .move 0 .take, .move 0 .handlerReturns,
    .move 0 .noticeEnd, .resume (.client 0)]

theorem failures_handled_refusedRun : ∃ before t after s,
    Run step (new narrowOptions) (before ++ t :: after) s ∧
      .replied (.client 0) (.stopped (.ok ())) ∈ t.events ∧
      (∀ run, SinkReturned run before) ∧ (∀ run, HandlerReturned run before) ∧
      failures 0 (before ++ t :: after) = [.failed (letter "a") false "queue operation cancelled",
        .failed (letter "e") false "queue operation cancelled", .failed (letter "d") true "late"] ∧
      ∃ run, failures run before = (answered run before).flatMap Answer.failures ∧
        (failures run before).length = returned run before := by
  have hseen : (replay step (new narrowOptions) refusedRun).map (fun r =>
        (failures 0 r.1, r.1.any fun t => t.events.any isStopped)) =
      some ([.failed (letter "a") false "queue operation cancelled",
        .failed (letter "e") false "queue operation cancelled",
        .failed (letter "d") true "late"], true) := by
    decide +kernel
  obtain ⟨⟨turns, s⟩, hreplay, hseen⟩ := Option.map_eq_some_iff.mp hseen
  obtain ⟨hfailures, hstopped⟩ := Prod.mk.inj hseen
  obtain ⟨t, ht, hreply⟩ := turn_of_isStopped hstopped
  obtain ⟨before, after, rfl⟩ := List.append_of_mem ht
  have hactions (t : Turn System Action Event) (ht : t ∈ before) : t.action ∈ refusedRun :=
    Run.action_mem_of_replay hreplay (List.mem_append_left _ ht)
  have hsinks : ∀ run, SinkReturned run before := by
    intro run t ht panic ha
    have hmem := hactions t ht
    simp [refusedRun, ha] at hmem
  have hreturned : ∀ run, HandlerReturned run before := by
    intro run t ht panic ha
    have hmem := hactions t ht
    simp [refusedRun, ha] at hmem
  have hrun := Run.of_replay hreplay
  obtain ⟨run, -, hall, -, hlength, -⟩ :=
    failures_handled hrun rfl hreply (by simp) hsinks hreturned
  exact ⟨before, t, after, s, hrun, hreply, hsinks, hreturned, hfailures, run, hall, hlength⟩

end System

end Batchflow.Enqueuer
