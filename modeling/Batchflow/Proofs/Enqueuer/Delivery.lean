import Batchflow.Proofs.Enqueuer.Accounting

/-!
# What a stopped run has delivered

When a call has stopped a run, all that the intake of the run took was submitted, once and in order,
to the sink that the run was started with.
-/

namespace Batchflow.Enqueuer

open Pipeline

def Call.sink? : Call → Option Nat
  | .start sink => some sink
  | _ => none

/-- A caller is told that a run has begun. -/
def Event.isStart : Event → Bool
  | .replied _ (.started (.ok ())) => true
  | _ => false

def System.started? (s : System) (a : Action) (events : List Event) : Option Nat :=
  if events.any Event.isStart then
    match a with
    | .start _ sink => some sink
    | .resume caller => (s.call? caller).bind Call.sink?
    | _ => none
  else none

/-- The sinks of the calls to start that have succeeded, in order. -/
def starts (turns : History) : List Nat :=
  turns.filterMap fun t => t.before.started? t.action t.events

namespace System

variable {o : Options} {s s' : System} {a : Action} {out : Outcome} {events : List Event}
  {caller : Caller} {turns : History} {run : Nat} {c : Call}

/-- The sink of each run. -/
def sinks (s : System) : List Nat := s.pipelines.map (·.sink)

theorem sinks_eq (h : Alike (fun p q => q.sink = p.sink) s.pipelines s'.pipelines) :
    s'.sinks = s.sinks :=
  h.map_eq

theorem sinks_tended (h : Alike Tended s.pipelines s'.pipelines) : s'.sinks = s.sinks :=
  sinks_eq (h.imp fun h => by cases h; rfl)

theorem sinks_setChannel (s : System) (run : Nat) (c : Channel Caller Message) :
    (s.setChannel run c).sinks = s.sinks :=
  sinks_eq (.of_modify rfl (fun _ => rfl) fun _ _ => rfl)

theorem sinks_other (h : s'.sinks = s.sinks) (hevents : events.any Event.isStart = false) :
    s'.sinks = s.sinks ++ (s.started? a events).toList := by
  simp [h, started?, hevents]

theorem sinks_of_went (h : s.Went caller s' events) :
    s'.sinks = s.sinks ++ (s.started? (.resume caller) events).toList := by
  cases h with
  | @started sink hcall =>
    have hstarted : s.started? (.resume caller)
        [.log (.started s.options), .replied caller (.started (.ok ()))] = some sink := by
      simp [started?, Event.isStart, hcall, Call.sink?]
    rw [hstarted, ← sinks_tended s.tended_dropIntake]
    exact List.map_append
  | startRefused | stopRefused => exact sinks_other rfl rfl
  | stopTaken => exact sinks_other (sinks_tended (s.tended_takeOver _ _)) rfl
  | workerEnded => exact sinks_other (sinks_tended (s.tended_workerEnded _ _ _)) rfl
  | @stopped _ worker _ reporter =>
    refine sinks_other (sinks_tended (s.tended_conclude _)) ?_
    cases stopResult worker reporter <;> rfl
  | enqueued | rejected => exact sinks_other (s.sinks_setChannel _ _) rfl

theorem sinks_of_did (h : s.Did a s' events) :
    s'.sinks = s.sinks ++ (s.started? a events).toList := by
  cases h with
  | asked => exact sinks_other rfl rfl
  | @atOnce _ caller c _ _ ha hcall hwent =>
    have hlookup : (s.ask caller c).call? caller = some c :=
      Calls.lookup_await (call?_eq_none_of_mayCall hcall)
    have hsinks := sinks_of_went hwent
    have hstarted : (s.ask caller c).started? (.resume caller) events = s.started? a events := by
      cases ha <;> simp [started?, hlookup, Call.sink?]
    rwa [hstarted] at hsinks
  | enqueued | enqueueWaits | rejected => exact sinks_other (s.sinks_setChannel _ _) rfl
  | notRunning | lockAborted | drainingAborted | handleAdded | handleDropped | advanced =>
    exact sinks_other rfl rfl
  | stoppingAborted => exact sinks_other (sinks_tended (s.tended_dropFailures _)) rfl
  | @enqueueAborted caller run m hcall =>
    refine sinks_other ?_ rfl
    unfold leaveIntake
    split
    · exact s.sinks_setChannel _ _
    · rfl
  | resumed hwent => exact sinks_of_went hwent
  | @moved run m p p' notes hp _ hm =>
    refine sinks_other (sinks_eq (.of_modify rfl (fun _ => rfl) fun q hq => ?_)) ?_
    · obtain rfl := Option.some.inj (hp.symm.trans hq)
      exact hm.sink
    · rw [List.any_map, List.any_eq_false]
      intro n _
      cases n <;> simp [Event.ofNote, Event.isStart]

theorem sinks_of_step (h : s.step a = some out) :
    out.1.sinks = s.sinks ++ (s.started? a out.2).toList := by
  obtain ⟨x, hdid, hout | hout⟩ := does_of_step h
  · rw [hout, sinks_of_did hdid]
  · rw [hout, sinks_tended x.tended_release, sinks_of_did hdid]

theorem sinks_of_run (h : Run step (new o) turns s) : s.sinks = starts turns := by
  induction h with
  | nil => rfl
  | snoc hrun hstep ih => rw [starts, filterMap_concat, sinks_of_step hstep, ih]; rfl

theorem stopped_of_went {w : Caller} {result : Except Error Unit} (h : s.Went w s' events)
    (hreply : .replied caller (.stopped result) ∈ events) (hfound : result ≠ .error .notRunning) :
    w = caller ∧ ∃ run worker p reporter, s.call? w = some (.draining run worker) ∧
      s.pipelines[run]? = some p ∧ p.reporter.outcome? = some reporter ∧
      result = stopResult worker reporter := by
  cases h with
  | stopped hcall hp hreporter =>
    obtain ⟨rfl, hresult⟩ := replied_stopEvents.mp hreply
    exact ⟨rfl, _, _, _, _, hcall, hp, hreporter, Reply.stopped.inj hresult⟩
  | stopRefused =>
    simp only [List.mem_singleton, Event.replied.injEq, Reply.stopped.injEq] at hreply
    exact absurd hreply.2 hfound
  | _ => simp at hreply

/-- Whoever is told that a run was stopped had taken it over and seen the end of its worker, and is
told how the worker and the reporter have ended. -/
theorem stopped_of_did {result : Except Error Unit} (h : s.Did a s' events)
    (hreply : .replied caller (.stopped result) ∈ events) (hfound : result ≠ .error .notRunning) :
    ∃ run worker p reporter, s.call? caller = some (.draining run worker) ∧
      s.pipelines[run]? = some p ∧ p.reporter.outcome? = some reporter ∧
      result = stopResult worker reporter := by
  cases h with
  | @atOnce _ w c _ _ ha hcall hwent =>
    obtain ⟨-, run, worker, p, reporter, hdraining, -⟩ := stopped_of_went hwent hreply hfound
    have hlookup : (s.ask w c).call? w = some c :=
      Calls.lookup_await (call?_eq_none_of_mayCall hcall)
    rw [hlookup] at hdraining
    cases ha <;> cases hdraining
  | resumed hwent =>
    obtain ⟨rfl, hstopped⟩ := stopped_of_went hwent hreply hfound
    exact hstopped
  | @moved run m p p' notes =>
    obtain ⟨n, -, hn⟩ := List.mem_map.mp hreply
    cases n <;> cases hn
  | _ => simp at hreply

theorem stopped_of_step {result : Except Error Unit} (h : s.step a = some out)
    (hreply : .replied caller (.stopped result) ∈ out.2) (hfound : result ≠ .error .notRunning) :
    ∃ w run worker p reporter, s.call? w = some (.draining run worker) ∧
      s.pipelines[run]? = some p ∧ p.reporter.outcome? = some reporter := by
  obtain ⟨x, hdid, -⟩ := does_of_step h
  obtain ⟨run, worker, p, reporter, hcall, hp, hreporter, -⟩ := stopped_of_did hdid hreply hfound
  exact ⟨caller, run, worker, p, reporter, hcall, hp, hreporter⟩

theorem ended_of_stopped {t : Turn System Action Event} {result : Except Error Unit}
    (h : Run step (new o) turns s) (ht : t ∈ turns)
    (hreply : .replied caller (.stopped result) ∈ t.events)
    (hfound : result ≠ .error .notRunning) :
    ∃ run p, t.before.pipelines.length = run + 1 ∧ s.pipelines[run]? = some p ∧
      p.feed.worker.ended = true := by
  obtain ⟨before, after, s', -, hbefore, hstep, hafter⟩ := h.split ht
  obtain ⟨w, run, worker, p, reporter, hcall, hp, -⟩ := stopped_of_step hstep hreply hfound
  obtain ⟨htaken, -, q, hq, hworker⟩ :=
    (wellFormed_of_run hbefore).draining (Calls.mem_of_lookup hcall)
  obtain ⟨item, notes, hchange, -⟩ := effect_of_step hstep run
  obtain ⟨q', hq', hworker'⟩ := hchange.outcome hq hworker
  obtain ⟨r, hr, hend⟩ := outcome_of_run hafter hq' hworker'
  exact ⟨run, r, htaken.last.symm, hr, Chunker.Worker.ended_of_outcome hend⟩

/-- Whatever is in a batch was taken. -/
theorem accepted_of_batch {m : Message} (h : Run step (new o) turns s)
    (hp : SinkReturned run turns) (hm : m ∈ (batches run turns).flatten) :
    (m, .accepted run) ∈ fates turns := by
  have haccounts := accounts_of_run h hp
  have htaken : m ∈ taken run turns := by
    cases hx : s.pipelines[run]? with
    | none =>
      rw [hx] at haccounts
      simp [haccounts.2] at hm
    | some p =>
      rw [hx] at haccounts
      rw [haccounts.1]
      exact List.mem_append_left _ hm
  rw [taken_eq h] at htaken
  obtain ⟨⟨m', fate⟩, hmem, hin⟩ := List.mem_filterMap.mp htaken
  cases fate with
  | accepted i =>
    simp only [acceptedIn?, Option.ite_none_right_eq_some, Option.some.injEq] at hin
    obtain ⟨rfl, rfl⟩ := hin
    exact hmem
  | refused | dropped => simp [acceptedIn?] at hin

theorem taken_sublist (l : List (Message × Fate)) (run : Nat) :
    (l.filterMap (acceptedIn? run)).Sublist (l.map Prod.fst) := by
  induction l with
  | nil => exact .slnil
  | cons e l ih =>
    obtain ⟨m, fate⟩ := e
    rw [List.filterMap_cons, List.map_cons]
    cases fate with
    | accepted i =>
      by_cases hi : i = run
      · simpa [acceptedIn?, hi] using ih
      · simpa [acceptedIn?, hi] using ih.cons m
    | refused | dropped => exact ih.cons m

theorem count_taken_le {m : Message} (h : Run step (new o) turns s) (run : Nat) :
    (taken run turns).count m ≤ (made turns).count m := by
  rw [taken_eq h, (made_perm h).count_eq, List.count_append]
  exact Nat.le_add_right_of_le ((taken_sublist _ run).count_le m)

/-- When a stop that found the enqueuer running has returned, the batches of the run are in order
just the messages that its intake has taken, and these are just the messages whose calls were
accepted in that run.  Take a message that was enqueued by one call only.  If the call was accepted
in that run, the message was submitted once, to the sink that the run was started with, and not in
any other run.  If it was refused or given up, the message is in no batch of any run, and when it
was rejected it went back to its caller unchanged.  Every call to enqueue has ended in one of these
ways or still waits, and `fates` tells what the callers were told. -/
theorem messages_accounted {o : Options} {turns : History} {s : System}
    {t : Turn System Action Event} {caller : Caller} {result : Except Error Unit}
    (h : Run step (new o) turns s) (ht : t ∈ turns)
    (hreply : .replied caller (.stopped result) ∈ t.events)
    (hfound : result ≠ .error .notRunning) (hsinks : ∀ run, SinkReturned run turns) :
    ∃ run sink, t.before.pipelines.length = run + 1 ∧ (starts turns)[run]? = some sink ∧
      s.pipelines[run]?.map (·.sink) = some sink ∧
      (batches run turns).flatten = taken run turns ∧
      taken run turns = (fates turns).filterMap (acceptedIn? run) ∧
      answers turns = (fates turns).filterMap (·.2.answer?) ∧
      (made turns).Perm ((fates turns).map Prod.fst ++ s.waiting) ∧
      ∀ m, (made turns).count m = 1 →
        ((m, .accepted run) ∈ fates turns → (batches run turns).flatten.count m = 1 ∧
          ∀ i, i ≠ run → m ∉ (batches i turns).flatten) ∧
        (∀ e, (m, .refused e) ∈ fates turns → (∀ i, m ∉ (batches i turns).flatten) ∧
          ∀ m', e = .rejected m' → m' = m) ∧
        ((m, .dropped) ∈ fates turns → ∀ i, m ∉ (batches i turns).flatten) := by
  obtain ⟨run, p, hlast, hp, hended⟩ := ended_of_stopped h ht hreply hfound
  have hsound := sound_of_run h run
  have haccounts := accounts_of_run h (hsinks run)
  rw [hp] at hsound haccounts
  obtain ⟨hitems, hworker⟩ := haccounts
  have hall : (batches run turns).flatten = taken run turns := by
    obtain ⟨hspent, hbatch⟩ := (hsound p rfl).1.buffer_of_ended hended hworker
    rw [hitems, Chunker.Feed.kept, hbatch, hspent.buffer]
    simp
  have hsink : (starts turns)[run]? = some p.sink := by
    rw [← sinks_of_run h, sinks, List.getElem?_map, hp]
    rfl
  refine ⟨run, p.sink, hlast, hsink, by rw [hp]; rfl, hall, taken_eq h run, answers_eq h,
    made_perm h, ?_⟩
  intro m hm
  have hother {fate : Fate} (hfate : (m, fate) ∈ fates turns) {i : Nat}
      (hi : fate ≠ .accepted i) : m ∉ (batches i turns).flatten := fun hbatch =>
    hi (fate_unique h hm hfate (accepted_of_batch h (hsinks i) hbatch))
  refine ⟨fun hfate => ⟨?_, fun i hi => hother hfate ?_⟩, fun e hfate =>
    ⟨fun i => hother hfate (by simp), ?_⟩, fun hfate i => hother hfate (by simp)⟩
  · apply Nat.le_antisymm
    · rw [hall, ← hm]
      exact count_taken_le h run
    · rw [hall, taken_eq h]
      exact List.count_pos_iff.mpr (List.mem_filterMap.mpr ⟨_, hfate, by simp [acceptedIn?]⟩)
  · simpa using Ne.symm hi
  · rintro m' rfl
    exact eq_of_rejected h hfate

def letter (trace : String) : Message :=
  { trace, service := "orders", method := "create", body := [] }

/-- Two messages are taken, one call is given up while it waits, and one is rejected when the run is
stopped. -/
def stoppedRun : List Action :=
  [.start (.client 0) 7, .enqueue (.client 1) (letter "a"), .enqueue (.client 2) (letter "b"),
    .enqueue (.client 3) (letter "c"), .abort (.client 3), .enqueue (.client 4) (letter "d"),
    .stop (.client 0), .move 0 (.worker .noticeStop), .resume (.client 4),
    .move 0 (.worker .receive), .move 0 (.sinkReturns [letter "a"] (.ok [.succeeded (letter "a")])),
    .move 0 .report, .move 0 (.worker .receive),
    .move 0 (.sinkReturns [letter "b"] (.ok [.succeeded (letter "b")])),
    .move 0 .report, .move 0 (.worker .finish), .resume (.client 0), .move 0 .noticeEnd,
    .resume (.client 0)]

def isStopped (e : Event) : Bool :=
  match e with
  | .replied (.client 0) (.stopped (.ok ())) => true
  | _ => false

theorem turn_of_isStopped (h : turns.any (fun t => t.events.any isStopped) = true) :
    ∃ t ∈ turns, .replied (.client 0) (.stopped (.ok ())) ∈ t.events := by
  obtain ⟨t, ht, hany⟩ := List.any_eq_true.mp h
  obtain ⟨e, he, hstop⟩ := List.any_eq_true.mp hany
  refine ⟨t, ht, ?_⟩
  unfold isStopped at hstop
  split at hstop
  · exact he
  · contradiction

theorem messages_accounted_stoppedRun : ∃ turns s,
    Run step (new { bufferSize := 2, batchSize := 1 }) turns s ∧
      (∃ t ∈ turns, .replied (.client 0) (.stopped (.ok ())) ∈ t.events) ∧
      (∀ run, SinkReturned run turns) ∧
      fates turns = [(letter "a", .accepted 0), (letter "b", .accepted 0), (letter "c", .dropped),
        (letter "d", .refused (.rejected (letter "d")))] ∧
      ∃ run sink, (starts turns)[run]? = some sink ∧
        (batches run turns).flatten = taken run turns ∧
        ∀ i, letter "d" ∉ (batches i turns).flatten := by
  have hseen : (replay step (new { bufferSize := 2, batchSize := 1 }) stoppedRun).map (fun r =>
      (made r.1, fates r.1, r.1.any fun t => t.events.any isStopped)) =
      some ([letter "a", letter "b", letter "c", letter "d"],
        [(letter "a", .accepted 0), (letter "b", .accepted 0), (letter "c", .dropped),
          (letter "d", .refused (.rejected (letter "d")))], true) := by
    decide +kernel
  obtain ⟨⟨turns, s⟩, hreplay, hseen⟩ := Option.map_eq_some_iff.mp hseen
  simp only [Prod.mk.injEq] at hseen
  obtain ⟨hmade, hfates, hstopped⟩ := hseen
  obtain ⟨t, ht, hreply⟩ := turn_of_isStopped hstopped
  have hsinks : ∀ run, SinkReturned run turns := by
    intro run t ht panic ha
    have hmem := Run.action_mem_of_replay hreplay ht
    simp [stoppedRun, ha] at hmem
  have hrun := Run.of_replay hreplay
  obtain ⟨run, sink, -, hsink, -, hall, -, -, -, hmessages⟩ :=
    messages_accounted hrun ht hreply (by simp) hsinks
  refine ⟨turns, s, hrun, ⟨t, ht, hreply⟩, hsinks, hfates, run, sink, hsink, hall, ?_⟩
  have honce : (made turns).count (letter "d") = 1 := by
    rw [hmade]
    decide +kernel
  refine ((hmessages _ honce).2.1 (.rejected (letter "d")) ?_).1
  rw [hfates]
  simp

end System

end Batchflow.Enqueuer
