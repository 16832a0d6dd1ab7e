import Batchflow.Proofs.Supply.System

/-!
# What becomes of the messages of a run that fills a queue

The queue judges each message of a batch: it stores the message under a new id, finds fault with its
address, or refuses the whole batch.  When the run was stopped, each message that it took was judged
once; those that were stored are in the queue until they are deleted, and the others went to the
failure handler.

One message can spoil this for others.  When its delay does not fit the clock the queue panics, and
with it the worker of the run: whatever the worker had not submitted by then is lost.  Whoever stops
the run is told of the panic.
-/

namespace Batchflow.Supply

open Enqueuer (Answer Caller answered batches failures taken fates acceptedIn? SinkReturned
  HandlerReturned)
open Enqueuer.System (letter)
open Queue.Store (addressFault? overflows)
open Simulation (SinkAnswer)

inductive Judged (m : Message) : Verdict → Prop
  | stored (id : String) : addressFault? m = none → Judged m (.succeeded { m with id := some id })
  | misaddressed (fault : String) : addressFault? m = some fault → Judged m (.failed m true fault)
  /-- The whole batch was refused. -/
  | refused (e : Queue.Error) : Judged m (.failed m false e.message)

theorem judged_of_accepted {now n : Nat} {batch : List Message} {entries : List Queue.Entry}
    {verdicts : List Verdict} (h : Queue.Store.Accepted now n batch entries verdicts) :
    List.Forall₂ Judged batch verdicts := by
  induction h with
  | nil => exact .nil
  | refused fault hfault _ ih => exact .cons (.misaddressed fault hfault) ih
  | stored hsound _ ih => exact .cons (.stored _ hsound) ih

theorem judged_of_refused (batch : List Message) (e : Queue.Error) :
    List.Forall₂ Judged batch (Enqueuer.Pipeline.refusals batch e) := by
  induction batch with
  | nil => exact .nil
  | cons m batch ih => exact .cons (.refused e) ih

/-- A submission of the run at which the queue panicked: the delay of some message of the batch does
not fit the clock. -/
def Overflowed (run : Nat) (turns : History) : Prop :=
  ∃ t ∈ turns, ∃ x, t.action = .submit run ∧ t.before.handover? run = some x ∧
    x.reception = .panicked Queue.clockPanic ∧
    ∃ m ∈ x.batch, overflows t.before.queue.now m = true

namespace System

variable {s s' : System} {a : Action} {events : List Event} {turns : History} {run sink : Nat}
  {o : Enqueuer.Options} {q : Queue.Options} {x : Handover} {answer : Answer}
  {t : Turn System Action Event}

/-- The answer has a verdict for each message of the batch, and the queue has got those messages
that were judged well. -/
theorem judged_of_handover (hx : s.handover? run = some x) (hanswer : x.move.answer? = some answer) :
    List.Forall₂ Judged x.batch answer.verdicts ∧
      s.came (.submit run) = (answer.verdicts.filter (·.success)).map (·.message) := by
  obtain ⟨p, -, -, -, hsubmit⟩ := handover_inv hx
  have henqueue := Queue.System.enqueue_of_submit hsubmit
  have hcame : s.came (.submit run) = s.queue.store.arrivals x.queue.store := by simp [came, hx]
  obtain ⟨batch, queue, back, reception⟩ := x
  rw [hcame]
  dsimp only at henqueue
  cases reception with
  | taken verdicts =>
    obtain rfl := Option.some.inj hanswer
    obtain ⟨entries, haccepted, hstore⟩ := Queue.Store.accepted_of_enqueue henqueue
    constructor
    · exact judged_of_accepted haccepted
    · rw [Queue.Store.arrivals_append (congrArg Queue.Store.entries hstore)]
      exact haccepted.messages
  | refused e =>
    obtain rfl := Option.some.inj hanswer
    obtain rfl := Queue.Store.back_of_enqueue_refused henqueue
    constructor
    · exact judged_of_refused back e
    · rw [Queue.Store.eq_of_enqueue_refused henqueue, Queue.Store.arrivals_self]
      simp [Answer.verdicts, Enqueuer.Pipeline.refusals, Verdict.failed]
  | panicked p => cases hanswer

theorem overflows_of_handover {panic : Panic} (hx : s.handover? run = some x)
    (hpanic : x.move = .sinkPanics panic) :
    panic = Queue.clockPanic ∧ x.reception = .panicked panic ∧
      ∃ m ∈ x.batch, overflows s.queue.now m = true := by
  obtain ⟨p, -, -, -, hsubmit⟩ := handover_inv hx
  have henqueue := Queue.System.enqueue_of_submit hsubmit
  obtain ⟨batch, queue, back, reception⟩ := x
  cases reception with
  | taken | refused => cases hpanic
  | panicked p =>
    cases hpanic
    obtain ⟨hclock, hover⟩ := Queue.Store.overflows_of_enqueue henqueue
    exact ⟨hclock, rfl, hover⟩

/-- The answer that the sink of a run gives by an action. -/
def answer? (s : System) (run : Nat) (a : Action) : Option Answer :=
  ((s.part? a).bind (·.move? run)).bind Enqueuer.Move.answer?

theorem part_of_answer (h : s.answer? run a = some answer) :
    ∃ m, s.part? a = some (.move run m) ∧ m.answer? = some answer ∧ isSinks m = true := by
  obtain ⟨m, hmove, hanswer⟩ := Option.bind_eq_some_iff.mp h
  obtain ⟨b, hpart, hb⟩ := Option.bind_eq_some_iff.mp hmove
  rw [Enqueuer.Action.move?_eq_some] at hb
  subst hb
  refine ⟨m, hpart, hanswer, ?_⟩
  cases m <;> simp_all [Enqueuer.Move.answer?, isSinks]

theorem judged_of_answer (h : s.Did a s' events)
    (hfills : ∀ p, s.enqueuer.pipelines[run]? = some p → p.sink = s.sink)
    (hanswer : s.answer? run a = some answer) : a = .submit run ∧ ∃ x,
      s.handover? run = some x ∧ List.Forall₂ Judged x.batch answer.verdicts ∧
      s.came a = (answer.verdicts.filter (·.success)).map (·.message) := by
  obtain ⟨m, hpart, hm, hsinks⟩ := part_of_answer hanswer
  obtain ⟨rfl, x, hx, rfl⟩ := submit_of_part h hfills hpart hsinks
  obtain ⟨hjudged, hcame⟩ := judged_of_handover hx hm
  exact ⟨rfl, x, hx, hjudged, hcame⟩

theorem answered_of_submit (h : s.Did (.submit run) s' events)
    (hpanic : ∀ panic, s.part? (.submit run) ≠ some (.move run (.sinkPanics panic))) :
    ∃ answer, s.answer? run (.submit run) = some answer := by
  cases h with
  | @submitted _ x _ _ hx =>
    have hpart : s.part? (.submit run) = some (.move run x.move) := by simp [part?, hx]
    simp only [answer?, hpart, Option.bind_some, Enqueuer.Action.move?, if_true]
    obtain ⟨batch, queue, back, reception⟩ := x
    cases reception with
    | taken | refused => exact ⟨_, rfl⟩
    | panicked p => exact absurd hpart (hpanic p)

theorem answered_ofEnqueuer (run : Nat) (turns : History) :
    answered run (ofEnqueuer turns) =
      turns.filterMap fun t => t.before.answer? run t.action := by
  rw [answered, ofEnqueuer, List.filterMap_filterMap]
  refine List.filterMap_congr fun t _ => ?_
  simp only [turn?, answer?]
  cases t.before.part? t.action <;> rfl

/-- The queue has got from the run those messages that it has judged well, in order. -/
theorem stored_eq (h : Run step (new o q sink) turns s)
    (hfills : ∀ t ∈ turns, ∀ p, t.before.enqueuer.pipelines[run]? = some p →
      p.sink = t.before.sink)
    (hsink : SinkReturned run (ofEnqueuer turns)) :
    stored run turns =
      (((answered run (ofEnqueuer turns)).flatMap Answer.verdicts).filter (·.success)).map
        (·.message) := by
  rw [answered_ofEnqueuer, List.filterMap_eq_flatMap_toList, List.flatMap_assoc,
    List.filter_flatMap, List.map_flatMap, stored]
  apply List.flatMap_congr
  intro t ht
  obtain ⟨s', hdid⟩ := did_of_mem h ht
  cases hanswer : t.before.answer? run t.action with
  | some answer =>
    obtain ⟨hsubmit, x, -, -, hcame⟩ := judged_of_answer hdid (hfills t ht) hanswer
    rw [if_pos (Action.isSubmit_iff.mpr hsubmit), hcame]
    simp
  | none =>
    rw [if_neg]
    · rfl
    · intro hsubmit
      rw [Action.isSubmit_iff] at hsubmit
      have hpanic (panic : Panic) :
          t.before.part? t.action ≠ some (.move run (.sinkPanics panic)) := fun hpart =>
        hsink _ (mem_ofEnqueuer ht hpart) panic rfl
      rw [hsubmit] at hdid hanswer hpanic
      obtain ⟨answer, hsome⟩ := answered_of_submit hdid hpanic
      simp [hanswer] at hsome

theorem sink_of_mem {p : Enqueuer.Pipeline Caller} (h : Run step (new o q sink) turns s)
    (hsink : s.enqueuer.sinks[run]? = some sink) (ht : t ∈ turns)
    (hp : t.before.enqueuer.pipelines[run]? = some p) : p.sink = t.before.sink := by
  obtain ⟨before, after, s', rfl, hbefore, -, -⟩ := h.split ht
  have hall := enqueuer_of_run h
  rw [ofEnqueuer, List.filterMap_append] at hall
  have hthen : t.before.enqueuer.sinks[run]? = some p.sink := by
    simp [Enqueuer.System.sinks, hp]
  have hlater := Enqueuer.System.getElem?_sinks_of_run (enqueuer_of_run hbefore) hall hthen
  rw [sink_of_run hbefore]
  exact Option.some.inj (hlater.symm.trans hsink)

/-- Each batch that the queue has answered was judged message by message. -/
theorem judged_of_run {p : Enqueuer.Pipeline Caller} (h : Run step (new o q sink) turns s)
    (hfills : ∀ t ∈ turns, ∀ p, t.before.enqueuer.pipelines[run]? = some p →
      p.sink = t.before.sink)
    (hsink : SinkReturned run (ofEnqueuer turns)) (hp : s.enqueuer.pipelines[run]? = some p)
    (hidle : p.unanswered = []) :
    List.Forall₂ (fun ms a => List.Forall₂ Judged ms (Answer.verdicts a))
      (batches run (ofEnqueuer turns)) (answered run (ofEnqueuer turns)) := by
  have hagree := Enqueuer.System.agree_of_run
    (R := fun ms a => List.Forall₂ Judged ms a.verdicts) (enqueuer_of_run h) hsink ?_
  · rw [hp] at hagree
    obtain ⟨done, hdone, hrel⟩ := hagree
    rw [hidle, List.append_nil] at hdone
    rwa [hdone]
  · intro u hu p hp chunk answer hchunk hanswer
    obtain ⟨t, ht, hpart, hbefore⟩ := exists_of_mem_ofEnqueuer hu
    rw [← hbefore] at hp
    have hsaid : t.before.answer? run t.action = some answer := by
      rw [answer?, hpart, Option.bind_some]
      exact hanswer
    obtain ⟨s', hdid⟩ := did_of_mem h ht
    obtain ⟨-, x, hx, hjudged, -⟩ := judged_of_answer hdid (hfills t ht) hsaid
    obtain ⟨p', hp', -, hbatch, -⟩ := handover_inv hx
    obtain rfl := Option.some.inj (hp'.symm.trans hp)
    obtain rfl := List.singleton_inj.mp (hbatch.symm.trans hchunk)
    exact hjudged

end System

/-- What has become of the messages that a run has taken. -/
structure Settled (run : Nat) (turns : History) (s : System) (verdicts : List Verdict) : Prop where
  /-- Each message whose call was accepted in the run was judged once, -/
  judged : List.Forall₂ Judged ((fates (ofEnqueuer turns)).filterMap (acceptedIn? run)) verdicts
  /-- the handler was called with those that failed, -/
  reported : failures run (ofEnqueuer turns) = verdicts.filter (!·.success)
  /-- the queue has got the others, and nothing else from the run, -/
  queued : stored run turns = (verdicts.filter (·.success)).map (·.message)
  /-- each of these is in the queue or was deleted, -/
  kept : ∀ m ∈ stored run turns, (s.queue.store.held ++ deleted turns).count m = 1
  /-- and has an id of its own. -/
  distinct : ((stored run turns).map (·.id)).Nodup

namespace System

variable {s : System} {turns : History} {run sink : Nat} {o : Enqueuer.Options}
  {q : Queue.Options} {t : Turn System Action Event} {caller : Caller}
  {result : Except Enqueuer.Error Unit}

theorem settled_of_run {p : Enqueuer.Pipeline Caller} (h : Run step (new o q sink) turns s)
    (hsink : s.enqueuer.sinks[run]? = some sink) (hreturned : SinkReturned run (ofEnqueuer turns))
    (hp : s.enqueuer.pipelines[run]? = some p) (hfinished : p.Finished)
    (hfailures : failures run (ofEnqueuer turns) =
      (answered run (ofEnqueuer turns)).flatMap Answer.failures) :
    Settled run turns s ((answered run (ofEnqueuer turns)).flatMap Answer.verdicts) := by
  have hrun : Run Enqueuer.System.step (.new o) (ofEnqueuer turns) s.enqueuer := enqueuer_of_run h
  have hfills := fun t (ht : t ∈ turns) p => sink_of_mem (p := p) h hsink ht
  have hstock := stocked_of_run h
  have hengaged := (Enqueuer.System.sound_of_run hrun run p hp).2
  have hidle : p.unanswered = [] := by
    apply Enqueuer.Pipeline.unanswered_of_ne
    simp [hengaged.idle_of_ended hfinished.worker]
  constructor
  · rw [← Enqueuer.System.taken_eq hrun run,
      ← Enqueuer.System.flatten_batches_of_ended hrun hreturned hp hfinished.worker,
      List.flatMap_def]
    apply List.rel_flatten
    exact List.forall₂_map_right_iff.mpr (judged_of_run h hfills hreturned hp hidle)
  · rw [hfailures, List.filter_flatMap]
    exact List.flatMap_congr fun a _ => a.failures_eq
  · exact stored_eq h hfills hreturned
  · intro m hm
    exact hstock.count ((stored_sublist run turns).subset hm)
  · exact ((stored_sublist run turns).map _).nodup hstock.nodup

theorem overflowed_of_panic {u : Turn Enqueuer.System Enqueuer.Action Enqueuer.Event}
    {panic : Panic} (h : Run step (new o q sink) turns s)
    (hsink : s.enqueuer.sinks[run]? = some sink) (hu : u ∈ ofEnqueuer turns)
    (hpanic : u.action = .move run (.sinkPanics panic)) :
    panic = Queue.clockPanic ∧ Overflowed run turns := by
  obtain ⟨t, ht, hpart, -⟩ := exists_of_mem_ofEnqueuer hu
  rw [hpanic] at hpart
  obtain ⟨s', hdid⟩ := did_of_mem h ht
  obtain ⟨hsubmit, x, hx, hmove⟩ :=
    submit_of_part hdid (fun p => sink_of_mem h hsink ht) hpart rfl
  obtain ⟨rfl, hreception, hover⟩ := overflows_of_handover hx hmove
  exact ⟨rfl, t, ht, x, hsubmit, hx, hreception, hover⟩

/-- When a stop that found the enqueuer running has returned success, each message whose call was
accepted in the run was judged once by the queue that the run fills, and has ended in one way: the
handler was called with it once, or it is in the queue once, under an id of its own, or was deleted
from there.  The handler was called with nothing else, and the queue has got nothing else from the
run.  If the stop has returned anything else, it is the panic of the queue over a message whose delay
does not fit the clock. -/
theorem settled_or_overflowed {o : Enqueuer.Options} {q : Queue.Options} {sink : Nat}
    {turns : History} {s : System} {t : Turn System Action Event} {caller : Caller}
    {result : Except Enqueuer.Error Unit} (h : Run step (new o q sink) turns s) (ht : t ∈ turns)
    (hhandler : o.hasHandler = true)
    (hreply : .enqueuer (.replied caller (.stopped result)) ∈ t.events)
    (hfound : result ≠ .error .notRunning)
    (hsink : t.before.enqueuer.sinks.getLast? = some sink)
    (hreturned : ∀ run, HandlerReturned run (ofEnqueuer turns)) :
    ∃ run, t.before.enqueuer.pipelines.length = run + 1 ∧
      (result = .ok () ∧ (∃ verdicts, Settled run turns s verdicts) ∨
        result = .error (.chunker (.workerPanicked Queue.clockPanic.report)) ∧
          Overflowed run turns) := by
  obtain ⟨before, after, s₁, rfl, hbefore, hstep, hafter⟩ := h.split ht
  obtain ⟨b, seen, hpart, hthen, hseen⟩ := part_of_event (did_of_step hstep) hreply
  have hsplit : ofEnqueuer (before ++ t :: after) = ofEnqueuer before ++ ofEnqueuer (t :: after) :=
    List.filterMap_append
  have hupto : Run Enqueuer.System.step (.new o) (ofEnqueuer before) t.before.enqueuer :=
    enqueuer_of_run hbefore
  have hall : Run Enqueuer.System.step (.new o) (ofEnqueuer (before ++ t :: after)) s.enqueuer :=
    enqueuer_of_run h
  have hrest : Run Enqueuer.System.step t.before.enqueuer (ofEnqueuer (t :: after)) s.enqueuer :=
    enqueuer_of_run ((Run.of_step hstep).append hafter)
  obtain ⟨run, p, hdrained⟩ := Enqueuer.System.drained_of_step
    (Enqueuer.System.wellFormed_of_run hupto) hthen hseen hfound
  have hlast := hdrained.last
  have hqueue : s.enqueuer.sinks[run]? = some sink := by
    apply Enqueuer.System.getElem?_sinks_of_run hupto (hsplit ▸ hall)
    rw [List.getLast?_eq_getElem?, Enqueuer.System.sinks, List.length_map, ← hlast] at hsink
    exact hsink
  refine ⟨run, hlast.symm, ?_⟩
  by_cases hpanic : ∃ u ∈ ofEnqueuer (before ++ t :: after), ∃ panic,
      u.action = .move run (.sinkPanics panic)
  · right
    obtain ⟨u, hu, panic, hpanic⟩ := hpanic
    obtain ⟨rfl, hover⟩ := overflowed_of_panic h hqueue hu hpanic
    exact ⟨hdrained.panicked hrest hall hu hpanic, hover⟩
  · left
    have hreturns : SinkReturned run (ofEnqueuer (before ++ t :: after)) :=
      fun u hu panic h => hpanic ⟨u, hu, panic, h⟩
    have hhandled : HandlerReturned run (ofEnqueuer before) :=
      fun u hu => hreturned run u (hsplit ▸ List.mem_append_left _ hu)
    obtain ⟨hresult, hfailures, r, hr, hfinished⟩ := hdrained.handled hupto hrest hhandler
      (fun u hu => hreturns u (hsplit ▸ List.mem_append_left _ hu)) hhandled
    rw [← hsplit] at hfailures
    exact ⟨hresult, _, settled_of_run h hqueue hreturns hr hfinished hfailures⟩

/-- What the first client is told by whose call to stop. -/
def stopped? : Event → Option (Except Enqueuer.Error Unit)
  | .enqueuer (.replied (.client 0) (.stopped result)) => some result
  | _ => none

theorem mem_of_stopped {events : List Event} (h : events.filterMap stopped? = [result]) :
    .enqueuer (.replied (.client 0) (.stopped result)) ∈ events := by
  obtain ⟨e, he, hresult⟩ := List.mem_filterMap.mp (h ▸ List.mem_singleton_self result)
  unfold stopped? at hresult
  split at hresult
  · obtain rfl := Option.some.inj hresult
    exact he
  · contradiction

theorem handlersReturned_of_replay {actions : List Action} {s₀ : System}
    (h : replay step s₀ actions = some (turns, s))
    (hactions : ∀ run panic, .enqueuer (.move run (.handlerPanics panic)) ∉ actions) (run : Nat) :
    HandlerReturned run (ofEnqueuer turns) := by
  intro u hu panic ha
  obtain ⟨t, ht, hpart, -⟩ := exists_of_mem_ofEnqueuer hu
  rw [ha] at hpart
  have hmem := Run.action_mem_of_replay h ht
  cases haction : t.action with
  | submit i =>
    rw [haction] at hpart
    obtain ⟨x, -, hmove⟩ := Option.map_eq_some_iff.mp hpart
    obtain ⟨batch, queue, back, reception⟩ := x
    cases reception <;> simp [Handover.move, moveOf, SinkAnswer.ofReception] at hmove
  | enqueuer a =>
    rw [haction] at hpart hmem
    obtain rfl := Option.some.inj hpart
    exact hactions run panic hmem
  | queue | advance =>
    rw [haction] at hpart
    cases hpart

/-- The last turn is the end of the stop, and the run that it stops fills the queue. -/
def concludes (result : Except Enqueuer.Error Unit) (sink : Nat) (turns : History) : Bool :=
  turns.getLast?.any fun t =>
    t.events.filterMap stopped? == [result] && t.before.enqueuer.sinks.getLast? == some sink

theorem exists_of_concludes (h : concludes result sink turns = true) :
    ∃ t ∈ turns, .enqueuer (.replied (.client 0) (.stopped result)) ∈ t.events ∧
      t.before.enqueuer.sinks.getLast? = some sink := by
  unfold concludes at h
  cases ht : turns.getLast? with
  | none => simp [ht] at h
  | some t =>
    simp only [ht, Option.any_some, Bool.and_eq_true, beq_iff_eq] at h
    exact ⟨t, List.mem_of_getLast? ht, mem_of_stopped h.1, h.2⟩

def fillingOptions : Enqueuer.Options :=
  { bufferSize := 4, batchSize := 2, failedBufferSize := 1, hasHandler := true }

/-- A message that can be sent nowhere. -/
def strayLetter : Message := { letter "b" with service := "" }

/-- One message of a batch is stored and deleted by a consumer, and the other goes to the handler.
A third is stored when the run is stopped. -/
def settledRun : List Action :=
  [.enqueuer (.start (.client 0) 7), .enqueuer (.enqueue (.client 1) (letter "a")),
    .enqueuer (.enqueue (.client 1) strayLetter), .enqueuer (.enqueue (.client 1) (letter "c")),
    .enqueuer (.move 0 (.worker .receive)), .enqueuer (.move 0 (.worker .receive)), .submit 0,
    .queue (.dequeue 0 "consumer" 1 .zero), .queue (.delete (some (Name.mint .receipt 1))),
    .enqueuer (.stop (.client 0)), .enqueuer (.move 0 .report), .enqueuer (.move 0 .report),
    .enqueuer (.move 0 .take), .enqueuer (.move 0 (.worker .noticeStop)),
    .enqueuer (.move 0 (.worker .receive)), .enqueuer (.move 0 .handlerReturns),
    .enqueuer (.move 0 (.worker .finish)), .submit 0, .enqueuer (.move 0 .report),
    .enqueuer (.resume (.client 0)), .enqueuer (.move 0 .noticeEnd),
    .enqueuer (.resume (.client 0))]

theorem settled_or_overflowed_settledRun : ∃ turns s,
    replay step (new fillingOptions {} 7) settledRun = some (turns, s) ∧
      (fates (ofEnqueuer turns)).map Prod.fst = [letter "a", strayLetter, letter "c"] ∧
      failures 0 (ofEnqueuer turns) =
        [.failed strayLetter true "message has no target service"] ∧
      (deleted turns).map (·.trace) = ["a"] ∧ s.queue.store.held.map (·.trace) = ["c"] ∧
      ∃ t ∈ turns, .enqueuer (.replied (.client 0) (.stopped (.ok ()))) ∈ t.events ∧
        t.before.enqueuer.sinks.getLast? = some 7 ∧
        (∀ run, HandlerReturned run (ofEnqueuer turns)) ∧
        ∃ run verdicts, t.before.enqueuer.pipelines.length = run + 1 ∧
          Settled run turns s verdicts := by
  have hseen : (replay step (new fillingOptions {} 7) settledRun).map (fun r =>
        ((fates (ofEnqueuer r.1)).map Prod.fst, failures 0 (ofEnqueuer r.1),
          (deleted r.1).map (·.trace), r.2.queue.store.held.map (·.trace),
          concludes (.ok ()) 7 r.1)) =
      some ([letter "a", strayLetter, letter "c"],
        [.failed strayLetter true "message has no target service"], ["a"], ["c"], true) := by
    decide +kernel
  obtain ⟨⟨turns, s⟩, hreplay, hseen⟩ := Option.map_eq_some_iff.mp hseen
  simp only [Prod.mk.injEq] at hseen
  obtain ⟨hfates, hfailures, hdeleted, hheld, hend⟩ := hseen
  obtain ⟨t, ht, hreply, hsink⟩ := exists_of_concludes hend
  have hreturned := handlersReturned_of_replay hreplay (by simp [settledRun])
  obtain ⟨run, hrun, ⟨-, verdicts, hsettled⟩ | ⟨hpanic, -⟩⟩ :=
    settled_or_overflowed (.of_replay hreplay) ht rfl hreply (by simp) hsink hreturned
  · exact ⟨turns, s, hreplay, hfates, hfailures, hdeleted, hheld, t, ht, hreply, hsink, hreturned,
      run, verdicts, hrun, hsettled⟩
  · cases hpanic

/-- A message that the queue would hide for longer than the clock can tell. -/
def endlessLetter : Message := { letter "a" with delay := .ofSecs 18446744073709551615 }

/-- A message is submitted together with one whose delay does not fit the clock. -/
def overflowedRun : List Action :=
  [.enqueuer (.start (.client 0) 7), .enqueuer (.enqueue (.client 1) endlessLetter),
    .enqueuer (.enqueue (.client 1) (letter "b")), .enqueuer (.move 0 (.worker .receive)),
    .enqueuer (.move 0 (.worker .receive)), .submit 0, .enqueuer (.stop (.client 0)),
    .enqueuer (.resume (.client 0)), .enqueuer (.move 0 .noticeEnd),
    .enqueuer (.resume (.client 0))]

/-- Two messages were accepted, the handler returns whenever it is called and the stop has returned,
but nothing was ever stored or deleted, and the handler was not called. -/
theorem not_settled_overflowedRun : ∃ turns s t,
    replay step (new fillingOptions {} 7) overflowedRun = some (turns, s) ∧ t ∈ turns ∧
      .enqueuer (.replied (.client 0) (.stopped
        (.error (.chunker (.workerPanicked Queue.clockPanic.report))))) ∈ t.events ∧
      t.before.enqueuer.sinks.getLast? = some 7 ∧
      (∀ run, HandlerReturned run (ofEnqueuer turns)) ∧
      fates (ofEnqueuer turns) = [(endlessLetter, .accepted 0), (letter "b", .accepted 0)] ∧
      failures 0 (ofEnqueuer turns) = [] ∧ s.queue.store.held = [] ∧ deleted turns = [] ∧
      ¬ ∃ verdicts, Settled 0 turns s verdicts := by
  have hseen : (replay step (new fillingOptions {} 7) overflowedRun).map (fun r =>
        (fates (ofEnqueuer r.1), failures 0 (ofEnqueuer r.1),
          r.2.queue.store.held ++ deleted r.1 ++ stored 0 r.1,
          concludes (.error (.chunker (.workerPanicked Queue.clockPanic.report))) 7 r.1)) =
      some ([(endlessLetter, .accepted 0), (letter "b", .accepted 0)], [], [], true) := by
    decide +kernel
  obtain ⟨⟨turns, s⟩, hreplay, hseen⟩ := Option.map_eq_some_iff.mp hseen
  simp only [Prod.mk.injEq, List.append_eq_nil_iff] at hseen
  obtain ⟨hfates, hfailures, ⟨⟨hheld, hdeleted⟩, hstored⟩, hend⟩ := hseen
  obtain ⟨t, ht, hreply, hsink⟩ := exists_of_concludes hend
  have hreturned := handlersReturned_of_replay hreplay (by simp [overflowedRun])
  refine ⟨turns, s, t, hreplay, ht, hreply, hsink, hreturned, hfates, hfailures, hheld, hdeleted, ?_⟩
  rintro ⟨verdicts, hsettled⟩
  have hnone : verdicts = [] := by
    rw [List.eq_nil_iff_forall_not_mem]
    intro v hv
    cases hsuccess : v.success with
    | true =>
      have hmem : v.message ∈ stored 0 turns :=
        hsettled.queued ▸ List.mem_map_of_mem (List.mem_filter.mpr ⟨hv, hsuccess⟩)
      simp [hstored] at hmem
    | false =>
      have hmem : v ∈ failures 0 (ofEnqueuer turns) :=
        hsettled.reported ▸ List.mem_filter.mpr ⟨hv, by simp [hsuccess]⟩
      simp [hfailures] at hmem
  have hlength := hsettled.judged.length_eq
  rw [hnone, hfates] at hlength
  simp [acceptedIn?] at hlength

end System

end Batchflow.Supply
