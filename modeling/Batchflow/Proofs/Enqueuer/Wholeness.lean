import Batchflow.Proofs.Enqueuer.Lifecycle

/-!
# When a running enqueuer is whole

An enqueuer says that it runs from the start of a run to its end.  As long as nobody starts or stops
it in between, one would have it take messages and be ready to be stopped: the slot holds the last
run, its intake is open, and its worker is alive and not told to stop.  This holds as long as the
sink does not panic, unless the call that had taken over the last run was given up before the run
was over.
-/

namespace Batchflow.Chunker.Feed

variable {ι α : Type} {o : Options} {now : Nat} {f f' : Feed ι α} {m : Move}
  {chunk : Option (List α)}

/-- The worker goes on for ever: the source is open, somebody may send to it, and nobody has told the
worker to stop. -/
structure Ready (f : Feed ι α) : Prop where
  opened : f.channel.closed = false
  handles : 0 < f.channel.handles
  told : f.stopRequested = false
  shut : f.worker.isShut = false

theorem Ready.not_ended (hf : f.Ready) : f.worker.ended = false := by
  have hshut := hf.shut
  cases hw : f.worker <;> simp_all [Worker.isShut, Worker.ended]

theorem Moved.ready (h : f.Moved o now m f' chunk) (hf : f.Ready)
    (hm : ∀ panic, m ≠ .handlerPanics panic) : f'.Ready := by
  have hshut := hf.shut
  cases h with
  | stopNoticed _ htold =>
    rw [hf.told] at htold
    contradiction
  | endNoticed _ hend =>
    exact absurd (Channel.deserted_of_exhausted hend hf.opened) (Channel.not_deserted hf.handles)
  | tickSwallowed => exact ⟨hf.opened, hf.handles, hf.told, hshut⟩
  | aged => exact ⟨hf.opened, hf.handles, hf.told, rfl⟩
  | collected _ hr | filled _ hr =>
    refine ⟨(Channel.closed_receive hr).trans hf.opened, ?_, hf.told, rfl⟩
    rw [Channel.handles_receive hr]
    exact hf.handles
  | drained hw | drainFilled hw | finished hw | flushed hw => simp [hw, Worker.isShut] at hshut
  | @handled _ resume hw =>
    refine ⟨hf.opened, hf.handles, hf.told, ?_⟩
    cases resume <;> simp_all [Worker.isShut, Resume.worker]
  | panicked panic => exact absurd rfl (hm panic)

theorem Ready.setChannel {c : Channel ι α} (hf : f.Ready) (hclosed : c.closed = f.channel.closed)
    (hhandles : c.handles = f.channel.handles) : Ready { f with channel := c } :=
  ⟨hclosed.trans hf.opened, hhandles ▸ hf.handles, hf.told, hf.shut⟩

end Batchflow.Chunker.Feed

namespace Batchflow.Enqueuer

open Pipeline

namespace System

def abandoned? (s : System) : Action → Option Nat
  | .abort caller =>
    match s.call? caller with
    | some (.stopping run) => some run
    | some (.draining run _) => some run
    | _ => none
  | _ => none

end System

/-- The runs that were taken over by a call to stop which was then given up. -/
def abandoned (turns : History) : List Nat := turns.filterMap fun t => t.before.abandoned? t.action

namespace System

variable {s s' : System} {a : Action} {events : List Event} {out : Outcome} {caller w : Caller}
  {run : Nat} {c : Call} {o : Options} {turns : History} {gone : List Nat}

/-- The worker of a pipeline goes on for ever if it did so before. -/
def StaysReady (p q : Pipeline Caller) : Prop := p.feed.Ready → q.feed.Ready

theorem staysReady_setChannel {p : Pipeline Caller} {d : Channel Caller Message}
    (hp : s.pipelines[run]? = some p) (hclosed : d.closed = p.feed.channel.closed)
    (hhandles : d.handles = p.feed.channel.handles) :
    Alike StaysReady s.pipelines (s.setChannel run d).pipelines := by
  refine .of_modify rfl (fun _ => id) fun q hq hready => ?_
  obtain rfl := Option.some.inj (hp.symm.trans hq)
  exact hready.setChannel hclosed hhandles

theorem staysReady_send {p : Pipeline Caller} {m : Message} {d : Channel Caller Message}
    {arrival : Arrival} (hp : s.pipelines[run]? = some p)
    (hsend : p.feed.channel.send caller m = (d, arrival)) :
    Alike StaysReady s.pipelines (s.setChannel run d).pipelines := by
  have hhandles := Channel.handles_send p.feed.channel caller m
  rw [hsend] at hhandles
  exact staysReady_setChannel hp (Channel.sent_of_send hsend).closed hhandles

/-- The run of the slot takes messages, and the last run of an enqueuer that runs is in the slot,
or is stopped by a call, or was given up. -/
structure Poised (s : System) (gone : List Nat) : Prop where
  intake : ∀ {run}, s.slot = some run → s.intake = some run
  ready : ∀ {run p}, s.slot = some run → s.pipelines[run]? = some p → p.feed.Ready
  kept : ∀ {run}, s.slot = some run → run ∉ gone
  begun : ∀ run ∈ gone, run < s.pipelines.length
  owned : s.state = .running → s.reachable = true → (∃ run, s.slot = some run) ∨
    (∃ w k, (w, k) ∈ s.calls ∧ k.stand = .inside) ∨ ∃ run ∈ gone, run + 1 = s.pipelines.length

namespace Poised

theorem new (o : Options) : (new o).Poised [] where
  intake := by simp [System.new]
  ready := by simp [System.new]
  kept := by simp [System.new]
  begun := by simp
  owned := by simp [System.new]

theorem frame (hs : s.Poised gone) (hreachable : s'.reachable = true → s.reachable = true)
    (hstate : s'.state = s.state) (hslot : s'.slot = s.slot) (hintake : s'.intake = s.intake)
    (hcalls : ∀ {w k}, k.stand = .inside → ((w, k) ∈ s'.calls ↔ (w, k) ∈ s.calls))
    (halike : Alike StaysReady s.pipelines s'.pipelines) : s'.Poised gone where
  intake h := hintake.trans (hs.intake (hslot.symm.trans h))
  ready h hq := by
    obtain ⟨p, hp, hready⟩ := halike.exists_left hq
    exact hready (hs.ready (hslot.symm.trans h) hp)
  kept h := hs.kept (hslot.symm.trans h)
  begun run hrun := by
    rw [halike.length]
    exact hs.begun run hrun
  owned h hr := by
    rw [hslot, halike.length]
    refine (hs.owned (hstate.symm.trans h) (hreachable hr)).imp id (Or.imp ?_ id)
    exact fun ⟨w, k, hmem, hin⟩ => ⟨w, k, (hcalls hin).mpr hmem, hin⟩

theorem slotless (hgone : ∀ run ∈ gone, run < s.pipelines.length) (hslot : s.slot = none)
    (howned : s.state = .running → s.reachable = true →
      (∃ w k, (w, k) ∈ s.calls ∧ k.stand = .inside) ∨ ∃ run ∈ gone, run + 1 = s.pipelines.length) :
    s.Poised gone where
  intake h := by simp [hslot] at h
  ready h := by simp [hslot] at h
  kept h := by simp [hslot] at h
  begun := hgone
  owned h hr := .inr (howned h hr)

theorem release (hs : s.Poised gone) : s.release.Poised gone := by
  by_cases hr : s.reachable = true
  · have hself : s.release = s := by rw [System.release, if_pos hr]
    rwa [hself]
  · have hlength := s.tended_release.length
    refine slotless (fun run hrun => hlength ▸ hs.begun run hrun) ?_ fun _ h => ?_
    · rw [System.release, if_neg hr, dropSlot]
      split
      · rfl
      · assumption
    · exact absurd (s.reachable_release.symm.trans h) hr

theorem forget (hs : s.Poised gone) (hw : s.WellFormed) (hcall : s.call? caller = some c)
    (hc : c.stand ≠ .inside) (hcalls : s'.calls = s.calls.filter (·.1 != caller))
    (hstate : s'.state = s.state) (hslot : s'.slot = s.slot) (hintake : s'.intake = s.intake)
    (halike : Alike StaysReady s.pipelines s'.pipelines) : s'.Poised gone := by
  refine hs.frame (fun _ => reachable_of_call hcall) hstate hslot hintake (fun hin => ?_) halike
  rw [hcalls]
  exact hw.guarded.inside_without (Calls.mem_of_lookup hcall) hc hin

theorem started {sink : Nat} (hs : s.Poised gone) :
    (((s.startRun sink).unlock caller).without caller).Poised gone := by
  have hlength : (s.startRun sink).pipelines.length = s.pipelines.length + 1 := by
    simp [System.startRun, s.alike_dropIntake.length]
  refine ⟨fun {run} h => h, fun {run q} h hq => ?_, fun {run} h hmem => ?_, fun run hmem => ?_,
    fun _ _ => .inl ⟨_, rfl⟩⟩
  · obtain rfl : s.pipelines.length = run := Option.some.inj h
    rcases getElem?_concat_eq_some hq with hq | ⟨-, rfl⟩
    · have hlt := (List.getElem?_eq_some_iff.mp hq).1
      rw [s.alike_dropIntake.length] at hlt
      omega
    · exact ⟨rfl, Nat.one_pos, rfl, rfl⟩
  · obtain rfl : s.pipelines.length = run := Option.some.inj h
    have := hs.begun _ hmem
    omega
  · show run < (s.startRun sink).pipelines.length
    have := hs.begun run hmem
    omega

theorem inside {k : Call} (hs : s.Poised gone) (hlength : s'.pipelines.length = s.pipelines.length)
    (hslot : s'.slot = none) (hmem : (caller, k) ∈ s'.calls) (hin : k.stand = .inside) :
    s'.Poised gone :=
  slotless (fun run hrun => hlength ▸ hs.begun run hrun) hslot
    fun _ _ => .inl ⟨caller, k, hmem, hin⟩

theorem stopped (hs : s.Poised gone) (hlength : s'.pipelines.length = s.pipelines.length)
    (hslot : s'.slot = none) (hstate : s'.state = .stopped) : s'.Poised gone := by
  refine slotless (fun run hrun => hlength ▸ hs.begun run hrun) hslot fun h _ => ?_
  rw [hstate] at h
  contradiction

theorem went (hs : s.Poised gone) (hw : s.WellFormed) (h : s.Went caller s' events) :
    s'.Poised gone := by
  cases h with
  | started => exact hs.started
  | startRefused _ hcall =>
    exact hs.forget hw hcall (by simp [Call.stand]) rfl rfl rfl rfl (.refl (fun _ => id) _)
  | @stopTaken run =>
    exact hs.inside (s.tended_takeOver caller run).length rfl
      (Calls.mem_await.mpr (.inr ⟨rfl, rfl⟩)) rfl
  | stopRefused state hcall _ hcase =>
    rcases hcase with ⟨-, rfl⟩ | ⟨hslot, rfl⟩
    · exact hs.forget hw hcall (by simp [Call.stand]) rfl rfl rfl rfl (.refl (fun _ => id) _)
    · exact hs.stopped rfl hslot rfl
  | @workerEnded run p worker hcall =>
    have hslot := (hw.stopping (Calls.mem_of_lookup hcall)).slot
    exact hs.inside (s.tended_workerEnded caller run worker).length
      (s.slot_dropIntake.trans hslot) (Calls.mem_await.mpr (.inr ⟨rfl, rfl⟩)) rfl
  | @stopped run worker p reporter hcall =>
    have hslot := (hw.draining (Calls.mem_of_lookup hcall)).1.slot
    exact hs.stopped (s.tended_conclude run).length hslot rfl
  | enqueued hcall hp | rejected hcall hp =>
    exact hs.forget hw hcall (by simp [Call.stand]) rfl rfl rfl rfl
      (staysReady_setChannel hp rfl rfl)

theorem ask (hs : s.Poised gone) (hcall : s.mayCall caller = true) (hc : c.stand = .waiting) :
    (s.ask caller c).Poised gone := by
  have hnone := call?_eq_none_of_mayCall hcall
  exact hs.frame (fun _ => reachable_of_mayCall hcall) rfl rfl rfl
    (Guarded.inside_await (fun _ => Calls.not_mem_of_lookup hnone) (by simp [hc]))
    (.refl (fun _ => id) _)

theorem forsake (hs : s.Poised gone) (htaken : s.TakenOver run)
    (hlength : s'.pipelines.length = s.pipelines.length) (hslot : s'.slot = s.slot) :
    s'.Poised (gone ++ [run]) := by
  have hlast := htaken.last
  refine slotless (fun i hi => ?_) (hslot.trans htaken.slot) fun _ _ => ?_
  · rw [hlength]
    rcases List.mem_append.mp hi with hi | hi
    · exact hs.begun i hi
    · rw [List.mem_singleton] at hi
      omega
  · exact .inr ⟨run, by simp, hlength ▸ hlast⟩

theorem did (hs : s.Poised gone) (hw : s.WellFormed) (h : s.Did a s' events)
    (hsink : ∀ run panic, a ≠ .move run (.sinkPanics panic)) :
    s'.Poised (gone ++ (s.abandoned? a).toList) := by
  have hr := reachable_of_did h
  have hsame (hnone : s.abandoned? a = none) (hs' : s'.Poised gone) :
      s'.Poised (gone ++ (s.abandoned? a).toList) := by
    simpa [hnone] using hs'
  cases h with
  | asked ha hcall =>
    have := hs.ask hcall ha.stand
    cases ha <;> exact hsame rfl this
  | atOnce ha hcall hwent =>
    have := (hs.ask hcall ha.stand).went (hw.ask hcall ha.stand) hwent
    cases ha <;> exact hsame rfl this
  | enqueued _ _ _ hp hsend | rejected _ _ _ hp hsend =>
    exact hsame rfl (hs.frame hr rfl rfl rfl (fun _ => .rfl) (staysReady_send hp hsend))
  | enqueueWaits hcall _ _ hp hsend =>
    have hnone := call?_eq_none_of_mayCall hcall
    exact hsame rfl (hs.frame hr rfl rfl rfl
      (Guarded.inside_await (fun _ => Calls.not_mem_of_lookup hnone) (by simp [Call.stand]))
      (staysReady_send hp hsend))
  | notRunning => exact hsame rfl hs
  | @lockAborted _ c hcall hc =>
    refine hsame ?_ ?_
    · cases c <;> simp_all [abandoned?, Call.stand]
    · exact hs.forget hw hcall (by simp [hc]) rfl rfl rfl rfl (.refl (fun _ => id) _)
  | stoppingAborted hcall =>
    simp only [abandoned?, hcall, Option.toList_some]
    exact hs.forsake (hw.stopping (Calls.mem_of_lookup hcall)) (s.tended_dropFailures _).length rfl
  | drainingAborted hcall =>
    simp only [abandoned?, hcall, Option.toList_some]
    exact hs.forsake (hw.draining (Calls.mem_of_lookup hcall)).1 rfl rfl
  | enqueueAborted hcall =>
    refine hsame (by simp [abandoned?, hcall]) ?_
    unfold leaveIntake pipeline?
    split
    · exact hs.forget hw hcall (by simp [Call.stand]) rfl rfl rfl rfl
        (staysReady_setChannel ‹_› rfl rfl)
    · exact hs.forget hw hcall (by simp [Call.stand]) rfl rfl rfl rfl (.refl (fun _ => id) _)
  | handleAdded | handleDropped | advanced =>
    exact hsame rfl (hs.frame hr rfl rfl rfl (fun _ => .rfl) (.refl (fun _ => id) _))
  | resumed hwent => exact hsame rfl (hs.went hw hwent)
  | @moved run m p p' notes hp _ hm =>
    refine hsame rfl (hs.frame hr rfl rfl rfl (fun _ => .rfl) (.of_modify rfl (fun _ => id) ?_))
    intro q hq hready
    obtain rfl := Option.some.inj (hp.symm.trans hq)
    rcases hm.feed with ⟨hfeed, -⟩ | ⟨k, chunk, hfeed, -, hpanics⟩
    · exact hfeed ▸ hready
    · exact hfeed.ready hready fun panic hk => hsink run panic (hpanics panic hk ▸ rfl)

end Poised

/-- The run takes messages and can be stopped. -/
structure Whole (s : System) (run : Nat) (p : Pipeline Caller) : Prop where
  slot : s.slot = some run
  intake : s.intake = some run
  pipeline : s.pipelines[run]? = some p
  opened : p.feed.channel.closed = false
  alive : p.feed.worker.ended = false
  /-- A message is accepted, or waits for room. -/
  enqueue : ∀ {caller m}, s.mayCall caller = true → ∃ s' events,
    s.step (.enqueue caller m) = some (s', events) ∧
      (events = [.took run m, .replied caller (.enqueued (.ok ()))] ∨
        events = [] ∧ (caller, .enqueue run m) ∈ s'.calls)
  /-- A message that has waited for room is accepted. -/
  waits : ∀ {caller m s' events}, (caller, .enqueue run m) ∈ s.calls →
    s.step (.resume caller) = some (s', events) →
    events = [.took run m, .replied caller (.enqueued (.ok ()))]
  /-- A call to stop takes the run over at once. -/
  stop : ∀ {caller}, s.mayCall caller = true → ∃ s', s.step (.stop caller) = some (s', []) ∧
    (caller, .stopping run) ∈ s'.calls ∧ s'.state = .running

/-- An intake that is open takes a message or lets it wait. -/
theorem enqueue_of_opened {p : Pipeline Caller} {m : Message} (hstate : s.state = .running)
    (hintake : s.intake = some run) (hp : s.pipelines[run]? = some p)
    (hopened : p.feed.channel.closed = false) (hcall : s.mayCall caller = true) :
    ∃ s' events, s.step (.enqueue caller m) = some (s', events) ∧
      (events = [.took run m, .replied caller (.enqueued (.ok ()))] ∨
        events = [] ∧ (caller, .enqueue run m) ∈ s'.calls) := by
  have hpipeline : s.pipeline? run = some p := hp
  generalize hsend : p.feed.channel.send caller m = sent
  obtain ⟨d, arrival⟩ := sent
  simp only [step, hcall, if_true, System.enqueue, hstate, hintake, hpipeline, hsend]
  cases arrival with
  | accepted => exact ⟨_, _, rfl, .inl rfl⟩
  | waiting => exact ⟨_, _, rfl, .inr ⟨rfl, Calls.mem_await.mpr (.inr ⟨rfl, rfl⟩)⟩⟩
  | refused =>
    have := Channel.closed_of_send_refused hsend
    simp [hopened] at this

theorem events_of_opened {p : Pipeline Caller} {m : Message} (hw : s.WellFormed)
    (hp : s.pipelines[run]? = some p) (hopened : p.feed.channel.closed = false)
    (hmem : (caller, .enqueue run m) ∈ s.calls) (h : s.step (.resume caller) = some (s', events)) :
    events = [.took run m, .replied caller (.enqueued (.ok ()))] := by
  have hlookup := Calls.lookup_of_mem hw.guarded.keys hmem
  obtain ⟨x, hwent, -⟩ := goes_of_resume h
  dsimp only at hwent
  cases hwent with
  | enqueued hcall =>
    rw [call?, hlookup] at hcall
    cases hcall
    rfl
  | rejected hcall hq hresume =>
    rw [call?, hlookup] at hcall
    cases hcall
    obtain rfl := Option.some.inj (hp.symm.trans hq)
    have := Channel.closed_of_resume_refused hresume
    simp [hopened] at this
  | started hcall | startRefused _ hcall | stopTaken hcall | stopRefused _ hcall
  | workerEnded hcall | stopped hcall =>
    rw [call?, hlookup] at hcall
    cases hcall

theorem step_stop_of_outside (hw : s.WellFormed)
    (hcalls : ∀ who c, (who, c) ∈ s.calls → c.stand = .outside)
    (hcall : s.mayCall caller = true) :
    ∃ x, s.Finds caller .stop x ∧ s.step (.stop caller) = some (x.runStop caller) := by
  have hfree := hw.guarded.free_of_outside hcalls
  have hentered : s.entered? (.stop caller) = some (caller, .stop) := by
    simp [entered?, hcall, hfree]
  obtain ⟨x, hx, hstep⟩ := exists_finds hentered
  exact ⟨x, hx, hstep.trans hx.resume?_stop⟩

theorem Poised.whole (hs : s.Poised gone) (hw : s.WellFormed) (hslot : s.slot = some run)
    (hcalls : ∀ who c, (who, c) ∈ s.calls → c.stand = .outside) : ∃ p, s.Whole run p := by
  obtain ⟨hstate, hlast⟩ := hw.slot hslot
  obtain ⟨p, hp⟩ : ∃ p, s.pipelines[run]? = some p :=
    ⟨s.pipelines[run], List.getElem?_eq_getElem (by omega)⟩
  have hready := hs.ready hslot hp
  have hintake := hs.intake hslot
  refine ⟨p, hslot, hintake, hp, hready.opened, hready.not_ended,
    enqueue_of_opened hstate hintake hp hready.opened, events_of_opened hw hp hready.opened, ?_⟩
  intro caller hcall
  obtain ⟨x, hx, hstep⟩ := step_stop_of_outside hw hcalls hcall
  rw [runStop_taken (hx.state.trans hstate) (hx.slot.trans hslot)] at hstep
  exact ⟨_, hstep, Calls.mem_await.mpr (.inr ⟨rfl, rfl⟩), hx.state.trans hstate⟩

end System

end Batchflow.Enqueuer
