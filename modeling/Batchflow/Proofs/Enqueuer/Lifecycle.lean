import Batchflow.Proofs.Alternation
import Batchflow.Proofs.Enqueuer.Shutdown

/-!
# The life of an enqueuer

As long as no call to start or stop is given up, only the worker of the last run may be alive, and
then the enqueuer runs and somebody may still stop it.  So a call that gets the lock finds the
enqueuer stopped or running, and what it does is told by that.
-/

namespace Batchflow.Enqueuer

open Pipeline

namespace System

def Alive (s : System) (run : Nat) : Prop :=
  ∃ p, s.pipelines[run]? = some p ∧ p.feed.worker.ended = false

def stage (s : System) : Stage := .of Call.stand s.state s.calls

def Endures (s : System) (a : Action) : Prop :=
  ∀ caller c, a = .abort caller → s.call? caller = some c → c.stand = .outside

/-- The enqueuer is as it was to everybody who may start, stop or use it, unless nobody can get at
it any more. -/
structure Untouched (s s' : System) : Prop where
  state : s'.state = s.state
  pipelines : Alike Tended s.pipelines s'.pipelines
  held : s'.reachable = true →
    s'.pipelines = s.pipelines ∧ s'.slot = s.slot ∧ s'.intake = s.intake

/-- What a call to start or stop does that gets the lock. -/
inductive Served (s : System) (caller : Caller) : Call → System → List Event → Prop
  | started {sink s'} : s.state = .stopped → s.options.validate = .ok () →
      Begins s.options sink s s' →
      Served s caller (.start sink) s'
        [.log (.started s.options), .replied caller (.started (.ok ()))]
  | alreadyStarted {sink s'} : s.state = .running → s.options.validate = .ok () →
      s.Untouched s' →
      Served s caller (.start sink) s'
        [.replied caller (.started (.error (.alreadyStarted .running)))]
  | invalid {sink s' e} : s.state = .stopped → s.options.validate = .error e → s.Untouched s' →
      Served s caller (.start sink) s' [.replied caller (.started (.error (.config e)))]
  | stopping {run s'} : s.state = .running → s.slot = some run →
      s'.state = .running → (caller, .stopping run) ∈ s'.calls →
      s'.pipelines = s.pipelines.modify run (fun p =>
        { p with feed := { p.feed with stopRequested := true } }) → Served s caller .stop s' []
  | notRunning {s'} : s.state = .stopped → s.Untouched s' →
      Served s caller .stop s' [.replied caller (.stopped (.error .notRunning))]

end System

/-- No call to start or stop was given up. -/
def Patient (turns : History) : Prop := ∀ t ∈ turns, t.before.Endures t.action

/-- The mark of a turn: a call to start gets the lock and succeeds, or a call to stop gets it and
finds the enqueuer running. -/
def mark? (t : Turn System Action Event) : Option Mark :=
  match t.before.entered? t.action with
  | some (_, .start _) => if t.events.any Event.isStart then some .start else none
  | some (_, .stop) => if t.before.state = .running then some .stop else none
  | _ => none

/-- The successful starts and the stops that found the enqueuer running, in the order in which they
got the lock. -/
def marks (turns : History) : List Mark := turns.filterMap mark?

namespace System

variable {s s' x : System} {a : Action} {events : List Event} {out : Outcome}
  {caller w : Caller} {run : Nat} {c k : Call} {o : Options} {turns before mid : History}

/-- A worker that is alive was alive before. -/
def Lasts (p q : Pipeline Caller) : Prop :=
  q.feed.worker.ended = false → p.feed.worker.ended = false

theorem Alive.of_alike (halike : Alike Lasts s.pipelines s'.pipelines) (h : s'.Alive run) :
    s.Alive run := by
  obtain ⟨q, hq, halive⟩ := h
  obtain ⟨p, hp, hpq⟩ := halike.exists_left hq
  exact ⟨p, hp, hpq halive⟩

theorem lasts_of_tended (h : Alike Tended s.pipelines s'.pipelines) :
    Alike Lasts s.pipelines s'.pipelines :=
  h.imp fun h => by cases h; exact id

theorem lasts_setChannel (s : System) (run : Nat) (d : Channel Caller Message) :
    Alike Lasts s.pipelines (s.setChannel run d).pipelines :=
  .of_modify rfl (fun _ => id) fun _ _ => id

/-- The state of the enqueuer, its runs and the pending calls agree. -/
structure Orderly (s : System) : Prop where
  owned : s.state = .running → s.reachable = true → (∃ run, s.slot = some run) ∨
    ∃ w k, (w, k) ∈ s.calls ∧ k.stand = .inside
  alive : ∀ {run}, s.Alive run → s.state = .running ∧ run + 1 = s.pipelines.length
  valid : s.state = .running → s.options.validate = .ok ()
  intake : s.state = .stopped → s.intake = none
  not_draining : s.state ≠ .draining

theorem orderly_new (o : Options) : (new o).Orderly where
  owned := by simp [new]
  alive := by simp [new, Alive]
  valid := by simp [new]
  intake := fun _ => rfl
  not_draining := by simp [new]

namespace Orderly

theorem frame (hs : s.Orderly) (hreachable : s'.reachable = true → s.reachable = true)
    (hstate : s'.state = s.state) (hslot : s'.slot = s.slot)
    (hintake : s.intake = none → s'.intake = none) (hoptions : s'.options = s.options)
    (hcalls : ∀ {w k}, k.stand = .inside → ((w, k) ∈ s'.calls ↔ (w, k) ∈ s.calls))
    (halike : Alike Lasts s.pipelines s'.pipelines) : s'.Orderly where
  owned h hr := by
    rw [hslot]
    exact (hs.owned (hstate.symm.trans h) (hreachable hr)).imp id
      fun ⟨w, k, hmem, hin⟩ => ⟨w, k, (hcalls hin).mpr hmem, hin⟩
  alive h := by
    rw [hstate, halike.length]
    exact hs.alive (h.of_alike halike)
  valid h := by
    rw [hoptions]
    exact hs.valid (hstate.symm.trans h)
  intake h := hintake (hs.intake (hstate.symm.trans h))
  not_draining := hstate ▸ hs.not_draining

theorem release (hs : s.Orderly) : s.release.Orderly := by
  by_cases hr : s.reachable = true
  · have hself : s.release = s := by rw [System.release, if_pos hr]
    rwa [hself]
  · have halike := lasts_of_tended s.tended_release
    refine ⟨fun _ h => absurd (s.reachable_release.symm.trans h) hr, fun h => ?_, fun h => ?_,
      fun _ => ?_, by simpa using hs.not_draining⟩
    · rw [state_release, halike.length]
      exact hs.alive (h.of_alike halike)
    · rw [options_release]
      exact hs.valid (s.state_release.symm.trans h)
    · rw [System.release, if_neg hr, dropSlot]
      split <;> exact s.intake_dropIntake

theorem idle (hs : s.Orderly) (hstate : s.state = .stopped) : s.Idle := ⟨hstate, hs.intake hstate⟩

theorem not_alive (hs : s.Orderly) (hstate : s.state = .stopped) : ¬ s.Alive run := fun h => by
  have := (hs.alive h).1
  rw [hstate] at this
  cases this

theorem exists_slot (hs : s.Orderly) (hstate : s.state = .running) (hr : s.reachable = true)
    (hno : ∀ {w k}, (w, k) ∈ s.calls → k.stand ≠ .inside) : ∃ run, s.slot = some run := by
  rcases hs.owned hstate hr with h | ⟨w, k, hk, hin⟩
  · exact h
  · exact absurd hin (hno hk)

theorem forget (hs : s.Orderly) (hw : s.WellFormed) (hcall : s.call? caller = some c)
    (hc : c.stand ≠ .inside) (hcalls : s'.calls = s.calls.filter (·.1 != caller))
    (hstate : s'.state = s.state) (hslot : s'.slot = s.slot) (hintake : s'.intake = s.intake)
    (hoptions : s'.options = s.options) (halike : Alike Lasts s.pipelines s'.pipelines) :
    s'.Orderly := by
  refine hs.frame (fun _ => reachable_of_call hcall) hstate hslot (hintake.trans ·) hoptions
    (fun hin => ?_) halike
  rw [hcalls]
  exact hw.guarded.inside_without (Calls.mem_of_lookup hcall) hc hin

theorem started {sink : Nat} (hs : s.Orderly) (hstate : s.state = .stopped)
    (hvalid : s.options.validate = .ok ()) :
    (((s.startRun sink).unlock caller).without caller).Orderly where
  owned _ _ := .inl ⟨_, rfl⟩
  alive := by
    rintro run ⟨q, hq, halive⟩
    rcases getElem?_concat_eq_some hq with hq | ⟨hrun, -⟩
    · have hold : s.Alive run :=
        Alive.of_alike (lasts_of_tended s.tended_dropIntake) ⟨q, hq, halive⟩
      exact absurd hold (hs.not_alive hstate)
    · exact ⟨rfl, by simp [System.startRun, unlock, System.without, hrun]⟩
  valid _ := by
    rw [← s.options_dropIntake] at hvalid
    exact hvalid
  intake := nofun
  not_draining := nofun

/-- The worker whose end was awaited is the only one that was left. -/
theorem stopped {worker : Except Panic Unit} (hs : s.Orderly) (hw : s.WellFormed)
    (hcall : s.call? caller = some (.draining run worker)) :
    (((s.conclude run).unlock caller).without caller).Orderly where
  owned := nofun
  alive {i} h := by
    obtain ⟨htaken, -, p, hp, hworker⟩ := hw.draining (Calls.mem_of_lookup hcall)
    obtain ⟨q, hq, halive⟩ := h.of_alike (lasts_of_tended (s.tended_conclude run))
    have hlast := (hs.alive ⟨q, hq, halive⟩).2
    obtain rfl : run = i := Nat.succ.inj (htaken.last.trans hlast.symm)
    obtain rfl := Option.some.inj (hp.symm.trans hq)
    simp [Chunker.Worker.ended_of_outcome hworker] at halive
  valid := nofun
  intake _ := (hw.draining (Calls.mem_of_lookup hcall)).2.1
  not_draining := nofun

/-- A call to stop that is refused while nobody stops a run leaves the state. -/
theorem eq_of_refused {state : Lifecycle} (hs : s.Orderly) (hr : s.reachable = true)
    (hno : ∀ {w k}, (w, k) ∈ s.calls → k.stand ≠ .inside)
    (h : s.state ≠ .running ∧ state = s.state ∨ s.slot = none ∧ state = .stopped) :
    state = s.state := by
  rcases h with ⟨-, h⟩ | ⟨hnone, rfl⟩
  · exact h
  · cases hstate : s.state with
    | stopped => rfl
    | draining => exact absurd hstate hs.not_draining
    | running =>
      obtain ⟨run, hsome⟩ := hs.exists_slot hstate hr hno
      rw [hnone] at hsome
      cases hsome

theorem went (hs : s.Orderly) (hw : s.WellFormed) (h : s.Went caller s' events) : s'.Orderly := by
  have hr := reachable_of_went h
  cases h with
  | started _ _ hstate hvalid => exact hs.started hstate hvalid
  | startRefused _ hcall =>
    exact hs.forget hw hcall (by simp [Call.stand]) rfl rfl rfl rfl rfl (.refl (fun _ => id) _)
  | @stopTaken run hcall hheld hstate hslot =>
    have halike := lasts_of_tended (s.tended_takeOver caller run)
    refine ⟨fun _ _ => .inr ⟨caller, _, Calls.mem_await.mpr (.inr ⟨rfl, rfl⟩), rfl⟩,
      fun h => ?_, fun _ => hs.valid hstate, fun h => ?_, hs.not_draining⟩
    · rw [halike.length]
      exact hs.alive (h.of_alike halike)
    · exact hs.intake h
  | stopRefused state hcall hheld hcase =>
    have hstate := hs.eq_of_refused hr
      (fun hk => hw.guarded.not_inside hheld (Calls.mem_of_lookup hcall) rfl hk) hcase
    exact hs.forget hw hcall (by simp [Call.stand]) rfl hstate rfl rfl rfl (.refl (fun _ => id) _)
  | @workerEnded run p worker hcall =>
    have halike := lasts_of_tended (s.tended_workerEnded caller run worker)
    have hstate : (s.workerEnded caller run worker).state = s.state := s.state_dropIntake
    refine ⟨fun _ _ => .inr ⟨caller, _, Calls.mem_await.mpr (.inr ⟨rfl, rfl⟩), rfl⟩,
      fun h => ?_, fun h => ?_, fun _ => s.intake_dropIntake, hstate ▸ hs.not_draining⟩
    · rw [hstate, halike.length]
      exact hs.alive (h.of_alike halike)
    · show s.dropIntake.options.validate = _
      rw [options_dropIntake]
      exact hs.valid (hstate.symm.trans h)
  | stopped hcall => exact hs.stopped hw hcall
  | enqueued hcall | rejected hcall =>
    exact hs.forget hw hcall (by simp [Call.stand]) rfl rfl rfl rfl rfl (s.lasts_setChannel _ _)

theorem ask (hs : s.Orderly) (hcall : s.mayCall caller = true) (hc : c.stand = .waiting) :
    (s.ask caller c).Orderly := by
  have hnone := call?_eq_none_of_mayCall hcall
  exact hs.frame (fun _ => reachable_of_mayCall hcall) rfl rfl id rfl
    (Guarded.inside_await (fun _ => Calls.not_mem_of_lookup hnone) (by simp [hc]))
    (.refl (fun _ => id) _)

theorem did (hs : s.Orderly) (hw : s.WellFormed) (hendures : s.Endures a)
    (h : s.Did a s' events) : s'.Orderly := by
  have hr := reachable_of_did h
  have hgiven {caller : Caller} {c : Call} (ha : a = .abort caller)
      (hcall : s.call? caller = some c) (hc : c.stand ≠ .outside) : s'.Orderly :=
    absurd (hendures caller c ha hcall) hc
  cases h with
  | asked ha hcall => exact hs.ask hcall ha.stand
  | atOnce ha hcall hwent => exact (hs.ask hcall ha.stand).went (hw.ask hcall ha.stand) hwent
  | enqueued | rejected =>
    exact hs.frame hr rfl rfl id rfl (fun _ => .rfl) (s.lasts_setChannel _ _)
  | enqueueWaits hcall =>
    have hnone := call?_eq_none_of_mayCall hcall
    exact hs.frame hr rfl rfl id rfl
      (Guarded.inside_await (fun _ => Calls.not_mem_of_lookup hnone) (by simp [Call.stand]))
      (s.lasts_setChannel _ _)
  | notRunning => exact hs
  | lockAborted hcall hc => exact hgiven rfl hcall (by simp [hc])
  | stoppingAborted hcall | drainingAborted hcall =>
    exact hgiven rfl hcall (by simp [Call.stand])
  | enqueueAborted hcall =>
    unfold leaveIntake
    split
    · exact hs.forget hw hcall (by simp [Call.stand]) rfl rfl rfl rfl rfl (s.lasts_setChannel _ _)
    · exact hs.forget hw hcall (by simp [Call.stand]) rfl rfl rfl rfl rfl (.refl (fun _ => id) _)
  | handleAdded | handleDropped | advanced =>
    exact hs.frame hr rfl rfl id rfl (fun _ => .rfl) (.refl (fun _ => id) _)
  | resumed hwent => exact hs.went hw hwent
  | moved hp _ hm =>
    refine hs.frame hr rfl rfl id rfl (fun _ => .rfl)
      (.of_modify rfl (fun _ => id) fun q hq halive => ?_)
    obtain rfl := Option.some.inj (hp.symm.trans hq)
    rcases hm.feed with ⟨hfeed, -⟩ | ⟨k, chunk, hfeed, -⟩
    · exact hfeed ▸ halive
    · exact hfeed.not_ended

theorem step (hs : s.Orderly) (hw : s.WellFormed) (hendures : s.Endures a)
    (h : s.step a = some out) : out.1.Orderly := by
  obtain ⟨x, hdid, hx | hx⟩ := does_of_step h
  · exact hx ▸ hs.did hw hendures hdid
  · exact hx ▸ (hs.did hw hendures hdid).release

end Orderly

theorem orderly_of_run (h : Run step (new o) turns s) (hpatient : Patient turns) : s.Orderly := by
  induction h with
  | nil => exact orderly_new o
  | @snoc turns s₁ s₂ a events hrun hstep ih =>
    have hs₁ := ih fun t ht => hpatient t (by simp [ht])
    exact hs₁.step (wellFormed_of_run hrun) (hpatient ⟨s₁, a, events⟩ (by simp)) hstep

theorem runStart_invalid {e : ConfigError} {sink : Nat} (hstate : s.state = .stopped)
    (hvalid : s.options.validate = .error e) :
    s.runStart caller sink = (((s.unlock caller).without caller).release,
      [.replied caller (.started (.error (.config e)))]) := by
  rw [runStart, hstate]
  dsimp only
  rw [hvalid]
  rfl

theorem runStart_running {sink : Nat} (hstate : s.state = .running) :
    s.runStart caller sink = (((s.unlock caller).without caller).release,
      [.replied caller (.started (.error (.alreadyStarted .running)))]) := by
  rw [runStart, hstate]
  rfl

theorem runStop_taken (hstate : s.state = .running) (hslot : s.slot = some run) :
    s.runStop caller = (s.takeOver caller run, []) := by
  rw [runStop, if_pos hstate, hslot]
  rfl

theorem runStop_refused (hstate : s.state ≠ .running) :
    s.runStop caller = (((s.unlock caller).without caller).release,
      [.replied caller (.stopped (.error .notRunning))]) := by
  rw [runStop, if_neg hstate]
  rfl

theorem Finds.untouched (hx : s.Finds caller c x) :
    s.Untouched ((x.unlock caller).without caller).release := by
  let y := (x.unlock caller).without caller
  have hy : y.release.reachable = true → y.release = y := fun hr => by
    rw [reachable_release] at hr
    rw [System.release, if_pos hr]
  refine ⟨?_, ?_, fun hr => ?_⟩
  · rw [state_release]
    exact hx.state
  · rw [← hx.pipelines]
    exact y.tended_release
  · rw [hy hr]
    exact ⟨hx.pipelines, hx.slot, hx.intake⟩

/-- What a call does that gets the lock is told by the state that it finds. -/
theorem served_of_entered (hw : s.WellFormed) (hs : s.Orderly)
    (hentered : s.entered? a = some (caller, c)) (h : s.step a = some (s', events)) :
    s.Served caller c s' events := by
  obtain ⟨x, hx, hstep⟩ := exists_finds hentered
  rw [hstep] at h
  have hwaiting := hx.waiting
  cases c with
  | start sink =>
    replace h := Option.some.inj (hx.resume?_start.symm.trans h)
    cases hcase : s.state with
    | draining => exact absurd hcase hs.not_draining
    | running =>
      rw [runStart_running (hx.state.trans hcase)] at h
      obtain ⟨rfl, rfl⟩ := Prod.mk.inj h
      exact .alreadyStarted hcase (hs.valid hcase) hx.untouched
    | stopped =>
      cases hvalid : s.options.validate with
      | error e =>
        rw [runStart_invalid (hx.state.trans hcase) (hx.options ▸ hvalid)] at h
        obtain ⟨rfl, rfl⟩ := Prod.mk.inj h
        exact .invalid hcase hvalid hx.untouched
      | ok =>
        obtain ⟨s₁, hstarted, hbegins⟩ := begins_of_entered (hs.idle hcase) hvalid hentered
        rw [hstep, hx.resume?_start, h] at hstarted
        obtain ⟨rfl, rfl⟩ := Prod.mk.inj (Option.some.inj hstarted)
        exact .started hcase hvalid hbegins
  | stop =>
    replace h := Option.some.inj (hx.resume?_stop.symm.trans h)
    cases hcase : s.state with
    | draining => exact absurd hcase hs.not_draining
    | stopped =>
      rw [runStop_refused (by simp [hx.state, hcase])] at h
      obtain ⟨rfl, rfl⟩ := Prod.mk.inj h
      exact .notRunning hcase hx.untouched
    | running =>
      obtain ⟨run, hslot⟩ := hs.exists_slot hcase hx.reachable fun hk => hx.not_inside hw hk
      rw [runStop_taken (hx.state.trans hcase) (hx.slot.trans hslot)] at h
      obtain ⟨rfl, rfl⟩ := Prod.mk.inj h
      refine .stopping hcase hslot (hx.state.trans hcase) (Calls.mem_await.mpr (.inr ⟨rfl, rfl⟩)) ?_
      rw [← hx.pipelines]
      rfl
  | stopping | draining | enqueue => cases hwaiting

@[simp] theorem stage_release (s : System) : s.release.stage = s.stage := by
  rw [stage, stage, state_release, calls_release]

/-- Nobody stops a run that may still be taken over. -/
theorem WellFormed.not_inside_of_slot (hw : s.WellFormed)
    (hslot : s.reachable = true → s.slot = some run) (hk : (w, k) ∈ s.calls) :
    k.stand ≠ .inside := by
  intro hin
  have hlookup := Calls.lookup_of_mem hw.guarded.keys hk
  have hsome := hslot (reachable_of_call hlookup)
  have hnone : s.slot = none := by
    cases k with
    | stopping => exact (hw.stopping hk).slot
    | draining => exact (hw.draining hk).1.slot
    | start | stop | enqueue => cases hin
  rw [hnone] at hsome
  cases hsome

/-- The call that gets the lock starts the enqueuer, begins to stop it, or changes nothing. -/
theorem passes_of_entered (hw : s.WellFormed) (hs : s.Orderly) (hw' : s'.WellFormed)
    (hentered : s.entered? a = some (caller, c)) (h : s.Served caller c s' events) :
    Stage.Passes s.stage (mark? ⟨s, a, events⟩) s'.stage := by
  obtain ⟨x, hx, -⟩ := exists_finds hentered
  have hbefore : s.stage = if s.state = .running then .running else .stopped :=
    Stage.of_not_inside fun _ _ hk => hx.not_inside hw hk
  have hstopped (hstate : s'.state = .stopped) : s'.stage = .stopped := by
    simp [stage, Stage.of, hstate]
  have hrunning {i : Nat} (hstate : s'.state = .running)
      (hslot : s'.reachable = true → s'.slot = some i) : s'.stage = .running := by
    rw [stage, Stage.of_not_inside fun _ _ hk => hw'.not_inside_of_slot hslot hk, if_pos hstate]
  unfold mark?
  simp only [hentered]
  cases h with
  | started hstate _ hbegins =>
    simpa [hbefore, hstate, hrunning hbegins.state fun hr => (hbegins.held hr).2.1,
      Event.isStart] using Stage.Passes.started
  | alreadyStarted hstate _ hsame =>
    obtain ⟨run, hslot⟩ := hs.exists_slot hstate hx.reachable fun hk => hx.not_inside hw hk
    have hafter := hrunning (hsame.state.trans hstate) fun hr => (hsame.held hr).2.1.trans hslot
    simpa [hbefore, hstate, hafter, Event.isStart] using Stage.Passes.stays .running
  | invalid hstate _ hsame =>
    simpa [hbefore, hstate, hstopped (hsame.state.trans hstate), Event.isStart] using
      Stage.Passes.stays .stopped
  | stopping hstate _ hstate' hmem =>
    have hstage : s'.stage = .stopping := by
      rw [stage, hstate']
      exact Stage.of_stopping hmem rfl
    simpa [hbefore, hstate, hstage] using Stage.Passes.taken
  | notRunning hstate hsame =>
    simpa [hbefore, hstate, hstopped (hsame.state.trans hstate)] using
      Stage.Passes.stays .stopped

/-- Without the lock nobody but a call that stops a run gets any further. -/
theorem passes_of_went (hw : s.WellFormed) (h : s.Went caller s' events)
    (hentered : s.entered? (.resume caller) = none) : Stage.Passes s.stage none s'.stage := by
  have hnot {c : Call} (hcall : s.call? caller = some c) (hc : c.stand = .waiting) : False := by
    simp [entered_of_resumed h hcall hc] at hentered
  have hstopping {t : System} {w : Caller} {k : Call} (hstate : t.state = .running)
      (hk : (w, k) ∈ t.calls) (hin : k.stand = .inside) : t.stage = .stopping := by
    rw [stage, hstate]
    exact Stage.of_stopping hk hin
  have hover {c : Call} (hcall : s.call? caller = some c) (hc : c.stand = .outside)
      (hcalls : s'.calls = s.calls.filter (·.1 != caller)) (hstate : s'.state = s.state) :
      Stage.Passes s.stage none s'.stage := by
    rw [stage, stage, hstate, hcalls]
    exact Stage.passes_of_congr fun _ _ =>
      hw.guarded.inside_without (Calls.mem_of_lookup hcall) (by simp [hc])
  cases h with
  | started hcall | startRefused _ hcall | stopTaken hcall | stopRefused _ hcall =>
    exact (hnot hcall rfl).elim
  | @workerEnded run p worker hcall =>
    have hmem := Calls.mem_of_lookup hcall
    have hstate := (hw.stopping hmem).state
    have hafter : (s.workerEnded caller run worker).stage = .stopping :=
      hstopping (s.state_dropIntake.trans hstate) (Calls.mem_await.mpr (.inr ⟨rfl, rfl⟩)) rfl
    rw [hstopping hstate hmem rfl, hafter]
    exact .stays _
  | stopped hcall =>
    have hmem := Calls.mem_of_lookup hcall
    rw [hstopping (hw.draining hmem).1.state hmem rfl]
    exact .ended
  | enqueued hcall | rejected hcall => exact hover hcall rfl rfl rfl

theorem passes_of_did (hw : s.WellFormed) (hendures : s.Endures a) (h : s.Did a s' events)
    (hentered : s.entered? a = none) : Stage.Passes s.stage none s'.stage := by
  have hsame (hstate : s'.state = s.state) (hcalls : ∀ w k, k.stand = .inside →
      ((w, k) ∈ s'.calls ↔ (w, k) ∈ s.calls)) : Stage.Passes s.stage none s'.stage := by
    rw [stage, stage, hstate]
    exact Stage.passes_of_congr hcalls
  have hgiven {caller : Caller} {c : Call} (ha : a = .abort caller)
      (hcall : s.call? caller = some c) (hc : c.stand ≠ .outside) :
      Stage.Passes s.stage none s'.stage := absurd (hendures caller c ha hcall) hc
  cases h with
  | asked ha hcall =>
    have hnone := call?_eq_none_of_mayCall hcall
    exact hsame rfl fun _ _ =>
      Guarded.inside_await (fun _ => Calls.not_mem_of_lookup hnone) (by simp [ha.stand])
  | atOnce ha hcall hwent => simp [entered_of_atOnce hw ha hcall hwent] at hentered
  | enqueueWaits hcall =>
    have hnone := call?_eq_none_of_mayCall hcall
    exact hsame rfl fun _ _ =>
      Guarded.inside_await (fun _ => Calls.not_mem_of_lookup hnone) (by simp [Call.stand])
  | lockAborted hcall hc => exact hgiven rfl hcall (by simp [hc])
  | stoppingAborted hcall | drainingAborted hcall => exact hgiven rfl hcall (by simp [Call.stand])
  | @enqueueAborted caller run m hcall =>
    have hcalls (w : Caller) (k : Call) (hk : k.stand = .inside) :
        (w, k) ∈ s.calls.filter (·.1 != caller) ↔ (w, k) ∈ s.calls :=
      hw.guarded.inside_without (Calls.mem_of_lookup hcall) (by simp [Call.stand]) hk
    unfold leaveIntake at hsame ⊢
    split at hsame <;> exact hsame rfl hcalls
  | resumed hwent => exact passes_of_went hw hwent hentered
  | _ => exact hsame rfl fun _ _ _ => .rfl

theorem passes_of_step (hw : s.WellFormed) (hs : s.Orderly) (hendures : s.Endures a)
    (h : s.step a = some (s', events)) :
    Stage.Passes s.stage (mark? ⟨s, a, events⟩) s'.stage := by
  cases hentered : s.entered? a with
  | none =>
    have hmark : mark? ⟨s, a, events⟩ = none := by simp [mark?, hentered]
    rw [hmark]
    obtain ⟨x, hdid, hx⟩ := does_of_step h
    have hpasses := passes_of_did hw hendures hdid hentered
    dsimp only at hx
    rcases hx with rfl | rfl
    · exact hpasses
    · rwa [stage_release]
  | some e =>
    exact passes_of_entered hw hs (hw.step h) hentered (served_of_entered hw hs hentered h)

theorem alternates_of_run (h : Run step (new o) turns s) (hpatient : Patient turns) :
    Alternates (marks turns) := by
  refine (Stage.alternates_of_run stage h rfl ?_).1
  rintro before t after s₁ rfl hrun hstep
  have hbefore : Patient before := fun u hu => hpatient u (by simp [hu])
  exact passes_of_step (wellFormed_of_run hrun) (orderly_of_run hrun hbefore)
    (hpatient t (by simp)) hstep

theorem Endures.not_abort (h : s.Endures a) (hw : s.WellFormed) (hstops : s.Stops caller run) :
    a ≠ .abort caller := by
  rintro rfl
  obtain ⟨c, hmem, hc⟩ := hstops
  have hstand := h caller c rfl (Calls.lookup_of_mem hw.guarded.keys hmem)
  rcases hc with rfl | ⟨worker, rfl⟩ <;> cases hstand

/-- When the call to stop returns that found the enqueuer running, the worker has ended. -/
theorem stopped_of_entered {t₀ t : Turn System Action Event} {reply : Reply}
    (h : Run step (new o) (before ++ t₀ :: (mid ++ [t])) s)
    (hpatient : Patient (before ++ t₀ :: (mid ++ [t])))
    (hentered : t₀.before.entered? t₀.action = some (caller, .stop))
    (hstate : t₀.before.state = .running)
    (hmid : ∀ u ∈ mid, ∀ r, .replied caller r ∉ u.events)
    (hreply : .replied caller reply ∈ t.events) :
    (∃ worker reporter, reply = .stopped (stopResult worker reporter)) ∧ s.state = .stopped ∧
      ∀ i, ¬ s.Alive i := by
  have horderly := orderly_of_run h hpatient
  rw [List.append_cons] at h
  obtain ⟨s₀, hupto, hrest⟩ := h.cut
  obtain ⟨hbefore, hfirst⟩ := hupto.snoc_inv
  obtain ⟨hbetween, hlast⟩ := hrest.snoc_inv
  have hw := wellFormed_of_run hbefore
  have hs := orderly_of_run hbefore fun u hu => hpatient u (by simp [hu])
  obtain ⟨x, hx, -⟩ := exists_finds hentered
  obtain ⟨run, hslot⟩ := hs.exists_slot hstate hx.reachable fun hk => hx.not_inside hw hk
  have hstops := stops_of_run hupto hbetween (stops_of_entered hentered hstate hslot hfirst)
    (fun u hu hstops => by
      obtain ⟨earlier, later, s₁, -, hearlier, -⟩ := hbetween.split hu
      exact (hpatient u (by simp [hu])).not_abort (wellFormed_of_run (hupto.append hearlier))
        hstops) hmid
  have hformed := wellFormed_of_run (hupto.append hbetween)
  have habort := (hpatient t (by simp)).not_abort hformed hstops
  rcases stops_of_step hformed hlast hstops habort with ⟨-, hnone⟩ | hend
  · exact absurd hreply (hnone reply)
  · obtain ⟨worker, p, reporter, -, -, -, hs', hevents⟩ := hend
    have hstopped : s.state = .stopped := by
      rw [hs']
      rfl
    rw [hevents] at hreply
    exact ⟨⟨worker, reporter, (replied_stopEvents.mp hreply).2⟩, hstopped,
      fun i => horderly.not_alive hstopped⟩

end System

end Batchflow.Enqueuer
