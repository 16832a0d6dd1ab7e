import Batchflow.Proofs.Enqueuer.Locking

/-!
# How a run ends that is stopped

A call that stops a run waits for the end of the worker, lets the intake go, waits for the end of
the reporter, and cancels the token of the run last.  It returns in the same way whether the worker
or the reporter has panicked, and leaves an enqueuer that can be started again.
-/

namespace Batchflow.Enqueuer

open Pipeline

namespace Pipeline

variable {ι : Type} {o : Options} {hasHandler : Bool} {now : Nat} {p p' : Pipeline ι} {m : Move}
  {notes : List Note}

@[simp] theorem cancelled_setFeed (p : Pipeline ι) (feed : Chunker.Feed ι Message) :
    (p.setFeed feed).cancelled = p.cancelled := by
  unfold setFeed
  split <;> rfl

theorem Moved.cancelled (h : Moved o hasHandler now p m p' notes) : p'.cancelled = p.cancelled := by
  cases h <;> simp

theorem Engaged.not_ended (hp : p.Engaged) (h : p.submission = .submitting) :
    p.feed.worker.ended = false := by
  refine Bool.eq_false_iff.mpr fun hended => ?_
  simp [hp.idle_of_ended hended] at h

/-- What the caller is told who has stopped a run, by how the worker and the reporter have
ended. -/
inductive Concluded (p : Pipeline ι) : Except Error Unit → Prop
  | workerPanicked {panic} : p.feed.worker = .panicked panic →
      (p.reporter = .returned ∨ ∃ late, p.reporter = .panicked late) →
      Concluded p (.error (.chunker (.workerPanicked panic.report)))
  | reporterPanicked {panic} : p.feed.worker = .returned → p.reporter = .panicked panic →
      Concluded p (.error (.handlerPanicked panic.report))
  | returned : p.feed.worker = .returned → p.reporter = .returned → Concluded p (.ok ())

theorem concluded_of_outcomes {worker reporter : Except Panic Unit}
    (hworker : p.feed.worker.outcome? = some worker)
    (hreporter : p.reporter.outcome? = some reporter) :
    p.Concluded (System.stopResult worker reporter) := by
  cases hw : p.feed.worker <;> simp only [hw, Chunker.Worker.outcome?, Option.some.injEq,
    reduceCtorEq] at hworker <;> subst hworker
  · cases hr : p.reporter <;> simp only [hr, Reporter.outcome?, Option.some.injEq,
      reduceCtorEq] at hreporter <;> subst hreporter
    · exact .returned hw hr
    · exact .reporterPanicked hw hr
  · refine .workerPanicked hw ?_
    cases hr : p.reporter <;> simp [hr, Reporter.outcome?] at hreporter ⊢

theorem Change.validate {move : Option Move} {x y : Option (Pipeline Caller)}
    {item : Option Message} (h : Change o hasHandler now move x item notes y) (hx : x = none)
    (hy : y ≠ none) : o.validate = .ok () := by
  induction h with
  | same => exact absurd hx hy
  | born _ hvalid => exact hvalid
  | sent | moved => cases hx
  | tended _ _ ih => exact ih hx (by simp)

end Pipeline

/-- The sink of a run is called, or has not answered yet. -/
def Submits (run : Nat) (t : Turn System Action Event) : Prop :=
  (∃ ms, .batch run ms ∈ t.events) ∨
    ∃ p, t.before.pipelines[run]? = some p ∧ p.submission = .submitting

namespace System

variable {o : Options} {s s' x : System} {a : Action} {out : Outcome} {events : List Event}
  {caller w : Caller} {turns before mid : History} {run : Nat} {c : Call}

/-- A call that stops the run: it waits for the end of the worker or of the reporter. -/
def Stops (s : System) (caller : Caller) (run : Nat) : Prop :=
  ∃ c, (caller, c) ∈ s.calls ∧ (c = .stopping run ∨ ∃ worker, c = .draining run worker)

theorem release_eq_self (hslot : s.slot = none) (hintake : s.intake = none) : s.release = s := by
  unfold release dropIntake dropSlot
  split
  · rfl
  · simp [hintake, hslot]

theorem stops_of_went (hs : s.WellFormed) (h : s.Went caller s' events)
    (hstops : s.Stops caller run) :
    s'.Stops caller run ∧ events = [] ∨
      ∃ worker p reporter, (caller, .draining run worker) ∈ s.calls ∧
        s.pipelines[run]? = some p ∧ p.reporter.outcome? = some reporter ∧
        s' = ((s.conclude run).unlock caller).without caller ∧
        events = stopEvents caller (stopResult worker reporter) := by
  obtain ⟨c, hmem, hc⟩ := hstops
  have heq {k : Call} (hcall : s.call? caller = some k) : k = c :=
    hs.guarded.eq_of_mem (Calls.mem_of_lookup hcall) hmem
  cases h with
  | started hcall | startRefused _ hcall | stopTaken hcall | stopRefused _ hcall | enqueued hcall
  | rejected hcall => simp [← heq hcall] at hc
  | workerEnded hcall =>
    obtain rfl : _ = run := by simpa [← heq hcall] using hc
    exact .inl ⟨⟨_, Calls.mem_await.mpr (.inr ⟨rfl, rfl⟩), .inr ⟨_, rfl⟩⟩, rfl⟩
  | stopped hcall hp hreporter =>
    obtain rfl : _ = run := by simpa [← heq hcall] using hc
    exact .inr ⟨_, _, _, Calls.mem_of_lookup hcall, hp, hreporter, rfl, rfl⟩

/-- A call that stops a run goes on doing so, or returns with the end of the run. -/
theorem stops_of_step (hs : s.WellFormed) (h : s.step a = some (s', events))
    (hstops : s.Stops caller run) (ha : a ≠ .abort caller) :
    s'.Stops caller run ∧ (∀ r, .replied caller r ∉ events) ∨
      ∃ worker p reporter, (caller, .draining run worker) ∈ s.calls ∧
        s.pipelines[run]? = some p ∧ p.reporter.outcome? = some reporter ∧
        s' = ((s.conclude run).unlock caller).without caller ∧
        events = stopEvents caller (stopResult worker reporter) := by
  by_cases hresume : a = .resume caller
  · subst hresume
    obtain ⟨x, hwent, hx⟩ := goes_of_resume h
    dsimp only at hwent hx
    rcases stops_of_went hs hwent hstops with ⟨⟨c, hmem, hc⟩, rfl⟩ | hend
    · refine .inl ⟨⟨c, ?_, hc⟩, by simp⟩
      rcases hx with rfl | rfl
      · exact hmem
      · rwa [calls_release]
    · obtain ⟨worker, p, reporter, hmem, hp, hreporter, hconcluded, hevents⟩ := hend
      refine .inr ⟨worker, p, reporter, hmem, hp, hreporter, ?_, hevents⟩
      obtain ⟨htaken, hintake, -⟩ := hs.draining hmem
      have hself : x.release = x := by
        rw [hconcluded]
        exact release_eq_self htaken.slot hintake
      rcases hx with rfl | rfl
      · exact hconcluded
      · rw [hself, hconcluded]
  · obtain ⟨c, hmem, hc⟩ := hstops
    obtain ⟨hmem', hreply⟩ := untouched_of_step h hmem hresume ha
    exact .inl ⟨⟨c, hmem', hc⟩, hreply⟩

theorem stops_of_run (hbefore : Run step (new o) before s) (h : Run step s mid s')
    (hstops : s.Stops caller run)
    (hkept : ∀ t ∈ mid, t.before.Stops caller run → t.action ≠ .abort caller)
    (hmid : ∀ t ∈ mid, ∀ r, .replied caller r ∉ t.events) : s'.Stops caller run := by
  induction h with
  | nil => exact hstops
  | @snoc mid s₁ s₂ a events hrun hstep ih =>
    have hs₁ := ih (fun t ht => hkept t (by simp [ht])) fun t ht => hmid t (by simp [ht])
    have habort := hkept ⟨s₁, a, events⟩ (by simp) hs₁
    have hsilent := hmid ⟨s₁, a, events⟩ (by simp)
    rcases stops_of_step (wellFormed_of_run (hbefore.append hrun)) hstep hs₁ habort with h | h
    · exact h.1
    · obtain ⟨worker, p, reporter, -, -, -, -, rfl⟩ := h
      exact absurd (replied_stopEvents.mpr ⟨rfl, rfl⟩) (hsilent _)

theorem stops_of_entered (hentered : s.entered? a = some (caller, .stop))
    (hstate : s.state = .running) (hslot : s.slot = some run)
    (h : s.step a = some (s', events)) : s'.Stops caller run := by
  obtain ⟨x, hx, hstep⟩ := exists_finds hentered
  rw [hstep, hx.resume?_stop] at h
  simp only [runStop, hx.state.trans hstate, hx.slot.trans hslot, if_true, Option.some.injEq,
    Prod.mk.injEq] at h
  obtain ⟨rfl, -⟩ := h
  exact ⟨_, Calls.mem_await.mpr (.inr ⟨rfl, rfl⟩), .inl rfl⟩

/-- Nothing runs, and nothing can be enqueued. -/
structure Idle (s : System) : Prop where
  state : s.state = .stopped
  intake : s.intake = none

@[simp] theorem state_release (s : System) : s.release.state = s.state := by
  unfold release dropSlot
  split
  · rfl
  · split <;> exact s.state_dropIntake

theorem Idle.release (hs : s.Idle) : s.release.Idle where
  state := by rw [state_release, hs.state]
  intake := by
    unfold System.release dropSlot
    split
    · exact hs.intake
    · split <;> exact s.intake_dropIntake

theorem Idle.went (hs : s.Idle) (h : s.Went w s' events)
    (hnone : ∀ v, .replied v (.started (.ok ())) ∉ events) : s'.Idle := by
  cases h with
  | started => simp at hnone
  | stopTaken _ _ hstate => simp [hs.state] at hstate
  | stopRefused _ _ _ hstate =>
    refine ⟨?_, hs.intake⟩
    rcases hstate with ⟨-, rfl⟩ | ⟨-, rfl⟩
    · exact hs.state
    · rfl
  | workerEnded => exact ⟨s.state_dropIntake.trans hs.state, s.intake_dropIntake⟩
  | stopped => exact ⟨rfl, hs.intake⟩
  | startRefused | enqueued | rejected => exact ⟨hs.state, hs.intake⟩

theorem Idle.did (hs : s.Idle) (h : s.Did a s' events)
    (hnone : ∀ v, .replied v (.started (.ok ())) ∉ events) : s'.Idle := by
  cases h with
  | @atOnce _ w c _ _ _ _ hwent =>
    have hask : (s.ask w c).Idle := ⟨hs.state, hs.intake⟩
    exact hask.went hwent hnone
  | enqueueAborted =>
    unfold leaveIntake
    split <;> exact ⟨hs.state, hs.intake⟩
  | resumed hwent => exact hs.went hwent hnone
  | _ => exact ⟨hs.state, hs.intake⟩

/-- Nothing runs until somebody starts it. -/
theorem idle_of_run (hs : s.Idle) (h : Run step s turns s')
    (hnone : ∀ t ∈ turns, ∀ v, .replied v (.started (.ok ())) ∉ t.events) : s'.Idle := by
  induction h with
  | nil => exact hs
  | @snoc turns s₁ s₂ a events _ hstep ih =>
    have hs₁ := ih fun t ht => hnone t (by simp [ht])
    obtain ⟨x, hdid, hx⟩ := does_of_step hstep
    have hidle := hs₁.did hdid (hnone ⟨s₁, a, events⟩ (by simp))
    dsimp only at hx
    rcases hx with rfl | rfl
    · exact hidle
    · exact hidle.release

theorem validate_of_run {p : Pipeline Caller} (h : Run step (new o) turns s)
    (hp : s.pipelines[run]? = some p) : o.validate = .ok () := by
  induction h generalizing p with
  | nil => simp [new] at hp
  | @snoc turns s₁ s₂ a events hrun hstep ih =>
    cases hx : s₁.pipelines[run]? with
    | some q => exact ih hx
    | none =>
      obtain ⟨item, notes, hchange, -⟩ := effect_of_step hstep run
      rw [options_of_run hrun] at hchange
      exact hchange.validate hx (by simp [hp])

/-- A call to start has begun this run, and the enqueuer lets go of it only if nobody can get at the
enqueuer any more. -/
structure Begins (o : Options) (sink : Nat) (s s' : System) : Prop where
  state : s'.state = .running
  pipelines : Alike Tended (s.pipelines ++ [.start o sink s.now]) s'.pipelines
  held : s'.reachable = true → s'.pipelines = s.pipelines ++ [.start o sink s.now] ∧
    s'.slot = some s.pipelines.length ∧ s'.intake = some s.pipelines.length

/-- A call to start that gets the lock while nothing runs begins a run. -/
theorem begins_of_entered {sink : Nat} (hs : s.Idle) (hvalid : s.options.validate = .ok ())
    (hentered : s.entered? a = some (caller, .start sink)) :
    ∃ s', s.step a = some (s', [.log (.started s.options), .replied caller (.started (.ok ()))]) ∧
      Begins s.options sink s s' := by
  obtain ⟨x, hx, hstep⟩ := exists_finds hentered
  let y := ((x.startRun sink).unlock caller).without caller
  have hstarted : x.resume? caller =
      some (y.release, [.log (.started x.options), .replied caller (.started (.ok ()))]) := by
    rw [hx.resume?_start]
    simp only [runStart, hx.state.trans hs.state, hx.options, hvalid]
    rfl
  have hx₀ : x.dropIntake = x := by
    unfold dropIntake
    simp [hx.intake.trans hs.intake]
  have hy : y.pipelines = s.pipelines ++ [.start s.options sink s.now] := by
    show x.dropIntake.pipelines ++ [Pipeline.start x.dropIntake.options sink x.dropIntake.now] = _
    rw [hx₀, hx.pipelines, hx.options, hx.now]
  refine ⟨y.release, by rw [hstep, hstarted, hx.options], ?_, ?_, fun hreachable => ?_⟩
  · rw [state_release]
    rfl
  · rw [← hy]
    exact y.tended_release
  · rw [reachable_release] at hreachable
    have hself : y.release = y := by rw [System.release, if_pos hreachable]
    rw [hself, ← hx.pipelines]
    exact ⟨hy.trans (by rw [hx.pipelines]), rfl, rfl⟩

end System

end Batchflow.Enqueuer
