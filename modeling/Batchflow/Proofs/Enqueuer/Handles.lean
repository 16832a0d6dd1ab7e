import Batchflow.Proofs.Enqueuer.CircularWait

/-!
# Who keeps a run alive

The enqueuer keeps a handle of the intake at which it takes messages, and lets go of it when nobody
can get at the enqueuer any more.  Of the handlers only those that are at work make calls.  So
when no client is left that has a handle or waits for a call, it is the handlers at work that keep
the run alive.
-/

namespace Batchflow

theorem Chunker.Feed.Moved.handles {ι α : Type} {o : Options} {now : Nat} {f f' : Feed ι α}
    {m : Move} {chunk : Option (List α)} (h : f.Moved o now m f' chunk) :
    f'.channel.handles = f.channel.handles := by
  rcases h.source with heq | ⟨x, hreceive⟩ | heq | heq
  · rw [heq]
  · exact Channel.handles_receive hreceive
  · rw [heq, Channel.close]
  · rw [heq, Channel.discard, Channel.close]

namespace Enqueuer

open Pipeline

def Call.isStop : Call → Bool
  | .stop => true
  | .stopping _ => true
  | .draining .. => true
  | _ => false

namespace Pipeline

variable {ι : Type} {o : Options} {hasHandler : Bool} {now : Nat} {p p' : Pipeline ι} {m : Move}
  {notes : List Note}

theorem Moved.handling (h : Moved o hasHandler now p m p' notes)
    (hp : p.reporter.isHandling = true) (hreturn : m ≠ .handlerReturns)
    (hpanic : ∀ panic, m ≠ .handlerPanics panic) : p'.reporter.isHandling = true := by
  cases h with
  | worked | submitted | sinkPanicked | reported => simpa using hp
  | taken _ hr | logged _ hr | endNoticed hr => simp [hr, Reporter.isHandling] at hp
  | handled => exact absurd rfl hreturn
  | handlerPanicked panic => exact absurd rfl (hpanic panic)
  | _ => exact hp

theorem Change.handling {move : Option Move} {x y : Option (Pipeline Caller)}
    {item : Option Message} {p : Pipeline Caller}
    (h : Change o hasHandler now move x item notes y) (hx : x = some p)
    (hp : p.reporter.isHandling = true) (hreturn : move ≠ some .handlerReturns)
    (hpanic : ∀ panic, move ≠ some (.handlerPanics panic)) :
    ∃ q, y = some q ∧ q.reporter.isHandling = true := by
  induction h with
  | same => exact ⟨p, hx, hp⟩
  | born => cases hx
  | sent =>
    cases hx
    exact ⟨_, rfl, hp⟩
  | moved hm =>
    cases hx
    exact ⟨_, rfl, hm.handling hp (by simpa using hreturn) (by simpa using hpanic)⟩
  | tended _ htended ih =>
    obtain ⟨q, hq, hhandling⟩ := ih hx hreturn hpanic
    cases hq
    cases htended
    exact ⟨_, rfl, hhandling⟩

end Pipeline

/-- As many handles of the intake as before. -/
def Pipeline.SameHandles (p q : Pipeline Caller) : Prop :=
  q.feed.channel.handles = p.feed.channel.handles

namespace System

variable {o : Options} {s s' : System} {a : Action} {out : Outcome} {events : List Event}
  {caller w : Caller} {c : Call} {turns : History} {run i : Nat} {p q : Pipeline Caller} {m : Move}

/-- The enqueuer keeps one handle of the intake at which it takes messages, and none of another. -/
def IntakeHeld (s : System) : Prop :=
  ∀ run p, s.pipelines[run]? = some p →
    p.feed.channel.handles = if s.intake = some run then 1 else 0

namespace IntakeHeld

theorem frame (hs : s.IntakeHeld) (hintake : s'.intake = s.intake)
    (halike : Alike SameHandles s.pipelines s'.pipelines) : s'.IntakeHeld := by
  intro run q hq
  obtain ⟨p, hp, hpq⟩ := halike.exists_left hq
  rw [show q.feed.channel.handles = _ from hpq, hintake]
  exact hs run p hp

theorem modify {f : Pipeline Caller → Pipeline Caller} (hs : s.IntakeHeld)
    (hf : ∀ p, s.pipelines[run]? = some p → SameHandles p (f p)) :
    (s.modifyPipeline run f).IntakeHeld :=
  hs.frame rfl (.of_modify rfl (fun _ => rfl) hf)

theorem setChannel {d : Channel Caller Message} (hs : s.IntakeHeld)
    (hp : s.pipelines[run]? = some p) (hd : d.handles = p.feed.channel.handles) :
    (s.setChannel run d).IntakeHeld := by
  refine hs.modify fun q hq => ?_
  obtain rfl := Option.some.inj (hp.symm.trans hq)
  exact hd

theorem dropIntake (hs : s.IntakeHeld) : s.dropIntake.IntakeHeld := by
  unfold System.dropIntake
  split
  · rename_i i hintake
    intro run q hq
    simp only [modifyPipeline, List.getElem?_modify, Option.map_eq_map,
      Option.map_eq_some_iff] at hq
    obtain ⟨p, hp, rfl⟩ := hq
    have hheld := hs run p hp
    rw [hintake] at hheld
    split
    · rename_i hi
      subst hi
      simp_all [Channel.dropHandle]
    · rename_i hi
      simpa [hi] using hheld
  · exact hs

theorem release (hs : s.IntakeHeld) : s.release.IntakeHeld := by
  unfold System.release dropSlot
  split
  · exact hs
  · split
    · exact hs.dropIntake.modify fun _ _ => rfl
    · exact hs.dropIntake

theorem startRun (hs : s.IntakeHeld) (sink : Nat) : (s.startRun sink).IntakeHeld := by
  intro run q hq
  have hintake : (s.startRun sink).intake = some s.pipelines.length := rfl
  rw [hintake]
  rcases getElem?_concat_eq_some hq with hq | ⟨hrun, rfl⟩
  · have hlt := (List.getElem?_eq_some_iff.mp hq).1
    rw [s.alike_dropIntake.length] at hlt
    have hheld := hs.dropIntake run q hq
    rw [intake_dropIntake] at hheld
    rw [hheld, if_neg (by simp), if_neg (by simpa using Nat.ne_of_gt hlt)]
  · rw [hrun, s.alike_dropIntake.length, if_pos rfl]
    rfl

theorem went (hs : s.IntakeHeld) (h : s.Went caller s' events) : s'.IntakeHeld := by
  cases h with
  | started => exact hs.startRun _
  | startRefused | stopRefused => exact hs
  | stopTaken | stopped => exact hs.modify fun _ _ => rfl
  | workerEnded => exact hs.dropIntake.modify fun _ _ => rfl
  | enqueued _ hp | rejected _ hp => exact hs.setChannel hp rfl

theorem did (hs : s.IntakeHeld) (h : s.Did a s' events) : s'.IntakeHeld := by
  cases h with
  | @atOnce _ caller c _ _ _ _ hwent =>
    have hask : (s.ask caller c).IntakeHeld := hs
    exact hask.went hwent
  | resumed hwent => exact hs.went hwent
  | @enqueued caller m _ p c _ _ _ hp hsend | @enqueueWaits caller m _ p c _ _ _ hp hsend
  | @rejected caller m _ p c _ _ _ hp hsend =>
    have hhandles := Channel.handles_send p.feed.channel caller m
    rw [hsend] at hhandles
    exact hs.setChannel hp hhandles
  | stoppingAborted => exact hs.modify fun _ _ => rfl
  | enqueueAborted =>
    unfold leaveIntake pipeline?
    split
    · exact hs.setChannel ‹_› rfl
    · exact hs
  | moved hp _ hm =>
    refine hs.modify fun q hq => ?_
    obtain rfl := Option.some.inj (hp.symm.trans hq)
    rcases hm.feed with ⟨hfeed, -⟩ | ⟨k, chunk, hfeed, -⟩
    · rw [SameHandles, hfeed]
    · exact hfeed.handles
  | _ => exact hs

end IntakeHeld

theorem intakeHeld_of_run (h : Run step (new o) turns s) : s.IntakeHeld := by
  induction h with
  | nil => simp [IntakeHeld, new]
  | snoc _ hstep ih =>
    obtain ⟨x, hdid, hx⟩ := does_of_step hstep
    have hheld := ih.did hdid
    dsimp only at hx
    rcases hx with rfl | rfl
    · exact hheld
    · exact hheld.release

def LetGo (s : System) : Prop := s.reachable = false → s.intake = none ∧ s.slot = none

theorem letGo_of_reachable (h : s.reachable = true) : s.LetGo := by simp [LetGo, h]

theorem letGo_release (s : System) : s.release.LetGo := by
  intro hnone
  rw [reachable_release] at hnone
  unfold release dropSlot
  simp only [hnone, Bool.false_eq_true, if_false]
  split
  · exact ⟨s.intake_dropIntake, rfl⟩
  · exact ⟨s.intake_dropIntake, ‹_›⟩

theorem letGo_await (s : System) (caller : Caller) (c : Call) : (s.await caller c).LetGo :=
  letGo_of_reachable (by simp [reachable, await])

theorem letGo_runStart (s : System) (caller : Caller) (sink : Nat) :
    (s.runStart caller sink).1.LetGo := by
  unfold runStart
  split
  · split <;> exact letGo_release _
  · exact letGo_release _

theorem letGo_runStop (s : System) (caller : Caller) : (s.runStop caller).1.LetGo := by
  unfold runStop
  split
  · split
    · exact letGo_await _ _ _
    · exact letGo_release _
  · exact letGo_release _

theorem letGo_takeLock {run : System → Outcome} (s : System) (caller : Caller) (c : Call)
    (hrun : ∀ s, (run s).1.LetGo) : (s.takeLock caller c run).1.LetGo := by
  unfold takeLock
  dsimp only
  split
  · exact hrun _
  · exact letGo_await _ _ _

theorem reachable_setChannel (s : System) (run : Nat) (d : Channel Caller Message) :
    (s.setChannel run d).reachable = s.reachable :=
  reachable_eq rfl rfl (.of_modify rfl (fun _ => rfl) fun _ _ => rfl)

/-- Who enqueues can get at the enqueuer, before and after. -/
theorem letGo_enqueue {m : Message} (hcall : s.mayCall caller = true) :
    (s.enqueue caller m).1.LetGo := by
  have hreachable := reachable_of_mayCall hcall
  unfold enqueue
  dsimp only
  split
  · split
    · exact letGo_of_reachable hreachable
    · split
      · exact letGo_of_reachable hreachable
      · split
        · exact letGo_of_reachable ((s.reachable_setChannel _ _).trans hreachable)
        · exact letGo_await _ _ _
        · exact letGo_of_reachable ((s.reachable_setChannel _ _).trans hreachable)
  · exact letGo_of_reachable hreachable

theorem letGo_of_resume (h : s.resume? caller = some out) : out.1.LetGo := by
  unfold resume? at h
  split at h
  · contradiction
  · split at h <;> simp only [Option.some.injEq, reduceCtorEq] at h
    exact h ▸ letGo_runStart _ _ _
  · split at h <;> simp only [Option.some.injEq, reduceCtorEq] at h
    exact h ▸ letGo_runStop _ _
  · split at h <;> simp only [Option.some.injEq, reduceCtorEq] at h
    exact h ▸ letGo_await _ _ _
  · split at h <;> simp only [Option.some.injEq, reduceCtorEq] at h
    subst h
    unfold finishStop
    dsimp only
    split <;> exact letGo_release _
  · unfold resumeEnqueue? at h
    split at h
    · contradiction
    · split at h <;> simp only [Option.some.injEq, reduceCtorEq] at h <;>
        exact h ▸ letGo_release _

theorem letGo_of_step (hs : s.LetGo) (h : s.step a = some out) : out.1.LetGo := by
  cases a with
  | start caller sink =>
    simp only [step, Option.ite_none_right_eq_some, Option.some.injEq] at h
    exact h.2 ▸ letGo_takeLock s caller _ fun s => letGo_runStart s caller sink
  | stop caller =>
    simp only [step, Option.ite_none_right_eq_some, Option.some.injEq] at h
    exact h.2 ▸ letGo_takeLock s caller _ fun s => letGo_runStop s caller
  | enqueue caller m =>
    simp only [step, Option.ite_none_right_eq_some, Option.some.injEq] at h
    exact h.2 ▸ letGo_enqueue h.1
  | abort caller =>
    simp only [step, Option.map_eq_some_iff] at h
    obtain ⟨s', hs', rfl⟩ := h
    unfold abort? at hs'
    split at hs' <;> simp only [Option.some.injEq, reduceCtorEq] at hs' <;>
      exact hs' ▸ letGo_release _
  | addHandle =>
    simp only [step, Option.ite_none_right_eq_some, Option.some.injEq] at h
    exact h.2 ▸ letGo_of_reachable (reachable_of_handles (Nat.succ_pos _))
  | dropHandle =>
    simp only [step, Option.ite_none_right_eq_some, Option.some.injEq] at h
    exact h.2 ▸ letGo_release _
  | resume caller => exact letGo_of_resume h
  | move run m =>
    simp only [step, move?] at h
    split at h
    · contradiction
    · split at h
      · split at h <;> simp only [Option.some.injEq, reduceCtorEq] at h
        exact h ▸ letGo_release _
      · contradiction
  | advance now =>
    simp only [step, Option.map_eq_some_iff] at h
    obtain ⟨s', hs', rfl⟩ := h
    simp only [advance?, Option.ite_none_right_eq_some, Option.some.injEq] at hs'
    exact hs'.2 ▸ hs

theorem letGo_of_run (h : Run step (new o) turns s) : s.LetGo :=
  h.invariant (P := LetGo) (letGo_of_reachable rfl) fun _ _ _ _ => letGo_of_step

/-- A call that goes on was pending, and is the same unless it stops a run. -/
theorem pends_of_went (h : s.Went caller s' events) (hc : (w, c) ∈ s'.calls) :
    ∃ k, (w, k) ∈ s.calls ∧ (k = c ∨ k.isStop = true) := by
  have hold {x : System} (hx : x.calls = s.calls)
      (hmem : (w, c) ∈ x.calls.filter (·.1 != caller)) :
      ∃ k, (w, k) ∈ s.calls ∧ (k = c ∨ k.isStop = true) :=
    ⟨c, hx ▸ (Calls.mem_without.mp hmem).1, .inl rfl⟩
  cases h with
  | started => exact hold s.calls_dropIntake hc
  | startRefused | stopRefused | stopped | enqueued | rejected => exact hold rfl hc
  | stopTaken hcall =>
    rcases Calls.mem_await.mp hc with ⟨hmem, -⟩ | ⟨rfl, -⟩
    · exact ⟨c, hmem, .inl rfl⟩
    · exact ⟨_, Calls.mem_of_lookup hcall, .inr rfl⟩
  | workerEnded hcall =>
    rcases Calls.mem_await.mp hc with ⟨hmem, -⟩ | ⟨rfl, -⟩
    · exact ⟨c, s.calls_dropIntake ▸ hmem, .inl rfl⟩
    · exact ⟨_, Calls.mem_of_lookup hcall, .inr rfl⟩

/-- Who has a pending call had one before, or has just made it. -/
theorem pends_of_did (h : s.Did a s' events) (hc : (w, c) ∈ s'.calls) :
    (∃ k, (w, k) ∈ s.calls ∧ (k = c ∨ k.isStop = true)) ∨
      s.mayCall w = true ∧ (c.isStop = true → a = .stop w) := by
  have hasked {v : Caller} {k : Call} (ha : Asks a v k) (hstop : k.isStop = true) :
      a = .stop v := by
    cases ha with
    | start => cases hstop
    | stop => rfl
  cases h with
  | asked ha hcall =>
    rcases Calls.mem_await.mp hc with ⟨hmem, -⟩ | ⟨rfl, rfl⟩
    · exact .inl ⟨c, hmem, .inl rfl⟩
    · exact .inr ⟨hcall, hasked ha⟩
  | atOnce ha hcall hwent =>
    obtain ⟨k, hmem, hk⟩ := pends_of_went hwent hc
    rcases Calls.mem_await.mp hmem with ⟨hmem, -⟩ | ⟨rfl, rfl⟩
    · exact .inl ⟨k, hmem, hk⟩
    · exact .inr ⟨hcall, fun hstop => hasked ha (hk.elim (fun heq => heq ▸ hstop) id)⟩
  | enqueueWaits hcall =>
    rcases Calls.mem_await.mp hc with ⟨hmem, -⟩ | ⟨rfl, rfl⟩
    · exact .inl ⟨c, hmem, .inl rfl⟩
    · exact .inr ⟨hcall, by simp [Call.isStop]⟩
  | lockAborted | stoppingAborted | drainingAborted =>
    exact .inl ⟨c, (Calls.mem_without.mp hc).1, .inl rfl⟩
  | enqueueAborted =>
    unfold leaveIntake at hc
    split at hc <;> exact .inl ⟨c, (Calls.mem_without.mp hc).1, .inl rfl⟩
  | enqueued | rejected | notRunning | handleAdded | handleDropped | moved | advanced =>
    exact .inl ⟨c, hc, .inl rfl⟩
  | resumed hwent => exact .inl (pends_of_went hwent hc)

theorem pends_of_step (h : s.step a = some out) (hc : (w, c) ∈ out.1.calls) :
    (∃ k, (w, k) ∈ s.calls ∧ (k = c ∨ k.isStop = true)) ∨
      s.mayCall w = true ∧ (c.isStop = true → a = .stop w) := by
  obtain ⟨x, hdid, hx⟩ := does_of_step h
  refine pends_of_did hdid ?_
  rcases hx with hx | hx
  · exact hx ▸ hc
  · rwa [hx, calls_release] at hc

/-- All that a move of a pipeline means to the system. -/
theorem moved_of_move (h : s.move? run m = some out) : ∃ p p' notes,
    s.pipelines[run]? = some p ∧ s.allowed run m = true ∧
      p.Moved s.options (s.options.hasHandler && s.reachable) s.now m p' notes ∧
      out = ((s.modifyPipeline run fun _ => p').release, notes.map (Event.ofNote run)) := by
  unfold move? at h
  split at h
  · contradiction
  · rename_i p hp
    split at h
    · rename_i hallowed
      split at h
      · contradiction
      · rename_i p' notes hstep
        exact ⟨p, p', notes, hp, hallowed, moved_of_step hstep, (Option.some.inj h).symm⟩
    · contradiction

def AtWork (s : System) : Prop := ∀ i c, (.handler i, c) ∈ s.calls →
  ∃ p, s.pipelines[i]? = some p ∧ p.reporter.isHandling = true

theorem atWork_of_step (hs : s.AtWork) (h : s.step a = some out) : out.1.AtWork := by
  intro i c hc
  obtain ⟨p, hp, hhandling⟩ : ∃ p, s.pipelines[i]? = some p ∧ p.reporter.isHandling = true := by
    rcases pends_of_step h hc with ⟨k, hk, -⟩ | ⟨hcall, -⟩
    · exact hs i k hk
    · exact handling_of_mayCall hcall
  -- A handler with a pending call cannot end.
  have hstays {m : Move} (hm : a.move? i = some m) : s.allowed i m = true ∧
      s.handlerCalls i = true := by
    obtain rfl := Action.move?_eq_some.mp hm
    obtain ⟨_, _, _, -, hallowed, -, rfl⟩ := moved_of_move h
    rw [calls_release] at hc
    refine ⟨hallowed, Option.isSome_iff_ne_none.mpr fun hnone => ?_⟩
    exact Calls.not_mem_of_lookup hnone hc
  obtain ⟨item, notes, hchange, -⟩ := effect_of_step h i
  refine hchange.handling hp hhandling ?_ ?_
  · intro hm
    obtain ⟨hallowed, hcalls⟩ := hstays hm
    simp [allowed, hcalls] at hallowed
  · intro panic hm
    obtain ⟨hallowed, hcalls⟩ := hstays hm
    simp [allowed, hcalls] at hallowed

theorem atWork_of_run (h : Run step (new o) turns s) : s.AtWork :=
  h.invariant (P := AtWork) (by simp [AtWork, new]) fun _ _ _ _ => atWork_of_step

/-- When clients have no handle and no pending call, only handlers at work can get at the
enqueuer. -/
theorem reachable_iff_of_run (h : Run step (new o) turns s) (hhandles : s.handles = 0)
    (hcalls : ∀ w c, (w, c) ∈ s.calls → ∃ i, w = .handler i) : s.reachable = true ↔
      ∃ (i : Nat) (p : Pipeline Caller),
        s.pipelines[i]? = some p ∧ p.reporter.isHandling = true := by
  constructor
  · intro hreachable
    simp only [reachable, hhandles, Bool.or_eq_true] at hreachable
    rcases hreachable with (hno | hpending) | hany
    · simp at hno
    · obtain ⟨⟨w, c⟩, hmem⟩ := List.exists_mem_of_ne_nil s.calls (by simpa using hpending)
      obtain ⟨i, rfl⟩ := hcalls w c hmem
      exact ⟨i, atWork_of_run h i c hmem⟩
    · obtain ⟨p, hp, hhandling⟩ := List.any_eq_true.mp hany
      obtain ⟨i, hi⟩ := List.mem_iff_getElem?.mp hp
      exact ⟨i, p, hi, hhandling⟩
  · rintro ⟨i, p, hp, hhandling⟩
    exact reachable_of_reporter hp hhandling

end System

end Enqueuer

end Batchflow
