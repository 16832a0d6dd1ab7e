import Batchflow.Proofs.Enqueuer.Lifecycle
import Batchflow.Proofs.Enqueuer.Validation

/-!
# Setting up a run

A call to start that finds the enqueuer stopped checks the options and then makes, one after the
other, the intake, the failure channel and a chunker of its own, whose worker makes a ticker.  Each
of these steps could fail: a channel without places and a ticker without a period are panics, and
the chunker checks its own options.  All of that is written out here.  With good options there is
nothing left to fail, and with any others nothing is ever made.
-/

namespace Batchflow

variable {ι α : Type}

def Channel.make (capacity handles : Nat) : Except Panic (Channel ι α) :=
  if capacity = 0 then .error (.text "mpsc bounded channel requires buffer > 0")
  else .ok (.ofCapacity capacity handles)

theorem Channel.make_of_pos {capacity handles : Nat} (h : 0 < capacity) :
    (Channel.make capacity handles : Except Panic (Channel ι α)) =
      .ok (.ofCapacity capacity handles) :=
  if_neg (Nat.ne_of_gt h)

/-- The first thing that a worker does is to make its ticker, which needs a period; without one it
panics, and the source goes with it. -/
def Chunker.Feed.launch (o : Chunker.Options) (channel : Channel ι α) (now : Nat) :
    Chunker.Feed ι α :=
  if o.wait.total = 0 then
    { Chunker.Feed.start channel.discard now with
      worker := .panicked (.text "`period` must be non-zero.") }
  else .start channel now

theorem Chunker.Feed.launch_of_pos {o : Chunker.Options} {now : Nat} (h : 0 < o.wait.total)
    (channel : Channel ι α) : Chunker.Feed.launch o channel now = .start channel now :=
  if_neg (Nat.ne_of_gt h)

namespace Enqueuer

open Pipeline

/-- What a run needs is made, one thing after the other. -/
def Pipeline.setUp (o : Options) (sink now : Nat) :
    Except Panic (Except Chunker.Error (Pipeline ι)) :=
  match Channel.make o.bufferSize 1 with
  | .error p => .error p
  | .ok intake =>
    match Channel.make o.failedBufferSize 2 with
    | .error p => .error p
    | .ok failures =>
      match o.chunkerOptions.validate with
      | .error e => .ok (.error (.config e))
      | .ok () =>
        .ok (.ok ({ Pipeline.start o sink now with failures }.setFeed
          (.launch o.chunkerOptions intake now)))

theorem Pipeline.setUp_eq {o : Options} (h : o.InRange) (sink now : Nat) :
    (Pipeline.setUp o sink now : Except Panic (Except Chunker.Error (Pipeline ι))) =
      .ok (.ok (.start o sink now)) := by
  have hbuffer : 0 < o.bufferSize := Nat.lt_of_lt_of_le (by decide) h.buffer.1
  have hperiod : 0 < o.chunkerOptions.wait.total := Nat.lt_of_lt_of_le (by decide) h.wait.1
  simp only [setUp, Channel.make_of_pos hbuffer, Channel.make_of_pos h.failedBuffer.1,
    Options.validate_chunkerOptions h, Chunker.Feed.launch_of_pos hperiod]
  rfl

namespace System

variable {s s' x : System} {a : Action} {events : List Event} {caller : Caller} {sink : Nat}
  {o : Options} {e : ConfigError} {turns : History}

/-- The enqueuer runs with this pipeline from now on; the intake of the run before it is let go. -/
def adopt (s : System) (p : Pipeline Caller) : System :=
  { s.dropIntake with
    state := .running, slot := some s.pipelines.length, intake := some s.pipelines.length
    pipelines := s.dropIntake.pipelines ++ [p] }

theorem startRun_eq (s : System) (sink : Nat) :
    s.startRun sink = s.adopt (.start s.options sink s.now) := by
  rw [← s.options_dropIntake, ← s.now_dropIntake]
  rfl

/-- What a call to start does once it holds the lock, with all that could fail. -/
def runStartStrictly (s : System) (caller : Caller) (sink : Nat) : Except Panic Outcome :=
  match s.state with
  | .stopped =>
    match s.options.validateStrictly with
    | .error p => .error p
    | .ok (.error e) => .ok ((s.unlock caller).reply caller (.started (.error (.config e))))
    | .ok (.ok ()) =>
      match Pipeline.setUp s.options sink s.now with
      | .error p => .error p
      | .ok (.error e) => .ok ((s.unlock caller).reply caller (.started (.error (.chunker e))))
      | .ok (.ok p) =>
        let (s', events) := ((s.adopt p).unlock caller).reply caller (.started (.ok ()))
        .ok (s', .log (.started s.options) :: events)
  | state => .ok ((s.unlock caller).reply caller (.started (.error (.alreadyStarted state))))

theorem runStartStrictly_eq (s : System) (caller : Caller) (sink : Nat) :
    s.runStartStrictly caller sink = .ok (s.runStart caller sink) := by
  unfold runStartStrictly runStart
  cases s.state with
  | draining | running => rfl
  | stopped =>
    dsimp only
    rw [Options.validateStrictly_eq]
    cases hvalid : s.options.validate with
    | error e => rfl
    | ok =>
      dsimp only
      rw [Pipeline.setUp_eq (Options.validate_eq_ok.mp hvalid), startRun_eq]

/-- A call to start has begun a run next to those there were, and the enqueuer lets go of it only if
nobody can get at the enqueuer any more. -/
structure Opens (s : System) (sink : Nat) (s' : System) : Prop where
  state : s'.state = .running
  pipelines : Alike Tended (s.adopt (.start s.options sink s.now)).pipelines s'.pipelines
  held : s'.reachable = true →
    s'.pipelines = s.dropIntake.pipelines ++ [.start s.options sink s.now] ∧
      s'.slot = some s.pipelines.length ∧ s'.intake = some s.pipelines.length

theorem Finds.dropIntake {c : Call} (hx : s.Finds caller c x) :
    x.dropIntake.pipelines = s.dropIntake.pipelines := by
  rcases hx.eq with rfl | ⟨-, rfl⟩
  · rfl
  · unfold System.dropIntake
    cases hintake : s.intake <;> simp [ask, await, hintake, modifyPipeline]

theorem runStart_stopped (hstate : s.state = .stopped) (hvalid : s.options.validate = .ok ()) :
    s.runStart caller sink =
      ((((s.adopt (.start s.options sink s.now)).unlock caller).without caller).release,
        [.log (.started s.options), .replied caller (.started (.ok ()))]) := by
  rw [runStart, hstate]
  dsimp only
  rw [hvalid, startRun_eq]
  rfl

/-- A call to start that gets the lock while the enqueuer is stopped begins a run, whatever the run
before it has left. -/
theorem opens_of_entered (hstate : s.state = .stopped) (hvalid : s.options.validate = .ok ())
    (hentered : s.entered? a = some (caller, .start sink)) :
    ∃ s', s.step a = some (s', [.log (.started s.options), .replied caller (.started (.ok ()))]) ∧
      s.Opens sink s' := by
  obtain ⟨x, hx, hstep⟩ := exists_finds hentered
  let y := ((x.adopt (.start s.options sink s.now)).unlock caller).without caller
  have hy : y.pipelines = (s.adopt (.start s.options sink s.now)).pipelines := by
    show x.dropIntake.pipelines ++ _ = s.dropIntake.pipelines ++ _
    rw [hx.dropIntake]
  refine ⟨y.release, ?_, ?_, ?_, ?_⟩
  · rw [hstep, hx.resume?_start, runStart_stopped (hx.state.trans hstate) (hx.options ▸ hvalid),
      hx.options, hx.now]
  · exact y.state_release
  · rw [← hy]
    exact y.tended_release
  · intro hreachable
    rw [reachable_release] at hreachable
    rw [System.release, if_pos hreachable, ← hx.pipelines]
    exact ⟨hy, rfl, rfl⟩

theorem alreadyStarted_of_replied {t : Turn System Action Event} {e : Error}
    (h : Run step (new o) turns s) (hvalid : o.validate = .ok ()) (ht : t ∈ turns)
    (hreply : .replied caller (.started (.error e)) ∈ t.events) :
    t.before.state ≠ .stopped ∧ e = .alreadyStarted t.before.state := by
  obtain ⟨before, -, s₁, -, hbefore, hstep, -⟩ := h.split ht
  obtain ⟨sink, hentered⟩ := entered_of_started (wellFormed_of_run hbefore) hstep hreply
  have hstarted : t.before.state ≠ .stopped := by
    intro hstate
    obtain ⟨s₂, hopened, -⟩ :=
      opens_of_entered hstate (options_of_run hbefore ▸ hvalid) hentered
    obtain ⟨-, hevents⟩ := Prod.mk.inj (Option.some.inj (hstep.symm.trans hopened))
    simp [hevents] at hreply
  obtain ⟨x, hx, hgoes⟩ := exists_finds hentered
  rw [hgoes, hx.resume?_start, runStart, hx.state] at hstep
  cases hstate : t.before.state with
  | stopped => exact absurd hstate hstarted
  | draining | running =>
    rw [hstate] at hstep
    obtain ⟨-, hevents⟩ := Prod.mk.inj (Option.some.inj hstep)
    rw [← hevents] at hreply
    simp only [List.mem_singleton, Event.replied.injEq, Reply.started.injEq, Except.error.injEq]
      at hreply
    exact ⟨by simp, hreply.2⟩

/-- The enqueuer is stopped and nothing was ever made. -/
structure Untried (s : System) : Prop where
  state : s.state = .stopped
  pipelines : s.pipelines = []
  slot : s.slot = none
  intake : s.intake = none

theorem refused_of_entered (hstate : s.state = .stopped) (hvalid : s.options.validate = .error e)
    (hentered : s.entered? a = some (caller, .start sink)) :
    ∃ s', s.step a = some (s', [.replied caller (.started (.error (.config e)))]) ∧
      s.Untouched s' := by
  obtain ⟨x, hx, hstep⟩ := exists_finds hentered
  refine ⟨_, ?_, hx.untouched⟩
  rw [hstep, hx.resume?_start, runStart_invalid (hx.state.trans hstate) (hx.options ▸ hvalid)]

/-- No call to start gets any further than the check of the options. -/
theorem untried_of_run (h : Run step (new o) turns s) (hvalid : o.validate = .error e) :
    s.Untried := by
  have hidle : s.Idle := by
    induction h with
    | nil => exact ⟨rfl, rfl⟩
    | @snoc turns s₁ s₂ a events hrun hstep ih =>
      refine idle_of_run ih (.of_step hstep) fun t ht w hreply => ?_
      obtain rfl := List.mem_singleton.mp ht
      obtain ⟨sink, hentered⟩ := entered_of_started (wellFormed_of_run hrun) hstep hreply
      obtain ⟨s₃, hrefused, -⟩ :=
        refused_of_entered ih.state (options_of_run hrun ▸ hvalid) hentered
      obtain ⟨-, hevents⟩ := Prod.mk.inj (Option.some.inj (hstep.symm.trans hrefused))
      simp [hevents] at hreply
  refine ⟨hidle.state, ?_, ?_, hidle.intake⟩
  · refine List.eq_nil_iff_forall_not_mem.mpr fun p hp => ?_
    obtain ⟨run, hrun⟩ := List.mem_iff_getElem?.mp hp
    rw [validate_of_run h hrun] at hvalid
    contradiction
  · refine Option.eq_none_iff_forall_ne_some.mpr fun run hslot => ?_
    have hrunning := ((wellFormed_of_run h).slot hslot).1
    rw [hidle.state] at hrunning
    contradiction

/-- Good options are those in their ranges, and they make every start of a stopped enqueuer succeed:
nothing that a run needs can fail to be made. -/
structure Startable (o : Options) : Prop where
  chunker : o.chunkerOptions.validate = .ok ()
  setUp : ∀ sink now, (Pipeline.setUp o sink now : Except Panic (Except Chunker.Error
    (Pipeline Caller))) = .ok (.ok (.start o sink now))
  opens : ∀ {turns s a caller sink}, Run step (new o) turns s → s.state = .stopped →
    s.entered? a = some (caller, .start sink) →
    ∃ s', s.step a = some (s', [.log (.started o), .replied caller (.started (.ok ()))]) ∧
      s.Opens sink s'
  never_fails : ∀ {turns s t caller e}, Run step (new o) turns s → t ∈ turns →
    .replied caller (.started (.error e)) ∈ t.events →
    t.before.state ≠ .stopped ∧ e = .alreadyStarted t.before.state

/-- Options with a fault make every start fail, and nothing is ever made. -/
structure Unstartable (o : Options) (e : ConfigError) : Prop where
  refused : ∀ {turns s a caller sink}, Run step (new o) turns s →
    s.entered? a = some (caller, .start sink) →
    ∃ s', s.step a = some (s', [.replied caller (.started (.error (.config e)))]) ∧ s'.Untried
  untried : ∀ {turns s}, Run step (new o) turns s → s.Untried

theorem startable_of_validate (hvalid : o.validate = .ok ()) : Startable o where
  chunker := Options.validate_chunkerOptions (Options.validate_eq_ok.mp hvalid)
  setUp := Pipeline.setUp_eq (Options.validate_eq_ok.mp hvalid)
  opens h hstate hentered := by
    have hoptions := options_of_run h
    rw [← hoptions]
    exact opens_of_entered hstate (hoptions ▸ hvalid) hentered
  never_fails h ht hreply := alreadyStarted_of_replied h hvalid ht hreply

theorem unstartable_of_validate (hvalid : o.validate = .error e) : Unstartable o e where
  refused h hentered := by
    obtain ⟨s', hstep, -⟩ :=
      refused_of_entered (untried_of_run h hvalid).state (options_of_run h ▸ hvalid) hentered
    exact ⟨s', hstep, untried_of_run (h.snoc hstep) hvalid⟩
  untried h := untried_of_run h hvalid

/-- The check of the options never takes a difference below zero.  It passes just the options that
are in their ranges, and then a start of a stopped enqueuer cannot fail; of any others it reports
the first fault, and then nothing is ever started.  A start that is written out with everything
that could fail does the same. -/
theorem validated_start_safe (o : Options) :
    o.validateStrictly = .ok o.validate ∧
      (o.validate = .ok () ↔ o.InRange) ∧ (∀ e, o.validate = .error e ↔ o.FirstFault e) ∧
      (o.validate = .ok () → Startable o) ∧ (∀ e, o.validate = .error e → Unstartable o e) ∧
      ∀ s caller sink, runStartStrictly s caller sink = .ok (s.runStart caller sink) :=
  ⟨o.validateStrictly_eq, Options.validate_eq_ok, fun _ => Options.validate_eq_error,
    startable_of_validate, fun _ => unstartable_of_validate, runStartStrictly_eq⟩

theorem validated_start_safe_noBuffer :
    (∃ s', (new {}).step (.start (.client 0) 7) =
        some (s', [.log (.started {}), .replied (.client 0) (.started (.ok ()))]) ∧
      (new {}).Opens 7 s') ∧
    ∃ s', (new { bufferSize := 0 }).step (.start (.client 0) 7) =
        some (s', [.replied (.client 0) (.started (.error (.config
          (.outOfRange "BufferSize" "0" "2" "1024"))))]) ∧ s'.Untried := by
  obtain ⟨-, hranges, -, hgood, -, -⟩ := validated_start_safe {}
  obtain ⟨-, -, hfaults, -, hbad, -⟩ := validated_start_safe { bufferSize := 0 }
  have hstartable := hgood (hranges.mpr ⟨by decide, by decide, by decide, by decide⟩)
  have hfault := (hfaults _).mpr (.buffer (by decide))
  exact ⟨hstartable.opens .nil rfl rfl, (hbad _ hfault).refused .nil rfl⟩

end System

end Enqueuer

end Batchflow
