import Batchflow.Proofs.Enqueuer.Change

/-!
# The history of a run

What the intake of a run has taken and what its sink was called with is read off the turns so far.
The batches of a run, what its worker has in hand and what is in its intake make up, in this order,
all that the intake took.
-/

namespace Batchflow.Enqueuer

open Pipeline

/-- What has happened to an enqueuer so far. -/
abbrev History := List (Turn System Action Event)

/-- The messages that the intake of a run took, in order. -/
def taken (run : Nat) (turns : History) : List Message :=
  turns.flatMap fun t => t.events.filterMap (Event.took? run)

/-- The batches that the sink of a run was called with, in order. -/
def batches (run : Nat) (turns : History) : List (List Message) :=
  turns.flatMap fun t => t.events.filterMap (Event.batch? run)

def SinkReturned (run : Nat) (turns : History) : Prop :=
  ∀ t ∈ turns, ∀ panic, t.action ≠ .move run (.sinkPanics panic)

theorem taken_append (run : Nat) (turns later : History) :
    taken run (turns ++ later) = taken run turns ++ taken run later :=
  List.flatMap_append

theorem batches_append (run : Nat) (turns later : History) :
    batches run (turns ++ later) = batches run turns ++ batches run later :=
  List.flatMap_append

theorem Options.batchSize_pos {o : Options} (h : o.validate = .ok ()) : 0 < o.batchSize := by
  unfold validate at h
  split at h
  · contradiction
  · split at h
    · contradiction
    · rename_i hbatch
      unfold Config.checkNumber at hbatch
      split_ifs at hbatch with hrange
      omega

namespace Pipeline

variable {o : Options} {hasHandler : Bool} {now : Nat} {move : Option Move}
  {x y : Option (Pipeline Caller)} {item : Option Message} {notes : List Note}

/-- The worker of a pipeline and its intake agree. -/
def Sound (o : Options) (x : Option (Pipeline Caller)) : Prop :=
  ∀ p ∈ x, p.feed.Sound o.chunkerOptions ∧ p.Engaged

theorem Change.sound (h : Change o hasHandler now move x item notes y) (hx : Sound o x) :
    Sound o y := by
  induction h with
  | same => exact hx
  | born sink hvalid =>
    rintro p ⟨⟩
    exact ⟨Chunker.Feed.Sound.start (Options.batchSize_pos hvalid) rfl now, by simp [Engaged,
      Pipeline.start, Chunker.Feed.start, Chunker.Worker.isHandling]⟩
  | @sent p taken c hsent =>
    rintro q ⟨⟩
    obtain ⟨hfeed, hengaged⟩ := hx p rfl
    exact ⟨hfeed.sent hsent, hengaged⟩
  | @moved p p' m notes hm =>
    rintro q ⟨⟩
    obtain ⟨hfeed, hengaged⟩ := hx p rfl
    refine ⟨?_, hengaged.moved hm⟩
    rcases hm.feed with ⟨hsame, -⟩ | ⟨k, chunk, hmoved, -⟩
    · rwa [hsame]
    · exact hfeed.moved hmoved
  | @tended _ x taken notes p q _ htended ih =>
    rintro r ⟨⟩
    obtain ⟨hfeed, hengaged⟩ := ih hx p rfl
    cases htended
    exact ⟨⟨hfeed.size_pos, hfeed.settled, hfeed.batch_lt, hfeed.closed_eq,
      fun h => ⟨(hfeed.spent h).closed, (hfeed.spent h).buffer, (hfeed.spent h).held⟩⟩, hengaged⟩

/-- The batches submitted, what is in hand and the intake make up what was taken. -/
def Accounts (items : List Message) (batches : List (List Message)) :
    Option (Pipeline Caller) → Prop
  | none => items = [] ∧ batches = []
  | some p => items = batches.flatten ++ p.feed.kept ∧ ∀ panic, p.feed.worker ≠ .panicked panic

theorem Change.accounts {items : List Message} {batches : List (List Message)}
    (h : Change o hasHandler now move x item notes y) (hx : Accounts items batches x)
    (hmove : ∀ panic, move ≠ some (.sinkPanics panic)) :
    Accounts (items ++ item.toList) (batches ++ notes.filterMap Note.batch?) y := by
  induction h with
  | same => simpa using hx
  | born =>
    obtain ⟨rfl, rfl⟩ := hx
    exact ⟨rfl, by simp [Pipeline.start, Chunker.Feed.start]⟩
  | @sent p taken c hsent =>
    refine ⟨?_, hx.2⟩
    have hbuffer := hsent.buffer
    rw [hx.1, Chunker.Feed.kept, Chunker.Feed.kept, hbuffer]
    simp
  | @moved p p' m notes hm =>
    obtain ⟨hitems, hworker⟩ := hx
    rcases hm.feed with ⟨hsame, hnone⟩ | ⟨k, chunk, hmoved, hbatch, hpanic⟩
    · rw [hnone]
      refine ⟨?_, hsame ▸ hworker⟩
      rw [hsame, hitems]
      simp
    · have hk : ∀ panic, k ≠ .handlerPanics panic := fun panic hk =>
        hmove panic (congrArg some (hpanic panic hk))
      refine ⟨?_, hmoved.not_panicked hk hworker⟩
      rw [hitems, hmoved.kept_eq hk, hbatch]
      simp
  | tended _ htended ih =>
    have hp := ih hx hmove
    cases htended
    exact hp

/-- A worker that has ended stays as it is. -/
theorem Change.outcome {w : Except Panic Unit} {p : Pipeline Caller}
    (h : Change o hasHandler now move x item notes y) (hx : x = some p)
    (hw : p.feed.worker.outcome? = some w) :
    ∃ q, y = some q ∧ q.feed.worker.outcome? = some w := by
  induction h with
  | same => exact ⟨p, hx, hw⟩
  | born => cases hx
  | sent => cases hx; exact ⟨_, rfl, hw⟩
  | moved hm => cases hx; exact ⟨_, rfl, hm.outcome hw⟩
  | tended _ htended ih =>
    obtain ⟨q, hq, hw'⟩ := ih hx
    cases hq
    cases htended
    exact ⟨_, rfl, hw'⟩

end Pipeline

namespace System

variable {o : Options} {s s' : System} {a : Action} {out : Outcome} {events : List Event}
  {caller : Caller} {turns : History} {run : Nat}

@[simp] theorem options_dropSlot (s : System) : s.dropSlot.options = s.options := by
  unfold dropSlot
  split <;> rfl

@[simp] theorem options_release (s : System) : s.release.options = s.options := by
  unfold release
  split <;> simp

theorem options_of_went (h : s.Went caller s' events) : s'.options = s.options := by
  cases h with
  | started | workerEnded => exact s.options_dropIntake
  | _ => rfl

theorem options_of_did (h : s.Did a s' events) : s'.options = s.options := by
  cases h with
  | atOnce _ _ hwent => exact (options_of_went hwent).trans rfl
  | resumed hwent => exact options_of_went hwent
  | enqueueAborted =>
    unfold leaveIntake
    split <;> rfl
  | _ => rfl

theorem options_of_step (h : s.step a = some out) : out.1.options = s.options := by
  obtain ⟨x, hdid, hout | hout⟩ := does_of_step h
  · rw [hout, options_of_did hdid]
  · rw [hout, options_release, options_of_did hdid]

theorem options_of_run (h : Run step (new o) turns s) : s.options = o :=
  h.invariant (P := fun s => s.options = o) rfl fun _ _ _ _ hs hstep =>
    (options_of_step hstep).trans hs

theorem sound_of_run (h : Run step (new o) turns s) (run : Nat) :
    Pipeline.Sound o s.pipelines[run]? := by
  induction h with
  | nil => simp [Pipeline.Sound, new]
  | snoc hrun hstep ih =>
    obtain ⟨item, notes, hchange, -⟩ := effect_of_step hstep run
    rw [options_of_run hrun] at hchange
    exact hchange.sound ih

theorem accounts_of_run (h : Run step (new o) turns s) (hp : SinkReturned run turns) :
    Pipeline.Accounts (taken run turns) (batches run turns) s.pipelines[run]? := by
  induction h with
  | nil => exact ⟨rfl, rfl⟩
  | @snoc turns s₁ s₂ a events hrun hstep ih =>
    obtain ⟨item, notes, hchange, htook, hbatch, -⟩ := effect_of_step hstep run
    have haccounts := hchange.accounts (ih fun t ht => hp t (by simp [ht]))
      fun panic hmove => hp ⟨s₁, a, events⟩ (by simp) panic (Action.move?_eq_some.mp hmove)
    rw [taken_append, batches_append]
    simpa [taken, batches, htook, hbatch] using haccounts

theorem outcome_of_run {w : Except Panic Unit} {p : Pipeline Caller} (h : Run step s turns s')
    (hp : s.pipelines[run]? = some p) (hw : p.feed.worker.outcome? = some w) :
    ∃ q, s'.pipelines[run]? = some q ∧ q.feed.worker.outcome? = some w := by
  refine h.invariant (P := fun s' => ∃ q, s'.pipelines[run]? = some q ∧
    q.feed.worker.outcome? = some w) ⟨p, hp, hw⟩ ?_
  rintro s₁ a s₂ events ⟨q, hq, hw⟩ hstep
  obtain ⟨item, notes, hchange, -⟩ := effect_of_step hstep run
  exact hchange.outcome hq hw

end System

end Batchflow.Enqueuer
