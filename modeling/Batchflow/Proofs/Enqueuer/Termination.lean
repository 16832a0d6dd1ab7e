import Batchflow.Proofs.Enqueuer.Progress
import Mathlib.Order.WellFounded

/-!
# A call that stops a run comes to its end

Two numbers go down while a run winds down.  The sink is still to answer at most once for each
message that waits for a place, is in the intake or is in the batch, and once for the batch that it
was called with.  And before the next answer only so many steps are left: to take the messages and
the ticks that are there, to leave the loops of the worker, to report the failures of a batch and to
handle those in the failure channel.  An answer with `n` failures costs one of the first and adds
`4 * n + 1` to the second.  So no winding down goes on for ever, whatever the sink answers, and with
`width` failures for a batch at most, one natural number falls with every step.
-/

namespace Batchflow

def Ticker.ticksLeft (t : Ticker) (now : Nat) : Nat := now + 1 - t.next

theorem Ticker.ticksLeft_tick {t : Ticker} {period now : Nat} (hperiod : 0 < period)
    (hdue : t.isDue now = true) : (t.tick period now).ticksLeft now < t.ticksLeft now := by
  have hdue : Instant.tick t.next ≤ now := by simpa [isDue] using hdue
  have hnext := (Instant.le_tick t.next).trans hdue
  unfold tick
  split <;> simp only [ticksLeft] <;> omega

theorem Ticker.ticksLeft_reset {period : Nat} (hperiod : 0 < period) (now : Nat) :
    (Ticker.reset period now).ticksLeft now = 0 := by
  simp only [reset, ticksLeft]
  omega

namespace Chunker

variable {ι α : Type} {o : Options} {now : Nat} {m : Move} {chunk : Option (List α)}

def Worker.loopsLeft : Worker α → Nat
  | .collecting _ => 3
  | .handling _ .collect => 3
  | .draining _ => 2
  | .handling _ .drain => 2
  | .handling _ .finish => 1
  | _ => 0

namespace Feed

variable {f f' : Feed ι α}

/-- The steps of a worker before its next chunk is handled, at most. -/
def stepsLeft (f : Feed ι α) (now : Nat) : Nat :=
  f.channel.buffer.length + f.ticker.ticksLeft now + f.worker.loopsLeft

theorem ticksLeft_tickerAfter (hperiod : 0 < o.wait.total) (f : Feed ι α) (batch : List α) :
    (f.tickerAfter o now batch).ticksLeft now ≤ f.ticker.ticksLeft now := by
  unfold tickerAfter
  split
  · rw [Ticker.ticksLeft_reset hperiod]
    exact Nat.zero_le _
  · exact Nat.le_refl _

/-- Each move of a worker is one step less, except the return of its handler. -/
theorem Moved.stepsLeft (h : f.Moved o now m f' chunk) (hperiod : 0 < o.wait.total) :
    f'.stepsLeft now + (if m = .handlerReturns then 0 else 1) ≤ f.stepsLeft now := by
  have hticker (batch : List α) :
      (f.tickerAfter o now batch).ticksLeft now ≤ f.ticker.ticksLeft now :=
    f.ticksLeft_tickerAfter hperiod batch
  cases h with
  | stopNoticed hw | endNoticed hw =>
    simp [Feed.stepsLeft, Channel.close, hw, Worker.loopsLeft]
  | tickSwallowed hw hdue | aged hw hdue =>
    have := Ticker.ticksLeft_tick hperiod hdue
    simp only [Feed.stepsLeft, hw, Worker.loopsLeft, reduceCtorEq, if_false]
    omega
  | @collected batch _ _ hw hr | @filled batch _ _ hw hr =>
    have := hticker batch
    simp only [Feed.stepsLeft, hw, Worker.loopsLeft, (Channel.receive?_eq_some hr).1,
      List.length_cons, reduceCtorEq, if_false]
    omega
  | drained hw hr | drainFilled hw hr =>
    simp only [Feed.stepsLeft, hw, Worker.loopsLeft, (Channel.receive?_eq_some hr).1,
      List.length_cons, reduceCtorEq, if_false]
    omega
  | finished hw | flushed hw =>
    simp [Feed.stepsLeft, hw, Worker.loopsLeft]
  | @handled _ resume hw =>
    cases resume <;> simp [Feed.stepsLeft, hw, Worker.loopsLeft, Resume.worker]
  | @panicked _ resume panic hw =>
    cases resume <;>
      simp only [Feed.stepsLeft, hw, Worker.loopsLeft, Channel.discard, List.length_nil,
        reduceCtorEq, if_false] <;>
      omega

end Feed

end Chunker

namespace Enqueuer

open Pipeline

theorem Options.maxWait_pos {o : Options} (h : o.validate = .ok ()) : 0 < o.maxWait.total := by
  have hcheck := (checks_of_validate h).2
  unfold Config.checkDuration at hcheck
  split_ifs at hcheck with hrange
  have hmin : 0 < minWait.total := by decide
  omega

/-- The sink has been called and not answered. -/
def Submission.asked : Submission → Nat
  | .submitting => 1
  | _ => 0

/-- The steps in which the worker reports, with two more for each failure on its way through the
failure channel. -/
def Submission.stepsLeft : Submission → Nat
  | .reporting rest => 4 * rest.length + 1
  | .blocked _ rest => 4 * rest.length + 4
  | _ => 0

def Reporter.stepsLeft : Reporter → Nat
  | .waiting => 1
  | .handling _ => 2
  | _ => 0

def Call.stepsLeft : Call → Nat
  | .enqueue .. => 2
  | .stopping _ => 2
  | .draining .. => 1
  | _ => 0

def Move.fanOut (m : Move) : Nat := (m.answer?.map (·.failures.length)).getD 0

def Action.fanOut : Action → Nat
  | .move _ m => m.fanOut
  | _ => 0

/-- What a step does to the answers and steps that are left: there are fewer steps and not more
answers, or fewer answers after one with so many failures. -/
def Falls (n : Nat) (before after : Nat × Nat) : Prop :=
  after.1 ≤ before.1 ∧ after.2 < before.2 ∨
    after.1 < before.1 ∧ after.2 ≤ before.2 + (4 * n + 1)

namespace Falls

variable {n width : Nat} {before after : Nat × Nat}

theorem lex (h : Falls n before after) : Prod.Lex (· < ·) (· < ·) after before := by
  obtain ⟨a, b⟩ := before
  obtain ⟨c, d⟩ := after
  rw [Prod.lex_def]
  rcases h with ⟨hle, hlt⟩ | ⟨hlt, -⟩
  · exact (Nat.lt_or_eq_of_le hle).imp id fun heq => ⟨heq, hlt⟩
  · exact .inl hlt

theorem weight (h : Falls n before after) (hn : n ≤ width) :
    after.1 * (4 * width + 2) + after.2 < before.1 * (4 * width + 2) + before.2 := by
  rcases h with ⟨hle, hlt⟩ | ⟨hlt, hle⟩
  · have := Nat.mul_le_mul_right (4 * width + 2) hle
    omega
  · have := Nat.mul_le_mul_right (4 * width + 2) (Nat.succ_le_of_lt hlt)
    rw [Nat.succ_mul] at this
    omega

theorem add (h : Falls n before after) (x y : Nat) :
    Falls n (x + before.1, y + before.2) (x + after.1, y + after.2) := by
  rcases h with ⟨hle, hlt⟩ | ⟨hlt, hle⟩
  · exact .inl ⟨by dsimp only; omega, by dsimp only; omega⟩
  · exact .inr ⟨by dsimp only; omega, by dsimp only; omega⟩

end Falls

namespace Pipeline

variable {ι : Type} {o : Options} {hasHandler : Bool} {now : Nat} {p p' q : Pipeline ι} {m : Move}
  {notes : List Note}

/-- The answers of the sink that are still to come, at most. -/
def answersLeft (p : Pipeline ι) : Nat := p.feed.kept.length + p.submission.asked

/-- The steps of the worker and the reporter before the next answer of the sink, at most. -/
def stepsLeft (now : Nat) (p : Pipeline ι) : Nat :=
  p.feed.stepsLeft now + p.submission.stepsLeft + 2 * p.failures.buffer.length +
    p.reporter.stepsLeft

def rank (now : Nat) (p : Pipeline ι) : Nat × Nat := (p.answersLeft, p.stepsLeft now)

theorem Tended.rank (h : p.Tended q) : q.rank now = p.rank now := by
  cases h
  rfl

/-- The worker makes a batch of what it has, or goes on without one. -/
theorem falls_of_own {k : Chunker.Move} {feed : Chunker.Feed ι Message}
    {chunk : Option (List Message)} (hsound : p.feed.Sound o.chunkerOptions)
    (hperiod : 0 < o.maxWait.total) (hown : isOwn k = true)
    (h : p.feed.Moved o.chunkerOptions now k feed chunk) :
    feed.kept.length + chunk.isSome.toNat ≤ p.feed.kept.length ∧
      feed.stepsLeft now < p.feed.stepsLeft now := by
  have hpanic : ∀ panic, k ≠ .handlerPanics panic := by
    rintro panic rfl
    cases hown
  have hkept := congrArg List.length (h.kept_eq hpanic)
  have hsteps := h.stepsLeft hperiod
  constructor
  · cases chunk with
    | none => simpa using Nat.le_of_eq hkept.symm
    | some batch =>
      have hbatch := (h.length_chunk hsound batch rfl).1
      simp only [Option.toList_some, List.flatten_singleton, List.length_append] at hkept
      simp only [Option.isSome_some, Bool.toNat_true]
      omega
  · have hreturn : k ≠ .handlerReturns := by
      rintro rfl
      cases hown
    rw [if_neg hreturn] at hsteps
    omega

/-- Every move brings a pipeline nearer to its end. -/
theorem Moved.falls (h : Moved o hasHandler now p m p' notes)
    (hsound : p.feed.Sound o.chunkerOptions) (hengaged : p.Engaged)
    (hperiod : 0 < o.maxWait.total) : Falls m.fanOut (p.rank now) (p'.rank now) := by
  cases h with
  | worked hown hfeed =>
    obtain ⟨hkept, hsteps⟩ := falls_of_own hsound hperiod hown hfeed
    refine .inl ⟨?_, ?_⟩ <;> simp_all [rank, answersLeft, stepsLeft]
  | submitted hown hfeed =>
    obtain ⟨hkept, hsteps⟩ := falls_of_own hsound hperiod hown hfeed
    have hidle := hengaged.mpr (isHandling_of_own hfeed hown).1
    refine .inl ⟨?_, ?_⟩ <;>
      simp_all [rank, answersLeft, stepsLeft, Submission.asked, Submission.stepsLeft]
  | answered batch result hs =>
    refine .inr ⟨?_, ?_⟩
    · simp [rank, answersLeft, hs, Submission.asked]
    · simp only [rank, stepsLeft, hs, Submission.stepsLeft, Move.fanOut, Move.answer?,
        Option.map_some, Option.getD_some, Answer.failures]
      omega
  | @sinkPanicked feed panic hs hfeed =>
    have hsteps := hfeed.stepsLeft hperiod
    have hkept : feed.kept = [] := by
      cases hfeed
      rfl
    refine .inl ⟨?_, ?_⟩
    · simp [rank, answersLeft, hkept, Submission.asked]
    · simp only [rank, stepsLeft, feed_setFeed, buffer_setFeed, reporter_setFeed, hs,
        Submission.stepsLeft]
      rw [if_neg (by simp)] at hsteps
      omega
  | reported hs hfeed =>
    have hsteps := hfeed.stepsLeft hperiod
    have hkept := hfeed.kept_eq (by simp)
    rw [if_pos rfl, Nat.add_zero] at hsteps
    refine .inl ⟨?_, ?_⟩
    · simp [rank, answersLeft, hs, hkept, Submission.asked]
    · simp only [rank, stepsLeft, feed_setFeed, buffer_setFeed, reporter_setFeed, hs,
        Submission.stepsLeft]
      omega
  | queued hs hsend =>
    obtain ⟨-, free, -, rfl⟩ := Channel.send_eq_accepted hsend
    refine .inl ⟨Nat.le_of_eq (by simp [rank, answersLeft, hs, Submission.asked]), ?_⟩
    simp only [rank, stepsLeft, hs, Submission.stepsLeft, List.length_append, List.length_cons,
      List.length_nil]
    omega
  | blocked hs hsend =>
    obtain ⟨-, -, rfl⟩ := Channel.send_eq_waiting hsend
    refine .inl ⟨Nat.le_of_eq (by simp [rank, answersLeft, hs, Submission.asked]), ?_⟩
    simp only [rank, stepsLeft, hs, Submission.stepsLeft, List.length_cons]
    omega
  | unheard hs hsend =>
    obtain rfl := Channel.eq_of_send_refused hsend
    refine .inl ⟨Nat.le_of_eq (by simp [rank, answersLeft, hs, Submission.asked]), ?_⟩
    simp only [rank, stepsLeft, hs, Submission.stepsLeft, List.length_cons]
    omega
  | unblocked hs =>
    refine .inl ⟨Nat.le_of_eq (by simp [rank, answersLeft, hs, Submission.asked]), ?_⟩
    simp only [rank, stepsLeft, hs, Submission.stepsLeft, Channel.fill, List.length_append,
      List.length_cons, List.length_nil]
    omega
  | cutOff hs =>
    refine .inl ⟨Nat.le_of_eq (by simp [rank, answersLeft, hs, Submission.asked]), ?_⟩
    simp only [rank, stepsLeft, hs, Submission.stepsLeft, Channel.leave]
    omega
  | taken _ hr hreceive | logged _ hr hreceive =>
    refine .inl ⟨Nat.le_refl _, ?_⟩
    simp only [rank, stepsLeft, hr, Reporter.stepsLeft, (Channel.receive?_eq_some hreceive).1,
      List.length_cons]
    omega
  | endNoticed hr | handled hr =>
    refine .inl ⟨Nat.le_refl _, ?_⟩
    simp only [rank, stepsLeft, hr, Reporter.stepsLeft]
    omega
  | handlerPanicked panic hr =>
    refine .inl ⟨Nat.le_refl _, ?_⟩
    simp only [rank, stepsLeft, hr, Reporter.stepsLeft, Channel.discard, List.length_nil]
    omega

end Pipeline

namespace System

variable {o : Options} {s s' x : System} {a : Action} {events : List Event}
  {caller w : Caller} {c : Call} {turns later : History} {run i : Nat}
  {p : Pipeline Caller}

def pipelineRank (s : System) (run : Nat) : Nat × Nat :=
  (s.pipelines[run]?.map (Pipeline.rank s.now)).getD (0, 0)

def callSteps (s : System) : Nat := (s.calls.map (·.2.stepsLeft)).sum

/-- What is left to do until a run is over: answers of the sink, and steps before the next one. -/
def rank (s : System) (run : Nat) : Nat × Nat :=
  (s.waiting.length + (s.pipelineRank run).1, s.callSteps + (s.pipelineRank run).2)

def weight (s : System) (run width : Nat) : Nat :=
  (s.rank run).1 * (4 * width + 2) + (s.rank run).2

theorem wellFounded_rank (run : Nat) : WellFounded fun s' s : System =>
    Prod.Lex (· < ·) (· < ·) (s'.rank run) (s.rank run) :=
  InvImage.wf (fun s : System => s.rank run) (wellFounded_lt.prod_lex wellFounded_lt)

@[simp] theorem now_dropSlot (s : System) : s.dropSlot.now = s.now := by
  unfold dropSlot
  split <;> rfl

@[simp] theorem now_release (s : System) : s.release.now = s.now := by
  unfold release
  split <;> simp

theorem pipelineRank_of_some (hp : s.pipelines[run]? = some p) :
    s.pipelineRank run = p.rank s.now := by
  simp [pipelineRank, hp]

/-- Handles and orders are not counted. -/
theorem pipelineRank_tended (h : Alike Tended s.pipelines s'.pipelines) (hnow : s'.now = s.now)
    (run : Nat) : s'.pipelineRank run = s.pipelineRank run := by
  cases hq : s'.pipelines[run]? with
  | some q =>
    obtain ⟨p, hp, hpq⟩ := h.exists_left hq
    rw [pipelineRank_of_some hp, pipelineRank_of_some hq, hnow, hpq.rank]
  | none =>
    cases hp : s.pipelines[run]? with
    | some p =>
      obtain ⟨q, hq', -⟩ := h.exists_right hp
      rw [hq] at hq'
      cases hq'
    | none => simp [pipelineRank, hp, hq]

theorem rank_release (s : System) (run : Nat) : s.release.rank run = s.rank run := by
  rw [rank, rank, pipelineRank_tended s.tended_release s.now_release, callSteps, callSteps,
    calls_release, waiting_eq (calls_release s)]

theorem callSteps_without (hw : s.WellFormed) (h : s.call? caller = some c) :
    s.callSteps = c.stepsLeft + (s.without caller).callSteps := by
  have hperm := (Calls.perm_without hw.guarded.keys (Calls.mem_of_lookup h)).map (·.2.stepsLeft)
  exact hperm.sum_eq

theorem length_waiting_without (hw : s.WellFormed) (h : s.call? caller = some c) :
    s.waiting.length = c.message?.toList.length + (s.without caller).waiting.length := by
  rw [(waiting_without hw h).length_eq, List.length_append]

/-- A call that leaves an intake has brought one message, or none. -/
theorem falls_of_served {m : Message} {item : Option Message} {d : Channel Caller Message}
    (hw : s.WellFormed) (hcall : s.call? caller = some (.enqueue i m))
    (hp : s.pipelines[i]? = some p) (hsent : p.feed.channel.Sent item d) (run : Nat) :
    Falls 0 (s.rank run) (((s.setChannel i d).without caller).rank run) := by
  have hitem : item.toList.length ≤ 1 := by cases item <;> simp
  have hrank : (((s.setChannel i d).without caller).pipelineRank run).1 ≤
        (s.pipelineRank run).1 + 1 ∧
      (((s.setChannel i d).without caller).pipelineRank run).2 ≤ (s.pipelineRank run).2 + 1 := by
    by_cases hi : i = run
    · subst hi
      have hnow : ((s.setChannel i d).without caller).now = s.now := rfl
      have hq : ((s.setChannel i d).without caller).pipelines[i]? =
          some { p with feed := { p.feed with channel := d } } := by
        simp [System.without, setChannel, modifyPipeline, hp]
      rw [pipelineRank_of_some hp, pipelineRank_of_some hq]
      simp only [Pipeline.rank, answersLeft, stepsLeft, Chunker.Feed.kept, Chunker.Feed.stepsLeft,
        hsent.buffer, hnow, List.length_append]
      omega
    · have hq : ((s.setChannel i d).without caller).pipelines[run]? = s.pipelines[run]? := by
        simp [System.without, setChannel, modifyPipeline, hi]
      have hsame : ((s.setChannel i d).without caller).pipelineRank run = s.pipelineRank run := by
        rw [pipelineRank, hq]
        rfl
      rw [hsame]
      exact ⟨Nat.le_add_right _ 1, Nat.le_add_right _ 1⟩
  have hsteps : s.callSteps = 2 + ((s.setChannel i d).without caller).callSteps :=
    callSteps_without hw hcall
  have hwaiting : s.waiting.length = 1 + ((s.setChannel i d).without caller).waiting.length :=
    length_waiting_without hw hcall
  left
  simp only [rank]
  omega

/-- A call that stops a run goes on to wait for less, or is over. -/
theorem falls_of_tended {rest : List (Caller × Call)} (hw : s.WellFormed)
    (hcall : s.call? caller = some c) (hc : c.message? = none)
    (hcalls : s'.calls = s.calls.filter (·.1 != caller) ++ rest)
    (hless : (rest.map (·.2.stepsLeft)).sum < c.stepsLeft)
    (hrest : rest.filterMap (·.2.message?) = [])
    (h : Alike Tended s.pipelines s'.pipelines) (hnow : s'.now = s.now) (run : Nat) :
    Falls 0 (s.rank run) (s'.rank run) := by
  have hsteps := callSteps_without hw hcall
  have hwaiting := length_waiting_without hw hcall
  have hsteps' : s'.callSteps = (s.without caller).callSteps + (rest.map (·.2.stepsLeft)).sum := by
    rw [callSteps, hcalls, List.map_append, List.sum_append]
    rfl
  have hwaiting' : s'.waiting = (s.without caller).waiting := by
    rw [waiting, hcalls, List.filterMap_append, hrest, List.append_nil]
    rfl
  rw [hc, Option.toList_none, List.length_nil] at hwaiting
  left
  simp only [rank, pipelineRank_tended h hnow, hwaiting']
  omega

/-- Of the pending calls, those that stop a run or wait at an intake come nearer to their end. -/
theorem falls_of_went (hw : s.WellFormed) (h : s.Went caller s' events)
    (hcall : s.call? caller = some c) (hc : c.stand ≠ .waiting) (run : Nat) :
    Falls 0 (s.rank run) (s'.rank run) := by
  cases h with
  | started hcall' | startRefused _ hcall' | stopTaken hcall' | stopRefused _ hcall' =>
    rw [hcall'] at hcall
    cases hcall
    exact absurd rfl hc
  | @workerEnded i p worker hcall' =>
    have hcalls : (s.workerEnded caller i worker).calls =
        s.calls.filter (·.1 != caller) ++ [(caller, .draining i worker)] := by
      rw [← s.calls_dropIntake]
      rfl
    exact falls_of_tended hw hcall' rfl hcalls (by simp [Call.stepsLeft]) rfl
      (s.tended_workerEnded caller i worker) s.now_dropIntake run
  | @stopped i worker _ _ hcall' =>
    have hcalls : (((s.conclude i).unlock caller).without caller).calls =
        s.calls.filter (·.1 != caller) ++ [] := (List.append_nil _).symm
    exact falls_of_tended hw hcall' rfl hcalls (by simp [Call.stepsLeft]) rfl (s.tended_conclude i)
      rfl run
  | enqueued hcall' hp hresume =>
    exact falls_of_served hw hcall' hp (.filled _ (Channel.resume?_eq_accepted hresume).2) run
  | rejected hcall' hp => exact falls_of_served hw hcall' hp (.left _) run

theorem rank_falls {m : Move} {hasHandler : Bool} {p' : Pipeline Caller} {notes : List Note}
    (h : Run step (new o) turns s) (hp : s.pipelines[run]? = some p)
    (hm : p.Moved s.options hasHandler s.now m p' notes) :
    Falls m.fanOut (p.rank s.now) (p'.rank s.now) := by
  obtain ⟨hsound, hengaged⟩ := sound_of_run h run p hp
  have hvalid := validate_of_run h hp
  rw [← options_of_run h] at hsound hvalid
  exact hm.falls hsound hengaged (Options.maxWait_pos hvalid)

theorem falls_of_moved {m : Move} {p' : Pipeline Caller} {notes : List Note}
    (h : Run step (new o) turns s) (hp : s.pipelines[run]? = some p)
    (hm : p.Moved s.options (s.options.hasHandler && s.reachable) s.now m p' notes) :
    Falls m.fanOut (s.rank run) ((s.modifyPipeline run fun _ => p').rank run) := by
  have hq : (s.modifyPipeline run fun _ => p').pipelines[run]? = some p' := by
    simp [modifyPipeline, hp]
  rw [rank, rank, pipelineRank_of_some hp, pipelineRank_of_some hq]
  exact (rank_falls h hp hm).add s.waiting.length s.callSteps

/-- What becomes of the system by a step by which a run winds down, before it lets go of what nobody
can use any more. -/
inductive Wound (s : System) (run : Nat) (x : System) : Action → Prop
  | moved {m : Move} {p p' : Pipeline Caller} {notes : List Note} : s.pipelines[run]? = some p →
      p.Moved s.options (s.options.hasHandler && s.reachable) s.now m p' notes →
      x = s.modifyPipeline run (fun _ => p') → Wound s run x (.move run m)
  | went {v : Caller} {c : Call} {events : List Event} : s.call? v = some c →
      c.stand ≠ .waiting → s.Went v x events → Wound s run x (.resume v)

theorem wound_of_winds (hw : s.WellFormed) (hstops : s.Stops caller run)
    (hwinds : s.Winds caller run a) (hstep : s.step a = some (s', events)) :
    ∃ x, s.Wound run x a ∧ (s' = x ∨ s' = x.release) := by
  have hwent {v : Caller} {c : Call} (hmem : (v, c) ∈ s.calls) (hc : c.stand ≠ .waiting)
      (hresume : s.resume? v = some (s', events)) :
      ∃ x, s.Wound run x (.resume v) ∧ (s' = x ∨ s' = x.release) := by
    obtain ⟨x, hwent, hx⟩ := goes_of_resume hresume
    exact ⟨x, .went (Calls.lookup_of_mem hw.guarded.keys hmem) hc hwent, hx⟩
  cases hwinds with
  | move m =>
    obtain ⟨x, hdid, hx⟩ := does_of_move hstep
    dsimp only at hdid hx
    cases hdid with
    | asked ha | atOnce ha => cases ha
    | moved hp _ hm => exact ⟨_, .moved hp hm rfl, hx⟩
  | producer hmem => exact hwent hmem (by simp [Call.stand]) hstep
  | stop =>
    obtain ⟨c, hmem, hc⟩ := hstops
    refine hwent hmem ?_ hstep
    rcases hc with rfl | ⟨worker, rfl⟩ <;> simp [Call.stand]

/-- Every step by which a run winds down brings it nearer to its end. -/
theorem falls_of_winds (h : Run step (new o) turns s) (hstops : s.Stops caller run)
    (hwinds : s.Winds caller run a) (hstep : s.step a = some (s', events)) :
    Falls a.fanOut (s.rank run) (s'.rank run) := by
  have hw := wellFormed_of_run h
  obtain ⟨x, hwound, hx⟩ := wound_of_winds hw hstops hwinds hstep
  have hfalls : Falls a.fanOut (s.rank run) (x.rank run) := by
    cases hwound with
    | moved hp hm hx =>
      subst hx
      exact falls_of_moved h hp hm
    | went hcall hc hwent => exact falls_of_went hw hwent hcall hc run
  rcases hx with rfl | rfl
  · exact hfalls
  · rwa [rank_release]

/-- These turns are steps by which a run winds down, and the call stops the run all the time. -/
def WindsDown (caller : Caller) (run : Nat) (turns : History) : Prop :=
  ∀ t ∈ turns, t.before.Stops caller run ∧ t.before.Winds caller run t.action

/-- A call that goes on makes no call for anybody else. -/
theorem call?_of_went (h : s.Went caller s' events) (hw : s.call? w = none) :
    s'.call? w = none := by
  have hne : w ≠ caller := by
    rintro rfl
    cases h <;> simp_all
  have hwithout : (s.without caller).call? w = none :=
    (Calls.lookup_without_of_ne hne).trans hw
  have hdropped : s.dropIntake.call? w = none := by
    rw [call?, calls_dropIntake]
    exact hw
  cases h with
  | started => exact (Calls.lookup_without_of_ne hne).trans hdropped
  | stopTaken => exact (Calls.lookup_await_of_ne hne).trans hw
  | workerEnded => exact (Calls.lookup_await_of_ne hne).trans hdropped
  | startRefused | stopRefused | stopped | enqueued | rejected => exact hwithout

theorem call?_of_winds (hwf : s.WellFormed) (hstops : s.Stops caller run)
    (hwinds : s.Winds caller run a) (hstep : s.step a = some (s', events))
    (hw : s.call? w = none) : s'.call? w = none := by
  obtain ⟨x, hwound, hx⟩ := wound_of_winds hwf hstops hwinds hstep
  have hnone : x.call? w = none := by
    cases hwound with
    | moved _ _ hx => exact hx ▸ hw
    | went _ _ hwent => exact call?_of_went hwent hw
  rcases hx with rfl | rfl
  · exact hnone
  · rwa [call?, calls_release]

structure Wanes (o : Options) (caller : Caller) (run : Nat) (s : System) : Prop where
  reached : ∃ turns, Run step (new o) turns s
  stops : s.Stops caller run
  free : s.call? (.handler run) = none

def Returned (caller : Caller) (events : List Event) : Prop :=
  ∃ result, .replied caller (.stopped result) ∈ events

namespace Wanes

theorem step (hs : Wanes o caller run s) (hwinds : s.Winds caller run a)
    (hstep : s.step a = some (s', events)) :
    Wanes o caller run s' ∨ ¬ s'.Stops caller run ∧ Returned caller events := by
  obtain ⟨turns, hrun⟩ := hs.reached
  have habort : a ≠ .abort caller := by
    rintro rfl
    cases hwinds
  have hw := wellFormed_of_run hrun
  rcases stops_of_step hw hstep hs.stops habort with ⟨hstops, -⟩ | hend
  · exact .inl ⟨⟨_, hrun.snoc hstep⟩, hstops, call?_of_winds hw hs.stops hwinds hstep hs.free⟩
  · obtain ⟨worker, p, reporter, -, -, -, rfl, rfl⟩ := hend
    refine .inr ⟨?_, _, replied_stopEvents.mpr ⟨rfl, rfl⟩⟩
    rintro ⟨c, hmem, -⟩
    exact (Calls.mem_without.mp hmem).2 rfl

theorem falls (hs : Wanes o caller run s) (hwinds : s.Winds caller run a)
    (hstep : s.step a = some (s', events)) : Falls a.fanOut (s.rank run) (s'.rank run) := by
  obtain ⟨turns, hrun⟩ := hs.reached
  exact falls_of_winds hrun hs.stops hwinds hstep

theorem after (hs : Wanes o caller run s) (h : Run System.step s later s')
    (hdown : WindsDown caller run later) :
    Wanes o caller run s' ∨
      ¬ s'.Stops caller run ∧ ∃ before t, later = before ++ [t] ∧ Returned caller t.events := by
  induction h with
  | nil => exact .inl hs
  | @snoc later s₁ s₂ a events _ hstep ih =>
    obtain ⟨hstops, hwinds⟩ := hdown ⟨s₁, a, events⟩ (by simp)
    rcases ih fun t ht => hdown t (by simp [ht]) with hs₁ | ⟨hover, -⟩
    · rcases hs₁.step hwinds hstep with hs₂ | ⟨hover, hreturned⟩
      · exact .inl hs₂
      · exact .inr ⟨hover, later, _, rfl, hreturned⟩
    · exact absurd hstops hover

theorem proceeds (hs : Wanes o caller run s) :
    ∃ a s' events, s.Winds caller run a ∧ s.step a = some (s', events) := by
  obtain ⟨turns, hrun⟩ := hs.reached
  obtain ⟨a, hwinds, hsome⟩ := proceeds_of_stops hrun hs.stops hs.free
  obtain ⟨⟨s', events⟩, hstep⟩ := Option.isSome_iff_exists.mp hsome
  exact ⟨a, s', events, hwinds, hstep⟩

/-- With every step that is taken one fewer can follow. -/
theorem length_le {width : Nat} (hs : Wanes o caller run s) (h : Run System.step s later s')
    (hdown : WindsDown caller run later) (hwidth : ∀ t ∈ later, t.action.fanOut ≤ width) :
    later.length + s'.weight run width ≤ s.weight run width := by
  induction h with
  | nil => simp
  | @snoc later s₁ s₂ a events hrun hstep ih =>
    have hdown₁ : WindsDown caller run later := fun t ht => hdown t (by simp [ht])
    obtain ⟨hstops, hwinds⟩ := hdown ⟨s₁, a, events⟩ (by simp)
    have hbefore := ih hdown₁ fun t ht => hwidth t (by simp [ht])
    rcases hs.after hrun hdown₁ with hs₁ | ⟨hover, -⟩
    · have hless := (hs₁.falls hwinds hstep).weight (hwidth ⟨s₁, a, events⟩ (by simp))
      rw [List.length_append, List.length_singleton]
      simp only [System.weight] at hbefore ⊢
      omega
    · exact absurd hstops hover

/-- However far the run has wound down, it can be wound down to the return of the call. -/
theorem returns (hs : Wanes o caller run s) : ∃ rest t s', Run System.step s (rest ++ [t]) s' ∧
    WindsDown caller run (rest ++ [t]) ∧ Returned caller t.events := by
  induction s using (wellFounded_rank run).induction with
  | _ s ih =>
    obtain ⟨a, s₁, events, hwinds, hstep⟩ := hs.proceeds
    have hfirst : WindsDown caller run [⟨s, a, events⟩] := by
      intro t ht
      obtain rfl := List.mem_singleton.mp ht
      exact ⟨hs.stops, hwinds⟩
    rcases hs.step hwinds hstep with hs₁ | ⟨-, hreturned⟩
    · obtain ⟨rest, t, s₂, hrun, hdown, hreturned⟩ := ih s₁ (hs.falls hwinds hstep).lex hs₁
      refine ⟨⟨s, a, events⟩ :: rest, t, s₂, (Run.of_step hstep).append hrun, ?_, hreturned⟩
      intro u hu
      rcases List.mem_cons.mp hu with rfl | hu
      · exact ⟨hs.stops, hwinds⟩
      · exact hdown u hu
    · exact ⟨[], _, s₁, .of_step hstep, hfirst, hreturned⟩

end Wanes

def Unwinds (caller : Caller) (run : Nat) (s s' : System) : Prop :=
  s.Stops caller run ∧ ∃ a events, s.Winds caller run a ∧ s.step a = some (s', events)

theorem Wanes.finite (hs : Wanes o caller run s) (f : Nat → System) (hf : f 0 = s) :
    ∃ n, ¬ Unwinds caller run (f n) (f (n + 1)) := by
  by_contra! hall
  have hwanes (n : Nat) : Wanes o caller run (f n) := by
    induction n with
    | zero => exact hf ▸ hs
    | succ n ih =>
      obtain ⟨-, a, events, hwinds, hstep⟩ := hall n
      rcases ih.step hwinds hstep with hs' | ⟨hover, -⟩
      · exact hs'
      · exact absurd (hall (n + 1)).1 hover
  refine (wellFounded_iff_isEmpty_descending_chain.mp (wellFounded_rank run)).elim ⟨f, fun n => ?_⟩
  obtain ⟨-, a, events, hwinds, hstep⟩ := hall n
  exact ((hwanes n).falls hwinds hstep).lex

/-- A call that stops a run comes to its end, whoever takes the next step. -/
structure Terminates (s : System) (caller : Caller) (run : Nat) : Prop where
  /-- As long as the call has not returned, a step is possible that takes no time. -/
  proceeds : ∀ {later s'}, Run step s later s' → WindsDown caller run later →
    s'.Stops caller run → ∃ a s'' events, s'.Winds caller run a ∧ s'.step a = some (s'', events)
  /-- For each bound on the failures of a batch one number becomes less with every step. -/
  descends : ∀ {later s₁ a s₂ events width}, Run step s later s₁ →
    WindsDown caller run later → s₁.Stops caller run → s₁.Winds caller run a →
    s₁.step a = some (s₂, events) → a.fanOut ≤ width → s₂.weight run width < s₁.weight run width
  bounded : ∀ {later s' width}, Run step s later s' → WindsDown caller run later →
    (∀ t ∈ later, t.action.fanOut ≤ width) → later.length ≤ s.weight run width
  /-- Whatever the sink answers, the steps do not go on for ever. -/
  finite : ∀ f : Nat → System, f 0 = s → ∃ n, ¬ Unwinds caller run (f n) (f (n + 1))
  /-- When no step is left, the last one was the return of the call. -/
  ends : ∀ {later s'}, Run step s later s' → WindsDown caller run later →
    (∀ s'', ¬ Unwinds caller run s' s'') → ∃ before t, later = before ++ [t] ∧ Returned caller t.events
  returns : ∀ {later s'}, Run step s later s' → WindsDown caller run later →
    s'.Stops caller run → ∃ rest t s'', Run step s' (rest ++ [t]) s'' ∧
      WindsDown caller run (rest ++ [t]) ∧ Returned caller t.events

/-- A call that stops a run always comes to its end, if the handler of the run does not wait for a
call of its own: nobody has to wait for time to pass, no matter how full the channels are, who waits
for room and whether the sink or the handler has panicked, and the steps that are left are bounded in
whatever order they are taken. -/
theorem stop_terminates (h : Run step (new o) turns s) (hstops : s.Stops caller run)
    (hfree : s.call? (.handler run) = none) : s.Terminates caller run := by
  have hs : Wanes o caller run s := ⟨⟨turns, h⟩, hstops, hfree⟩
  have hwanes {later : History} {s' : System} (hrun : Run step s later s')
      (hdown : WindsDown caller run later) (hstops' : s'.Stops caller run) :
      Wanes o caller run s' :=
    (hs.after hrun hdown).resolve_right fun hover => hover.1 hstops'
  refine ⟨fun hrun hdown hstops' => (hwanes hrun hdown hstops').proceeds, ?_, ?_, hs.finite, ?_,
    fun hrun hdown hstops' => (hwanes hrun hdown hstops').returns⟩
  · intro later s₁ a s₂ events width hrun hdown hstops' hwinds hstep hwidth
    exact ((hwanes hrun hdown hstops').falls hwinds hstep).weight hwidth
  · intro later s' width hrun hdown hwidth
    exact (Nat.le_add_right _ _).trans (hs.length_le hrun hdown hwidth)
  · intro later s' hrun hdown hnone
    rcases hs.after hrun hdown with hs' | ⟨-, hlast⟩
    · obtain ⟨a, s'', events, hwinds, hstep⟩ := hs'.proceeds
      exact absurd ⟨hs'.stops, a, events, hwinds, hstep⟩ (hnone s'')
    · exact hlast

/-- The handler is at work on the first failure, the second fills the failure channel, and the worker
waits with the third.  The intake is full, somebody waits there, and somebody stops the run. -/
def stalledRun : List Action :=
  [.start (.client 0) 7, .enqueue (.client 1) (letter "a"), .move 0 (.worker .receive),
    refuses (letter "a"), .move 0 .report, .move 0 .report, .move 0 .take,
    .enqueue (.client 1) (letter "b"), .move 0 (.worker .receive), refuses (letter "b"),
    .move 0 .report, .move 0 .report, .enqueue (.client 1) (letter "c"),
    .move 0 (.worker .receive), refuses (letter "c"), .move 0 .report,
    .enqueue (.client 1) (letter "d"), .enqueue (.client 1) (letter "e"),
    .enqueue (.client 2) (letter "f"), .stop (.client 0)]

theorem stop_terminates_stalledRun : ∃ turns s p,
    Run step (new crowdedOptions) turns s ∧ s.Stops (.client 0) 0 ∧
      s.call? (.handler 0) = none ∧ s.pipelines[0]? = some p ∧ p.IsBlocked ∧
      p.reporter.isHandling = true ∧ s.Waits (.client 2) 0 ∧ s.weight 0 1 = 35 ∧
      s.Terminates (.client 0) 0 := by
  have hseen : (replay step (new crowdedOptions) stalledRun).map (fun r =>
      ((r.2.call? (.client 0)).any (Call.isStopping 0), (r.2.call? (.handler 0)).isNone,
        (r.2.call? (.client 2)).any (Call.isEnqueue 0), r.2.weight 0 1,
        r.2.pipelines[0]?.map fun p => decide (p.IsBlocked ∧ p.reporter.isHandling = true ∧
          p.feed.channel.resume? (.client 2) = none))) = some (true, true, true, 35, some true) := by
    decide +kernel
  obtain ⟨⟨turns, s⟩, hreplay, hseen⟩ := Option.map_eq_some_iff.mp hseen
  simp only [Prod.mk.injEq] at hseen
  obtain ⟨hstop, hfree, hcall, hweight, hseen⟩ := hseen
  obtain ⟨p, hp, hseen⟩ := Option.map_eq_some_iff.mp hseen
  obtain ⟨hblocked, hhandling, hresume⟩ := of_decide_eq_true hseen
  obtain ⟨m, hcall⟩ := call_of_isEnqueue hcall
  have hrun := Run.of_replay hreplay
  have hstops := stops_of_isStopping hstop
  have hfree := Option.isNone_iff_eq_none.mp hfree
  exact ⟨turns, s, p, hrun, hstops, hfree, hp, hblocked, hhandling, ⟨m, p, hcall, hp, hresume⟩,
    hweight, stop_terminates hrun hstops hfree⟩

end System

end Enqueuer

end Batchflow
