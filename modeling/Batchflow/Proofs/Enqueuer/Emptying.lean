import Batchflow.Proofs.Enqueuer.Handles
import Batchflow.Proofs.Enqueuer.Termination
import Mathlib.Algebra.Group.Prod

/-!
# An enqueuer that nobody uses any more

When no client has a handle and nobody is in a call, only the workers, the reporters and the
handlers at work are left.  As long as a handler is at work it can return.  Afterwards nobody can
get at the enqueuer, which has let go of its intake and of its run: every source comes to its end,
then every failure channel, and so every worker and every reporter ends.  What is left to do in all
runs together becomes less with each step.
-/

namespace Batchflow.Enqueuer

open Pipeline

def Move.isRegular (m : Move) : Bool := m.isWorkers || m.isReporters

namespace Pipeline

variable {ι : Type} {o : Options} {now : Nat} {p : Pipeline ι}

theorem Engaged.worker_leaves (hp : p.Engaged) (hidle : p.submission = .idle)
    (hended : p.feed.worker.ended = false) (hexhausted : p.feed.channel.exhausted = true) :
    ∃ k, (p.moveWorker? o now k).isSome = true := by
  cases hworker : p.feed.worker with
  | collecting batch =>
    refine ⟨.noticeEnd, isSome_moveWorker rfl ?_⟩
    simp [Chunker.Feed.step, Chunker.Feed.noticeEnd?, hworker, hexhausted]
  | draining batch => exact ⟨.finish, isSome_finish hworker hexhausted⟩
  | handling =>
    have := hp.mp hidle
    simp [hworker, Chunker.Worker.isHandling] at this
  | returned | panicked => simp [hworker, Chunker.Worker.ended] at hended

/-- When one of them changes, the others count as before. -/
theorem exists_sum_modify {M : Type} [AddCommMonoid M] (f : Pipeline ι → M)
    {ps : List (Pipeline ι)} {run : Nat} (hp : ps[run]? = some p) (p' : Pipeline ι) :
    ∃ x, (ps.map f).sum = x + f p ∧ ((ps.modify run fun _ => p').map f).sum = x + f p' := by
  induction ps generalizing run with
  | nil => simp at hp
  | cons q ps ih =>
    cases run with
    | zero =>
      obtain rfl : q = p := by simpa using hp
      exact ⟨(ps.map f).sum, by simp [add_comm], by simp [add_comm]⟩
    | succ run =>
      obtain ⟨x, hbefore, hafter⟩ := ih (by simpa using hp)
      refine ⟨f q + x, ?_, ?_⟩
      · simp [hbefore, add_assoc]
      · simp [hafter, add_assoc]

end Pipeline

/-- Only workers and reporters do something. -/
def Unattended (turns : History) : Prop :=
  ∀ t ∈ turns, ∃ run m, t.action = .move run m ∧ m.isRegular = true

namespace System

variable {o : Options} {s s' : System} {events : List Event} {turns later : History} {run : Nat}
  {m : Move} {p : Pipeline Caller} {out : Outcome}

/-- All workers and reporters have ended. -/
def Over (s : System) : Prop := ∀ p ∈ s.pipelines, p.Over

/-- No client has a handle, and nobody is in a call. -/
structure Vacant (s : System) : Prop where
  handles : s.handles = 0
  calls : s.calls = []

/-- Some worker or reporter goes on, or a handler returns. -/
def Continues (s : System) : Prop :=
  ∃ run m, m.isRegular = true ∧ (s.move? run m).isSome = true

/-- What is left to do in all runs together. -/
def totalRank (s : System) : Nat × Nat := (s.pipelines.map (Pipeline.rank s.now)).sum

def totalWeight (s : System) (width : Nat) : Nat :=
  s.totalRank.1 * (4 * width + 2) + s.totalRank.2

theorem wellFounded_totalRank : WellFounded fun s' s : System =>
    Prod.Lex (· < ·) (· < ·) s'.totalRank s.totalRank :=
  InvImage.wf totalRank (wellFounded_lt.prod_lex wellFounded_lt)

/-- In a vacant system that nobody can get at, every source has come to an end. -/
theorem Vacant.exhausted (h : Run step (new o) turns s) (hs : s.Vacant)
    (hreachable : s.reachable = false) (hp : s.pipelines[run]? = some p)
    (hbuffer : p.feed.channel.buffer = []) : p.feed.channel.exhausted = true := by
  have hnobody : p.feed.channel.places.everybody = [] := by
    refine List.eq_nil_iff_forall_not_mem.mpr fun w hw => ?_
    obtain ⟨m, hm⟩ := (present_of_run h).pending hp hw
    simp [hs.calls] at hm
  obtain ⟨hheld, hline⟩ := List.append_eq_nil_iff.mp hnobody
  have hhandles : p.feed.channel.handles = 0 := by
    rw [intakeHeld_of_run h run p hp, (letGo_of_run h hreachable).1]
    rfl
  exact Channel.exhausted_iff.mpr ⟨⟨hbuffer, hheld⟩, .inr ⟨hhandles, hline⟩⟩

theorem Vacant.continues_of_unreachable (h : Run step (new o) turns s) (hs : s.Vacant)
    (hreachable : s.reachable = false) (hp : s.pipelines[run]? = some p) (hover : ¬ p.Over) :
    s.Continues := by
  have hengaged := (sound_of_run h run p hp).2
  have hunowned : ¬ s.Owned run := by
    rintro (hslot | ⟨w, hw⟩)
    · simp [(letGo_of_run h hreachable).2] at hslot
    · simp [hs.calls] at hw
  have hhandling : p.reporter.isHandling = false := by
    refine Bool.eq_false_iff.mpr fun hhandling => ?_
    simp [reachable_of_reporter hp hhandling] at hreachable
  rcases reporter_takes hhandling with htakes | huntroubled
  · exact ⟨run, .take, rfl, isSome_move hp rfl htakes⟩
  · cases hended : p.feed.worker.ended with
    | true =>
      rcases huntroubled with hreporter | ⟨hwaiting, hbuffer⟩
      · exact absurd ⟨hended, hreporter⟩ hover
      · exact ⟨run, .noticeEnd, rfl,
          isSome_move hp rfl (isSome_noticeEnd h hp hunowned hended hwaiting hbuffer)⟩
    | false =>
      have hblocked : ¬ p.IsBlocked := fun hb => troubled_of_isBlocked h hp hb huntroubled
      rcases hengaged.worker_proceeds hblocked with ⟨m, hm, hsome⟩ | hgone | ⟨hidle, hbuffer⟩
      · exact ⟨run, m, by simp [Move.isRegular, hm],
          isSome_move hp (allowed_of_isWorkers hm) hsome⟩
      · simp [hended] at hgone
      · obtain ⟨k, hk⟩ := hengaged.worker_leaves hidle hended
          (Vacant.exhausted h hs hreachable hp hbuffer)
        exact ⟨run, .worker k, rfl, isSome_move hp rfl hk⟩

/-- A handler at work returns; when none is at work, workers and reporters go on until they end. -/
theorem Vacant.continues (h : Run step (new o) turns s) (hs : s.Vacant) (hover : ¬ s.Over) :
    s.Continues := by
  cases hreachable : s.reachable with
  | true =>
    obtain ⟨i, p, hp, hhandling⟩ :=
      (reachable_iff_of_run h hs.handles (by simp [hs.calls])).mp hreachable
    have hallowed : s.allowed i .handlerReturns = true := by
      simp [allowed, handlerCalls, call?, hs.calls]
    exact ⟨i, .handlerReturns, rfl, isSome_move hp hallowed (isSome_handlerReturns hhandling)⟩
  | false =>
    obtain ⟨p, hp, hover⟩ : ∃ p ∈ s.pipelines, ¬ p.Over := by
      simpa [Over] using hover
    obtain ⟨i, hi⟩ := List.mem_iff_getElem?.mp hp
    exact Vacant.continues_of_unreachable h hs hreachable hi hover

theorem totalRank_release (s : System) : s.release.totalRank = s.totalRank := by
  have hmap : s.release.pipelines.map (Pipeline.rank s.now) =
      s.pipelines.map (Pipeline.rank s.now) :=
    (s.tended_release.imp fun h => h.rank).map_eq
  rw [totalRank, totalRank, now_release, hmap]

theorem totalRank_falls (h : Run step (new o) turns s)
    (hstep : s.step (.move run m) = some (s', events)) :
    Falls m.fanOut s.totalRank s'.totalRank := by
  obtain ⟨p, p', notes, hp, -, hm, hout⟩ := moved_of_move hstep
  obtain ⟨x, hbefore, hafter⟩ := exists_sum_modify (Pipeline.rank s.now) hp p'
  rw [(Prod.mk.inj hout).1, totalRank_release]
  have hrank : (s.modifyPipeline run fun _ => p').totalRank = x + p'.rank s.now := hafter
  rw [hrank, totalRank, hbefore]
  exact (rank_falls h hp hm).add x.1 x.2

theorem Vacant.moved (hs : s.Vacant) (hstep : s.step (.move run m) = some (s', events)) :
    s'.Vacant := by
  obtain ⟨p, p', notes, -, -, -, hout⟩ := moved_of_move hstep
  rw [(Prod.mk.inj hout).1]
  exact ⟨(handles_release _).trans hs.handles, (calls_release _).trans hs.calls⟩

/-- Nobody uses the enqueuer any more. -/
structure Leaves (o : Options) (s : System) : Prop where
  reached : ∃ turns, Run step (new o) turns s
  vacant : s.Vacant

namespace Leaves

theorem moved (hs : Leaves o s) (hstep : s.step (.move run m) = some (s', events)) :
    Leaves o s' := by
  obtain ⟨turns, hrun⟩ := hs.reached
  exact ⟨⟨_, hrun.snoc hstep⟩, hs.vacant.moved hstep⟩

theorem falls (hs : Leaves o s) (hstep : s.step (.move run m) = some (s', events)) :
    Falls m.fanOut s.totalRank s'.totalRank := by
  obtain ⟨turns, hrun⟩ := hs.reached
  exact totalRank_falls hrun hstep

theorem after (hs : Leaves o s) (h : Run step s later s') (hlater : Unattended later) :
    Leaves o s' := by
  induction h with
  | nil => exact hs
  | @snoc later s₁ s₂ a events _ hstep ih =>
    obtain ⟨run, m, rfl, -⟩ := hlater ⟨s₁, a, events⟩ (by simp)
    exact (ih fun t ht => hlater t (by simp [ht])).moved hstep

/-- With every step that is taken one fewer can follow. -/
theorem length_le {width : Nat} (hs : Leaves o s) (h : Run step s later s')
    (hlater : Unattended later) (hwidth : ∀ t ∈ later, t.action.fanOut ≤ width) :
    later.length + s'.totalWeight width ≤ s.totalWeight width := by
  induction h with
  | nil => simp
  | @snoc later s₁ s₂ a events hrun hstep ih =>
    have hlater₁ : Unattended later := fun t ht => hlater t (by simp [ht])
    obtain ⟨run, m, rfl, -⟩ := hlater ⟨s₁, a, events⟩ (by simp)
    have hbefore := ih hlater₁ fun t ht => hwidth t (by simp [ht])
    have hless := ((hs.after hrun hlater₁).falls hstep).weight
      (hwidth ⟨s₁, .move run m, events⟩ (by simp))
    rw [List.length_append, List.length_singleton]
    simp only [totalWeight] at hbefore ⊢
    omega

theorem ends (hs : Leaves o s) : ∃ rest s', Run step s rest s' ∧ Unattended rest ∧ s'.Over := by
  induction s using wellFounded_totalRank.induction with
  | _ s ih =>
    by_cases hover : s.Over
    · exact ⟨[], s, .nil, by simp [Unattended], hover⟩
    · obtain ⟨turns, hrun⟩ := hs.reached
      obtain ⟨run, m, hm, hsome⟩ := hs.vacant.continues hrun hover
      obtain ⟨⟨s₁, events⟩, hmove⟩ := Option.isSome_iff_exists.mp hsome
      have hstep : s.step (.move run m) = some (s₁, events) := hmove
      obtain ⟨rest, s₂, hrest, hregular, hend⟩ := ih s₁ (hs.falls hstep).lex (hs.moved hstep)
      refine ⟨_, s₂, (Run.of_step hstep).append hrest, ?_, hend⟩
      intro t ht
      rcases List.mem_cons.mp ht with rfl | ht
      · exact ⟨run, m, rfl, hm⟩
      · exact hregular t ht

end Leaves

/-- All runs come to their end, whoever takes the next step. -/
structure Empties (s : System) : Prop where
  /-- As long as a worker or a reporter has not ended, a step is possible that takes no time. -/
  continues : ∀ {later s'}, Run step s later s' → Unattended later → ¬ s'.Over → s'.Continues
  bounded : ∀ {later s' width}, Run step s later s' → Unattended later →
    (∀ t ∈ later, t.action.fanOut ≤ width) → later.length ≤ s.totalWeight width
  /-- Whatever the sinks answer, the steps do not go on for ever. -/
  finite : ∀ f : Nat → System, f 0 = s →
    ∃ n, ∀ run m events, (f n).step (.move run m) ≠ some (f (n + 1), events)
  ends : ∀ {later s'}, Run step s later s' → Unattended later →
    ∃ rest s'', Run step s' rest s'' ∧ Unattended rest ∧ s''.Over

theorem Leaves.finite (hs : Leaves o s) (f : Nat → System) (hf : f 0 = s) :
    ∃ n, ∀ run m events, (f n).step (.move run m) ≠ some (f (n + 1), events) := by
  by_contra! hall
  have hleaves (n : Nat) : Leaves o (f n) := by
    induction n with
    | zero => exact hf ▸ hs
    | succ n ih =>
      obtain ⟨run, m, events, hstep⟩ := hall n
      exact ih.moved hstep
  refine (wellFounded_iff_isEmpty_descending_chain.mp wellFounded_totalRank).elim
    ⟨f, fun n => ?_⟩
  obtain ⟨run, m, events, hstep⟩ := hall n
  exact ((hleaves n).falls hstep).lex

theorem Vacant.empties (h : Run step (new o) turns s) (hs : s.Vacant) : s.Empties := by
  have hleaves : Leaves o s := ⟨⟨turns, h⟩, hs⟩
  refine ⟨fun hrun hlater hover => ?_, fun hrun hlater hwidth => ?_, hleaves.finite,
    fun hrun hlater => (hleaves.after hrun hlater).ends⟩
  · obtain ⟨⟨turns', hreached⟩, hvacant⟩ := hleaves.after hrun hlater
    exact hvacant.continues hreached hover
  · exact (Nat.le_add_right _ _).trans (hleaves.length_le hrun hlater hwidth)

end System

end Batchflow.Enqueuer
