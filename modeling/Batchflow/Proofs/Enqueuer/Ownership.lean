import Batchflow.Proofs.Enqueuer.Action
import Batchflow.Proofs.Run

/-!
# Who may stop a run

The last run belongs to the slot, or to one call that stops it; earlier runs belong to nobody.  The
failure channel of a run has a handle for its worker, until the worker has ended, and one for
whoever owns the run.  A call that stops a run keeps the lock, so that nobody starts or stops a run
beside it.
-/

namespace Batchflow.Enqueuer

variable {ι : Type}

namespace Pipeline

/-- The handle of the worker, as long as it has not ended. -/
def workers (p : Pipeline ι) : Nat := if p.feed.worker.ended then 0 else 1

/-- What a pipeline is to its owner stays the same. -/
structure Kept (p q : Pipeline ι) : Prop where
  worker : q.feed.worker = p.feed.worker
  handles : q.failures.handles = p.failures.handles

theorem Kept.refl (p : Pipeline ι) : p.Kept p := ⟨rfl, rfl⟩

theorem Kept.workers {p q : Pipeline ι} (h : p.Kept q) : q.workers = p.workers := by
  rw [Pipeline.workers, Pipeline.workers, h.worker]

variable {o : Options} {hasHandler : Bool} {now : Nat} {p p' : Pipeline ι} {m : Move}
  {notes : List Note}

theorem handles_setFeed {feed : Chunker.Feed ι Message} (hp : p.workers ≤ p.failures.handles)
    (hmoves : p.feed.worker.ended = false) :
    (p.setFeed feed).failures.handles + p.workers =
      p.failures.handles + (p.setFeed feed).workers := by
  simp only [workers, hmoves, feed_setFeed] at *
  unfold setFeed
  split <;> simp_all [dropFailures, Channel.dropHandle]

theorem Moved.handles (h : Moved o hasHandler now p m p' notes)
    (hp : p.workers ≤ p.failures.handles) :
    p'.failures.handles + p.workers = p.failures.handles + p'.workers := by
  cases h with
  | worked _ hfeed => exact handles_setFeed hp hfeed.not_ended
  | submitted _ hfeed | sinkPanicked _ _ hfeed | reported _ hfeed =>
    exact handles_setFeed hp hfeed.not_ended
  | @queued v _ failures _ hsend | @blocked v _ failures _ hsend | @unheard v _ failures _ hsend =>
    have := Channel.handles_send p.failures () v
    rw [hsend] at this
    rw [show failures.handles = p.failures.handles from this]
    rfl
  | taken _ _ hreceive | logged _ _ hreceive => rw [Channel.handles_receive hreceive]; rfl
  | _ => rfl

theorem Moved.outcome {w : Except Panic Unit} (h : Moved o hasHandler now p m p' notes)
    (hw : p.feed.worker.outcome? = some w) : p'.feed.worker.outcome? = some w := by
  rcases h.feed with ⟨hfeed, -⟩ | ⟨k, chunk, hfeed, -⟩
  · rw [hfeed, hw]
  · have hlive := hfeed.not_ended
    rw [Chunker.Worker.ended_of_outcome hw] at hlive
    contradiction

end Pipeline

theorem getElem?_concat_eq_some {α : Type} {xs : List α} {x y : α} {i : Nat}
    (h : (xs ++ [x])[i]? = some y) : xs[i]? = some y ∨ i = xs.length ∧ y = x := by
  rw [List.getElem?_append] at h
  split at h
  · exact .inl h
  · obtain ⟨hlt, hx⟩ := List.getElem?_eq_some_iff.mp h
    simp only [List.length_singleton] at hlt
    simp only [List.getElem_singleton] at hx
    exact .inr ⟨by omega, hx.symm⟩

namespace System

/-- Somebody may still stop the run, or is about to. -/
def Owned (s : System) (run : Nat) : Prop :=
  s.slot = some run ∨ ∃ caller, (caller, .stopping run) ∈ s.calls

structure TakenOver (s : System) (run : Nat) : Prop where
  state : s.state = .running
  slot : s.slot = none
  last : run + 1 = s.pipelines.length

structure WellFormed (s : System) : Prop where
  guarded : Guarded Call.stand s.lock s.calls
  stopping : ∀ {caller run}, (caller, .stopping run) ∈ s.calls → s.TakenOver run
  draining : ∀ {caller run worker}, (caller, .draining run worker) ∈ s.calls →
    s.TakenOver run ∧ s.intake = none ∧
      ∃ p, s.pipelines[run]? = some p ∧ p.feed.worker.outcome? = some worker
  slot : ∀ {run}, s.slot = some run → s.state = .running ∧ run + 1 = s.pipelines.length
  intake : ∀ {run}, s.intake = some run → run + 1 = s.pipelines.length
  enqueue : ∀ {caller run m}, (caller, .enqueue run m) ∈ s.calls → run < s.pipelines.length
  owned : ∀ {run p}, s.pipelines[run]? = some p → s.Owned run →
    p.failures.handles = p.workers + 1
  free : ∀ {run p}, s.pipelines[run]? = some p → ¬ s.Owned run → p.failures.handles = p.workers

theorem wellFormed_new (o : Options) : (new o).WellFormed where
  guarded := .new
  stopping := by simp [new]
  draining := by simp [new]
  slot := by simp [new]
  intake := by simp [new]
  enqueue := by simp [new]
  owned := by simp [new]
  free := by simp [new]

@[simp] theorem calls_dropIntake (s : System) : s.dropIntake.calls = s.calls := by
  unfold dropIntake
  split <;> rfl

@[simp] theorem lock_dropIntake (s : System) : s.dropIntake.lock = s.lock := by
  unfold dropIntake
  split <;> rfl

@[simp] theorem state_dropIntake (s : System) : s.dropIntake.state = s.state := by
  unfold dropIntake
  split <;> rfl

@[simp] theorem slot_dropIntake (s : System) : s.dropIntake.slot = s.slot := by
  unfold dropIntake
  split <;> rfl

@[simp] theorem intake_dropIntake (s : System) : s.dropIntake.intake = none := by
  unfold dropIntake
  split
  · rfl
  · assumption

section

variable {R : Pipeline Caller → Pipeline Caller → Prop} (hrefl : ∀ p, R p p)
  (hdrop : ∀ (p : Pipeline Caller) handles,
    R p { p with feed := { p.feed with channel := { p.feed.channel with handles } } })

include hrefl hdrop

theorem related_dropIntake (s : System) : Alike R s.pipelines s.dropIntake.pipelines := by
  unfold dropIntake
  split
  · exact .of_modify rfl hrefl fun p _ => hdrop p _
  · exact .refl hrefl _

/-- To let go of everything changes the handles of two channels at most. -/
theorem related_release (htrans : ∀ {p q r}, R p q → R q r → R p r)
    (hslot : ∀ p, R p (Pipeline.dropFailures p)) (s : System) :
    Alike R s.pipelines s.release.pipelines := by
  unfold release dropSlot
  split
  · exact .refl hrefl _
  · refine (related_dropIntake hrefl hdrop s).trans htrans ?_
    split
    · exact .of_modify rfl hrefl fun p _ => hslot p
    · exact .refl hrefl _

end

theorem alike_dropIntake (s : System) : Alike Pipeline.Kept s.pipelines s.dropIntake.pipelines :=
  s.related_dropIntake .refl fun _ _ => ⟨rfl, rfl⟩

namespace WellFormed

variable {s s' : System} {caller w : Caller} {run : Nat}

theorem workers_le {p : Pipeline Caller} (hs : s.WellFormed) (hp : s.pipelines[run]? = some p) :
    p.workers ≤ p.failures.handles := by
  by_cases hown : s.Owned run
  · rw [hs.owned hp hown]
    exact Nat.le_add_right _ 1
  · exact Nat.le_of_eq (hs.free hp hown).symm

theorem eq_of_inside {c : Call} (hs : s.WellFormed) (hheld : caller ∈ s.lock.held)
    (hc : (w, c) ∈ s.calls) (hin : c.stand = .inside) : w = caller :=
  hs.guarded.eq_of_held (hs.guarded.inside w c hc hin) hheld

theorem frame (hs : s.WellFormed) (hguarded : Guarded Call.stand s'.lock s'.calls)
    (hstate : s'.state = s.state) (hslot : s'.slot = s.slot)
    (hintake : ∀ {run}, s'.intake = some run → s.intake = some run)
    (hpipelines : Alike Pipeline.Kept s.pipelines s'.pipelines)
    (hcalls : ∀ {w c}, (w, c) ∈ s'.calls → (w, c) ∈ s.calls ∨ c.stand = .waiting ∨
      ∃ run m, c = .enqueue run m ∧ run < s.pipelines.length)
    (hstopping : ∀ {w run}, (w, .stopping run) ∈ s.calls → (w, .stopping run) ∈ s'.calls) :
    s'.WellFormed := by
  have htaken {run : Nat} (h : s.TakenOver run) : s'.TakenOver run :=
    ⟨hstate ▸ h.state, hslot ▸ h.slot, hpipelines.length ▸ h.last⟩
  have hold {w c} (h : (w, c) ∈ s'.calls) (hin : c.stand = .inside) : (w, c) ∈ s.calls := by
    rcases hcalls h with h | h | ⟨_, _, rfl, -⟩
    · exact h
    · simp [hin] at h
    · simp [Call.stand] at hin
  have howned (run : Nat) : s'.Owned run ↔ s.Owned run := by
    rw [Owned, Owned, hslot]
    exact or_congr_right ⟨fun ⟨w, h⟩ => ⟨w, hold h rfl⟩, fun ⟨w, h⟩ => ⟨w, hstopping h⟩⟩
  refine ⟨hguarded, fun h => htaken (hs.stopping (hold h rfl)), ?_, ?_, ?_, ?_, ?_, ?_⟩
  · intro w run worker h
    obtain ⟨ht, hno, p, hp, hw⟩ := hs.draining (hold h rfl)
    obtain ⟨q, hq, hkept⟩ := hpipelines.exists_right hp
    refine ⟨htaken ht, Option.eq_none_iff_forall_ne_some.mpr fun run hi => ?_, q, hq, ?_⟩
    · simp [hno] at hintake
      exact hintake hi
    · rw [hkept.worker, hw]
  · intro run h
    rw [hstate, hpipelines.length]
    exact hs.slot (hslot ▸ h)
  · intro run h
    rw [hpipelines.length]
    exact hs.intake (hintake h)
  · intro w run m h
    rw [hpipelines.length]
    rcases hcalls h with h | h | ⟨_, _, heq, hlt⟩
    · exact hs.enqueue h
    · simp [Call.stand] at h
    · obtain ⟨rfl, rfl⟩ := Call.enqueue.inj heq
      exact hlt
  · intro run q hq hown
    obtain ⟨p, hp, hkept⟩ := hpipelines.exists_left hq
    rw [hkept.handles, hkept.workers]
    exact hs.owned hp ((howned run).mp hown)
  · intro run q hq hfree
    obtain ⟨p, hp, hkept⟩ := hpipelines.exists_left hq
    rw [hkept.handles, hkept.workers]
    exact hs.free hp fun h => hfree ((howned run).mpr h)

theorem modify {f : Pipeline Caller → Pipeline Caller} (hs : s.WellFormed) (run : Nat)
    (hf : ∀ p, Pipeline.Kept p (f p)) : (s.modifyPipeline run f).WellFormed :=
  hs.frame hs.guarded rfl rfl id (.of_modify rfl .refl fun p _ => hf p) .inl id

theorem last_of_owned (hs : s.WellFormed) (h : s.Owned run) : run + 1 = s.pipelines.length := by
  rcases h with h | ⟨w, h⟩
  · exact (hs.slot h).2
  · exact (hs.stopping h).last

/-- When the owner of a run drops its handle, only the handles of the workers are left. -/
theorem disowned {i : Nat} {q : Pipeline Caller} (hs : s.WellFormed) (hown : s.Owned run)
    (hq : (s.pipelines.modify run Pipeline.dropFailures)[i]? = some q) :
    q.failures.handles = q.workers := by
  rw [List.getElem?_modify, Option.map_eq_map, Option.map_eq_some_iff] at hq
  obtain ⟨p, hp, rfl⟩ := hq
  split
  · rename_i hi
    subst hi
    show p.failures.handles - 1 = p.workers
    rw [hs.owned hp hown, Nat.add_sub_cancel]
  · rename_i hi
    refine hs.free hp fun hown' => hi ?_
    have := hs.last_of_owned hown
    have := hs.last_of_owned hown'
    omega

theorem dropIntake (hs : s.WellFormed) : s.dropIntake.WellFormed := by
  refine hs.frame ?_ s.state_dropIntake s.slot_dropIntake (by simp) s.alike_dropIntake ?_ ?_
  · simpa using hs.guarded
  · exact fun h => .inl (s.calls_dropIntake ▸ h)
  · exact fun h => s.calls_dropIntake.symm ▸ h

theorem dropSlot (hs : s.WellFormed) : s.dropSlot.WellFormed := by
  unfold System.dropSlot
  split
  · rename_i run hslot
    have hno {i : Nat} (h : s.TakenOver i) : False := by
      simp [h.slot] at hslot
    refine ⟨hs.guarded, fun h => (hno (hs.stopping h)).elim, ?_, by simp, ?_, ?_, ?_, ?_⟩
    · exact fun h => (hno (hs.draining h).1).elim
    · intro i h
      simpa [modifyPipeline] using hs.intake h
    · intro c i m h
      simpa [modifyPipeline] using hs.enqueue h
    · rintro i q - (h | ⟨c, h⟩)
      · simp at h
      · exact (hno (hs.stopping h)).elim
    · exact fun hq _ => hs.disowned (.inl hslot) hq
  · exact hs

theorem release (hs : s.WellFormed) : s.release.WellFormed := by
  unfold System.release
  split
  · exact hs
  · exact hs.dropIntake.dropSlot

theorem without {c : Call} {lock : Permits Caller} (hs : s.WellFormed)
    (hcall : (caller, c) ∈ s.calls) (hc : ∀ run, c ≠ .stopping run)
    (hguarded : Guarded Call.stand lock (s.calls.filter (·.1 != caller))) :
    (({ s with lock } : System).without caller).WellFormed := by
  refine hs.frame hguarded rfl rfl id (.refl .refl _) ?_ ?_
  · exact fun h => .inl (Calls.mem_without.mp h).1
  · intro w run h
    refine Calls.mem_without.mpr ⟨h, ?_⟩
    rintro rfl
    exact hc run (hs.guarded.eq_of_mem hcall h)

theorem withState (hs : s.WellFormed) (hslot : s.slot = none)
    (hno : ∀ {w c}, (w, c) ∈ s.calls → c.stand ≠ .inside) (state : Lifecycle) :
    ({ s with state } : System).WellFormed where
  guarded := hs.guarded
  stopping h := absurd rfl (hno h)
  draining h := absurd rfl (hno h)
  slot h := by simp [hslot] at h
  intake := hs.intake
  enqueue := hs.enqueue
  owned hp h := hs.owned hp h
  free hp h := hs.free hp h

/-- A new run begins when nobody has one. -/
theorem startRun (hs : s.WellFormed) (hstate : s.state = .stopped) (sink : Nat) :
    (s.startRun sink).WellFormed := by
  have hd := hs.dropIntake
  have hlength := s.alike_dropIntake.length
  have hstopped := s.state_dropIntake.trans hstate
  have hno {i : Nat} (h : s.dropIntake.TakenOver i) : False := by
    rw [h.state] at hstopped
    cases hstopped
  have hunowned (i : Nat) : ¬ s.dropIntake.Owned i := by
    rintro (h | ⟨w, h⟩)
    · rw [(hd.slot h).1] at hstopped
      cases hstopped
    · exact hno (hd.stopping h)
  have hfound {i : Nat} {q : Pipeline Caller} (hq : (s.startRun sink).pipelines[i]? = some q) :
      s.dropIntake.pipelines[i]? = some q ∨ i = s.dropIntake.pipelines.length ∧
        q = Pipeline.start s.dropIntake.options sink s.dropIntake.now :=
    getElem?_concat_eq_some hq
  refine ⟨hd.guarded, fun h => (hno (hd.stopping h)).elim, fun h => (hno (hd.draining h).1).elim,
    ?_, ?_, ?_, ?_, ?_⟩
  · rintro run ⟨⟩
    exact ⟨rfl, by simp [System.startRun, hlength]⟩
  · rintro run ⟨⟩
    simp [System.startRun, hlength]
  · intro w run m h
    have := hd.enqueue h
    simp only [System.startRun, List.length_append]
    omega
  · intro run q hq hown
    rcases hfound hq with hq | ⟨-, rfl⟩
    · rcases hown with hslot | ⟨w, h⟩
      · have hrun : s.pipelines.length = run := Option.some.inj hslot
        have hlt := (List.getElem?_eq_some_iff.mp hq).1
        omega
      · exact (hno (hd.stopping h)).elim
    · rfl
  · intro run q hq hfree
    rcases hfound hq with hq | ⟨hrun, -⟩
    · exact hd.free hq (hunowned run)
    · exact absurd (.inl (congrArg some (hlength.symm.trans hrun.symm))) hfree

/-- A call takes over the run of the slot. -/
theorem takeOver (hs : s.WellFormed) (hcall : (caller, .stop) ∈ s.calls)
    (hheld : caller ∈ s.lock.held) (hslot : s.slot = some run) :
    (s.takeOver caller run).WellFormed := by
  have hno {w c} (h : (w, c) ∈ s.calls) : c.stand ≠ .inside := hs.guarded.not_inside hheld hcall rfl h
  have hnew {w c} (h : (w, c) ∈ (s.takeOver caller run).calls) :
      (w, c) ∈ s.calls ∨ c = .stopping run :=
    (Calls.mem_await.mp h).imp (·.1) (·.2)
  have halike : Alike Pipeline.Kept s.pipelines (s.takeOver caller run).pipelines :=
    .of_modify rfl .refl fun _ _ => ⟨rfl, rfl⟩
  have howned (i : Nat) : (s.takeOver caller run).Owned i ↔ s.Owned i := by
    constructor
    · rintro (h | ⟨w, h⟩)
      · cases h
      · rcases hnew h with h | h
        · exact .inr ⟨w, h⟩
        · exact .inl (Call.stopping.inj h ▸ hslot)
    · rintro (h | ⟨w, h⟩)
      · obtain rfl := Option.some.inj (hslot.symm.trans h)
        exact .inr ⟨caller, Calls.mem_await.mpr (.inr ⟨rfl, rfl⟩)⟩
      · exact absurd rfl (hno h)
  refine ⟨hs.guarded.enter hheld rfl, ?_, ?_, ?_, ?_, ?_, ?_, ?_⟩
  · intro w i h
    rcases hnew h with h | h
    · exact absurd rfl (hno h)
    · obtain rfl := Call.stopping.inj h
      exact ⟨(hs.slot hslot).1, rfl, halike.length ▸ (hs.slot hslot).2⟩
  · intro w i worker h
    rcases hnew h with h | h
    · exact absurd rfl (hno h)
    · cases h
  · rintro i ⟨⟩
  · intro i h
    rw [halike.length]
    exact hs.intake h
  · intro w i m h
    rw [halike.length]
    rcases hnew h with h | h
    · exact hs.enqueue h
    · cases h
  · intro i q hq hown
    obtain ⟨p, hp, hkept⟩ := halike.exists_left hq
    rw [hkept.handles, hkept.workers]
    exact hs.owned hp ((howned i).mp hown)
  · intro i q hq hfree
    obtain ⟨p, hp, hkept⟩ := halike.exists_left hq
    rw [hkept.handles, hkept.workers]
    exact hs.free hp fun h => hfree ((howned i).mpr h)

/-- The call that has taken over a run drops its handle, and goes away or waits for the end. -/
theorem giveUp (hs : s.WellFormed) (hcall : (caller, .stopping run) ∈ s.calls)
    (hguarded : Guarded Call.stand s'.lock s'.calls) (hstate : s'.state = s.state)
    (hslot : s'.slot = s.slot) (hintake : s'.intake = s.intake)
    (hpipelines : s'.pipelines = s.pipelines.modify run Pipeline.dropFailures)
    (hcalls : ∀ {w c}, (w, c) ∈ s'.calls → (w, c) ∈ s.calls ∧ w ≠ caller ∨
      ∃ worker p, c = .draining run worker ∧ s.intake = none ∧
        s.pipelines[run]? = some p ∧ p.feed.worker.outcome? = some worker) :
    s'.WellFormed := by
  have hheld := hs.guarded.inside _ _ hcall rfl
  have hno {w c} (h : (w, c) ∈ s.calls ∧ w ≠ caller) (hin : c.stand = .inside) : False :=
    h.2 (hs.eq_of_inside hheld h.1 hin)
  have hlength : s'.pipelines.length = s.pipelines.length := by simp [hpipelines]
  obtain ⟨hrunning, hnone, hlast⟩ := hs.stopping hcall
  have hunowned (i : Nat) : ¬ s'.Owned i := by
    rintro (h | ⟨w, h⟩)
    · simp [hslot, hnone] at h
    · rcases hcalls h with h | ⟨_, _, h, -⟩
      · exact hno h rfl
      · cases h
  refine ⟨hguarded, fun h => (hunowned _ (.inr ⟨_, h⟩)).elim, ?_, ?_, ?_, ?_, ?_, ?_⟩
  · intro w i worker h
    rcases hcalls h with h | ⟨_, p, heq, hno', hp, hworker⟩
    · exact (hno h rfl).elim
    · obtain ⟨rfl, rfl⟩ := Call.draining.inj heq
      refine ⟨⟨hstate.trans hrunning, hslot.trans hnone, hlength ▸ hlast⟩, hintake.trans hno',
        p.dropFailures, ?_, hworker⟩
      simp [hpipelines, hp]
  · intro i h
    exact (hunowned i (.inl h)).elim
  · intro i h
    rw [hlength]
    exact hs.intake (hintake ▸ h)
  · intro w i m h
    rw [hlength]
    rcases hcalls h with h | ⟨_, _, h, -⟩
    · exact hs.enqueue h.1
    · cases h
  · exact fun _ hown => (hunowned _ hown).elim
  · exact fun hq _ => hs.disowned (.inr ⟨caller, hcall⟩) (hpipelines ▸ hq)

theorem workerEnded {p : Pipeline Caller} {worker : Except Panic Unit} (hs : s.WellFormed)
    (hcall : (caller, .stopping run) ∈ s.calls) (hp : s.pipelines[run]? = some p)
    (hworker : p.feed.worker.outcome? = some worker) :
    (s.workerEnded caller run worker).WellFormed := by
  have hd := hs.dropIntake
  obtain ⟨q, hq, hkept⟩ := s.alike_dropIntake.exists_right hp
  rw [← s.calls_dropIntake] at hcall
  refine hd.giveUp hcall ?_ rfl rfl rfl rfl ?_
  · exact hd.guarded.enter (hd.guarded.inside _ _ hcall rfl) rfl
  · intro w c h
    refine (Calls.mem_await.mp h).imp id ?_
    rintro ⟨-, rfl⟩
    exact ⟨worker, q, rfl, s.intake_dropIntake, hq, by rw [hkept.worker, hworker]⟩

theorem stopped {worker : Except Panic Unit} (hs : s.WellFormed)
    (hcall : (caller, .draining run worker) ∈ s.calls) :
    (((s.conclude run).unlock caller).without caller).WellFormed := by
  have hheld := hs.guarded.inside _ _ hcall rfl
  have hover : ((s.unlock caller).without caller).WellFormed :=
    hs.without hcall (by simp) (hs.guarded.giveBack hheld)
  have hno {w c} (h : (w, c) ∈ ((s.unlock caller).without caller).calls) :
      c.stand ≠ .inside := fun hin =>
    (Calls.mem_without.mp h).2 (hs.eq_of_inside hheld (Calls.mem_without.mp h).1 hin)
  have hstopped := hover.withState (hs.draining hcall).1.slot hno .stopped
  exact hstopped.modify run fun _ => ⟨rfl, rfl⟩

/-- A call that waits for nothing yet asks for the lock. -/
theorem ask {c : Call} (hs : s.WellFormed) (hcall : s.mayCall caller = true)
    (hc : c.stand = .waiting) : (s.ask caller c).WellFormed := by
  have hnew {k} : (caller, k) ∉ s.calls := Calls.not_mem_of_lookup (call?_eq_none_of_mayCall hcall)
  refine hs.frame (hs.guarded.request (fun _ => hnew) hc) rfl rfl id (.refl .refl _) ?_ ?_
  · intro w k h
    refine (Calls.mem_await.mp h).imp (·.1) ?_
    rintro ⟨-, rfl⟩
    exact .inl hc
  · intro w run h
    refine Calls.mem_await.mpr (.inl ⟨h, ?_⟩)
    rintro rfl
    exact hnew h

theorem setChannel (hs : s.WellFormed) (run : Nat) (c : Channel Caller Message) :
    (s.setChannel run c).WellFormed :=
  hs.modify run fun _ => ⟨rfl, rfl⟩

theorem await_enqueue {m : Message} (hs : s.WellFormed) (hcall : s.call? caller = none)
    (hrun : run < s.pipelines.length) : (s.await caller (.enqueue run m)).WellFormed := by
  have hnew {k} : (caller, k) ∉ s.calls := Calls.not_mem_of_lookup hcall
  refine hs.frame (hs.guarded.await (fun _ => hnew) rfl) rfl rfl id (.refl .refl _) ?_ ?_
  · intro w k h
    exact (Calls.mem_await.mp h).imp (·.1) fun h => .inr ⟨run, m, h.2, hrun⟩
  · intro w run h
    refine Calls.mem_await.mpr (.inl ⟨h, ?_⟩)
    rintro rfl
    exact hnew h

theorem without_enqueue {m : Message} (hs : s.WellFormed)
    (hcall : (caller, .enqueue run m) ∈ s.calls) : (s.without caller).WellFormed :=
  hs.without hcall (by simp) (hs.guarded.without hcall rfl)

theorem went {events : List Event} (hs : s.WellFormed) (h : s.Went caller s' events) :
    s'.WellFormed := by
  cases h with
  | @started sink hcall hheld hstate =>
    have hstart := hs.startRun hstate sink
    have hmem : (caller, .start sink) ∈ (s.startRun sink).calls :=
      s.calls_dropIntake.symm ▸ Calls.mem_of_lookup hcall
    have hheld' : caller ∈ (s.startRun sink).lock.held := s.lock_dropIntake.symm ▸ hheld
    exact hstart.without hmem (by simp) (hstart.guarded.giveBack hheld')
  | startRefused e hcall hheld =>
    exact hs.without (Calls.mem_of_lookup hcall) (by simp) (hs.guarded.giveBack hheld)
  | stopTaken hcall hheld _ hslot => exact hs.takeOver (Calls.mem_of_lookup hcall) hheld hslot
  | stopRefused state hcall hheld hstate =>
    have hmem := Calls.mem_of_lookup hcall
    have hover : ((s.unlock caller).without caller).WellFormed :=
      hs.without hmem (by simp) (hs.guarded.giveBack hheld)
    rcases hstate with ⟨-, rfl⟩ | ⟨hslot, -⟩
    · exact hover
    · exact hover.withState hslot
        (fun h => hs.guarded.not_inside hheld hmem rfl (Calls.mem_without.mp h).1) state
  | workerEnded hcall hp hworker => exact hs.workerEnded (Calls.mem_of_lookup hcall) hp hworker
  | stopped hcall => exact hs.stopped (Calls.mem_of_lookup hcall)
  | enqueued hcall | rejected hcall =>
    exact (hs.setChannel _ _).without_enqueue (Calls.mem_of_lookup hcall)

theorem moved {p p' : Pipeline Caller} {o : Options} {hasHandler : Bool} {now : Nat} {m : Move}
    {notes : List Note} (hs : s.WellFormed) (hp : s.pipelines[run]? = some p)
    (hm : p.Moved o hasHandler now m p' notes) :
    (s.modifyPipeline run fun _ => p').WellFormed := by
  have hlength : (s.modifyPipeline run fun _ => p').pipelines.length = s.pipelines.length := by
    simp [modifyPipeline]
  have hbalance := hm.handles (hs.workers_le hp)
  have hfound {i : Nat} {q : Pipeline Caller}
      (hq : (s.modifyPipeline run fun _ => p').pipelines[i]? = some q) :
      i = run ∧ q = p' ∨ i ≠ run ∧ s.pipelines[i]? = some q := by
    simp only [modifyPipeline, List.getElem?_modify, Option.map_eq_map,
      Option.map_eq_some_iff] at hq
    obtain ⟨q', hq', rfl⟩ := hq
    split
    · rename_i hi
      exact .inl ⟨hi.symm, rfl⟩
    · rename_i hi
      exact .inr ⟨Ne.symm hi, hq'⟩
  refine ⟨hs.guarded, fun h => ?_, fun {w i worker} h => ?_, fun h => ?_, fun h => ?_, fun h => ?_,
    fun {i q} hq hown => ?_, fun {i q} hq hfree => ?_⟩
  · obtain ⟨hrunning, hnone, hlast⟩ := hs.stopping h
    exact ⟨hrunning, hnone, hlength ▸ hlast⟩
  · obtain ⟨⟨hrunning, hnone, hlast⟩, hno, q, hq, hworker⟩ := hs.draining h
    refine ⟨⟨hrunning, hnone, hlength ▸ hlast⟩, hno, ?_⟩
    by_cases hi : run = i
    · subst hi
      obtain rfl := Option.some.inj (hp.symm.trans hq)
      exact ⟨p', by simp [modifyPipeline, hp], hm.outcome hworker⟩
    · exact ⟨q, by simp [modifyPipeline, hi, hq], hworker⟩
  · exact ⟨(hs.slot h).1, hlength ▸ (hs.slot h).2⟩
  · rw [hlength]
    exact hs.intake h
  · rw [hlength]
    exact hs.enqueue h
  · rcases hfound hq with ⟨rfl, rfl⟩ | ⟨-, hq⟩
    · have := hs.owned hp hown
      omega
    · exact hs.owned hq hown
  · rcases hfound hq with ⟨rfl, rfl⟩ | ⟨-, hq⟩
    · have := hs.free hp hfree
      omega
    · exact hs.free hq hfree

theorem did {a : Action} {events : List Event} (hs : s.WellFormed) (h : s.Did a s' events) :
    s'.WellFormed := by
  cases h with
  | asked ha hcall => exact hs.ask hcall ha.stand
  | atOnce ha hcall hwent => exact (hs.ask hcall ha.stand).went hwent
  | enqueued => exact hs.setChannel _ _
  | enqueueWaits hcall _ hintake hp =>
    have hnone : s.call? _ = none := call?_eq_none_of_mayCall hcall
    refine (hs.setChannel _ _).await_enqueue hnone ?_
    simpa [System.setChannel, modifyPipeline] using (List.getElem?_eq_some_iff.mp hp).1
  | rejected => exact hs.setChannel _ _
  | notRunning => exact hs
  | @lockAborted _ c hcall hc =>
    have hnot : ∀ run, c ≠ .stopping run := by
      rintro run rfl
      cases hc
    exact hs.without (Calls.mem_of_lookup hcall) hnot (hs.guarded.leave _)
  | stoppingAborted hcall =>
    have hmem := Calls.mem_of_lookup hcall
    exact hs.giveUp hmem (hs.guarded.giveBack (hs.guarded.inside _ _ hmem rfl)) rfl rfl rfl rfl
      fun h => .inl (Calls.mem_without.mp h)
  | drainingAborted hcall =>
    have hmem := Calls.mem_of_lookup hcall
    exact hs.without hmem (by simp) (hs.guarded.giveBack (hs.guarded.inside _ _ hmem rfl))
  | enqueueAborted hcall =>
    unfold leaveIntake
    split
    · exact (hs.setChannel _ _).without_enqueue (Calls.mem_of_lookup hcall)
    · exact hs.without_enqueue (Calls.mem_of_lookup hcall)
  | handleAdded | handleDropped | advanced =>
    exact hs.frame hs.guarded rfl rfl id (.refl .refl _) .inl id
  | resumed hwent => exact hs.went hwent
  | moved hp _ hm => exact hs.moved hp hm

theorem step {a : Action} {out : Outcome} (hs : s.WellFormed) (h : s.step a = some out) :
    out.1.WellFormed := by
  obtain ⟨x, hdid, hout | hout⟩ := does_of_step h
  · exact hout ▸ hs.did hdid
  · exact hout ▸ (hs.did hdid).release

end WellFormed

theorem wellFormed_of_run {o : Options} {s : System} {turns : List (Turn System Action Event)}
    (h : Run System.step (new o) turns s) : s.WellFormed :=
  h.invariant (wellFormed_new o) fun _ _ _ _ hs hstep => hs.step hstep

end System

end Batchflow.Enqueuer
