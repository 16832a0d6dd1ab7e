import Batchflow.Enqueuer.Pipeline
import Batchflow.Proofs.Chunker.Worker

/-!
# What a pipeline does

One relation says all that a move of a pipeline can be.  The worker of a pipeline is a worker of a
chunker, whose handler is made of several moves: the sink is called and answers, and the failures
of the batch are reported one by one.
-/

namespace Batchflow.Enqueuer

variable {ι : Type}

def failuresOfAnswer (batch : List Message) : Except Queue.Error (List Verdict) → List Verdict
  | .ok vs => vs.filter (!·.success)
  | .error e => batch.map fun m =>
    { message := m, success := false, senderFault := false, error := some e.message }

/-- What is written to the log when the sink has answered about so many messages. -/
def answerNotes (size : Nat) : Except Queue.Error (List Verdict) → List Note
  | .ok _ => []
  | .error e => [.log (.submissionFailed size e)]

def Note.batch? : Note → Option (List Message)
  | .batch ms => some ms
  | _ => none

def Note.failure? : Note → Option Verdict
  | .failure v => some v
  | _ => none

namespace Pipeline

@[simp] theorem feed_setFeed (p : Pipeline ι) (feed : Chunker.Feed ι Message) :
    (p.setFeed feed).feed = feed := by
  unfold setFeed
  split <;> rfl

@[simp] theorem submission_setFeed (p : Pipeline ι) (feed : Chunker.Feed ι Message) :
    (p.setFeed feed).submission = p.submission := by
  unfold setFeed
  split <;> rfl

@[simp] theorem reporter_setFeed (p : Pipeline ι) (feed : Chunker.Feed ι Message) :
    (p.setFeed feed).reporter = p.reporter := by
  unfold setFeed
  split <;> rfl

@[simp] theorem sink_setFeed (p : Pipeline ι) (feed : Chunker.Feed ι Message) :
    (p.setFeed feed).sink = p.sink := by
  unfold setFeed
  split <;> rfl

/-- All that a move of a pipeline can be, with what can be seen of it. -/
inductive Moved (o : Options) (hasHandler : Bool) (now : Nat) (p : Pipeline ι) :
    Move → Pipeline ι → List Note → Prop
  | worked {m feed} : isOwn m = true → p.feed.Moved o.chunkerOptions now m feed none →
      Moved o hasHandler now p (.worker m) (p.setFeed feed) []
  | submitted {m feed batch} : isOwn m = true →
      p.feed.Moved o.chunkerOptions now m feed (some batch) →
      Moved o hasHandler now p (.worker m) { p.setFeed feed with submission := .submitting }
        [.batch batch]
  | answered {chunk resume} (batch : List Message) (result : Except Queue.Error (List Verdict)) :
      p.submission = .submitting → p.feed.worker = .handling chunk resume →
      batch.length = chunk.length →
      Moved o hasHandler now p (.sinkReturns batch result)
        { p with submission := .reporting (failuresOfAnswer batch result) }
        (answerNotes chunk.length result)
  | sinkPanicked {feed} (panic : Panic) : p.submission = .submitting →
      p.feed.Moved o.chunkerOptions now (.handlerPanics panic) feed none →
      Moved o hasHandler now p (.sinkPanics panic) { p.setFeed feed with submission := .idle } []
  | reported {feed} : p.submission = .reporting [] →
      p.feed.Moved o.chunkerOptions now .handlerReturns feed none →
      Moved o hasHandler now p .report { p.setFeed feed with submission := .idle } []
  | queued {v rest failures} : p.submission = .reporting (v :: rest) →
      p.failures.send () v = (failures, .accepted) →
      Moved o hasHandler now p .report { p with failures, submission := .reporting rest } []
  | blocked {v rest failures} : p.submission = .reporting (v :: rest) →
      p.failures.send () v = (failures, .waiting) →
      Moved o hasHandler now p .report { p with failures, submission := .blocked v rest } []
  | unheard {v rest failures} : p.submission = .reporting (v :: rest) →
      p.failures.send () v = (failures, .refused) →
      Moved o hasHandler now p .report { p with failures, submission := .reporting rest } (lost v)
  | unblocked {v rest} : p.submission = .blocked v rest → p.failures.resume? () = some .accepted →
      Moved o hasHandler now p .report
        { p with failures := p.failures.fill () v, submission := .reporting rest } []
  | cutOff {v rest} : p.submission = .blocked v rest → p.failures.resume? () = some .refused →
      Moved o hasHandler now p .report
        { p with failures := p.failures.leave (), submission := .reporting rest } (lost v)
  | taken {v failures} : hasHandler = true → p.reporter = .waiting →
      p.failures.receive? = some (v, failures) →
      Moved o hasHandler now p .take { p with failures, reporter := .handling v } [.failure v]
  | logged {v failures} : hasHandler = false → p.reporter = .waiting →
      p.failures.receive? = some (v, failures) →
      Moved o hasHandler now p .take { p with failures } [.log (.messageFailed v)]
  | endNoticed : p.reporter = .waiting → p.failures.exhausted = true →
      Moved o hasHandler now p .noticeEnd { p with reporter := .returned } []
  | handled {v} : p.reporter = .handling v →
      Moved o hasHandler now p .handlerReturns { p with reporter := .waiting } []
  | handlerPanicked {v} (panic : Panic) : p.reporter = .handling v →
      Moved o hasHandler now p (.handlerPanics panic)
        { p with reporter := .panicked panic, failures := p.failures.discard } []

variable {o : Options} {hasHandler : Bool} {now : Nat} {p p' : Pipeline ι} {m : Move}
  {notes : List Note}

theorem moved_of_moveWorker {m : Chunker.Move} (h : p.moveWorker? o now m = some (p', notes)) :
    Moved o hasHandler now p (.worker m) p' notes := by
  unfold moveWorker? at h
  split at h
  · rename_i hown
    split at h <;> simp only [Option.some.injEq, Prod.mk.injEq, reduceCtorEq] at h
    · obtain ⟨rfl, rfl⟩ := h
      exact .worked hown (Chunker.Feed.moved_of_step ‹_›)
    · obtain ⟨rfl, rfl⟩ := h
      exact .submitted hown (Chunker.Feed.moved_of_step ‹_›)
  · contradiction

theorem moved_of_sinkReturns {batch : List Message} {result : Except Queue.Error (List Verdict)}
    (h : p.sinkReturns? batch result = some (p', notes)) :
    Moved o hasHandler now p (.sinkReturns batch result) p' notes := by
  unfold sinkReturns? at h
  split at h
  · rename_i hsubmission hworker
    split at h
    · rename_i hlength
      split at h <;> simp only [Option.some.injEq, Prod.mk.injEq] at h <;> obtain ⟨rfl, rfl⟩ := h
      · exact .answered batch (.ok _) hsubmission hworker hlength
      · exact .answered batch (.error _) hsubmission hworker hlength
    · contradiction
  · contradiction

theorem moved_of_sinkPanics {panic : Panic} (h : p.sinkPanics? panic = some p') :
    Moved o hasHandler now p (.sinkPanics panic) p' [] := by
  unfold sinkPanics? at h
  split at h
  · obtain ⟨feed, hfeed, rfl⟩ := Option.map_eq_some_iff.mp h
    exact .sinkPanicked panic ‹_› (Chunker.Feed.moved_of_handlerPanics hfeed)
  · contradiction

theorem moved_of_report (h : p.report? = some (p', notes)) :
    Moved o hasHandler now p .report p' notes := by
  unfold report? at h
  split at h
  · obtain ⟨feed, hfeed, hp⟩ := Option.map_eq_some_iff.mp h
    obtain ⟨rfl, rfl⟩ := Prod.mk.inj hp
    exact .reported ‹_› (Chunker.Feed.moved_of_handlerReturns hfeed)
  · split at h <;> obtain ⟨rfl, rfl⟩ := Prod.mk.inj (Option.some.inj h)
    · exact .queued ‹_› ‹_›
    · exact .blocked ‹_› ‹_›
    · exact .unheard ‹_› ‹_›
  · split at h
    · obtain ⟨rfl, rfl⟩ := Prod.mk.inj (Option.some.inj h)
      exact .unblocked ‹_› ‹_›
    · obtain ⟨rfl, rfl⟩ := Prod.mk.inj (Option.some.inj h)
      exact .cutOff ‹_› ‹_›
    · contradiction
  · contradiction

theorem moved_of_take (h : p.take? hasHandler = some (p', notes)) :
    Moved o hasHandler now p .take p' notes := by
  unfold take? at h
  split at h
  · rename_i hreporter hreceive
    split at h
    · obtain ⟨rfl, rfl⟩ := Prod.mk.inj (Option.some.inj h)
      exact .taken ‹_› hreporter hreceive
    · rename_i hno
      obtain ⟨rfl, rfl⟩ := Prod.mk.inj (Option.some.inj h)
      exact .logged (by simpa using hno) hreporter hreceive
  · contradiction

theorem moved_of_step (h : p.step o hasHandler now m = some (p', notes)) :
    Moved o hasHandler now p m p' notes := by
  cases m with
  | worker m => exact moved_of_moveWorker h
  | sinkReturns batch result => exact moved_of_sinkReturns h
  | sinkPanics panic =>
    simp only [step, Option.map_eq_some_iff, Prod.mk.injEq] at h
    obtain ⟨_, hp, rfl, rfl⟩ := h
    exact moved_of_sinkPanics hp
  | report => exact moved_of_report h
  | take => exact moved_of_take h
  | noticeEnd =>
    simp only [step, noticeEnd?, Option.map_eq_some_iff, Prod.mk.injEq] at h
    obtain ⟨_, hp, rfl, rfl⟩ := h
    split at hp
    · split at hp <;> simp only [Option.some.injEq, reduceCtorEq] at hp
      subst hp
      exact .endNoticed ‹_› ‹_›
    · contradiction
  | handlerReturns =>
    simp only [step, handlerReturns?, Option.map_eq_some_iff, Prod.mk.injEq] at h
    obtain ⟨_, hp, rfl, rfl⟩ := h
    split at hp <;> simp only [Option.some.injEq, reduceCtorEq] at hp
    subst hp
    exact .handled ‹_›
  | handlerPanics panic =>
    simp only [step, handlerPanics?, Option.map_eq_some_iff, Prod.mk.injEq] at h
    obtain ⟨_, hp, rfl, rfl⟩ := h
    split at hp <;> simp only [Option.some.injEq, reduceCtorEq] at hp
    subst hp
    exact .handlerPanicked panic ‹_›

/-- A move of a pipeline leaves its worker alone, or is a move of the worker. -/
theorem Moved.feed (h : Moved o hasHandler now p m p' notes) :
    (p'.feed = p.feed ∧ notes.filterMap Note.batch? = []) ∨
      ∃ k chunk, p.feed.Moved o.chunkerOptions now k p'.feed chunk ∧
        notes.filterMap Note.batch? = chunk.toList ∧
        ∀ panic, k = .handlerPanics panic → m = .sinkPanics panic := by
  cases h with
  | worked hown hfeed =>
    refine .inr ⟨_, _, by simpa using hfeed, rfl, ?_⟩
    rintro panic rfl
    simp [isOwn] at hown
  | submitted hown hfeed =>
    refine .inr ⟨_, _, by simpa using hfeed, rfl, ?_⟩
    rintro panic rfl
    simp [isOwn] at hown
  | sinkPanicked panic _ hfeed =>
    refine .inr ⟨_, _, by simpa using hfeed, rfl, ?_⟩
    rintro _ ⟨⟩
    rfl
  | reported _ hfeed => exact .inr ⟨_, _, by simpa using hfeed, rfl, by simp⟩
  | answered _ result => exact .inl ⟨rfl, by cases result <;> rfl⟩
  | _ => exact .inl ⟨rfl, rfl⟩

theorem Moved.sink (h : Moved o hasHandler now p m p' notes) : p'.sink = p.sink := by
  cases h <;> simp

def Engaged (p : Pipeline ι) : Prop := p.submission = .idle ↔ p.feed.worker.isHandling = false

theorem Engaged.idle_of_ended (hp : p.Engaged) (h : p.feed.worker.ended = true) :
    p.submission = .idle := by
  refine hp.mpr ?_
  cases hw : p.feed.worker <;> simp_all [Chunker.Worker.ended, Chunker.Worker.isHandling]

theorem isHandling_of_own {f f' : Chunker.Feed ι Message} {k : Chunker.Move} {co : Chunker.Options}
    {chunk : Option (List Message)} (h : f.Moved co now k f' chunk) (hown : isOwn k = true) :
    f.worker.isHandling = false ∧ f'.worker.isHandling = chunk.isSome := by
  cases h <;> simp_all [isOwn, Chunker.Worker.isHandling]

theorem Engaged.moved (hp : p.Engaged) (h : Moved o hasHandler now p m p' notes) : p'.Engaged := by
  unfold Engaged at *
  cases h with
  | worked hown hfeed =>
    obtain ⟨hbefore, hafter⟩ := isHandling_of_own hfeed hown
    simpa [hafter] using hp.mpr hbefore
  | submitted hown hfeed =>
    obtain ⟨-, hafter⟩ := isHandling_of_own hfeed hown
    simp [hafter]
  | answered _ _ hs | queued hs | blocked hs | unheard hs | unblocked hs | cutOff hs =>
    simpa [hs] using hp
  | sinkPanicked panic hs hfeed =>
    cases hfeed
    simp [Chunker.Worker.isHandling]
  | reported hs hfeed =>
    cases hfeed with
    | @handled _ resume => cases resume <;> simp [Chunker.Worker.isHandling, Chunker.Resume.worker]
  | _ => exact hp

end Pipeline

/-- Pipelines that stand to each other, one by one, in some relation. -/
structure Alike (R : Pipeline ι → Pipeline ι → Prop) (ps qs : List (Pipeline ι)) : Prop where
  length : qs.length = ps.length
  kept : ∀ {run : Nat} {p q : Pipeline ι}, ps[run]? = some p → qs[run]? = some q → R p q

namespace Alike

variable {R : Pipeline ι → Pipeline ι → Prop} {ps qs rs : List (Pipeline ι)}

theorem refl (hrefl : ∀ p, R p p) (ps : List (Pipeline ι)) : Alike R ps ps where
  length := rfl
  kept hp hq := by
    rw [hp] at hq
    obtain rfl := Option.some.inj hq
    exact hrefl _

theorem of_modify {run : Nat} {f : Pipeline ι → Pipeline ι} (h : qs = ps.modify run f)
    (hrefl : ∀ p, R p p) (hf : ∀ p, ps[run]? = some p → R p (f p)) : Alike R ps qs where
  length := by simp [h]
  kept {i p q} hp hq := by
    rw [h, List.getElem?_modify, hp] at hq
    obtain rfl := Option.some.inj hq
    split
    · rename_i hi
      exact hf p (hi ▸ hp)
    · exact hrefl p

theorem exists_left {run : Nat} {q : Pipeline ι} (h : Alike R ps qs) (hq : qs[run]? = some q) :
    ∃ p, ps[run]? = some p ∧ R p q := by
  have hlt : run < ps.length := by
    rw [← h.length]
    exact (List.getElem?_eq_some_iff.mp hq).1
  exact ⟨ps[run], List.getElem?_eq_getElem hlt, h.kept (List.getElem?_eq_getElem hlt) hq⟩

theorem exists_right {run : Nat} {p : Pipeline ι} (h : Alike R ps qs) (hp : ps[run]? = some p) :
    ∃ q, qs[run]? = some q ∧ R p q := by
  have hlt : run < qs.length := by
    rw [h.length]
    exact (List.getElem?_eq_some_iff.mp hp).1
  exact ⟨qs[run], List.getElem?_eq_getElem hlt, h.kept hp (List.getElem?_eq_getElem hlt)⟩

theorem imp {S : Pipeline ι → Pipeline ι → Prop} (himp : ∀ {p q}, R p q → S p q)
    (h : Alike R ps qs) : Alike S ps qs where
  length := h.length
  kept hp hq := himp (h.kept hp hq)

theorem map_eq {β : Type} {g : Pipeline ι → β} (h : Alike (fun p q => g q = g p) ps qs) :
    qs.map g = ps.map g := by
  refine List.ext_getElem? fun i => ?_
  simp only [List.getElem?_map]
  cases hq : qs[i]? with
  | some q =>
    obtain ⟨p, hp, hpq⟩ := h.exists_left hq
    simp [hp, hpq]
  | none =>
    have hp : ps[i]? = none := by
      rw [List.getElem?_eq_none_iff, ← h.length]
      exact List.getElem?_eq_none_iff.mp hq
    rw [hp]

theorem trans (htrans : ∀ {p q r}, R p q → R q r → R p r) (h : Alike R ps qs)
    (h' : Alike R qs rs) : Alike R ps rs where
  length := h'.length.trans h.length
  kept hp hr := by
    obtain ⟨q, hq, hpq⟩ := h.exists_right hp
    exact htrans hpq (h'.kept hq hr)

end Alike

end Batchflow.Enqueuer
