import Batchflow.Proofs.Enqueuer.Admission

/-!
# How much a run holds back

What an enqueuer has accepted and not submitted is in the intake, in the batch that the worker
makes, or in the batch that it submits.  A worker does not receive while it submits, so it never has
more than one batch in hand, and both channels are bounded.  When the sink panics the worker drops
what it had, and nothing more is accepted.
-/

namespace Batchflow

namespace Channel

variable {ι α : Type} {c c' : Channel ι α} {taken : Option α} {n : Nat}

theorem Sized.load_le (hc : c.Sized n) : c.buffer.length + c.places.held.length ≤ n := by
  have hcapacity := hc.capacity
  simp only [Channel.capacity, Permits.total] at hcapacity
  omega

/-- A closed channel takes something only from who gives up a place for it. -/
theorem Sent.taken_le [DecidableEq ι] (h : c.Sent taken c') (hc : c.Settled)
    (hclosed : c.closed = true) :
    taken.toList.length + c'.places.held.length ≤ c.places.held.length := by
  cases h with
  | refused | counted => simp
  | accepted _ hopen | requested _ hopen => simp [hopen] at hclosed
  | @filled who x hheld =>
    have hlength := List.length_erase_of_mem hheld
    have hpos := List.length_pos_of_mem hheld
    simp only [fill, Permits.spend, Option.toList_some, List.length_singleton]
    omega
  | left who =>
    have hline := hc hclosed
    simp only [Channel.leave, Permits.leave, Permits.giveBack, Option.toList_none, List.length_nil,
      Nat.zero_add]
    split
    · rw [Permits.held_add (p := c.places.spend who) hline]
      exact List.length_erase_le
    · exact Nat.le_refl _

end Channel

namespace Chunker

variable {ι α : Type}

def Worker.chunks : Worker α → List (List α)
  | .handling chunk _ => [chunk]
  | _ => []

theorem Worker.chunks_of_not_handling {w : Worker α} (h : w.isHandling = false) :
    w.chunks = [] := by
  cases w <;> simp_all [isHandling, chunks]

variable {o : Options} {now : Nat} {f f' : Feed ι α} {m : Move} {chunk : Option (List α)}

theorem Feed.Moved.chunks_eq (h : f.Moved o now m f' chunk) (hf : f.worker.isHandling = false) :
    f'.worker.chunks = chunk.toList := by
  cases h with
  | tickSwallowed hw => rw [hw]; rfl
  | handled hw | panicked _ hw => simp [hw, Worker.isHandling] at hf
  | _ => rfl

theorem Feed.Moved.length_chunks (h : f.Moved o now m f' chunk) (hf : f.Sound o)
    (hchunks : ∀ c ∈ f.worker.chunks, c.length ≤ o.size) :
    ∀ c ∈ f'.worker.chunks, c.length ≤ o.size := by
  have hnew := h.length_chunk hf
  cases h with
  | tickSwallowed => exact hchunks
  | @handled _ resume => cases resume <;> simp [Resume.worker, Worker.chunks]
  | aged | filled | drainFilled | flushed =>
    intro c hc
    obtain rfl := List.mem_singleton.mp hc
    exact (hnew _ rfl).2
  | _ => simp [Worker.chunks]

end Chunker

namespace Enqueuer

open Pipeline

def Move.isHandlerEnd : Move → Bool
  | .handlerReturns => true
  | .handlerPanics _ => true
  | _ => false

def handled (run : Nat) (turns : History) : Nat :=
  turns.countP fun t => (t.action.move? run).any Move.isHandlerEnd

theorem handled_concat (run : Nat) (turns : History) (t : Turn System Action Event) :
    handled run (turns ++ [t]) =
      handled run turns + ((t.action.move? run).any Move.isHandlerEnd).toNat := by
  cases h : (t.action.move? run).any Move.isHandlerEnd <;> simp [handled, h]

namespace Pipeline

variable {ι : Type}

/-- The batch whose submission is over by a move: the sink has answered, and all its failures are
reported. -/
def submitted? (p : Pipeline ι) : Move → Option (List Message)
  | .report =>
    match p.submission, p.feed.worker with
    | .reporting [], .handling chunk _ => some chunk
    | _, _ => none
  | _ => none

end Pipeline

/-- The batches of a run whose submission is over, in order. -/
def submitted (run : Nat) (turns : History) : List (List Message) :=
  turns.filterMap fun t => t.before.pipelines[run]?.bind fun p =>
    (t.action.move? run).bind p.submitted?

namespace Pipeline

variable {ι : Type} {o : Options} {hasHandler : Bool} {now : Nat} {p p' : Pipeline ι} {m : Move}
  {notes : List Note}

theorem submitted?_eq_none (h : p.submission ≠ .reporting []) : p.submitted? m = none := by
  cases m with
  | report =>
    simp only [submitted?]
    split
    · exact absurd ‹_› h
    · rfl
  | _ => rfl

/-- A batch is in hand from when the sink is called until its submission is over. -/
theorem Moved.chunks (h : Moved o hasHandler now p m p' notes)
    (hm : ∀ panic, m ≠ .sinkPanics panic) :
    p.feed.worker.chunks ++ notes.filterMap Note.batch? =
      (p.submitted? m).toList ++ p'.feed.worker.chunks := by
  cases h with
  | worked hown hfeed | submitted hown hfeed =>
    have hbefore := (isHandling_of_own hfeed hown).1
    simp [hfeed.chunks_eq hbefore, Chunker.Worker.chunks_of_not_handling hbefore, submitted?,
      Note.batch?]
  | answered batch result => cases result <;> simp [submitted?, answerNotes, Note.batch?]
  | sinkPanicked panic => exact absurd rfl (hm panic)
  | reported hs hfeed =>
    cases hfeed with
    | @handled chunk resume hw =>
      have hafter : (resume.worker : Chunker.Worker Message).chunks = [] := by cases resume <;> rfl
      simp only [feed_setFeed, hafter]
      simp [submitted?, hs, hw, Chunker.Worker.chunks]
  | queued hs | blocked hs | unheard hs | unblocked hs | cutOff hs =>
    simp [submitted?_eq_none (p := p) (by simp [hs]), lost, Note.batch?]
  | taken | logged | endNoticed | handled | handlerPanicked => simp [submitted?, Note.batch?]

theorem Moved.kept (h : Moved o hasHandler now p m p' notes)
    (hm : ∀ panic, m ≠ .sinkPanics panic) :
    p.feed.kept = (notes.filterMap Note.batch?).flatten ++ p'.feed.kept := by
  rcases h.feed with ⟨hfeed, hnone⟩ | ⟨k, chunk, hfeed, hbatch, hpanic⟩
  · simp [hfeed, hnone]
  · rw [hbatch, ← hfeed.kept_eq fun panic hk => hm panic (hpanic panic hk)]

/-- What a run has accepted and not submitted: the batch in hand and what the worker keeps, or what
it had when the sink panicked. -/
inductive Holds (o : Options) (p : Pipeline ι) (chunks : List (List Message))
    (rest : List Message) : Prop
  | working : (∀ panic, p.feed.worker ≠ .panicked panic) → chunks = p.feed.worker.chunks →
      rest = p.feed.kept → Holds o p chunks rest
  | dropped {panic} : p.feed.worker = .panicked panic → chunks.length ≤ 1 →
      chunks.flatten.length + rest.length + p.feed.channel.places.held.length ≤
        o.bufferSize + o.batchSize → Holds o p chunks rest

variable {chunks : List (List Message)} {rest : List Message}

theorem length_flatten_chunks {w : Chunker.Worker Message} {n : Nat}
    (hchunks : ∀ c ∈ w.chunks, c.length ≤ n) (hbatch : w.batch.length ≤ n) :
    w.chunks.flatten.length + w.batch.length ≤ n := by
  cases w with
  | handling => simpa [Chunker.Worker.chunks] using hchunks
  | collecting | draining => simpa [Chunker.Worker.chunks] using hbatch
  | returned | panicked => simp [Chunker.Worker.chunks]

/-- A batch and a full intake are all that there is room for. -/
theorem Holds.load_le (h : Holds o p chunks rest) (hsound : p.feed.Sound o.chunkerOptions)
    (hroomed : p.Roomed o) (hchunks : ∀ c ∈ p.feed.worker.chunks, c.length ≤ o.batchSize) :
    chunks.length ≤ 1 ∧
      chunks.flatten.length + rest.length + p.feed.channel.places.held.length ≤
        o.bufferSize + o.batchSize := by
  cases h with
  | working _ hhand hrest =>
    subst hhand hrest
    have hintake := hroomed.intake.load_le
    have hbatch : p.feed.worker.batch.length < o.batchSize := hsound.batch_lt
    have hhand := length_flatten_chunks hchunks hbatch.le
    refine ⟨?_, ?_⟩
    · cases p.feed.worker <;> simp [Chunker.Worker.chunks]
    · simp only [Chunker.Feed.kept, List.length_append]
      omega
  | dropped _ hone hload => exact ⟨hone, hload⟩

theorem Moved.length_chunks (h : Moved o hasHandler now p m p' notes)
    (hsound : p.feed.Sound o.chunkerOptions)
    (hp : ∀ c ∈ p.feed.worker.chunks, c.length ≤ o.batchSize) :
    ∀ c ∈ p'.feed.worker.chunks, c.length ≤ o.batchSize := by
  rcases h.feed with ⟨hfeed, -⟩ | ⟨k, chunk, hfeed, -⟩
  · exact hfeed ▸ hp
  · exact hfeed.length_chunks hsound hp

/-- What a run has accepted was submitted, or it is still held. -/
structure Owes (o : Options) (items : List Message) (batches done : List (List Message))
    (p : Pipeline Caller) : Prop where
  sizes : ∀ c ∈ p.feed.worker.chunks, c.length ≤ o.batchSize
  held : ∃ chunks rest, batches = done ++ chunks ∧ items = batches.flatten ++ rest ∧
    p.Holds o chunks rest

variable {items : List Message} {batches done : List (List Message)} {p p' : Pipeline Caller}

theorem Owes.start (o : Options) (sink now : Nat) :
    (Pipeline.start o sink now).Owes o [] [] [] where
  sizes := by simp [Pipeline.start, Chunker.Feed.start, Chunker.Worker.chunks]
  held := ⟨[], [], rfl, rfl, .working (by simp [Pipeline.start, Chunker.Feed.start]) rfl rfl⟩

theorem Owes.sent {taken : Option Message} {c : Channel Caller Message}
    (h : p.Owes o items batches done) (hsound : p.feed.Sound o.chunkerOptions)
    (hsent : p.feed.channel.Sent taken c) :
    Owes o (items ++ taken.toList) batches done
      { p with feed := { p.feed with channel := c } } := by
  obtain ⟨chunks, rest, hbatches, hitems, hholds⟩ := h.held
  refine ⟨h.sizes, chunks, rest ++ taken.toList, hbatches, by rw [hitems, List.append_assoc], ?_⟩
  cases hholds with
  | working hno hchunks hrest =>
    refine .working hno hchunks ?_
    rw [hrest, Chunker.Feed.kept, Chunker.Feed.kept, hsent.buffer, List.append_assoc]
  | @dropped panic hpanic hone hload =>
    refine .dropped hpanic hone ?_
    have hclosed : p.feed.channel.closed = true := by
      rw [hsound.closed_eq, hpanic]
      rfl
    have htaken := hsent.taken_le hsound.settled hclosed
    simp only [List.length_append]
    omega

theorem Moved.of_panicked {panic : Panic} (h : Moved o hasHandler now p m p' notes)
    (hp : p.feed.worker = .panicked panic) :
    p'.feed = p.feed ∧ notes.filterMap Note.batch? = [] ∧ p.submitted? m = none := by
  rcases h.feed with ⟨hfeed, hnone⟩ | ⟨k, chunk, hfeed, -⟩
  · refine ⟨hfeed, hnone, ?_⟩
    cases m <;> simp [submitted?, hp]
  · have hnot := hfeed.not_ended
    simp [hp, Chunker.Worker.ended] at hnot

theorem Owes.moved (h : p.Owes o items batches done) (hsound : p.feed.Sound o.chunkerOptions)
    (hroomed : p.Roomed o) (hm : Moved o hasHandler now p m p' notes) :
    Owes o items (batches ++ notes.filterMap Note.batch?) (done ++ (p.submitted? m).toList)
      p' := by
  refine ⟨hm.length_chunks hsound h.sizes, ?_⟩
  obtain ⟨chunks, rest, hbatches, hitems, hholds⟩ := h.held
  obtain ⟨hone, hload⟩ := hholds.load_le hsound hroomed h.sizes
  cases hholds with
  | dropped hpanic =>
    obtain ⟨hfeed, hnone, hno⟩ := hm.of_panicked hpanic
    refine ⟨chunks, rest, by simp [hbatches, hnone, hno], by simp [hitems, hnone], ?_⟩
    exact .dropped (hfeed ▸ hpanic) hone (hfeed ▸ hload)
  | working hno hchunks hrest =>
    by_cases hpanic : ∃ panic, m = .sinkPanics panic
    · -- The batch in hand and the intake are dropped; who has a place keeps it.
      obtain ⟨panic, rfl⟩ := hpanic
      cases hm with
      | sinkPanicked _ hs hfeed =>
        cases hfeed
        refine ⟨chunks, rest, by simp [hbatches, submitted?], by simp [hitems], ?_⟩
        refine .dropped (congrArg Chunker.Feed.worker (feed_setFeed _ _)) hone ?_
        rw [feed_setFeed]
        exact hload
    · have hreturns (panic : Panic) : m ≠ .sinkPanics panic := fun heq => hpanic ⟨panic, heq⟩
      refine ⟨p'.feed.worker.chunks, p'.feed.kept, ?_, ?_, .working ?_ rfl rfl⟩
      · rw [hbatches, hchunks, List.append_assoc, hm.chunks hreturns,
          List.append_assoc]
      · rw [hitems, hrest, hm.kept hreturns, List.flatten_append, List.append_assoc]
      · rcases hm.feed with ⟨hfeed, -⟩ | ⟨k, chunk, hfeed, -, hsink⟩
        · exact hfeed ▸ hno
        · exact hfeed.not_panicked (fun panic hk => hreturns panic (hsink panic hk)) hno

def Backlog (o : Options) (items : List Message) (batches done : List (List Message)) :
    Option (Pipeline Caller) → Prop
  | none => items = [] ∧ batches = [] ∧ done = []
  | some p => p.Owes o items batches done

variable {move : Option Move} {x y : Option (Pipeline Caller)} {item : Option Message}

theorem Change.backlog (h : Change o hasHandler now move x item notes y) (hsound : Sound o x)
    (hroomed : ∀ p ∈ x, p.Roomed o) (hx : Backlog o items batches done x) :
    Backlog o (items ++ item.toList) (batches ++ notes.filterMap Note.batch?)
      (done ++ (x.bind fun p => move.bind p.submitted?).toList) y := by
  induction h with
  | same => simpa using hx
  | born sink =>
    obtain ⟨rfl, rfl, rfl⟩ := hx
    exact .start o sink now
  | sent hsent => simpa [Backlog] using hx.sent (hsound _ rfl).1 hsent
  | moved hm => simpa [Backlog] using hx.moved (hsound _ rfl).1 (hroomed _ rfl) hm
  | tended _ htended ih =>
    obtain ⟨hsizes, chunks, rest, hbatches, hitems, hholds⟩ := ih hsound hroomed hx
    cases htended
    refine ⟨hsizes, chunks, rest, hbatches, hitems, ?_⟩
    cases hholds with
    | working hno hchunks hrest => exact .working hno hchunks hrest
    | dropped hpanic hone hload => exact .dropped hpanic hone hload

theorem Change.length_batch (h : Change o hasHandler now move x item notes y)
    (hsound : Sound o x) :
    ∀ ms ∈ notes.filterMap Note.batch?, 1 ≤ ms.length ∧ ms.length ≤ o.batchSize := by
  induction h with
  | same | born | sent => simp
  | moved hm =>
    rcases hm.feed with ⟨-, hnone⟩ | ⟨k, chunk, hfeed, hbatch, -⟩
    · simp [hnone]
    · intro ms hms
      rw [hbatch, Option.mem_toList] at hms
      exact hfeed.length_chunk (hsound _ rfl).1 ms hms
  | tended _ _ ih => exact ih hsound

theorem Moved.calls (h : Moved o hasHandler now p m p' notes) :
    (notes.filterMap Note.failure?).length + p.busy = m.isHandlerEnd.toNat + p'.busy := by
  by_cases hpanic : ∃ panic, m = .handlerPanics panic
  · obtain ⟨panic, rfl⟩ := hpanic
    cases h with
    | handlerPanicked _ hr => simp [Move.isHandlerEnd, Pipeline.busy, hr, Reporter.isHandling]
  · have hm (panic : Panic) : m ≠ .handlerPanics panic := fun heq => hpanic ⟨panic, heq⟩
    have hend : m.isHandlerEnd = m.isReturn := by
      cases m <;> first | rfl | exact absurd rfl (hm _)
    rw [hend]
    exact h.busy hm

theorem Change.calls (h : Change o hasHandler now move x item notes y) :
    (notes.filterMap Note.failure?).length + (x.map Pipeline.busy).getD 0 =
      (move.any Move.isHandlerEnd).toNat + (y.map Pipeline.busy).getD 0 := by
  induction h with
  | same | sent => simp [Pipeline.busy]
  | born => simp [Pipeline.busy, Pipeline.start, Reporter.isHandling]
  | moved hm => simpa using hm.calls
  | tended _ htended ih =>
    cases htended
    exact ih

end Pipeline

namespace System

variable {o : Options} {s : System} {turns : History} {run : Nat} {p : Pipeline Caller}

theorem backlog_of_run (h : Run step (new o) turns s) (run : Nat) :
    Backlog o (taken run turns) (batches run turns) (submitted run turns) s.pipelines[run]? := by
  induction h with
  | nil => exact ⟨rfl, rfl, rfl⟩
  | snoc hrun hstep ih =>
    obtain ⟨item, notes, hchange, htook, hbatch, -⟩ := effect_of_step hstep run
    rw [options_of_run hrun] at hchange
    have hbacklog := hchange.backlog (sound_of_run hrun run) (roomed_of_run hrun run) ih
    rw [taken_append, batches_append, submitted, filterMap_concat]
    simpa [taken, batches, submitted, htook, hbatch] using hbacklog

theorem length_batch_of_run (h : Run step (new o) turns s) (run : Nat) :
    ∀ ms ∈ batches run turns, 1 ≤ ms.length ∧ ms.length ≤ o.batchSize := by
  induction h with
  | nil => simp [batches]
  | snoc hrun hstep ih =>
    obtain ⟨item, notes, hchange, -, hbatch, -⟩ := effect_of_step hstep run
    rw [options_of_run hrun] at hchange
    intro ms hms
    rw [batches_append] at hms
    rcases List.mem_append.mp hms with hms | hms
    · exact ih ms hms
    · exact hchange.length_batch (sound_of_run hrun run) ms (by simpa [batches, hbatch] using hms)

theorem calls_of_run (h : Run step (new o) turns s) (run : Nat) :
    (failures run turns).length =
      handled run turns + (s.pipelines[run]?.map Pipeline.busy).getD 0 := by
  induction h with
  | nil => simp [failures, handled, new]
  | @snoc turns s₁ s₂ a events hrun hstep ih =>
    obtain ⟨item, notes, hchange, -, -, hfailure⟩ := effect_of_step hstep run
    have hcalls := hchange.calls
    have hfails : failures run (turns ++ [⟨s₁, a, events⟩]) =
        failures run turns ++ notes.filterMap Note.failure? := by
      simp [failures, hfailure]
    rw [hfails, handled_concat, List.length_append]
    dsimp only at hcalls ⊢
    omega

/-- What is on its way in a run, at most. -/
structure Bounded (o : Options) (run : Nat) (turns : History) (p : Pipeline Caller) : Prop where
  intake : p.feed.channel.buffer.length ≤ o.bufferSize
  /-- The messages whose calls were accepted are those of the batches and some more; of the batches
  one at most is not submitted to its end. -/
  outstanding : ∃ chunks rest, batches run turns = submitted run turns ++ chunks ∧
    chunks.length ≤ 1 ∧
    (fates turns).filterMap (acceptedIn? run) = (batches run turns).flatten ++ rest ∧
    chunks.flatten.length + rest.length ≤ o.bufferSize + o.batchSize
  batch : ∀ ms ∈ batches run turns, 1 ≤ ms.length ∧ ms.length ≤ o.batchSize
  failure : p.failures.buffer.length ≤ o.failedBufferSize
  /-- The handler is inside one call at most. -/
  handler : handled run turns ≤ (failures run turns).length ∧
    (failures run turns).length ≤ handled run turns + 1

theorem bounded_of_run (h : Run step (new o) turns s) (hp : s.pipelines[run]? = some p) :
    Bounded o run turns p := by
  have hroomed := roomed_of_run h run p hp
  have hsound := (sound_of_run h run p hp).1
  have hbacklog := backlog_of_run h run
  have hcalls := calls_of_run h run
  rw [hp] at hbacklog hcalls
  refine ⟨?_, ?_, length_batch_of_run h run, ?_, ?_⟩
  · have hintake := hroomed.intake.load_le
    omega
  · obtain ⟨hsizes, chunks, rest, hbatches, hitems, hholds⟩ := hbacklog
    obtain ⟨hone, hload⟩ := hholds.load_le hsound hroomed hsizes
    exact ⟨chunks, rest, hbatches, hone, taken_eq h run ▸ hitems, by omega⟩
  · have hfailures := hroomed.failures.load_le
    omega
  · have hbusy : p.busy ≤ 1 := by
      unfold Pipeline.busy
      split <;> omega
    simp only [Option.map_some, Option.getD_some] at hcalls
    omega

/-- However many call to enqueue and however long the sink and the handler take, a run holds back a
bounded number of messages and failures: the intake has room for `bufferSize` messages, the messages
that were accepted and whose submission is not over are `bufferSize + batchSize` at most, a batch
has one to `batchSize` messages, the failure channel has room for `failedBufferSize` failures, and
the handler is inside one call at most.  The calls to enqueue that wait get their places in the order
in which they were made, and when nobody can go on the intake at which a call waits is full of
messages.  A run begins only with valid options; all this holds as well while a call stops the run
and when the sink or the handler has panicked. -/
theorem run_bounded {o : Options} {turns : History} {s : System} {run : Nat} {p : Pipeline Caller}
    (h : Run step (new o) turns s) (hp : s.pipelines[run]? = some p) :
    Bounded o run turns p ∧ s.AdmitsInOrder turns run p ∧
      (s.quiet = true → ∀ caller m, s.call? caller = some (.enqueue run m) →
        p.feed.channel.buffer.length = o.bufferSize) :=
  ⟨bounded_of_run h hp, admitsInOrder_of_run h hp,
    fun hquiet _ _ hcall => full_of_quiet h hquiet hp hcall⟩

/-- The first of five messages has failed and is with the handler, the second is submitted, two more
fill the intake, and the fifth waits for a place. -/
def throttledRun : List Action :=
  [.start (.client 0) 7, .enqueue (.client 1) (letter "a"), .move 0 (.worker .receive),
    .enqueue (.client 1) (letter "b"), .enqueue (.client 1) (letter "c"),
    .enqueue (.client 2) (letter "d"), .enqueue (.client 3) (letter "e"), refuses (letter "a"),
    .move 0 .report, .move 0 .report, .move 0 .take, .move 0 (.worker .receive),
    .resume (.client 2)]

theorem run_bounded_throttledRun : ∃ turns s p,
    Run step (new crowdedOptions) turns s ∧ s.pipelines[0]? = some p ∧ s.quiet = true ∧
      (∃ m, s.call? (.client 3) = some (.enqueue 0 m)) ∧
      submitted 0 turns = [[letter "a"]] ∧ batches 0 turns = [[letter "a"], [letter "b"]] ∧
      (fates turns).filterMap (acceptedIn? 0) =
        [letter "a", letter "b", letter "c", letter "d"] ∧
      p.feed.channel.buffer.length = crowdedOptions.bufferSize ∧
      Bounded crowdedOptions 0 turns p ∧ s.AdmitsInOrder turns 0 p := by
  have hseen : (replay step (new crowdedOptions) throttledRun).map (fun r =>
      ((r.2.quiet, (r.2.call? (.client 3)).any (Call.isEnqueue 0), r.2.pipelines.length),
        (submitted 0 r.1, batches 0 r.1), (fates r.1).filterMap (acceptedIn? 0))) =
      some ((true, true, 1), ([[letter "a"]], [[letter "a"], [letter "b"]]),
        [letter "a", letter "b", letter "c", letter "d"]) := by
    decide +kernel
  obtain ⟨⟨turns, s⟩, hreplay, hseen⟩ := Option.map_eq_some_iff.mp hseen
  simp only [Prod.mk.injEq] at hseen
  obtain ⟨⟨hquiet, hcall, hlength⟩, ⟨hsubmitted, hbatches⟩, haccepted⟩ := hseen
  obtain ⟨p, hp⟩ : ∃ p, s.pipelines[0]? = some p :=
    ⟨s.pipelines[0], List.getElem?_eq_getElem (by omega)⟩
  obtain ⟨m, hcall⟩ := call_of_isEnqueue hcall
  have hrun := Run.of_replay hreplay
  obtain ⟨hbounded, hadmits, hfull⟩ := run_bounded hrun hp
  exact ⟨turns, s, p, hrun, hp, hquiet, ⟨m, hcall⟩, hsubmitted, hbatches, haccepted,
    hfull hquiet _ m hcall, hbounded, hadmits⟩

end System

end Enqueuer

end Batchflow
