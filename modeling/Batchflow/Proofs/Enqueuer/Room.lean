import Batchflow.Proofs.Enqueuer.Accounting

/-!
# Room in the channels of a run

The intake of a run has as many places as the options say, and so has its failure channel; nobody
waits there while a place is free.  A worker that waits for room in the failure channel stands in
line there or has got a place, unless the channel has closed, and so does a call to enqueue at the
intake.  So whoever cannot go on waits at a channel that is full.
-/

namespace Batchflow

namespace Channel

variable {ι α : Type}

def Serves (c : Channel ι α) (who : ι) : Prop := c.closed = true ∨ who ∈ c.places.everybody

variable {c c' : Channel ι α} {who w : ι} {x : α}

theorem Serves.receive (hc : c.Serves w) (h : c.receive? = some (x, c')) : c'.Serves w := by
  rw [(receive?_eq_some h).2, Serves, Permits.everybody_add]
  exact hc

theorem serves_close (c : Channel ι α) (w : ι) : c.close.Serves w := .inl rfl

theorem serves_discard (c : Channel ι α) (w : ι) : c.discard.Serves w := .inl rfl

/-- A sender that arrives joins the end of the line, or nobody is moved. -/
theorem Serves.send {arrival : Arrival} (hc : c.Serves w) (h : c.send who x = (c', arrival)) :
    c'.Serves w := by
  cases arrival with
  | accepted =>
    obtain ⟨-, free, -, rfl⟩ := send_eq_accepted h
    exact hc
  | waiting =>
    obtain ⟨-, -, rfl⟩ := send_eq_waiting h
    exact hc.imp_right fun hmem =>
      (Permits.everybody_request c.places who).mem_iff.mpr (List.mem_cons_of_mem _ hmem)
  | refused => exact eq_of_send_refused h ▸ hc

theorem serves_of_waiting (h : c.send who x = (c', .waiting)) : c'.Serves who := by
  obtain ⟨-, -, rfl⟩ := send_eq_waiting h
  exact .inr ((Permits.everybody_request c.places who).mem_iff.mpr List.mem_cons_self)

variable [DecidableEq ι]

theorem Serves.fill (hc : c.Serves w) (hheld : who ∈ c.places.held) (hne : w ≠ who) :
    (c.fill who x).Serves w := by
  refine hc.imp_right fun hmem => ?_
  rw [Channel.fill, Permits.everybody_spend hheld]
  exact (List.mem_erase_of_ne hne).mpr hmem

theorem Serves.leave (hc : c.Serves w) (hne : w ≠ who) : (c.leave who).Serves w := by
  refine hc.imp_right fun hmem => ?_
  rw [Channel.leave, Permits.everybody_leave]
  exact (List.mem_erase_of_ne hne).mpr hmem

theorem resume?_ne_waiting : c.resume? who ≠ some .waiting := by
  unfold resume?
  split_ifs <;> simp

theorem resume?_eq_none : c.resume? who = none ↔ c.closed = false ∧ who ∉ c.places.held := by
  unfold resume?
  split_ifs with hclosed hholds
  · simp [hclosed]
  · simpa [hclosed] using hholds
  · simpa [hclosed] using hholds

/-- Where somebody cannot go on, every place is taken. -/
theorem Sized.full {n : Nat} (hc : c.Sized n) (hserves : c.Serves who)
    (hwaits : c.resume? who = none) : c.places.free = 0 ∧
      c.buffer.length + c.places.held.length = n := by
  obtain ⟨hopen, hheld⟩ := resume?_eq_none.mp hwaits
  have hline : who ∈ c.places.line := by
    rcases hserves with hclosed | hmem
    · simp [hopen] at hclosed
    · exact (List.mem_append.mp hmem).resolve_left hheld
  have hfree : c.places.free = 0 := by
    by_contra hpos
    simp [hc.fair (Nat.pos_of_ne_zero hpos)] at hline
  have hcapacity := hc.capacity
  rw [Channel.capacity, Permits.total, hfree] at hcapacity
  exact ⟨hfree, by omega⟩

end Channel

namespace Chunker.Feed

variable {ι α : Type} {o : Options} {now : Nat} {f f' : Feed ι α} {m : Move}
  {chunk : Option (List α)}

theorem Moved.source (h : Moved o now f m f' chunk) :
    f'.channel = f.channel ∨ (∃ x, f.channel.receive? = some (x, f'.channel)) ∨
      f'.channel = f.channel.close ∨ f'.channel = f.channel.discard := by
  cases h with
  | stopNoticed | endNoticed => exact .inr (.inr (.inl rfl))
  | collected _ hreceive | filled _ hreceive | drained _ hreceive | drainFilled _ hreceive =>
    exact .inr (.inl ⟨_, hreceive⟩)
  | panicked => exact .inr (.inr (.inr rfl))
  | tickSwallowed | aged | finished | flushed | handled => exact .inl rfl

theorem Moved.sized {n : Nat} (h : Moved o now f m f' chunk) (hf : f.channel.Sized n) :
    f'.channel.Sized n := by
  rcases h.source with heq | ⟨x, hreceive⟩ | heq | heq
  · exact heq ▸ hf
  · exact hf.receive hreceive
  · exact heq ▸ hf.close
  · exact heq ▸ hf.discard

theorem Moved.serves {w : ι} (h : Moved o now f m f' chunk) (hf : f.channel.Serves w) :
    f'.channel.Serves w := by
  rcases h.source with heq | ⟨x, hreceive⟩ | heq | heq
  · exact heq ▸ hf
  · exact hf.receive hreceive
  · exact heq ▸ Channel.serves_close _ w
  · exact heq ▸ Channel.serves_discard _ w

end Chunker.Feed

namespace Enqueuer

open Pipeline

namespace Pipeline

variable {ι : Type} {o : Options} {hasHandler : Bool} {now : Nat} {p p' : Pipeline ι} {m : Move}
  {notes : List Note}

/-- Both channels are as large as the options say, and the worker waits where it says. -/
structure Roomed (o : Options) (p : Pipeline ι) : Prop where
  intake : p.feed.channel.Sized o.bufferSize
  failures : p.failures.Sized o.failedBufferSize
  blocked : ∀ {v rest}, p.submission = .blocked v rest → p.failures.Serves ()

theorem Roomed.start (o : Options) (sink now : Nat) :
    (Pipeline.start o sink now : Pipeline ι).Roomed o where
  intake := Channel.sized_ofCapacity _ _
  failures := Channel.sized_ofCapacity _ _
  blocked := by simp [Pipeline.start]

theorem failures_setFeed (p : Pipeline ι) (feed : Chunker.Feed ι Message) :
    ∃ handles, (p.setFeed feed).failures = { p.failures with handles } := by
  unfold setFeed
  split
  · exact ⟨p.failures.handles - 1, rfl⟩
  · exact ⟨p.failures.handles, rfl⟩

theorem Roomed.setFeed {feed : Chunker.Feed ι Message} (hp : p.Roomed o)
    (hfeed : feed.channel.Sized o.bufferSize) : (p.setFeed feed).Roomed o := by
  obtain ⟨handles, hfailures⟩ := p.failures_setFeed feed
  refine ⟨by simpa using hfeed, ?_, fun hblocked => ?_⟩
  · rw [hfailures]
    exact ⟨hp.failures.capacity, hp.failures.fair⟩
  · rw [hfailures]
    exact hp.blocked (by simpa using hblocked)

theorem Roomed.submit {submission : Submission} (hp : p.Roomed o)
    (hfree : ∀ v rest, submission ≠ .blocked v rest) :
    ({ p with submission } : Pipeline ι).Roomed o :=
  ⟨hp.intake, hp.failures, fun hblocked => absurd hblocked (hfree _ _)⟩

theorem Moved.roomed (h : Moved o hasHandler now p m p' notes) (hp : p.Roomed o) :
    p'.Roomed o := by
  cases h with
  | worked _ hfeed => exact hp.setFeed (hfeed.sized hp.intake)
  | submitted _ hfeed | sinkPanicked _ _ hfeed | reported _ hfeed =>
    exact (hp.setFeed (hfeed.sized hp.intake)).submit (by simp)
  | answered => exact hp.submit (by simp)
  | queued _ hsend | unheard _ hsend =>
    exact ⟨hp.intake, (Channel.sent_of_send hsend).sized hp.failures, by simp⟩
  | blocked _ hsend =>
    exact ⟨hp.intake, (Channel.sent_of_send hsend).sized hp.failures,
      fun _ => Channel.serves_of_waiting hsend⟩
  | @unblocked v _ _ hresume =>
    have hheld := (Channel.resume?_eq_accepted hresume).2
    exact ⟨hp.intake, (Channel.Sent.filled v hheld).sized hp.failures, by simp⟩
  | cutOff => exact ⟨hp.intake, (Channel.Sent.left ()).sized hp.failures, by simp⟩
  | taken _ _ hreceive | logged _ _ hreceive =>
    exact ⟨hp.intake, hp.failures.receive hreceive,
      fun hblocked => (hp.blocked hblocked).receive hreceive⟩
  | endNoticed | handled => exact ⟨hp.intake, hp.failures, hp.blocked⟩
  | handlerPanicked =>
    exact ⟨hp.intake, hp.failures.discard, fun _ => Channel.serves_discard _ _⟩

theorem Change.roomed {move : Option Move} {x y : Option (Pipeline Caller)}
    {item : Option Message} (h : Change o hasHandler now move x item notes y)
    (hx : ∀ p ∈ x, p.Roomed o) : ∀ p ∈ y, p.Roomed o := by
  induction h with
  | same => exact hx
  | born sink =>
    rintro p ⟨⟩
    exact .start o sink now
  | sent hsent =>
    rintro q ⟨⟩
    obtain ⟨hintake, hfailures, hblocked⟩ := hx _ rfl
    exact ⟨hsent.sized hintake, hfailures, hblocked⟩
  | moved hm =>
    rintro q ⟨⟩
    exact hm.roomed (hx _ rfl)
  | tended _ htended ih =>
    rintro r ⟨⟩
    obtain ⟨hintake, hfailures, hblocked⟩ := ih hx _ rfl
    cases htended
    exact ⟨⟨hintake.capacity, hintake.fair⟩, ⟨hfailures.capacity, hfailures.fair⟩, hblocked⟩

end Pipeline

namespace System

variable {o : Options} {s s' : System} {a : Action} {out : Outcome} {events : List Event}
  {caller : Caller} {c : Call} {turns : History} {run : Nat} {m : Message} {p : Pipeline Caller}

theorem roomed_of_run (h : Run step (new o) turns s) (run : Nat) :
    ∀ p ∈ s.pipelines[run]?, p.Roomed o := by
  induction h with
  | nil => simp [new]
  | snoc hrun hstep ih =>
    obtain ⟨item, notes, hchange, -⟩ := effect_of_step hstep run
    rw [options_of_run hrun] at hchange
    exact hchange.roomed ih

/-- Every call to enqueue that waits stands in line at its intake. -/
def Lined (s : System) : Prop :=
  ∀ caller run m p, (caller, .enqueue run m) ∈ s.calls → s.pipelines[run]? = some p →
    p.feed.channel.Serves caller

def NoneNew (s s' : System) : Prop :=
  ∀ caller run m, (caller, .enqueue run m) ∈ s'.calls → (caller, .enqueue run m) ∈ s.calls

theorem noneNew_without (h : s'.calls = s.calls) (caller : Caller) :
    s.NoneNew (s'.without caller) := fun _ _ _ hcall => h ▸ (Calls.mem_without.mp hcall).1

theorem noneNew_await (h : s'.calls = s.calls) (caller : Caller)
    (hc : ∀ run m, c ≠ .enqueue run m) : s.NoneNew (s'.await caller c) := by
  intro w run m hcall
  rcases Calls.mem_await.mp hcall with ⟨hcall, -⟩ | ⟨-, heq⟩
  · exact h ▸ hcall
  · exact absurd heq.symm (hc run m)

namespace Lined

theorem tended (hs : s.Lined) (hcalls : s.NoneNew s')
    (h : Alike Tended s.pipelines s'.pipelines) : s'.Lined := by
  intro caller run m q hcall hq
  obtain ⟨p, hp, hpq⟩ := h.exists_left hq
  have hserves := hs _ _ _ _ (hcalls _ _ _ hcall) hp
  cases hpq
  exact hserves

/-- One pipeline is changed, and keeps those who wait there. -/
theorem modify {f : Pipeline Caller → Pipeline Caller} (hs : s.Lined) (hcalls : s.NoneNew s')
    (hpipelines : s'.pipelines = s.pipelines.modify run f)
    (hf : ∀ {caller m p}, (caller, .enqueue run m) ∈ s'.calls → s.pipelines[run]? = some p →
      p.feed.channel.Serves caller → (f p).feed.channel.Serves caller) : s'.Lined := by
  intro caller i m q hcall hq
  rw [hpipelines, List.getElem?_modify, Option.map_eq_map, Option.map_eq_some_iff] at hq
  obtain ⟨p, hp, rfl⟩ := hq
  have hserves := hs _ _ _ _ (hcalls _ _ _ hcall) hp
  split
  · rename_i hi
    subst hi
    exact hf hcall hp hserves
  · exact hserves

theorem started (hs : s.Lined) (hformed : s.WellFormed) {sink : Nat}
    (hcalls : s.NoneNew s') (hpipelines : s'.pipelines = (s.startRun sink).pipelines) :
    s'.Lined := by
  intro caller run m q hcall hq
  rw [hpipelines] at hq
  rcases getElem?_concat_eq_some hq with hq | ⟨hlast, -⟩
  · obtain ⟨p, hp, hpq⟩ := s.tended_dropIntake.exists_left hq
    have hserves := hs _ _ _ _ (hcalls _ _ _ hcall) hp
    cases hpq
    exact hserves
  · have hlt := hformed.enqueue (hcalls _ _ _ hcall)
    rw [hlast, s.tended_dropIntake.length] at hlt
    exact absurd hlt (Nat.lt_irrefl _)

theorem served {c : Channel Caller Message} (hs : s.Lined) (hp : s.pipelines[run]? = some p)
    (hc : ∀ w, w ≠ caller → p.feed.channel.Serves w → c.Serves w) :
    ((s.setChannel run c).without caller).Lined := by
  refine hs.modify (noneNew_without rfl caller) rfl fun hcall hq hserves => ?_
  obtain rfl := Option.some.inj (hp.symm.trans hq)
  exact hc _ (Calls.mem_without.mp hcall).2 hserves

theorem went (hs : s.Lined) (hformed : s.WellFormed) (h : s.Went caller s' events) :
    s'.Lined := by
  cases h with
  | started => exact hs.started hformed (noneNew_without s.calls_dropIntake caller) rfl
  | startRefused | stopRefused => exact hs.tended (noneNew_without rfl caller) (.refl .refl _)
  | stopTaken =>
    exact hs.tended (noneNew_await rfl caller (by simp)) (s.tended_takeOver caller _)
  | workerEnded =>
    exact hs.tended (noneNew_await s.calls_dropIntake caller (by simp))
      (s.tended_workerEnded caller _ _)
  | stopped => exact hs.tended (noneNew_without rfl caller) (s.tended_conclude _)
  | enqueued _ hp hresume =>
    exact hs.served hp fun w hne hserves =>
      hserves.fill (Channel.resume?_eq_accepted hresume).2 hne
  | rejected _ hp => exact hs.served hp fun w hne hserves => hserves.leave hne

/-- A caller that arrives at an intake moves nobody, and is in line if it waits. -/
theorem arrived {c : Channel Caller Message} {arrival : Arrival} (hs : s.Lined)
    (hp : s.pipelines[run]? = some p) (hsend : p.feed.channel.send caller m = (c, arrival)) :
    (s.setChannel run c).Lined ∧
      (arrival = .waiting → ((s.setChannel run c).await caller (.enqueue run m)).Lined) := by
  have hlined : (s.setChannel run c).Lined := by
    refine hs.modify (fun _ _ _ => id) rfl fun hcall hq hserves => ?_
    obtain rfl := Option.some.inj (hp.symm.trans hq)
    exact hserves.send hsend
  refine ⟨hlined, ?_⟩
  rintro rfl w i k q hcall hq
  rcases Calls.mem_await.mp hcall with ⟨hcall, -⟩ | ⟨rfl, heq⟩
  · exact hlined _ _ _ _ hcall hq
  · obtain ⟨rfl, rfl⟩ := Call.enqueue.inj heq
    obtain rfl : { p with feed := { p.feed with channel := c } } = q := by
      simpa [setChannel, await, modifyPipeline, hp] using hq
    exact Channel.serves_of_waiting hsend

theorem did (hs : s.Lined) (hformed : s.WellFormed) (h : s.Did a s' events) : s'.Lined := by
  have hasked {caller : Caller} {c : Call} (ha : Asks a caller c) : (s.ask caller c).Lined :=
    hs.tended (noneNew_await rfl caller (by cases ha <;> simp)) (.refl .refl _)
  cases h with
  | asked ha => exact hasked ha
  | atOnce ha hcall hwent => exact (hasked ha).went (hformed.ask hcall ha.stand) hwent
  | enqueued _ _ _ hp hsend | rejected _ _ _ hp hsend => exact (hs.arrived hp hsend).1
  | enqueueWaits _ _ _ hp hsend => exact (hs.arrived hp hsend).2 rfl
  | notRunning => exact hs
  | lockAborted | drainingAborted =>
    exact hs.tended (noneNew_without rfl _) (.refl .refl _)
  | stoppingAborted => exact hs.tended (noneNew_without rfl _) (s.tended_dropFailures _)
  | @enqueueAborted caller run m =>
    unfold leaveIntake pipeline?
    split
    · exact hs.served ‹_› fun w hne hserves => hserves.leave hne
    · exact hs.tended (noneNew_without rfl _) (.refl .refl _)
  | handleAdded | handleDropped | advanced => exact hs
  | resumed hwent => exact hs.went hformed hwent
  | moved hp _ hm =>
    refine hs.modify (fun _ _ _ => id) rfl fun _ hq hserves => ?_
    obtain rfl := Option.some.inj (hp.symm.trans hq)
    rcases hm.feed with ⟨hfeed, -⟩ | ⟨k, chunk, hfeed, -⟩
    · exact hfeed ▸ hserves
    · exact hfeed.serves hserves

end Lined

theorem lined_of_run (h : Run step (new o) turns s) : s.Lined := by
  induction h with
  | nil => simp [Lined, new]
  | snoc hrun hstep ih =>
    obtain ⟨x, hdid, hx⟩ := does_of_step hstep
    have hlined := ih.did (wellFormed_of_run hrun) hdid
    dsimp only at hx
    rcases hx with rfl | rfl
    · exact hlined
    · exact hlined.tended (fun _ _ _ hcall => calls_release x ▸ hcall) x.tended_release

end System

end Enqueuer

end Batchflow
