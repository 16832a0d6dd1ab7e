import Batchflow.Proofs.Enqueuer.CircularWait

/-!
# Who goes on while a run is stopped

A call that stops a run waits for the worker, the worker waits for room in the failure channel or
for those who have a place in the intake, and the reporter waits for failures.  None of them is
forgotten: the worker was told to stop, everybody who has a place in an intake is in a call, nobody
but the worker sends failures, and the reporter leaves before the worker only by a panic, which
closes the failure channel.  So somebody can always go on without the clock, as long as the handler
of the run is not itself in a call.
-/

namespace Batchflow.Chunker.Feed

variable {ι α : Type} {o : Options} {now : Nat} {f f' : Feed ι α} {m : Move}
  {chunk : Option (List α)}

theorem Moved.stopRequested (h : f.Moved o now m f' chunk) : f'.stopRequested = f.stopRequested := by
  cases h <;> rfl

theorem Moved.everybody (h : f.Moved o now m f' chunk) :
    f'.channel.places.everybody.Sublist f.channel.places.everybody := by
  have hclose : f.channel.close.places.everybody.Sublist f.channel.places.everybody := by
    simp [Channel.close, Permits.everybody]
  rcases h.source with heq | ⟨x, hreceive⟩ | heq | heq
  · rw [heq]
  · rw [(Channel.receive?_eq_some hreceive).2, Permits.everybody_add]
  · exact heq ▸ hclose
  · exact heq ▸ hclose

end Batchflow.Chunker.Feed

namespace Batchflow.Enqueuer

open Pipeline

/-- How many places of the failure channel the worker has or waits for. -/
def Submission.seats : Submission → Nat
  | .blocked .. => 1
  | _ => 0

namespace Options

variable {o : Options}

theorem checks_of_validate (h : o.validate = .ok ()) :
    Config.checkNumber "FailedBufferSize" o.failedBufferSize minFailedBuffer maxFailedBuffer =
        .ok () ∧
      Config.checkDuration "MaxMessageWait" o.maxWait minWait maxWaitLimit = .ok () := by
  unfold validate at h
  split at h
  · contradiction
  · split at h
    · contradiction
    · split at h
      · contradiction
      · exact ⟨‹_›, h⟩

theorem failedBufferSize_pos (h : o.validate = .ok ()) : 0 < o.failedBufferSize := by
  have hcheck := (checks_of_validate h).1
  unfold Config.checkNumber at hcheck
  split_ifs at hcheck with hrange
  simp only [minFailedBuffer] at hrange
  omega

end Options

namespace Pipeline

variable {ι : Type} {o : Options} {hasHandler : Bool} {now : Nat} {p p' q : Pipeline ι} {m : Move}
  {notes : List Note}

theorem isSome_finish {batch : List Message} (hworker : p.feed.worker = .draining batch)
    (hexhausted : p.feed.channel.exhausted = true) :
    (p.moveWorker? o now .finish).isSome = true := by
  refine isSome_moveWorker rfl ?_
  cases batch <;>
    simp [Chunker.Feed.step, Chunker.Feed.finish?, hworker, hexhausted, Chunker.Feed.handOver]

/-- Only the worker takes places in the failure channel, which is closed by a panic of the reporter
and by nothing else.  The reporter does not return before the worker has ended. -/
structure Attended (p : Pipeline ι) : Prop where
  places : p.failures.places.everybody.length ≤ p.submission.seats
  closed : p.failures.closed = true ↔ ∃ panic, p.reporter = .panicked panic
  returned : p.reporter = .returned → p.feed.worker.ended = true

theorem Attended.start (o : Options) (sink now : Nat) :
    (Pipeline.start o sink now : Pipeline ι).Attended where
  places := Nat.le_refl 0
  closed := by simp [Pipeline.start, Channel.ofCapacity]
  returned := by simp [Pipeline.start]

@[simp] theorem places_setFeed (p : Pipeline ι) (feed : Chunker.Feed ι Message) :
    (p.setFeed feed).failures.places = p.failures.places := by
  unfold setFeed
  split <;> rfl

theorem Moved.ended (h : Moved o hasHandler now p m p' notes)
    (hended : p.feed.worker.ended = true) : p'.feed.worker.ended = true := by
  rcases h.feed with ⟨hfeed, -⟩ | ⟨k, chunk, hfeed, -⟩
  · rwa [hfeed]
  · simp [hfeed.not_ended] at hended

/-- A worker takes a place when it begins to wait for room, and gives it up when it goes on. -/
theorem Moved.places (h : Moved o hasHandler now p m p' notes) (hp : p.Engaged)
    (hplaces : p.failures.places.everybody.length ≤ p.submission.seats) :
    p'.failures.places.everybody.length ≤ p'.submission.seats := by
  cases h with
  | worked => simpa using hplaces
  | submitted hown hfeed =>
    have hidle := hp.mpr (isHandling_of_own hfeed hown).1
    simpa [hidle, Submission.seats] using hplaces
  | sinkPanicked _ hs | reported hs => simpa [hs, Submission.seats] using hplaces
  | answered _ _ hs => simpa [hs, Submission.seats] using hplaces
  | queued hs hsend =>
    obtain ⟨-, free, -, rfl⟩ := Channel.send_eq_accepted hsend
    simpa [hs, Submission.seats, Permits.everybody] using hplaces
  | blocked hs hsend =>
    obtain ⟨-, -, rfl⟩ := Channel.send_eq_waiting hsend
    have hlength := (Permits.everybody_request p.failures.places ()).length_eq
    simp only [hs, Submission.seats, List.length_cons] at hplaces hlength ⊢
    omega
  | unheard hs hsend =>
    obtain rfl := Channel.eq_of_send_refused hsend
    simpa [hs, Submission.seats] using hplaces
  | unblocked hs hresume =>
    have hheld := (Channel.resume?_eq_accepted hresume).2
    have hmem : () ∈ p.failures.places.everybody := List.mem_append_left _ hheld
    rw [hs] at hplaces
    simp only [Channel.fill, Permits.everybody_spend hheld, List.length_erase_of_mem hmem]
    exact Nat.sub_le_sub_right hplaces 1
  | cutOff hs =>
    rw [hs] at hplaces
    simp only [Channel.leave, Permits.everybody_leave]
    cases heverybody : p.failures.places.everybody with
    | nil => exact Nat.le_refl 0
    | cons _ rest =>
      rw [heverybody] at hplaces
      simpa [Submission.seats] using hplaces
  | taken _ _ hreceive | logged _ _ hreceive =>
    rw [(Channel.receive?_eq_some hreceive).2]
    simpa using hplaces
  | endNoticed | handled => exact hplaces
  | handlerPanicked =>
    refine Nat.le_trans (List.Sublist.length_le ?_) hplaces
    simp [Channel.discard, Channel.close, Permits.everybody]

theorem Moved.closed_iff (h : Moved o hasHandler now p m p' notes)
    (hp : p.failures.closed = true ↔ ∃ panic, p.reporter = .panicked panic) :
    p'.failures.closed = true ↔ ∃ panic, p'.reporter = .panicked panic := by
  cases h with
  | worked | submitted | sinkPanicked | reported => simpa using hp
  | queued _ hsend | blocked _ hsend | unheard _ hsend =>
    rw [(Channel.sent_of_send hsend).closed]
    exact hp
  | taken _ hr hreceive | logged _ hr hreceive =>
    rw [Channel.closed_receive hreceive]
    simpa [hr] using hp
  | endNoticed hr | handled hr => simpa [hr] using hp
  | handlerPanicked panic => exact ⟨fun _ => ⟨panic, rfl⟩, fun _ => rfl⟩
  | answered | unblocked | cutOff => exact hp

theorem Moved.reporter_of_panicked {panic : Panic} (h : Moved o hasHandler now p m p' notes)
    (hp : p.reporter = .panicked panic) : p'.reporter = .panicked panic := by
  cases h with
  | worked | submitted | sinkPanicked | reported => simpa using hp
  | taken _ hr | logged _ hr | endNoticed hr | handled hr | handlerPanicked _ hr => simp [hr] at hp
  | _ => exact hp

theorem Moved.attended (h : Moved o hasHandler now p m p' notes) (hp : p.Attended)
    (hengaged : p.Engaged) (hhandles : p.workers ≤ p.failures.handles) : p'.Attended where
  places := h.places hengaged hp.places
  closed := h.closed_iff hp.closed
  returned := by
    intro hreturned
    by_cases hbefore : p.reporter = .returned
    · exact h.ended (hp.returned hbefore)
    · have hopen : p.failures.closed = false := by
        refine Bool.eq_false_iff.mpr fun hclosed => ?_
        obtain ⟨panic, hpanic⟩ := hp.closed.mp hclosed
        simp [h.reporter_of_panicked hpanic] at hreturned
      exact (h.finished hopen hhandles hbefore hreturned).worker

theorem Change.attended {move : Option Move} {x y : Option (Pipeline Caller)}
    {item : Option Message} (h : Change o hasHandler now move x item notes y)
    (hsound : Sound o x) (hhandles : ∀ p ∈ x, p.workers ≤ p.failures.handles)
    (hx : ∀ p ∈ x, p.Attended) : ∀ p ∈ y, p.Attended := by
  induction h with
  | same => exact hx
  | born sink =>
    rintro p ⟨⟩
    exact .start o sink now
  | sent =>
    rintro q ⟨⟩
    obtain ⟨hplaces, hclosed, hreturned⟩ := hx _ rfl
    exact ⟨hplaces, hclosed, hreturned⟩
  | moved hm =>
    rintro q ⟨⟩
    exact hm.attended (hx _ rfl) (hsound _ rfl).2 (hhandles _ rfl)
  | tended _ htended ih =>
    rintro r ⟨⟩
    obtain ⟨hplaces, hclosed, hreturned⟩ := ih hsound hhandles hx _ rfl
    cases htended
    exact ⟨hplaces, hclosed, hreturned⟩

/-- An order to stop stays, and nobody joins those at the intake. -/
structure Dwindles (p q : Pipeline Caller) : Prop where
  told : p.feed.stopRequested = true → q.feed.stopRequested = true
  everybody : q.feed.channel.places.everybody.Sublist p.feed.channel.places.everybody

theorem Dwindles.refl (p : Pipeline Caller) : Dwindles p p := ⟨id, .refl _⟩

theorem Dwindles.trans {p q r : Pipeline Caller} (h : Dwindles p q) (h' : Dwindles q r) :
    Dwindles p r := ⟨h'.told ∘ h.told, h'.everybody.trans h.everybody⟩

theorem Moved.dwindles {p p' : Pipeline Caller} (h : Moved o hasHandler now p m p' notes) :
    Dwindles p p' := by
  rcases h.feed with ⟨hfeed, -⟩ | ⟨k, chunk, hfeed, -⟩
  · exact ⟨hfeed ▸ id, hfeed ▸ .refl _⟩
  · exact ⟨hfeed.stopRequested ▸ id, hfeed.everybody⟩

end Pipeline

namespace System

variable {o : Options} {s s' : System} {a : Action} {out : Outcome} {events : List Event}
  {caller w : Caller} {c : Call} {turns : History} {run i : Nat} {m : Message}
  {p : Pipeline Caller}

theorem attended_of_run (h : Run step (new o) turns s) (run : Nat) :
    ∀ p ∈ s.pipelines[run]?, p.Attended := by
  induction h with
  | nil => simp [new]
  | snoc hrun hstep ih =>
    obtain ⟨item, notes, hchange, -⟩ := effect_of_step hstep run
    rw [options_of_run hrun] at hchange
    exact hchange.attended (sound_of_run hrun run)
      (fun p hp => (wellFormed_of_run hrun).workers_le hp) ih

theorem dwindles_modify (s : System) (run : Nat) {f : Pipeline Caller → Pipeline Caller}
    (hf : ∀ p, Dwindles p (f p)) :
    Alike Dwindles s.pipelines (s.modifyPipeline run f).pipelines :=
  .of_modify rfl .refl fun p _ => hf p

theorem dwindles_dropIntake (s : System) : Alike Dwindles s.pipelines s.dropIntake.pipelines :=
  s.related_dropIntake .refl fun _ _ => ⟨id, .refl _⟩

theorem dwindles_release (s : System) : Alike Dwindles s.pipelines s.release.pipelines :=
  s.related_release .refl (fun _ _ => ⟨id, .refl _⟩) .trans fun _ => ⟨id, .refl _⟩

/-- Whoever stops a run has told its worker so, and everybody who has a place in an intake, or
stands in line there, is in a call. -/
structure Present (s : System) : Prop where
  told : ∀ {caller} {run : Nat} {p : Pipeline Caller}, (caller, .stopping run) ∈ s.calls →
    s.pipelines[run]? = some p → p.feed.stopRequested = true
  nodup : ∀ {run : Nat} {p : Pipeline Caller}, s.pipelines[run]? = some p →
    p.feed.channel.places.everybody.Nodup
  pending : ∀ {run : Nat} {w} {p : Pipeline Caller}, s.pipelines[run]? = some p →
    w ∈ p.feed.channel.places.everybody → ∃ m, (w, .enqueue run m) ∈ s.calls

namespace Present

theorem new (o : Options) : (new o).Present where
  told := by simp [System.new]
  nodup := by simp [System.new]
  pending := by simp [System.new]

theorem frame (hs : s.Present)
    (hstopping : ∀ {w run}, (w, .stopping run) ∈ s'.calls → (w, .stopping run) ∈ s.calls)
    (henqueue : ∀ {w run m}, (w, .enqueue run m) ∈ s.calls → (w, .enqueue run m) ∈ s'.calls)
    (halike : Alike Dwindles s.pipelines s'.pipelines) : s'.Present where
  told hmem hq := by
    obtain ⟨p, hp, hpq⟩ := halike.exists_left hq
    exact hpq.told (hs.told (hstopping hmem) hp)
  nodup hq := by
    obtain ⟨p, hp, hpq⟩ := halike.exists_left hq
    exact (hs.nodup hp).sublist hpq.everybody
  pending hq hw := by
    obtain ⟨p, hp, hpq⟩ := halike.exists_left hq
    obtain ⟨m, hmem⟩ := hs.pending hp (hpq.everybody.subset hw)
    exact ⟨m, henqueue hmem⟩

theorem release (hs : s.Present) : s.release.Present :=
  hs.frame (fun h => calls_release s ▸ h) (fun h => (calls_release s).symm ▸ h) s.dwindles_release

theorem ended (hs : s.Present) (hw : s.WellFormed) (hcall : s.call? caller = some c)
    (hc : ∀ run m, c ≠ .enqueue run m) (hcalls : s'.calls = s.calls.filter (·.1 != caller))
    (halike : Alike Dwindles s.pipelines s'.pipelines) : s'.Present := by
  refine hs.frame (fun h => ?_) (fun h => ?_) halike
  · exact (Calls.mem_without.mp (hcalls ▸ h)).1
  · rw [hcalls]
    refine Calls.mem_without.mpr ⟨h, ?_⟩
    rintro rfl
    exact hc _ _ (hw.guarded.eq_of_mem (Calls.mem_of_lookup hcall) h)

/-- A call goes on to wait for something that is neither an order nor an intake. -/
theorem await {k : Call} (hs : s.Present) (hcaller : ∀ run m, (caller, .enqueue run m) ∉ s.calls)
    (hk : ∀ run, k ≠ .stopping run)
    (hcalls : s'.calls = s.calls.filter (·.1 != caller) ++ [(caller, k)])
    (halike : Alike Dwindles s.pipelines s'.pipelines) : s'.Present := by
  refine hs.frame (fun h => ?_) (fun h => ?_) halike
  · rcases Calls.mem_await.mp (hcalls ▸ h) with ⟨hmem, -⟩ | ⟨-, heq⟩
    · exact hmem
    · exact absurd heq.symm (hk _)
  · rw [hcalls]
    refine Calls.mem_await.mpr (.inl ⟨h, ?_⟩)
    rintro rfl
    exact hcaller _ _ h

/-- A caller fills its place, or leaves the intake, and its call is over. -/
theorem served {d : Channel Caller Message} (hs : s.Present) (hw : s.WellFormed)
    (hcall : s.call? caller = some (.enqueue run m)) (hp : s.pipelines[run]? = some p)
    (hd : d.places.everybody = p.feed.channel.places.everybody.erase caller) :
    ((s.setChannel run d).without caller).Present := by
  have hmem := Calls.mem_of_lookup hcall
  have hsub : d.places.everybody.Sublist p.feed.channel.places.everybody :=
    hd ▸ List.erase_sublist
  have halike : Alike Dwindles s.pipelines (s.setChannel run d).pipelines := by
    refine .of_modify rfl .refl fun q hq => ?_
    obtain rfl := Option.some.inj (hp.symm.trans hq)
    exact ⟨id, hsub⟩
  refine ⟨fun {w i q} h hq => ?_, fun hq => ?_, fun {i v q} hq hv => ?_⟩
  · obtain ⟨r, hr, hrq⟩ := halike.exists_left hq
    exact hrq.told (hs.told (Calls.mem_without.mp h).1 hr)
  · obtain ⟨r, hr, hrq⟩ := halike.exists_left hq
    exact (hs.nodup hr).sublist hrq.everybody
  · obtain ⟨r, hr, hrq⟩ := halike.exists_left hq
    obtain ⟨k, hk⟩ := hs.pending hr (hrq.everybody.subset hv)
    refine ⟨k, Calls.mem_without.mpr ⟨hk, ?_⟩⟩
    -- The caller itself waited at this intake only, and is no longer there.
    rintro rfl
    obtain ⟨rfl, -⟩ := Call.enqueue.inj (hw.guarded.eq_of_mem hmem hk)
    obtain rfl := Option.some.inj (hp.symm.trans hr)
    obtain rfl : { p with feed := { p.feed with channel := d } } = q := by
      simpa [setChannel, System.without, modifyPipeline, hp] using hq
    have hgone : v ∉ p.feed.channel.places.everybody.erase v := (hs.nodup hp).not_mem_erase
    exact hgone (hd ▸ hv)

/-- A caller arrives at an intake where it has to wait. -/
theorem arrived {d : Channel Caller Message} (hs : s.Present) (hcall : s.call? caller = none)
    (hp : s.pipelines[run]? = some p) (hsend : p.feed.channel.send caller m = (d, .waiting)) :
    ((s.setChannel run d).await caller (.enqueue run m)).Present := by
  have hnew {k : Call} : (caller, k) ∉ s.calls := Calls.not_mem_of_lookup hcall
  obtain ⟨-, -, rfl⟩ := Channel.send_eq_waiting hsend
  have hperm := Permits.everybody_request p.feed.channel.places caller
  have hfound {i : Nat} {q : Pipeline Caller}
      (hq : (s.setChannel run { p.feed.channel with
        places := p.feed.channel.places.request caller }).pipelines[i]? = some q) :
      (i = run ∧ q.feed.channel.places = p.feed.channel.places.request caller ∧
        q.feed.stopRequested = p.feed.stopRequested) ∨ s.pipelines[i]? = some q := by
    simp only [setChannel, modifyPipeline, List.getElem?_modify, Option.map_eq_map,
      Option.map_eq_some_iff] at hq
    obtain ⟨r, hr, rfl⟩ := hq
    split
    · rename_i hi
      subst hi
      obtain rfl := Option.some.inj (hp.symm.trans hr)
      exact .inl ⟨rfl, rfl, rfl⟩
    · exact .inr hr
  refine ⟨fun {w i q} h hq => ?_, fun {i q} hq => ?_, fun {i v q} hq hv => ?_⟩
  · have hmem : (w, .stopping i) ∈ s.calls := by
      rcases Calls.mem_await.mp h with ⟨hmem, -⟩ | ⟨-, heq⟩
      · exact hmem
      · cases heq
    rcases hfound hq with ⟨rfl, -, htold⟩ | hq
    · rw [htold]
      exact hs.told hmem hp
    · exact hs.told hmem hq
  · rcases hfound hq with ⟨rfl, hplaces, -⟩ | hq
    · rw [hplaces, hperm.nodup_iff, List.nodup_cons]
      refine ⟨fun hmem => ?_, hs.nodup hp⟩
      obtain ⟨k, hk⟩ := hs.pending hp hmem
      exact hnew hk
    · exact hs.nodup hq
  · have hkeep {k : Message} (hk : (v, .enqueue i k) ∈ s.calls) : ∃ m',
        (v, .enqueue i m') ∈ ((s.setChannel run { p.feed.channel with
          places := p.feed.channel.places.request caller }).await caller (.enqueue run m)).calls := by
      refine ⟨k, Calls.mem_await.mpr (.inl ⟨hk, ?_⟩)⟩
      rintro rfl
      exact hnew hk
    rcases hfound hq with ⟨rfl, hplaces, -⟩ | hq
    · rw [hplaces] at hv
      rcases List.mem_cons.mp (hperm.mem_iff.mp hv) with rfl | hv
      · exact ⟨m, Calls.mem_await.mpr (.inr ⟨rfl, rfl⟩)⟩
      · obtain ⟨k, hk⟩ := hs.pending hp hv
        exact hkeep hk
    · obtain ⟨k, hk⟩ := hs.pending hq hv
      exact hkeep hk

/-- The worker of the run that is taken over is told so. -/
theorem takeOver (hs : s.Present) (hw : s.WellFormed) (hcall : s.call? caller = some .stop)
    (hheld : caller ∈ s.lock.held) : (s.takeOver caller run).Present := by
  have hmem := Calls.mem_of_lookup hcall
  have halike : Alike Dwindles s.pipelines (s.takeOver caller run).pipelines :=
    .of_modify rfl .refl fun _ _ => ⟨fun _ => rfl, .refl _⟩
  refine ⟨fun {w i q} h hq => ?_, fun hq => ?_, fun hq hv => ?_⟩
  · rcases Calls.mem_await.mp h with ⟨h, -⟩ | ⟨-, heq⟩
    · exact absurd rfl (hw.guarded.not_inside hheld hmem rfl h)
    · obtain rfl := Call.stopping.inj heq
      simp only [System.takeOver, System.await, modifyPipeline, List.getElem?_modify_eq,
        Option.map_eq_map, Option.map_eq_some_iff] at hq
      obtain ⟨p, -, rfl⟩ := hq
      rfl
  · obtain ⟨p, hp, hpq⟩ := halike.exists_left hq
    exact (hs.nodup hp).sublist hpq.everybody
  · obtain ⟨p, hp, hpq⟩ := halike.exists_left hq
    obtain ⟨k, hk⟩ := hs.pending hp (hpq.everybody.subset hv)
    refine ⟨k, Calls.mem_await.mpr (.inl ⟨hk, ?_⟩)⟩
    rintro rfl
    have := hw.guarded.eq_of_mem hmem hk
    cases this

/-- A run begins while nobody stops one. -/
theorem startRun (hs : s.Present) (hw : s.WellFormed) (hstate : s.state = .stopped) (sink : Nat) :
    (s.startRun sink).Present := by
  have hd : s.dropIntake.Present := hs.frame (fun h => s.calls_dropIntake ▸ h)
    (fun h => s.calls_dropIntake.symm ▸ h) s.dwindles_dropIntake
  have hnone {w : Caller} {i : Nat} : (w, .stopping i) ∉ (s.startRun sink).calls := by
    intro hmem
    have hmem : (w, .stopping i) ∈ s.dropIntake.calls := hmem
    rw [calls_dropIntake] at hmem
    have hrunning := (hw.stopping hmem).state
    simp [hstate] at hrunning
  refine ⟨fun h => absurd h hnone, fun hq => ?_, fun hq hv => ?_⟩
  · rcases getElem?_concat_eq_some hq with hq | ⟨-, rfl⟩
    · exact hd.nodup hq
    · exact List.nodup_nil
  · rcases getElem?_concat_eq_some hq with hq | ⟨-, rfl⟩
    · exact hd.pending hq hv
    · exact absurd hv List.not_mem_nil

theorem went (hs : s.Present) (hw : s.WellFormed) (h : s.Went caller s' events) : s'.Present := by
  cases h with
  | @started sink hcall hheld hstate =>
    have hstart := hs.startRun hw hstate sink
    have hcall' : (s.startRun sink).call? caller = some (.start sink) := by
      rw [← hcall]
      exact congrArg (fun calls : List (Caller × Call) => calls.lookup caller) s.calls_dropIntake
    exact hstart.ended (hw.startRun hstate sink) hcall' (by simp) rfl (.refl .refl _)
  | startRefused _ hcall | stopRefused _ hcall =>
    exact hs.ended hw hcall (by simp) rfl (.refl .refl _)
  | stopTaken hcall hheld => exact hs.takeOver hw hcall hheld
  | @workerEnded run p worker hcall =>
    refine hs.await (fun i m hmem => ?_) (by simp) (congrArg (fun calls : List (Caller × Call) =>
      calls.filter (·.1 != caller) ++ [(caller, .draining run worker)]) s.calls_dropIntake)
      (s.dwindles_dropIntake.trans .trans
        (s.dropIntake.dwindles_modify run fun _ => ⟨id, .refl _⟩))
    have := hw.guarded.eq_of_mem (Calls.mem_of_lookup hcall) hmem
    cases this
  | stopped hcall =>
    exact hs.ended hw hcall (by simp) rfl (s.dwindles_modify _ fun _ => ⟨id, .refl _⟩)
  | enqueued hcall hp hresume =>
    exact hs.served hw hcall hp (Permits.everybody_spend (Channel.resume?_eq_accepted hresume).2)
  | rejected hcall hp => exact hs.served hw hcall hp (Permits.everybody_leave _ _)

theorem ask (hs : s.Present) (hcall : s.mayCall caller = true) (hc : c.stand = .waiting) :
    (s.ask caller c).Present := by
  have hnone := call?_eq_none_of_mayCall hcall
  refine hs.await (fun _ _ => Calls.not_mem_of_lookup hnone) ?_ rfl (.refl .refl _)
  rintro run rfl
  cases hc

theorem passed {d : Channel Caller Message} (hs : s.Present) (hp : s.pipelines[run]? = some p)
    (hd : d.places.everybody = p.feed.channel.places.everybody) : (s.setChannel run d).Present := by
  refine hs.frame id id (.of_modify rfl .refl fun q hq => ?_)
  obtain rfl := Option.some.inj (hp.symm.trans hq)
  exact ⟨id, hd ▸ .refl _⟩

theorem did (hs : s.Present) (hw : s.WellFormed) (h : s.Did a s' events) : s'.Present := by
  cases h with
  | asked ha hcall => exact hs.ask hcall ha.stand
  | atOnce ha hcall hwent => exact (hs.ask hcall ha.stand).went (hw.ask hcall ha.stand) hwent
  | enqueued _ _ _ hp hsend =>
    obtain ⟨-, free, -, rfl⟩ := Channel.send_eq_accepted hsend
    exact hs.passed hp rfl
  | enqueueWaits hcall _ _ hp hsend => exact hs.arrived (call?_eq_none_of_mayCall hcall) hp hsend
  | rejected _ _ _ hp hsend =>
    obtain rfl := Channel.eq_of_send_refused hsend
    exact hs.passed hp rfl
  | notRunning => exact hs
  | lockAborted hcall hc =>
    refine hs.ended hw hcall ?_ rfl (.refl .refl _)
    rintro run m rfl
    cases hc
  | stoppingAborted hcall =>
    exact hs.ended hw hcall (by simp) rfl (s.dwindles_modify _ fun _ => ⟨id, .refl _⟩)
  | drainingAborted hcall => exact hs.ended hw hcall (by simp) rfl (.refl .refl _)
  | @enqueueAborted caller run m hcall =>
    have hlt := hw.enqueue (Calls.mem_of_lookup hcall)
    have hp := List.getElem?_eq_getElem hlt
    have hpipeline : s.pipeline? run = some s.pipelines[run] := hp
    rw [leaveIntake, hpipeline]
    exact hs.served hw hcall hp (Permits.everybody_leave _ _)
  | handleAdded | handleDropped | advanced => exact hs.frame id id (.refl .refl _)
  | resumed hwent => exact hs.went hw hwent
  | moved hp _ hm =>
    refine hs.frame id id (.of_modify rfl .refl fun q hq => ?_)
    obtain rfl := Option.some.inj (hp.symm.trans hq)
    exact hm.dwindles

end Present

theorem present_of_run (h : Run step (new o) turns s) : s.Present := by
  induction h with
  | nil => exact .new o
  | snoc hrun hstep ih =>
    obtain ⟨x, hdid, hx⟩ := does_of_step hstep
    have hpresent := ih.did (wellFormed_of_run hrun) hdid
    dsimp only at hx
    rcases hx with rfl | rfl
    · exact hpresent
    · exact hpresent.release

/-- The steps by which a run winds down that a call stops: those of its worker and its reporter, of
its sink and its handler, of the calls that wait at an intake, and of the call itself. -/
inductive Winds (s : System) (caller : Caller) (run : Nat) : Action → Prop
  | move (m : Move) : Winds s caller run (.move run m)
  | producer {v : Caller} {j : Nat} {message : Message} : (v, .enqueue j message) ∈ s.calls →
      Winds s caller run (.resume v)
  | stop : Winds s caller run (.resume caller)

/-- One of these steps is possible. -/
def Proceeds (s : System) (caller : Caller) (run : Nat) : Prop :=
  ∃ a, s.Winds caller run a ∧ (s.step a).isSome = true

theorem proceeds_of_isSome {m : Move} (hp : s.pipelines[run]? = some p)
    (hallowed : s.allowed run m = true)
    (h : (p.step s.options (s.options.hasHandler && s.reachable) s.now m).isSome = true) :
    s.Proceeds caller run :=
  ⟨.move run m, .move m, isSome_move hp hallowed h⟩

theorem proceeds_or_untroubled (hp : s.pipelines[run]? = some p)
    (hfree : s.call? (.handler run) = none) : s.Proceeds caller run ∨ p.Untroubled := by
  cases hhandling : p.reporter.isHandling with
  | true =>
    left
    apply proceeds_of_isSome hp _ (isSome_handlerReturns hhandling)
    simp [allowed, handlerCalls, hfree]
  | false =>
    rcases reporter_takes hhandling with htakes | hnothing
    · exact .inl (proceeds_of_isSome hp rfl htakes)
    · exact .inr hnothing

/-- A worker that waits for room in the failure channel leaves the reporter something to do. -/
theorem troubled_of_isBlocked (h : Run step (new o) turns s) (hp : s.pipelines[run]? = some p)
    (hblocked : p.IsBlocked) : ¬ p.Untroubled := by
  obtain ⟨v, rest, hsubmission, hwaits⟩ := hblocked
  have hattended := attended_of_run h run p hp
  have hroomed := roomed_of_run h run p hp
  obtain ⟨hopen, hheld⟩ := Channel.resume?_eq_none.mp hwaits
  rintro (hended | ⟨-, hbuffer⟩)
  · cases hr : p.reporter with
    | waiting | handling => simp [hr, Reporter.outcome?] at hended
    | returned =>
      have hidle := (sound_of_run h run p hp).2.idle_of_ended (hattended.returned hr)
      simp [hsubmission] at hidle
    | panicked panic =>
      have hclosed := hattended.closed.mpr ⟨panic, hr⟩
      simp [hopen] at hclosed
  · -- A full channel is not empty.
    have hfull := (hroomed.failures.full (hroomed.blocked hsubmission) hwaits).2
    have hpos := Options.failedBufferSize_pos (validate_of_run h hp)
    have hnone : p.failures.places.held = [] :=
      List.eq_nil_iff_forall_not_mem.mpr fun _ hmem => hheld hmem
    simp only [hbuffer, hnone, List.length_nil] at hfull
    omega

theorem proceeds_of_isBlocked (h : Run step (new o) turns s) (hp : s.pipelines[run]? = some p)
    (hfree : s.call? (.handler run) = none) (hblocked : p.IsBlocked) : s.Proceeds caller run :=
  (proceeds_or_untroubled hp hfree).resolve_right (troubled_of_isBlocked h hp hblocked)

/-- A worker that was told to stop does so, or waits for those who have a place in the intake. -/
theorem proceeds_of_idle (h : Run step (new o) turns s) (hp : s.pipelines[run]? = some p)
    (hmem : (caller, .stopping run) ∈ s.calls) (hended : p.feed.worker.ended = false)
    (hidle : p.submission = .idle) (hbuffer : p.feed.channel.buffer = []) :
    s.Proceeds caller run := by
  obtain ⟨hfeed, hengaged⟩ := sound_of_run h run p hp
  have hpresent := present_of_run h
  have hw := wellFormed_of_run h
  cases hworker : p.feed.worker with
  | collecting batch =>
    refine proceeds_of_isSome (m := .worker .noticeStop) hp rfl (isSome_moveWorker rfl ?_)
    simp [Chunker.Feed.step, Chunker.Feed.noticeStop?, hworker, hpresent.told hmem hp]
  | draining batch =>
    have hclosed := hfeed.closed_of_draining hworker
    cases hheld : p.feed.channel.places.held with
    | nil =>
      have hexhausted := Channel.exhausted_iff.mpr ⟨⟨hbuffer, hheld⟩, .inl hclosed⟩
      exact proceeds_of_isSome (m := .worker .finish) hp rfl (isSome_finish hworker hexhausted)
    | cons w rest =>
      have hplace : w ∈ p.feed.channel.places.everybody := by simp [Permits.everybody, hheld]
      obtain ⟨m, hcall⟩ := hpresent.pending hp hplace
      refine ⟨.resume w, .producer hcall, ?_⟩
      rcases isSome_resume_or_waits hw (Calls.lookup_of_mem hw.guarded.keys hcall) with
        hsome | ⟨m', q, -, hq, hwaits⟩
      · exact hsome
      · obtain rfl := Option.some.inj (hp.symm.trans hq)
        have hopen := (Channel.resume?_eq_none.mp hwaits).1
        simp [hclosed] at hopen
  | handling =>
    have := hengaged.mp hidle
    simp [hworker, Chunker.Worker.isHandling] at this
  | returned | panicked => simp [hworker, Chunker.Worker.ended] at hended

theorem proceeds_of_stopping (h : Run step (new o) turns s)
    (hmem : (caller, .stopping run) ∈ s.calls) (hfree : s.call? (.handler run) = none) :
    s.Proceeds caller run := by
  have hw := wellFormed_of_run h
  have hlast := (hw.stopping hmem).last
  obtain ⟨p, hp⟩ : ∃ p, s.pipelines[run]? = some p :=
    ⟨s.pipelines[run], List.getElem?_eq_getElem (by omega)⟩
  have hengaged := (sound_of_run h run p hp).2
  cases hended : p.feed.worker.ended with
  | true =>
    obtain ⟨worker, hworker⟩ :=
      Option.isSome_iff_exists.mp (p.feed.worker.isSome_outcome.trans hended)
    refine ⟨.resume caller, .stop, ?_⟩
    simp [step, resume?, call?, Calls.lookup_of_mem hw.guarded.keys hmem, pipeline?, hp, hworker]
  | false =>
    by_cases hblocked : p.IsBlocked
    · exact proceeds_of_isBlocked h hp hfree hblocked
    · rcases hengaged.worker_proceeds hblocked with ⟨m, hm, hsome⟩ | hgone | ⟨hidle, hbuffer⟩
      · exact proceeds_of_isSome hp (allowed_of_isWorkers hm) hsome
      · simp [hended] at hgone
      · exact proceeds_of_idle h hp hmem hended hidle hbuffer

/-- When the worker of a run has ended that nobody owns, nobody has a place in the failure channel
or a handle of it. -/
theorem isSome_noticeEnd (h : Run step (new o) turns s) (hp : s.pipelines[run]? = some p)
    (hunowned : ¬ s.Owned run) (hended : p.feed.worker.ended = true)
    (hwaiting : p.reporter = .waiting) (hbuffer : p.failures.buffer = []) :
    (p.step s.options (s.options.hasHandler && s.reachable) s.now .noticeEnd).isSome = true := by
  have hplaces := (attended_of_run h run p hp).places
  rw [(sound_of_run h run p hp).2.idle_of_ended hended] at hplaces
  have hnobody := List.eq_nil_of_length_eq_zero (Nat.le_zero.mp hplaces)
  obtain ⟨hheld, hline⟩ := List.append_eq_nil_iff.mp hnobody
  have hhandles : p.failures.handles = 0 := by
    rw [(wellFormed_of_run h).free hp hunowned, workers, hended]
    rfl
  have hexhausted := Channel.exhausted_iff.mpr ⟨⟨hbuffer, hheld⟩, .inr ⟨hhandles, hline⟩⟩
  simp [Pipeline.step, noticeEnd?, hwaiting, hexhausted]

theorem proceeds_of_draining {worker : Except Panic Unit} (h : Run step (new o) turns s)
    (hmem : (caller, .draining run worker) ∈ s.calls) (hfree : s.call? (.handler run) = none) :
    s.Proceeds caller run := by
  have hw := wellFormed_of_run h
  obtain ⟨htaken, -, p, hp, hworker⟩ := hw.draining hmem
  have hended := Chunker.Worker.ended_of_outcome hworker
  rcases proceeds_or_untroubled hp hfree with hproceeds | hover | ⟨hwaiting, hbuffer⟩
  · exact hproceeds
  · obtain ⟨reporter, hreporter⟩ := Option.isSome_iff_exists.mp hover
    refine ⟨.resume caller, .stop, ?_⟩
    simp [step, resume?, call?, Calls.lookup_of_mem hw.guarded.keys hmem, pipeline?, hp, hreporter]
  · have hunowned : ¬ s.Owned run := by
      rintro (hslot | ⟨w, hw'⟩)
      · simp [htaken.slot] at hslot
      · obtain rfl := hw.eq_of_inside (hw.guarded.inside _ _ hmem rfl) hw' rfl
        cases hw.guarded.eq_of_mem hmem hw'
    exact proceeds_of_isSome (m := .noticeEnd) hp rfl
      (isSome_noticeEnd h hp hunowned hended hwaiting hbuffer)

/-- As long as a call stops a run and has not returned, somebody goes on without the clock, unless
the handler of the run waits for a call of its own. -/
theorem proceeds_of_stops (h : Run step (new o) turns s) (hstops : s.Stops caller run)
    (hfree : s.call? (.handler run) = none) : s.Proceeds caller run := by
  obtain ⟨c, hmem, rfl | ⟨worker, rfl⟩⟩ := hstops
  · exact proceeds_of_stopping h hmem hfree
  · exact proceeds_of_draining h hmem hfree

end System

end Batchflow.Enqueuer
