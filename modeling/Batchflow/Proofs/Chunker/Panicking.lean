import Batchflow.Proofs.Chunker.Custody
import Batchflow.Proofs.Chunker.Slicing

/-!
# When the handler panics

A panic of the handler ends the worker where it stands, in whichever of its loops.  What was handed
over till then, the chunk in hand included, is the beginning of what the source took; the rest goes
away with the receiving end, and nobody gets through to the source any more.  The chunker itself
learns nothing of it: it says that it runs, until a call to stop waits for the worker, finds it dead
and reports the panic.  From then on the chunker can be started as for the first time.  Only when
the call that took the worker over is given up, the panic is lost, and the next call to stop is told
that nothing runs.
-/

namespace Batchflow.Chunker

variable {α : Type}

namespace System

/-- The source whose worker's end is told to the call that goes on by an action. -/
def reported? (s : System α) : Action α → Option Nat
  | .resume call =>
    match s.call? call with
    | some (.stopping source) => some source
    | _ => none
  | _ => none

end System

/-- The sources whose workers' ends were told to a call to stop. -/
def reported (turns : History α) : List Nat := turns.filterMap fun t => t.before.reported? t.action

theorem forsaken_append (turns later : History α) :
    forsaken (turns ++ later) = forsaken turns ++ forsaken later :=
  List.filterMap_append

theorem reported_append (turns later : History α) :
    reported (turns ++ later) = reported turns ++ reported later :=
  List.filterMap_append

namespace Feed

variable {o : Options} {now : Nat} {f f' : Feed Nat α} {m : Move} {chunk : Option (List α)}
  {items : List α} {resume : Resume}

theorem Moved.chunk_of_handling (h : f.Moved o now m f' chunk)
    (hworker : f'.worker = .handling items resume) : chunk = some items := by
  cases h with
  | tickSwallowed hw => simp [hw] at hworker
  | @handled _ resume => cases resume <;> simp [Resume.worker] at hworker
  | _ => simp_all

structure Handed (o : Options) (chunks : List (List α)) (f : Feed Nat α) : Prop where
  sized : ∀ chunk ∈ chunks, 1 ≤ chunk.length ∧ chunk.length ≤ o.size
  valid : o.validate = .ok ()
  last : ∀ {items resume}, f.worker = .handling items resume → chunks.getLast? = some items

theorem Handed.moved {chunks : List (List α)} (hf : f.Handed o chunks) (hsound : f.Sound o)
    (h : f.Moved o now m f' chunk) : f'.Handed o (chunks ++ chunk.toList) where
  sized items hitems := by
    rcases List.mem_append.mp hitems with hitems | hitems
    · exact hf.sized items hitems
    · exact h.length_chunk hsound items (Option.mem_toList.mp hitems)
  valid := hf.valid
  last hw := by
    obtain rfl := h.chunk_of_handling hw
    simp

end Feed

namespace Source

variable {o : Options} {now i : Nat} {a : Action α} {x y : Option (Source α)}
  {item : Option α} {chunk : Option (List α)} {chunks : List (List α)} {f : Feed Nat α}

def Handed (o : Options) (chunks : List (List α)) : Option (Source α) → Prop
  | some (.read f) => f.Handed o chunks
  | _ => chunks = []

theorem Change.handed (h : Change o now i a x item chunk y) (hx : Handed o chunks x)
    (hsound : Sound o x) : Handed o (chunks ++ chunk.toList) y := by
  induction h with
  | same => simpa using hx
  | born n _ ih => exact ih hx rfl
  | @sent x =>
    rw [Option.toList_none, List.append_nil]
    cases x with
    | read f => exact ⟨hx.sized, hx.valid, hx.last⟩
    | offered | abandoned => exact hx
  | started hvalid =>
    obtain rfl := hx
    exact ⟨by simp, hvalid, by simp [Feed.start]⟩
  | abandoned => simpa [Handed] using hx
  | told =>
    rw [Option.toList_none, List.append_nil]
    exact ⟨hx.sized, hx.valid, hx.last⟩
  | moved _ hmoved => exact Feed.Handed.moved hx hsound hmoved

theorem Change.ended (h : Change o now i a (some (.read f)) item chunk y)
    (hended : f.worker.ended = true) :
    chunk = none ∧ ∃ f', y = some (.read f') ∧ f'.worker = f.worker := by
  cases h with
  | same => exact ⟨rfl, f, rfl, rfl⟩
  | sent | told => exact ⟨rfl, _, rfl, rfl⟩
  | moved _ hmoved => simp [hmoved.not_ended] at hended

end Source

namespace System

variable {s s' s₁ : System α} {a : Action α} {events : List (Event α)} {call i : Nat}
  {c : Channel Nat α} {f : Feed Nat α} {o : Options} {p : Panic} {turns before after : History α}
  {t : Turn (System α) (Action α) (Event α)}

theorem handed_of_run (h : Run step (new o) turns s) (i : Nat) :
    Source.Handed o (chunks i turns) s.sources[i]? := by
  induction h with
  | nil => rfl
  | @snoc turns s₁ s₂ a events hrun hstep ih =>
    obtain ⟨item, chunk, hchange, -, hchunk⟩ := effect_of_step (wellFormed_of_run hrun) hstep i
    rw [options_of_run hrun] at hchange
    rw [chunks_append]
    simpa [chunks, hchunk] using hchange.handed ih (sound_of_run hrun i)

theorem ended_of_run {later : History α} (h : Run step s later s') (hs : s.WellFormed)
    (hf : s.feed? i = some f) (hended : f.worker.ended = true) :
    chunks i later = [] ∧ ∃ f', s'.feed? i = some f' ∧ f'.worker = f.worker := by
  have hall : s'.WellFormed ∧ chunks i later = [] ∧
      ∃ f', s'.feed? i = some f' ∧ f'.worker = f.worker := by
    induction h with
    | nil => exact ⟨hs, rfl, f, hf, rfl⟩
    | @snoc later s₁ s₂ a events hrun hstep ih =>
      obtain ⟨hs₁, hnone, f₁, hf₁, hw₁⟩ := ih
      obtain ⟨item, chunk, hchange, -, hchunk⟩ := effect_of_step hs₁ hstep i
      rw [feed?_eq_some hf₁] at hchange
      obtain ⟨rfl, f₂, hf₂, hw₂⟩ := hchange.ended (hw₁ ▸ hended)
      refine ⟨hs₁.step hstep, ?_, f₂, feed?_of_read hf₂, hw₂.trans hw₁⟩
      rw [chunks_append, hnone]
      simpa [chunks] using hchunk
  exact hall.2

/-- Nobody gets through to a source: whoever comes is turned away at once, and whoever waits as soon
as it goes on. -/
structure Barred (s : System α) (i : Nat) : Prop where
  send : ∀ {call item}, s.unused call = true → (s.openChannel? i).isSome = true →
    ∃ s', s.step (.send call i item) = some (s', [.replied call (.refused item)])
  reserve : ∀ {call}, s.unused call = true → (s.openChannel? i).isSome = true →
    ∃ s', s.step (.reserve call i) = some (s', [.replied call .notReserved])
  sending : ∀ {call item}, (call, .send i item) ∈ s.calls →
    ∃ s', s.step (.resume call) = some (s', [.replied call (.refused item)])
  reserving : ∀ {call}, (call, .reserve i) ∈ s.calls →
    ∃ s', s.step (.resume call) = some (s', [.replied call .notReserved])
  /-- Whoever waits does so until it goes on or is given up. -/
  waiting : ∀ {call c a s' events}, (call, c) ∈ s.calls → s.step a = some (s', events) →
    a ≠ .resume call → a ≠ .abort call → (call, c) ∈ s'.calls ∧ ∀ r, .replied call r ∉ events

theorem barred_of_closed (hs : s.Locked) (hf : s.feed? i = some f)
    (hclosed : f.channel.closed = true) : s.Barred i := by
  have hread := feed?_eq_some hf
  have hopen {d : Channel Nat α} (h : s.openChannel? i = some d) : d.closed = true := by
    obtain ⟨x, hx, rfl, -⟩ := openChannel?_eq_some h
    obtain rfl := Option.some.inj (hread.symm.trans hx)
    exact hclosed
  refine ⟨fun {call item} hunused h => ?_, fun {call} hunused h => ?_, fun {call item} hmem => ?_,
    fun {call} hmem => ?_, fun hmem hstep => untouched_of_did (did_of_step hstep) hmem⟩
  · obtain ⟨d, hd⟩ := Option.isSome_iff_exists.mp h
    simp [step, hunused, send?, hd, Channel.send, hopen hd]
  · obtain ⟨d, hd⟩ := Option.isSome_iff_exists.mp h
    simp [step, hunused, reserve?, hd, Channel.reserve, hopen hd]
  · have hcall : s.call? call = some (.send i item) := Calls.lookup_of_mem hs.keys hmem
    simp [step, resume?, hcall, hread, Source.channel, Channel.resume?, hclosed, reply]
  · have hcall : s.call? call = some (.reserve i) := Calls.lookup_of_mem hs.keys hmem
    simp [step, resume?, hcall, hread, Source.channel, Channel.resume?, hclosed, reply]

/-- The chunker has the worker of a source, or a call has it that stops it. -/
def HasOwner (s : System α) (i : Nat) : Prop :=
  s.running = some i ∨ ∃ who, (who, .stopping i) ∈ s.calls

theorem Accounted.hasOwner_of_did {gone : List Nat} (hs : s.Accounted gone) (howner : s.HasOwner i)
    (h : s.Did a s' events) (hforsaken : s.forsaken? a ≠ some i)
    (hreported : s.reported? a ≠ some i) : s'.HasOwner i := by
  rcases howner with hrunning | ⟨who, hmem⟩
  · cases shift_of_did hs.locked h with
    | same hsame => exact .inl (hsame.running.trans hrunning)
    | started _ hstate =>
      simp [hs.running hrunning] at hstate
    | taken call j _ hrunning' _ _ hstopping =>
      obtain rfl := Option.some.inj (hrunning.symm.trans hrunning')
      exact .inr ⟨call, (hstopping _ _).mpr (.inr ⟨rfl, rfl⟩)⟩
    | missed _ _ hnone => simp [hrunning] at hnone
    | ended _ _ hmem | forsaken _ _ _ hmem => simp [(hs.stopping hmem).2] at hrunning
  · have hcall : s.call? who = some (.stopping i) := Calls.lookup_of_mem hs.locked.keys hmem
    have hresume : a ≠ .resume who := by
      rintro rfl
      simp [reported?, hcall] at hreported
    have habort : a ≠ .abort who := by
      rintro rfl
      simp [forsaken?, hcall] at hforsaken
    exact .inr ⟨who, (untouched_of_did h hmem hresume habort).1⟩

theorem hasOwner_of_run {later : History α} (hbefore : Run step (new o) turns s)
    (h : Run step s later s') (howner : s.HasOwner i) (hforsaken : i ∉ forsaken later)
    (hreported : i ∉ reported later) : s'.HasOwner i := by
  induction h with
  | nil => exact howner
  | @snoc later s₁ s₂ a events hrun hstep ih =>
    rw [forsaken_append, List.mem_append, not_or] at hforsaken
    rw [reported_append, List.mem_append, not_or] at hreported
    refine (accounted_of_run (hbefore.append hrun)).hasOwner_of_did
      (ih hforsaken.1 hreported.1) (did_of_step hstep) (fun h => hforsaken.2 ?_)
      fun h => hreported.2 ?_
    · simp [forsaken, h]
    · simp [reported, h]

theorem reported?_eq_some (h : s.reported? a = some i) :
    ∃ call, a = .resume call ∧ s.call? call = some (.stopping i) := by
  unfold reported? at h
  split at h
  · rename_i call
    split at h
    · rename_i source hcall
      obtain rfl := Option.some.inj h
      exact ⟨call, rfl, hcall⟩
    · contradiction
  · contradiction

/-- Nobody has been told of the worker's panic, and whoever stops the worker will be. -/
structure Unreported (s : System α) (i : Nat) (p : Panic) : Prop extends s.Tended i where
  report : ∀ {call}, (call, .stopping i) ∈ s.calls → ∃ s',
    s.step (.resume call) =
      some (s', [.replied call (.stopped (.error (.workerPanicked p.report)))]) ∧
    s'.state = .stopped

theorem report_of_panicked (hs : s.Locked) (hf : s.feed? i = some f)
    (hw : f.worker = .panicked p) (hmem : (call, .stopping i) ∈ s.calls) : ∃ s',
    s.step (.resume call) =
      some (s', [.replied call (.stopped (.error (.workerPanicked p.report)))]) ∧
    s'.state = .stopped := by
  have hcall : s.call? call = some (.stopping i) := Calls.lookup_of_mem hs.keys hmem
  exact ⟨_, by simp only [step, resume?, hcall, hf, Option.bind_some, hw]; rfl, rfl⟩

/-- A worker has begun on the source of a call to start, and nothing else has. -/
structure Begun (s : System α) (c : Channel Nat α) (i : Nat) (s' : System α) : Prop where
  state : s'.state = .running
  running : s'.running = some i
  feed : s'.feed? i = some (.start c s.now)
  others : ∀ j, j ≠ i → s'.feed? j = s.feed? j

/-- Whoever gets the lock to start the chunker begins a worker on what it has brought. -/
structure StartsAfresh (s : System α) : Prop where
  at_once : ∀ {call n}, s.owned = true → s.unused call = true → 0 < s.lock.free → ∃ s',
    s.step (.start call n) = some (s', [.replied call (.started (.ok ()))]) ∧
      s.Begun (.ofCapacity n 1) s.sources.length s'
  in_turn : ∀ {call i}, s.call? call = some (.start i) → call ∈ s.lock.held → ∃ c s',
    s.sources[i]? = some (.offered c) ∧
      s.step (.resume call) = some (s', [.replied call (.started (.ok ()))]) ∧ s.Begun c i s'

theorem begun_of_begin {x : System α} (hx : x.sources[i]? = some (.offered c))
    (hnow : x.now = s.now) (hfeed : ∀ j, x.feed? j = s.feed? j) :
    s.Begun c i (((x.begin i (.offered c)).unlock call).forget call) where
  state := rfl
  running := rfl
  feed := feed?_of_read (hnow ▸ getElem?_setSource_self _ _ hx)
  others j hj := (feed?_eq (getElem?_setSource_of_ne _ _ hj)).trans (hfeed j)

theorem startsAfresh_of_stopped (hs : s.WellFormed) (hstate : s.state = .stopped)
    (hvalid : s.options.validate = .ok ()) : s.StartsAfresh where
  at_once {call n} howned hunused hfree := by
    have hcall : (s.owned && s.unused call) = true := by simp [howned, hunused]
    have hholds : (s.lock.request call).holds call = true :=
      Permits.holds_iff.mpr (Permits.mem_held_request hfree)
    have hx : (s.offer n).sources[s.sources.length]? = some (.offered (.ofCapacity n 1)) := by
      simp [offer]
    have hstep : s.step (.start call n) =
        some (({ s.offer n with lock := s.lock.request call } : System α).runStart call
          s.sources.length) := by
      simp only [step, hcall, if_true, takeLock, hholds]
      rfl
    exact ⟨_, hstep.trans (congrArg some (runStart_started hstate hvalid hx)),
      begun_of_begin hx rfl (Asks.start call n).feed?⟩
  in_turn {call i} hcall hheld := by
    obtain ⟨c, hc⟩ := hs.offered _ _ (Calls.mem_of_lookup hcall)
    have hstep : s.step (.resume call) = some (s.runStart call i) := by
      simp only [step, resume?, hcall, Permits.holds_iff.mpr hheld, if_true]
    rw [runStart_started hstate hvalid hc] at hstep
    exact ⟨c, _, hc, hstep, begun_of_begin hc rfl fun _ => rfl⟩

theorem stopped_of_went (h : s.Went call s' events) (hstate : s.state = .stopped)
    (hno : ∀ r, .replied call (.started r) ∉ events) : s'.state = .stopped := by
  cases h with
  | started | startLost | startRefused => simp at hno
  | stopTaken _ _ hrunning => simp [hstate] at hrunning
  | stopRefused state _ _ hcase =>
    rcases hcase with ⟨-, rfl⟩ | ⟨-, rfl⟩
    · exact hstate
    · rfl
  | stopped => rfl
  | _ => exact hstate

/-- Only a call to start gets a stopped chunker going. -/
theorem stopped_of_step (hs : s.Locked) (h : s.step a = some (s', events))
    (hstate : s.state = .stopped) (hno : ∀ call i, s.entered? a ≠ some (call, .start i)) :
    s'.state = .stopped := by
  have hreply (call : Nat) (r : Except Error Unit) : .replied call (.started r) ∉ events := by
    intro hmem
    obtain ⟨i, hi⟩ := entered_of_started hs h hmem
    exact hno call i hi
  cases did_of_step h with
  | asked ha => cases ha <;> exact hstate
  | @atOnce _ call c s₁ _ _ ha _ _ hwent =>
    refine stopped_of_went hwent ?_ (hreply call)
    cases ha <;> exact hstate
  | @startAborted _ source =>
    obtain ⟨sources, heq⟩ := s.abandon_eq source
    rw [heq]
    exact hstate
  | @sendAborted call source | @reserveAborted call source =>
    obtain ⟨sources, heq⟩ := s.leaveChannel_eq source call
    rw [heq]
    exact hstate
  | @resumed call _ _ hwent => exact stopped_of_went hwent hstate (hreply call)
  | _ => exact hstate

theorem stopped_of_run {later : History α} (hs : s.Locked) (hstate : s.state = .stopped)
    (h : Run step s later s')
    (hno : ∀ u ∈ later, ∀ call i, u.before.entered? u.action ≠ some (call, .start i)) :
    s'.state = .stopped := by
  have hboth : s'.state = .stopped ∧ s'.Locked := by
    induction h with
    | nil => exact ⟨hstate, hs⟩
    | @snoc later s₁ s₂ a events _ hstep ih =>
      obtain ⟨hstate₁, hs₁⟩ := ih fun u hu => hno u (by simp [hu])
      exact ⟨stopped_of_step hs₁ hstep hstate₁ (hno ⟨s₁, a, events⟩ (by simp)),
        hs₁.did (did_of_step hstep)⟩
  exact hboth.1

/-- What a panic of the handler means for the items, the senders and the chunker. -/
structure Panics (o : Options) (i : Nat) (p : Panic) (before : History α)
    (t : Turn (System α) (Action α) (Event α)) (after : History α) (s : System α) : Prop where
  /-- The handler has the chunk that was handed over last. -/
  handling : ∃ f items resume, t.before.feed? i = some f ∧ f.worker = .handling items resume ∧
    (chunks i before).getLast? = some items
  in_order : (chunks i before).flatten <+: taken i before
  sized : ∀ chunk ∈ chunks i before, 1 ≤ chunk.length ∧ chunk.length ≤ o.size
  no_more : chunks i after = []
  barred : s.Barred i
  /-- What still comes through places that were reserved before goes nowhere. -/
  lost_items : taken i after = filled i after
  /-- As long as no call to stop has returned or was given up, the panic waits for one. -/
  unreported : i ∉ forsaken (before ++ t :: after) → i ∉ reported after → s.Unreported i p
  reports : ∀ {u}, u ∈ after → u.before.reported? u.action = some i → ∃ call s',
    u.before.step u.action = some (s', u.events) ∧ s'.state = .stopped ∧
      u.events = [.replied call (.stopped (.error (.workerPanicked p.report)))]
  /-- A stopped chunker stays so until it is started, and is started as if it were new. -/
  restarts : (new o : System α).StartsAfresh ∧ ∀ {later s'}, s.state = .stopped →
    Run step s later s' →
    (∀ u ∈ later, ∀ call j, u.before.entered? u.action ≠ some (call, .start j)) →
    s'.state = .stopped ∧ s'.StartsAfresh
  /-- When the call that took the worker over is given up, the next one finds nothing to report. -/
  forgotten : ∀ {earlier u later}, before ++ t :: after = earlier ++ u :: later →
    u.before.forsaken? u.action = some i →
    (∀ v ∈ later, ∀ call, v.before.entered? v.action ≠ some (call, .stop)) →
    s.state = .running ∧ ∀ {a call s' events}, s.entered? a = some (call, .stop) →
      s.step a = some (s', events) →
      s'.state = .stopped ∧ events = [.replied call (.stopped (.error .notRunning))]

/-- While the handler is at work, what was handed over is the beginning of what the source took. -/
theorem handling_of_run {items : List α} {resume : Resume} (h : Run step (new o) turns s)
    (hf : s.feed? i = some f) (hw : f.worker = .handling items resume) :
    f.Handed o (chunks i turns) ∧ (chunks i turns).flatten <+: taken i turns := by
  have hread := feed?_eq_some hf
  have hhanded : Source.Handed o _ (some (.read f)) := hread ▸ handed_of_run h i
  have hp : HandlerReturned i turns := by
    refine handlerReturned_of_run h ?_
    rw [hread]
    rintro ⟨panic, hpanicked⟩
    simp [hw] at hpanicked
  obtain ⟨hitems, -⟩ : Source.Accounts _ _ (some (.read f)) := hread ▸ accounts_of_run h hp
  exact ⟨hhanded, f.kept, hitems.symm⟩

theorem panicked_of_step (h : s.step (.move i (.handlerPanics p)) = some (s', events)) :
    ∃ f f' items resume, s.feed? i = some f ∧ f.worker = .handling items resume ∧
      s'.feed? i = some f' ∧ f'.worker = .panicked p := by
  obtain ⟨f, f', chunk, hf, hmoved, rfl, -⟩ := eq_of_move h
  have hf' : (s.setFeed i f').feed? i = some f' :=
    feed?_of_read (getElem?_setSource_self s _ (feed?_eq_some hf))
  cases hmoved with
  | panicked _ hw => exact ⟨f, _, _, _, hf, hw, hf', rfl⟩

theorem panicked_of_run (h : Run step (new o) (before ++ t :: after) s)
    (hpanics : t.action = .move i (.handlerPanics p)) :
    chunks i after = [] ∧ ∃ f, s.feed? i = some f ∧ f.worker = .panicked p := by
  obtain ⟨hbefore, s₁, hstep, hafter⟩ := h.cut_turn
  obtain ⟨-, f, _, _, -, -, hf, hw⟩ := panicked_of_step (hpanics ▸ hstep)
  have hended := ended_of_run hafter ((wellFormed_of_run hbefore).step hstep) hf (by rw [hw]; rfl)
  rwa [hw] at hended

theorem closed_of_panicked (h : Run step (new o) turns s) (hf : s.feed? i = some f)
    (hw : f.worker = .panicked p) :
    Source.Closed s.options f.channel.places.held s.sources[i]? := by
  have hsound := sound_of_run h i
  rw [feed?_eq_some hf] at hsound ⊢
  rw [options_of_run h]
  exact ⟨hsound, hsound.closed_eq.trans (by rw [hw]; rfl), fun _ hwho => hwho⟩

theorem filled_of_panicked (h : Run step (new o) (before ++ t :: after) s)
    (hpanics : t.action = .move i (.handlerPanics p)) : taken i after = filled i after := by
  obtain ⟨hbefore, s₁, hstep, hafter⟩ := h.cut_turn
  have hupto := hbefore.snoc hstep
  obtain ⟨-, f, hf, hw⟩ := panicked_of_run hupto hpanics
  exact (later_of_closed hafter (wellFormed_of_run hupto) (closed_of_panicked hupto hf hw)).1

theorem unreported_of_run (h : Run step (new o) (before ++ t :: after) s)
    (hpanics : t.action = .move i (.handlerPanics p))
    (hforsaken : i ∉ forsaken (before ++ t :: after)) (hreported : i ∉ reported after) :
    s.Unreported i p := by
  have hs := accounted_of_run h
  obtain ⟨-, f, hf, hw⟩ := panicked_of_run h hpanics
  obtain ⟨hbefore, s₁, hstep, hafter⟩ := h.cut_turn
  rw [List.append_cons, forsaken_append, List.mem_append, not_or] at hforsaken
  -- Somebody had the worker while it was alive, and nobody is done with it since.
  have howner : t.before.HasOwner i := by
    obtain ⟨f₀, _, _, _, hf₀, hw₀, -⟩ := panicked_of_step (hpanics ▸ hstep)
    refine ((accounted_of_run hbefore).alive ⟨f₀, hf₀, by rw [hw₀]; rfl⟩).resolve_left fun hi => ?_
    exact hforsaken.1 (by rw [forsaken_append]; exact List.mem_append_left _ hi)
  have howner₁ : s₁.HasOwner i :=
    (accounted_of_run hbefore).hasOwner_of_did howner (did_of_step hstep)
      (by simp [hpanics, forsaken?]) (by simp [hpanics, reported?])
  have howner' := hasOwner_of_run (hbefore.snoc hstep) hafter howner₁ hforsaken.2 hreported
  exact ⟨hs.tended_of_owner howner', report_of_panicked hs.locked hf hw⟩

theorem reports_of_run {u : Turn (System α) (Action α) (Event α)}
    (h : Run step (new o) (before ++ t :: after) s)
    (hpanics : t.action = .move i (.handlerPanics p)) (hu : u ∈ after)
    (hreported : u.before.reported? u.action = some i) : ∃ call s',
    u.before.step u.action = some (s', u.events) ∧ s'.state = .stopped ∧
      u.events = [.replied call (.stopped (.error (.workerPanicked p.report)))] := by
  obtain ⟨mid, rest, rfl⟩ := List.append_of_mem hu
  rw [← List.cons_append, ← List.append_assoc] at h
  obtain ⟨hmid, s₁, hstep, -⟩ := h.cut_turn
  obtain ⟨-, f, hf, hw⟩ := panicked_of_run hmid hpanics
  obtain ⟨call, haction, hcall⟩ := reported?_eq_some hreported
  obtain ⟨s₂, hreport, hstate⟩ :=
    report_of_panicked (locked_of_run hmid) hf hw (Calls.mem_of_lookup hcall)
  rw [haction] at hstep ⊢
  obtain ⟨rfl, hevents⟩ := Prod.mk.inj (Option.some.inj (hreport.symm.trans hstep))
  exact ⟨call, s₂, hstep, hstate, hevents.symm⟩

theorem restarts_of_run {later : History α} (h : Run step (new o) turns s)
    (hvalid : o.validate = .ok ()) (hstate : s.state = .stopped) (hlater : Run step s later s')
    (hno : ∀ u ∈ later, ∀ call j, u.before.entered? u.action ≠ some (call, .start j)) :
    s'.state = .stopped ∧ s'.StartsAfresh := by
  have hall := h.append hlater
  have hstate' := stopped_of_run (locked_of_run h) hstate hlater hno
  exact ⟨hstate', startsAfresh_of_stopped (wellFormed_of_run hall) hstate'
    (options_of_run hall ▸ hvalid)⟩

/-- Whenever the handler panics, and whatever is done before and afterwards: the chunks so far are
the beginning of what the source took and there are no more of them, nobody gets through to the
source any more, the chunker runs until a call to stop reports the panic, and then it can be started
as for the first time; unless the call that has taken the worker over is given up. -/
theorem handler_panics (h : Run step (new o) (before ++ t :: after) s)
    (hpanics : t.action = .move i (.handlerPanics p)) : Panics o i p before t after s := by
  have hs := accounted_of_run h
  obtain ⟨hnone, f', hf', hw'⟩ := panicked_of_run h hpanics
  have hclosed := closed_of_panicked h hf' hw'
  rw [feed?_eq_some hf'] at hclosed
  obtain ⟨hbefore, s₁, hstep, -⟩ := h.cut_turn
  obtain ⟨f, _, items, resume, hf, hw, -⟩ := panicked_of_step (hpanics ▸ hstep)
  obtain ⟨hhanded, hprefix⟩ := handling_of_run hbefore hf hw
  constructor
  case handling => exact ⟨f, items, resume, hf, hw, hhanded.last hw⟩
  case in_order => exact hprefix
  case sized => exact hhanded.sized
  case no_more => exact hnone
  case barred => exact barred_of_closed hs.locked hf' hclosed.2.1
  case lost_items => exact filled_of_panicked h hpanics
  case unreported => exact unreported_of_run h hpanics
  case reports => exact reports_of_run h hpanics
  case restarts =>
    exact ⟨startsAfresh_of_stopped (wellFormed_new o) rfl hhanded.valid, fun hstate hlater =>
      restarts_of_run h hhanded.valid hstate hlater⟩
  case forgotten =>
    intro earlier u later heq hforsaken hno
    rw [heq] at h
    have hadrift := adrift_of_run h hforsaken hno
    refine ⟨hadrift.state, fun hentered hstop => ?_⟩
    obtain ⟨hstate, hevents, -⟩ := hadrift.stop hentered hstop
    exact ⟨hstate, hevents⟩

/-- The handler panics with one item in the source, a sender that waits for a place and a call that
stops the worker; then both go on, somebody sends, and the chunker is started anew. -/
def panickedRun : List (Action Nat) :=
  [.start 0 1, .send 1 0 10, .move 0 .receive, .send 2 0 20, .send 3 0 30, .stop 4,
    .move 0 (.handlerPanics (.text "boom")), .resume 3, .resume 4, .send 5 0 40, .start 6 1]

theorem handler_panics_panickedRun : ∃ before t after s,
    replay step (new singleOptions) panickedRun = some (before ++ t :: after, s) ∧
      t.action = .move 0 (.handlerPanics (.text "boom")) ∧
      Panics singleOptions 0 (.text "boom") before t after s ∧
      chunks 0 before = [[10]] ∧ taken 0 before = [10, 20] ∧
      forsaken (before ++ t :: after) = [] ∧ reported after = [0] ∧
      after.map (·.events) = [[.replied 3 (.refused 30)],
        [.replied 4 (.stopped (.error (.workerPanicked (Panic.text "boom").report)))],
        [.replied 5 (.refused 40)], [.replied 6 (.started (.ok ()))]] :=
  ⟨[_, _, _, _, _, _], _, [_, _, _, _], _, rfl, rfl,
    handler_panics (.of_replay (show replay step _ panickedRun = _ from rfl)) rfl,
    rfl, rfl, rfl, rfl, rfl⟩

/-- The call that took the worker over is given up, and then the handler panics. -/
def unheardRun : List (Action Nat) :=
  [.start 0 1, .send 1 0 10, .move 0 .receive, .stop 2, .abort 2,
    .move 0 (.handlerPanics (.text "boom"))]

/-- The next call to stop is not told of the panic but that nothing runs, and nobody was told of it
before. -/
theorem panic_untold_unheardRun : ∃ turns s s',
    replay step (new singleOptions) unheardRun = some (turns, s) ∧
      (s.feed? 0).map (·.worker) = some (.panicked (.text "boom")) ∧ reported turns = [] ∧
      s.state = .running ∧
      s.step (.stop 3) = some (s', [.replied 3 (.stopped (.error .notRunning))]) ∧
      s'.state = .stopped :=
  ⟨_, _, _, rfl, rfl, rfl, rfl, rfl, rfl⟩

end System

end Batchflow.Chunker
