import Batchflow.Proofs.Chunker.Action

/-!
# What happens to a source

An action of the system changes at most one source, and a source changes in few ways: somebody
sends to it, a worker starts to read it or gives it up, the worker is told to stop, or the worker
moves.  This is said once, with the item that the source takes and the chunk that is handed over.
-/

namespace Batchflow.Chunker

variable {α : Type}

def Event.taken? (i : Nat) : Event α → Option α
  | .took source item => if source = i then some item else none
  | _ => none

def Event.chunk? (i : Nat) : Event α → Option (List α)
  | .chunk source items => if source = i then some items else none
  | _ => none

/-- What an action may do to a source, with the item taken and the chunk handed over by it. -/
inductive Source.Change (o : Options) (now i : Nat) (a : Action α) :
    Option (Source α) → Option α → Option (List α) → Option (Source α) → Prop
  | same {x} : Change o now i a x none none x
  | born (n : Nat) {taken chunk y} :
      Change o now i a (some (.offered (.ofCapacity n 1))) taken chunk y →
      Change o now i a none taken chunk y
  | sent {x : Source α} {taken c} : x.channel.Sent taken c →
      (x.channel.Deserted → c.Deserted) →
      (x.channel.closed = true → ∀ y ∈ taken, ∃ call ∈ x.channel.places.held, a = .fill call i y) →
      Change o now i a (some x) taken none (some (x.setChannel c))
  | started {c} : o.validate = .ok () →
      Change o now i a (some (.offered c)) none none (some (.read (.start c now)))
  | abandoned {c} : Change o now i a (some (.offered c)) none none (some (.abandoned c.discard))
  | told {f} :
      Change o now i a (some (.read f)) none none (some (.read { f with stopRequested := true }))
  | moved {f f' m chunk} : a = .move i m → f.Moved o now m f' chunk →
      Change o now i a (some (.read f)) none chunk (some (.read f'))

namespace System

variable {s s' : System α} {a : Action α} {events : List (Event α)} {call source : Nat}

@[simp] theorem sources_forget (s : System α) (call : Nat) :
    (s.forget call).sources = s.sources := rfl

@[simp] theorem sources_await (s : System α) (call : Nat) (c : Call α) :
    (s.await call c).sources = s.sources := rfl

theorem getElem?_setChannel_self (s : System α) (source : Nat) (c : Channel Nat α) :
    (s.setChannel source c).sources[source]? = s.sources[source]?.map (·.setChannel c) := by
  simp [setChannel]

theorem getElem?_setChannel_of_ne {i : Nat} (s : System α) (c : Channel Nat α) (h : i ≠ source) :
    (s.setChannel source c).sources[i]? = s.sources[i]? := by
  simp [setChannel, h.symm]

theorem getElem?_setSource_self {x : Source α} (s : System α) (y : Source α)
    (h : s.sources[source]? = some x) : (s.setSource source y).sources[source]? = some y := by
  obtain ⟨hlt, -⟩ := List.getElem?_eq_some_iff.mp h
  simp [setSource, hlt]

theorem getElem?_setSource_of_ne {i : Nat} (s : System α) (y : Source α) (h : i ≠ source) :
    (s.setSource source y).sources[i]? = s.sources[i]? := by
  simp [setSource, h.symm]

theorem feed?_eq_some {f : Feed Nat α} (h : s.feed? source = some f) :
    s.sources[source]? = some (.read f) := by
  unfold feed? at h
  obtain ⟨x, hx, hf⟩ := Option.bind_eq_some_iff.mp h
  cases x with
  | read g => exact hx.trans (by simpa [Source.feed?] using hf)
  | offered | abandoned => simp [Source.feed?] at hf

theorem feed?_of_read {f : Feed Nat α} (h : s.sources[source]? = some (.read f)) :
    s.feed? source = some f := by
  simp [feed?, h, Source.feed?]

def Effect (s : System α) (a : Action α) (out : Outcome α) : Prop :=
  ∀ i, ∃ taken chunk,
    Source.Change s.options s.now i a s.sources[i]? taken chunk out.1.sources[i]? ∧
      out.2.filterMap (Event.taken? i) = taken.toList ∧
      out.2.filterMap (Event.chunk? i) = chunk.toList

/-- Nothing that concerns a source is seen. -/
def Silent (events : List (Event α)) : Prop :=
  ∀ i, events.filterMap (Event.taken? i) = [] ∧ events.filterMap (Event.chunk? i) = []

@[simp] theorem silent_nil : Silent ([] : List (Event α)) := fun _ => ⟨rfl, rfl⟩

@[simp] theorem silent_replied (call : Nat) (r : Reply α) : Silent [Event.replied call r] :=
  fun _ => ⟨rfl, rfl⟩

theorem effect_same {out : Outcome α} (h : out.1.sources = s.sources) (hsilent : Silent out.2) :
    s.Effect a out := by
  intro i
  refine ⟨none, none, ?_, (hsilent i).1, (hsilent i).2⟩
  rw [h]
  exact .same

theorem effect_of_change {out : Outcome α} (taken : Option α) (chunk : Option (List α))
    (hchange : Source.Change s.options s.now source a s.sources[source]? taken chunk
      out.1.sources[source]?)
    (hothers : ∀ i, i ≠ source → out.1.sources[i]? = s.sources[i]?)
    (htaken : ∀ i, out.2.filterMap (Event.taken? i) = if source = i then taken.toList else [])
    (hchunk : ∀ i, out.2.filterMap (Event.chunk? i) = if source = i then chunk.toList else []) :
    s.Effect a out := by
  intro i
  by_cases hi : source = i
  · subst hi
    exact ⟨taken, chunk, hchange, by simpa using htaken source, by simpa using hchunk source⟩
  · refine ⟨none, none, ?_, by simp [htaken, hi], by simp [hchunk, hi]⟩
    rw [hothers i (Ne.symm hi)]
    exact .same

/-- Somebody sends to a source. -/
theorem effect_sent {out : Outcome α} {x : Source α} {c : Channel Nat α} {taken : Option α}
    (hx : s.sources[source]? = some x) (hsent : x.channel.Sent taken c)
    (hdeserted : x.channel.Deserted → c.Deserted)
    (hclosed : x.channel.closed = true →
      ∀ y ∈ taken, ∃ call ∈ x.channel.places.held, a = .fill call source y)
    (hout : out.1.sources = (s.setChannel source c).sources)
    (htaken : ∀ i, out.2.filterMap (Event.taken? i) = if source = i then taken.toList else [])
    (hchunk : ∀ i, out.2.filterMap (Event.chunk? i) = []) : s.Effect a out := by
  apply effect_of_change taken none _ _ htaken
  · intro i
    simp [hchunk i]
  · rw [hout, getElem?_setChannel_self, hx]
    exact .sent hsent hdeserted hclosed
  · intro i hi
    rw [hout, getElem?_setChannel_of_ne s c hi]

theorem effect_silently_sent {out : Outcome α} {x : Source α} {c : Channel Nat α}
    (hx : s.sources[source]? = some x) (hsent : x.channel.Sent none c)
    (hdeserted : x.channel.Deserted → c.Deserted)
    (hout : out.1.sources = (s.setChannel source c).sources) (hsilent : Silent out.2) :
    s.Effect a out := by
  refine effect_sent hx hsent hdeserted ?_ hout ?_ ?_
  · simp
  · intro i
    simp [(hsilent i).1]
  · intro i
    exact (hsilent i).2

/-- The worker of a source moves, or comes or goes. -/
theorem effect_set {out : Outcome α} {x y : Source α} {chunk : Option (List α)}
    (hx : s.sources[source]? = some x)
    (hchange : Source.Change s.options s.now source a (some x) none chunk (some y))
    (hout : out.1.sources = (s.setSource source y).sources)
    (htaken : ∀ i, out.2.filterMap (Event.taken? i) = [])
    (hchunk : ∀ i, out.2.filterMap (Event.chunk? i) = if source = i then chunk.toList else []) :
    s.Effect a out := by
  apply effect_of_change none chunk _ _ _ hchunk
  · rw [hout, getElem?_setSource_self s _ hx, hx]
    exact hchange
  · intro i hi
    rw [hout, getElem?_setSource_of_ne s _ hi]
  · intro i
    simp [htaken i]

theorem effect_silently_set {out : Outcome α} {x y : Source α}
    (hx : s.sources[source]? = some x)
    (hchange : Source.Change s.options s.now source a (some x) none none (some y))
    (hout : out.1.sources = (s.setSource source y).sources) (hsilent : Silent out.2) :
    s.Effect a out := by
  refine effect_set hx hchange hout (fun i => (hsilent i).1) ?_
  intro i
  simp [(hsilent i).2]

theorem effect_moved {m : Move} {f f' : Feed Nat α} {chunk : Option (List α)}
    (hf : s.feed? source = some f) (hmoved : f.Moved s.options s.now m f' chunk) :
    s.Effect (.move source m) (s.setFeed source f', chunk.toList.map (.chunk source)) := by
  refine effect_set (feed?_eq_some hf) (.moved rfl hmoved) rfl ?_ ?_
  · intro i
    cases chunk <;> rfl
  · intro i
    by_cases hi : source = i <;> cases chunk <;> simp [Event.chunk?, hi]

/-- A new source comes after all that there were. -/
theorem effect_of_offer {n : Nat} {out : Outcome α} (h : (s.offer n).Effect a out) :
    s.Effect a out := by
  have hnew : (s.offer n).sources[s.sources.length]? = some (.offered (.ofCapacity n 1)) := by
    simp [offer]
  intro i
  obtain ⟨taken, chunk, hchange, hevents⟩ := h i
  refine ⟨taken, chunk, ?_, hevents⟩
  rcases Nat.lt_trichotomy i s.sources.length with hi | rfl | hi
  · rwa [offer, List.getElem?_append_left hi] at hchange
  · rw [List.getElem?_eq_none (Nat.le_refl _)]
    rw [hnew] at hchange
    exact .born n hchange
  · have hnone : (s.offer n).sources[i]? = none := List.getElem?_eq_none (by simp [offer]; omega)
    rw [hnone] at hchange
    rwa [List.getElem?_eq_none (Nat.le_of_lt hi)]

def Owns (s : System α) (call source : Nat) : Prop :=
  ∀ call', (call', .start source) ∈ s.calls → call' = call

structure WellFormed (s : System α) : Prop where
  offered : ∀ call source, (call, .start source) ∈ s.calls →
    ∃ c, s.sources[source]? = some (.offered c)
  owns : ∀ call source, (call, .start source) ∈ s.calls → s.Owns call source

theorem wellFormed_new (o : Options) : (new o : System α).WellFormed where
  offered := by simp [new]
  owns := by simp [new]

theorem offered_setChannel {i : Nat} {c d : Channel Nat α}
    (h : s.sources[i]? = some (.offered d)) :
    ∃ d', (s.setChannel source c).sources[i]? = some (.offered d') := by
  by_cases hi : i = source
  · subst hi
    exact ⟨c, by rw [getElem?_setChannel_self, h]; rfl⟩
  · exact ⟨d, by rw [getElem?_setChannel_of_ne s c hi, h]⟩

theorem offered_setFeed {i : Nat} {f g : Feed Nat α} {d : Channel Nat α}
    (hf : s.feed? source = some f) (h : s.sources[i]? = some (.offered d)) :
    (s.setFeed source g).sources[i]? = some (.offered d) := by
  by_cases hi : i = source
  · subst hi
    rw [feed?_eq_some hf] at h
    simp at h
  · rw [setFeed, getElem?_setSource_of_ne s _ hi, h]

theorem abandon_others {i : Nat} (h : i ≠ source) :
    (s.abandon source).sources[i]? = s.sources[i]? := by
  unfold abandon
  split
  · exact getElem?_setSource_of_ne s _ h
  · rfl

@[simp] theorem calls_abandon (s : System α) (source : Nat) :
    (s.abandon source).calls = s.calls := by
  unfold abandon
  split <;> rfl

namespace WellFormed

theorem frame (hs : s.WellFormed)
    (hcalls : ∀ call source, (call, .start source) ∈ s'.calls → (call, .start source) ∈ s.calls)
    (hsources : ∀ (source : Nat) (c : Channel Nat α), s.sources[source]? = some (.offered c) →
      ∃ c', s'.sources[source]? = some (.offered c')) : s'.WellFormed where
  offered call source h := by
    obtain ⟨c, hc⟩ := hs.offered call source (hcalls _ _ h)
    exact hsources _ _ hc
  owns call source h call' h' := hs.owns call source (hcalls _ _ h) call' (hcalls _ _ h')

theorem same (hs : s.WellFormed) (hcalls : s'.calls = s.calls) (hsources : s'.sources = s.sources) :
    s'.WellFormed :=
  hs.frame (fun _ _ h => hcalls ▸ h) fun _ c h => ⟨c, hsources ▸ h⟩

theorem setChannel (hs : s.WellFormed) (source : Nat) (c : Channel Nat α) :
    (s.setChannel source c).WellFormed :=
  hs.frame (fun _ _ h => h) fun _ _ h => offered_setChannel h

theorem leaveChannel (hs : s.WellFormed) (source call : Nat) :
    (s.leaveChannel source call).WellFormed := by
  unfold System.leaveChannel
  split
  · exact hs.setChannel _ _
  · exact hs

theorem setFeed {f g : Feed Nat α} (hs : s.WellFormed) (hf : s.feed? source = some f) :
    (s.setFeed source g).WellFormed :=
  hs.frame (fun _ _ h => h) fun _ c h => ⟨c, offered_setFeed hf h⟩

theorem requestStop (hs : s.WellFormed) (source : Nat) : (s.requestStop source).WellFormed := by
  unfold System.requestStop
  split
  · exact hs.setFeed ‹_›
  · exact hs

theorem forget (hs : s.WellFormed) (call : Nat) : (s.forget call).WellFormed :=
  hs.frame (fun _ _ h => (Calls.mem_without.mp h).1) fun _ c h => ⟨c, h⟩

theorem forgotten (hs : s.WellFormed) (hcalls : s'.calls = s.calls)
    (hsources : s'.sources = s.sources) : (s'.forget call).WellFormed :=
  (hs.same hcalls hsources).forget call

theorem await (hs : s.WellFormed) (call : Nat) {c : Call α} (hc : ∀ j, c ≠ .start j) :
    (s.await call c).WellFormed := by
  refine hs.frame (fun w i h => ?_) fun _ c h => ⟨c, h⟩
  rcases Calls.mem_await.mp h with ⟨hmem, -⟩ | ⟨-, heq⟩
  · exact hmem
  · exact absurd heq.symm (hc i)

/-- The call that wanted a source is over, and the source is the only one that has changed. -/
theorem served (hs : s.WellFormed) (hcall : s.call? call = some (.start source))
    (hcalls : s'.calls = s.calls)
    (hothers : ∀ i, i ≠ source → s'.sources[i]? = s.sources[i]?) : (s'.forget call).WellFormed where
  offered w i h := by
    obtain ⟨hmem, hne⟩ := Calls.mem_without.mp h
    rw [hcalls] at hmem
    have hown := hs.owns call source (Calls.mem_of_lookup hcall)
    have hi : i ≠ source := fun hi => hne (hown w (hi ▸ hmem))
    rw [sources_forget, hothers i hi]
    exact hs.offered w i hmem
  owns w i h w' h' := by
    have hmem := (Calls.mem_without.mp h).1
    have hmem' := (Calls.mem_without.mp h').1
    rw [hcalls] at hmem hmem'
    exact hs.owns w i hmem w' hmem'

theorem ask {c : Call α} {s₁ : System α} (hs : s.WellFormed) (ha : s.Asks a call c s₁) :
    (s₁.ask call c).WellFormed := by
  cases ha with
  | stop =>
    have hlocked : ({ s with lock := s.lock.request call } : System α).WellFormed :=
      hs.same rfl rfl
    exact hlocked.await call (by simp)
  | start _ n =>
    have hold (w i : Nat) (h : (w, .start i) ∈ s.calls) :
        ∃ c, (s.offer n).sources[i]? = some (.offered c) ∧ i ≠ s.sources.length := by
      obtain ⟨c, hc⟩ := hs.offered w i h
      have hlt := (List.getElem?_eq_some_iff.mp hc).1
      exact ⟨c, List.getElem?_append_left hlt ▸ hc, Nat.ne_of_lt hlt⟩
    constructor
    · intro w i hmem
      rcases Calls.mem_await.mp hmem with ⟨hmem, -⟩ | ⟨-, heq⟩
      · exact (hold w i hmem).imp fun _ h => h.1
      · obtain rfl := Call.start.inj heq
        exact ⟨.ofCapacity n 1, by simp [System.ask, offer]⟩
    · intro w i hmem w' hmem'
      rcases Calls.mem_await.mp hmem with ⟨hmem, -⟩ | ⟨rfl, heq⟩ <;>
        rcases Calls.mem_await.mp hmem' with ⟨hmem', -⟩ | ⟨rfl, heq'⟩
      · exact hs.owns w i hmem w' hmem'
      · obtain ⟨-, -, hne⟩ := hold w i hmem
        exact absurd (Call.start.inj heq') hne
      · obtain ⟨-, -, hne⟩ := hold w' i hmem'
        exact absurd (Call.start.inj heq) hne
      · rfl

theorem went (hs : s.WellFormed) (h : s.Went call s' events) : s'.WellFormed := by
  cases h with
  | started hcall => exact hs.served hcall rfl fun i hi => getElem?_setSource_of_ne _ _ hi
  | startLost hcall => exact hs.served hcall rfl fun _ _ => rfl
  | startRefused _ hcall => exact hs.served hcall (calls_abandon s _) fun i hi => abandon_others hi
  | @stopTaken source =>
    have hnone : ({ s with running := none } : System α).WellFormed := hs.same rfl rfl
    exact (hnone.requestStop source).await call (by simp)
  | stopRefused | stopped => exact hs.forgotten rfl rfl
  | sent | refused | notReserved => exact (hs.setChannel _ _).forget call
  | reserved => exact hs.forget call

theorem did (hs : s.WellFormed) (h : s.Did a s' events) : s'.WellFormed := by
  cases h with
  | asked ha => exact hs.ask ha
  | atOnce ha _ _ hwent => exact (hs.ask ha).went hwent
  | sent | refused | reserved | notReserved | filled | gaveBack | handleAdded | handleDropped =>
    exact hs.setChannel _ _
  | sendWaits | reserveWaits => exact (hs.setChannel _ _).await _ (by simp)
  | startAborted hcall => exact hs.served hcall (calls_abandon s _) fun i hi => abandon_others hi
  | stopAborted | stoppingAborted => exact hs.forgotten rfl rfl
  | sendAborted | reserveAborted => exact (hs.leaveChannel _ _).forget _
  | dropped | advanced => exact hs.same rfl rfl
  | resumed hwent => exact hs.went hwent
  | moved hf => exact hs.setFeed hf

theorem step (hs : s.WellFormed) (h : s.step a = some (s', events)) : s'.WellFormed :=
  hs.did (did_of_step h)

end WellFormed

theorem effect_abandon {out : Outcome α} (hs : s.WellFormed)
    (hcall : s.call? call = some (.start source))
    (hout : out.1.sources = (s.abandon source).sources) (hsilent : Silent out.2) :
    s.Effect a out := by
  obtain ⟨c, hc⟩ := hs.offered _ _ (Calls.mem_of_lookup hcall)
  rw [abandon, hc] at hout
  exact effect_silently_set hc .abandoned hout hsilent

theorem effect_leaveChannel {out : Outcome α}
    (hout : out.1.sources = (s.leaveChannel source call).sources) (hsilent : Silent out.2) :
    s.Effect a out := by
  unfold leaveChannel at hout
  split at hout
  · exact effect_silently_sent ‹_› (.left call) (·.leave) hout hsilent
  · exact effect_same hout hsilent

/-- Somebody who has got a place fills it. -/
theorem effect_fill {item : α} {x : Source α} {out : Outcome α}
    (hx : s.sources[source]? = some x) (hheld : call ∈ x.channel.places.held)
    (hclosed : x.channel.closed = true → a = .fill call source item)
    (hout : out.1.sources = (s.setChannel source (x.channel.fill call item)).sources)
    (htaken : ∀ i, out.2.filterMap (Event.taken? i) = if source = i then [item] else [])
    (hchunk : ∀ i, out.2.filterMap (Event.chunk? i) = []) : s.Effect a out := by
  refine effect_sent hx (.filled item hheld) ?_ ?_ hout htaken hchunk
  · intro hd
    simp [hd.held] at hheld
  · rintro hc y hy
    obtain rfl := Option.mem_some_iff.mp hy
    exact ⟨call, hheld, hclosed hc⟩

theorem effect_of_went (hs : s.WellFormed) (h : s.Went call s' events) :
    s.Effect a (s', events) := by
  cases h with
  | started hcall _ _ hvalid hx =>
    obtain ⟨c, hc⟩ := hs.offered _ _ (Calls.mem_of_lookup hcall)
    obtain rfl := Option.some.inj (hx.symm.trans hc)
    exact effect_silently_set hc (.started hvalid) rfl (by simp)
  | startRefused _ hcall => exact effect_abandon hs hcall rfl (by simp)
  | @stopTaken source =>
    unfold takeOver requestStop
    split
    · rename_i f hf
      exact effect_silently_set (feed?_eq_some hf) .told rfl (by simp)
    · exact effect_same rfl (by simp)
  | startLost | stopRefused | stopped | reserved => exact effect_same rfl (by simp)
  | @sent source item x _ hx hresume =>
    obtain ⟨hopen, hheld⟩ := Channel.resume?_eq_accepted hresume
    refine effect_fill hx hheld ?_ rfl ?_ fun _ => rfl
    · intro hclosed
      simp [hopen] at hclosed
    · intro i
      by_cases hi : source = i <;> simp [Event.taken?, hi]
  | refused _ hx | notReserved _ hx =>
    exact effect_silently_sent hx (.left call) (·.leave) rfl (by simp)

theorem effect_of_did (hs : s.WellFormed) (h : s.Did a s' events) : s.Effect a (s', events) := by
  cases h with
  | asked ha =>
    cases ha with
    | start => exact effect_of_offer (effect_same rfl (by simp))
    | stop => exact effect_same rfl (by simp)
  | atOnce ha _ _ hwent =>
    have heffect := effect_of_went (hs.ask ha) hwent (a := a)
    cases ha with
    | start => exact effect_of_offer heffect
    | stop => exact heffect
  | @sent call source item x c _ hx hpos hsend =>
    refine effect_sent hx (Channel.sent_of_send hsend) ?_ ?_ rfl ?_ fun _ => rfl
    · exact fun hd => absurd hd (Channel.not_deserted hpos)
    · intro hclosed
      simp [Channel.send, hclosed] at hsend
    · intro i
      by_cases hi : source = i <;> simp [Event.taken?, Channel.Arrival.taken, hi]
  | sendWaits _ hx hpos hsend | refused _ hx hpos hsend =>
    have hused := Channel.not_deserted hpos
    exact effect_silently_sent hx (Channel.sent_of_send hsend) (fun hd => absurd hd hused) rfl
      (by simp)
  | reserved _ hx hpos hreserve | reserveWaits _ hx hpos hreserve
  | notReserved _ hx hpos hreserve =>
    have hused := Channel.not_deserted hpos
    exact effect_silently_sent hx (Channel.sent_of_reserve hreserve) (fun hd => absurd hd hused) rfl
      (by simp)
  | @filled call source item x _ hx hheld =>
    refine effect_fill hx hheld (fun _ => rfl) rfl ?_ fun _ => rfl
    intro i
    by_cases hi : source = i <;> simp [Event.taken?, hi]
  | gaveBack _ hx => exact effect_silently_sent hx (.left _) (·.leave) rfl (by simp)
  | startAborted hcall => exact effect_abandon hs hcall rfl (by simp)
  | stopAborted | stoppingAborted | dropped | advanced => exact effect_same rfl (by simp)
  | sendAborted | reserveAborted => exact effect_leaveChannel rfl (by simp)
  | handleAdded hx hpos | handleDropped hx hpos =>
    have hused := Channel.not_deserted hpos
    exact effect_silently_sent hx (.counted _) (fun hd => absurd hd hused) rfl (by simp)
  | resumed hwent => exact effect_of_went hs hwent
  | moved hf hmoved => exact effect_moved hf hmoved

theorem effect_of_step (hs : s.WellFormed) (h : s.step a = some (s', events)) :
    s.Effect a (s', events) :=
  effect_of_did hs (did_of_step h)

end System

end Batchflow.Chunker
