import Batchflow.Proofs.Chunker.Conservation

/-!
# When a batch is handed over

The items that a worker receives fall into groups, one for each chunk, in the order in which they
came.  The first item of a group sets the ticker back, so that it ticks when that item has waited
as long as it may.  Until then the worker is never inside the handler, since a batch is begun only
when the handler has returned.  A batch is therefore handed over when it is full or at the tick,
as long as the worker does not close its source; and while it does, every chunk but the last is
full.
-/

namespace Batchflow.Chunker

variable {α : Type}

structure Receipt (α : Type) where
  time : Nat
  item : α

/-- A chunk that was handed over, and when, with the worker and its source as they were before. -/
structure Delivery (α : Type) where
  time : Nat
  items : List α
  feed : Feed Nat α

/-- Whether a chunk was handed over while the worker emptied a source that it had closed. -/
def Delivery.byDrain (d : Delivery α) : Bool := d.feed.worker.isDraining

namespace Worker

/-- Its last chunk was handed over, if there was one. -/
def isDone : Worker α → Bool
  | .handling _ .finish => true
  | .returned => true
  | .panicked _ => true
  | _ => false

end Worker

namespace Feed

/-- The worker was told to stop, or nobody is left who could send. -/
def Closing (f : Feed Nat α) : Prop := f.stopRequested = true ∨ f.channel.Deserted

/-- What a worker receives by a move. -/
def received (now : Nat) (f : Feed Nat α) : Move → Option (Receipt α)
  | .receive => f.channel.receive?.map fun r => ⟨now, r.1⟩
  | _ => none

variable {o : Options} {now : Nat} {f f' : Feed Nat α} {m : Move} {chunk : Option (List α)}

/-- A worker leaves its first loop only when its source closes. -/
def LeftInTime (f : Feed Nat α) : Prop :=
  f.worker.isShut = true → (∀ panic, f.worker ≠ .panicked panic) → f.Closing

theorem LeftInTime.moved (hf : f.Sound o) (h : f.LeftInTime) (hm : Moved o now f m f' chunk) :
    f'.LeftInTime := by
  intro hshut hpanic
  cases hm with
  | stopNoticed _ hstop => exact .inl hstop
  | endNoticed hw hend =>
    refine .inr (Channel.deserted_of_exhausted hend ?_).close
    rw [hf.closed_eq, hw]
    rfl
  | tickSwallowed =>
    rcases h hshut hpanic with hstop | hend
    · exact .inl hstop
    · exact .inr hend
  | aged | collected | filled => simp [Worker.isShut] at hshut
  | drained hw hr | drainFilled hw hr =>
    exact (h (by rw [hw]; rfl) (by simp [hw])).imp_right (·.receive hr)
  | finished hw | flushed hw => exact h (by rw [hw]; rfl) (by simp [hw])
  | @handled chunk resume hw =>
    cases resume with
    | collect => simp [Resume.worker, Worker.isShut] at hshut
    | drain | finish => exact h (by rw [hw]; rfl) (by simp [hw])
  | panicked p => exact absurd rfl (hpanic p)

theorem LeftInTime.frame (h : f.LeftInTime) (hw : f'.worker = f.worker)
    (hstop : f.stopRequested = true → f'.stopRequested = true)
    (hdeserted : f.channel.Deserted → f'.channel.Deserted) : f'.LeftInTime := by
  intro hshut hpanic
  rw [hw] at hshut hpanic
  exact (h hshut hpanic).imp hstop hdeserted

end Feed

/-- A chunk is made of what was received for it.  Unless the source is closing, it is handed over
when its first item has waited as long as it may, or before that if it is full. -/
structure Punctual (o : Options) (group : List (Receipt α)) (d : Delivery α) : Prop where
  items : group.map (·.item) = d.items
  nonempty : 1 ≤ d.items.length
  bounded : d.items.length ≤ o.size
  due : ¬ d.feed.Closing → ∀ first ∈ group.head?,
    d.time ≤ Instant.tick (first.time + o.wait.total) ∧
      (d.items.length < o.size → first.time + o.wait.total ≤ d.time)

/-- The groups that were handed over and the rest that is in hand, with the ticker set for it. -/
structure Grouped (o : Options) (now : Nat) (groups : List (List (Receipt α)))
    (rest : List (Receipt α)) (deliveries : List (Delivery α)) (f : Feed Nat α) : Prop where
  punctual : List.Forall₂ (Punctual o) groups deliveries
  items : rest.map (·.item) = f.worker.batch
  due : ∀ batch, f.worker = .collecting batch → ∀ first ∈ rest.head?,
    f.ticker.next = first.time + o.wait.total ∧ now ≤ Instant.tick f.ticker.next

def Grouping (o : Options) (now : Nat) (receipts : List (Receipt α))
    (deliveries : List (Delivery α)) (f : Feed Nat α) : Prop :=
  ∃ groups rest, receipts = groups.flatten ++ rest ∧ Grouped o now groups rest deliveries f

namespace Grouped

variable {o : Options} {now : Nat} {f f' : Feed Nat α} {m : Move} {chunk : Option (List α)}
  {groups : List (List (Receipt α))} {rest : List (Receipt α)} {deliveries : List (Delivery α)}

theorem start (c : Channel Nat α) (now : Nat) : Grouped o now [] [] [] (Feed.start c now) where
  punctual := .nil
  items := rfl
  due := by simp

theorem rest_eq_nil (h : Grouped o now groups rest deliveries f) (hbatch : f.worker.batch = []) :
    rest = [] := by
  have := h.items
  rw [hbatch] at this
  exact List.map_eq_nil_iff.mp this

theorem handOver {receipts : List (Receipt α)} {items : List α}
    (h : Grouped o now groups rest deliveries f) (last : List (Receipt α))
    (hreceipts : receipts = groups.flatten ++ rest ++ last)
    (hd : Punctual o (rest ++ last) ⟨now, items, f⟩) (hw : f'.worker.batch = [])
    (hbusy : ∀ batch, f'.worker ≠ .collecting batch) :
    Grouping o now receipts (deliveries ++ [⟨now, items, f⟩]) f' := by
  refine ⟨groups ++ [rest ++ last], [], by simpa using hreceipts, ?_, hw.symm, ?_⟩
  · exact List.rel_append h.punctual (.cons hd .nil)
  · intro batch hbatch
    exact absurd hbatch (hbusy batch)

/-- No chunk is handed over. -/
theorem keep {receipts : List (Receipt α)} (h : Grouped o now groups rest deliveries f)
    (last : List (Receipt α)) (hreceipts : receipts = groups.flatten ++ rest ++ last)
    (hitems : (rest ++ last).map (·.item) = f'.worker.batch)
    (hdue : ∀ batch, f'.worker = .collecting batch → ∀ first ∈ (rest ++ last).head?,
      f'.ticker.next = first.time + o.wait.total ∧ now ≤ Instant.tick f'.ticker.next) :
    Grouping o now receipts (deliveries ++ []) f' :=
  ⟨groups, rest ++ last, by simpa using hreceipts, by simpa using h.punctual, hitems, hdue⟩

/-- While items are collected the first of them has set the ticker. -/
theorem first_due {batch : List α} {x : α} (h : Grouped o now groups rest deliveries f)
    (hw : f.worker = .collecting batch) :
    ∀ first ∈ (rest ++ [(⟨now, x⟩ : Receipt α)]).head?,
      (f.tickerAfter o now batch).next = first.time + o.wait.total ∧
        now ≤ Instant.tick (first.time + o.wait.total) := by
  have hitems := h.items
  rw [hw, Worker.batch_collecting] at hitems
  intro first hfirst
  cases rest with
  | nil =>
    obtain rfl : batch = [] := by simpa using hitems.symm
    obtain rfl : (⟨now, x⟩ : Receipt α) = first := by simpa using hfirst
    exact ⟨rfl, Nat.le_trans (Nat.le_add_right now _) (Instant.le_tick _)⟩
  | cons r rest =>
    obtain rfl : r = first := by simpa using hfirst
    obtain ⟨hnext, hnow⟩ := h.due batch hw r rfl
    have hne : batch.isEmpty = false := by
      rw [← hitems]
      rfl
    rw [Feed.tickerAfter, hne]
    exact ⟨hnext, hnext ▸ hnow⟩

theorem frame (h : Grouped o now groups rest deliveries f) (hw : f'.worker = f.worker)
    (ht : f'.ticker = f.ticker) : Grouped o now groups rest deliveries f' where
  punctual := h.punctual
  items := hw ▸ h.items
  due := by
    rw [hw, ht]
    exact h.due

/-- Each move keeps the groups, ends one, or adds to the one in hand. -/
theorem moved (h : Grouped o now groups rest deliveries f) (hf : f.Sound o) (hl : f.LeftInTime)
    (hm : f.Moved o now m f' chunk) :
    Grouping o now (groups.flatten ++ rest ++ (f.received now m).toList)
      (deliveries ++ chunk.toList.map (⟨now, ·, f⟩)) f' := by
  have hitems := h.items
  have hlength := hm.length_chunk hf
  have hclosing (hshut : f.worker.isShut = true) (hpanic : ∀ panic, f.worker ≠ .panicked panic)
      {P : Prop} (hopen : ¬ f.Closing) : P := absurd (hl hshut hpanic) hopen
  cases hm with
  | stopNoticed hw | endNoticed hw =>
    rw [hw] at hitems
    exact h.keep [] rfl (by simpa using hitems) (by simp)
  | tickSwallowed hw | handled hw | finished hw | panicked p hw =>
    obtain rfl := h.rest_eq_nil (by rw [hw]; rfl)
    exact h.keep [] rfl (by simp [hw]) (by simp)
  | @aged x batch hw hdue =>
    rw [hw] at hitems
    obtain ⟨hpos, hle⟩ := hlength _ rfl
    refine h.handOver [] rfl ⟨by simpa using hitems, hpos, hle, ?_⟩ rfl (by simp)
    intro _ first hfirst
    rw [List.append_nil] at hfirst
    obtain ⟨hnext, hnow⟩ := h.due _ hw first hfirst
    refine ⟨hnext ▸ hnow, fun _ => hnext ▸ Nat.le_trans (Instant.le_tick _) ?_⟩
    simpa [Ticker.isDue] using hdue
  | @collected batch x channel hw hr hlt =>
    rw [hw] at hitems
    refine h.keep [⟨now, x⟩] (by simp [Feed.received, hr]) (by simpa using hitems) ?_
    intro _ _ first hfirst
    obtain ⟨hnext, hnow⟩ := h.first_due hw first hfirst
    exact ⟨hnext, hnext ▸ hnow⟩
  | @filled batch x channel hw hr hge =>
    rw [hw] at hitems
    obtain ⟨hpos, hle⟩ := hlength _ rfl
    refine h.handOver [⟨now, x⟩] (by simp [Feed.received, hr])
      ⟨by simpa using hitems, hpos, hle, ?_⟩ rfl (by simp)
    intro _ first hfirst
    refine ⟨(h.first_due hw first hfirst).2, fun hlt => ?_⟩
    simp at hlt
    omega
  | @drained batch x channel hw hr hlt =>
    rw [hw] at hitems
    exact h.keep [⟨now, x⟩] (by simp [Feed.received, hr]) (by simpa using hitems) (by simp)
  | @drainFilled batch x channel hw hr hge =>
    rw [hw] at hitems
    obtain ⟨hpos, hle⟩ := hlength _ rfl
    exact h.handOver [⟨now, x⟩] (by simp [Feed.received, hr])
      ⟨by simpa using hitems, hpos, hle, hclosing (by rw [hw]; rfl) (by simp [hw])⟩ rfl (by simp)
  | @flushed x batch hw hend =>
    rw [hw] at hitems
    obtain ⟨hpos, hle⟩ := hlength _ rfl
    exact h.handOver [] rfl
      ⟨by simpa using hitems, hpos, hle, hclosing (by rw [hw]; rfl) (by simp [hw])⟩ rfl (by simp)

end Grouped

/-- Of the chunks that were handed over while the source was emptied, only the last may be short. -/
structure DrainsFull (o : Options) (deliveries : List (Delivery α)) (f : Feed Nat α) : Prop where
  init : ∀ d ∈ (deliveries.filter (·.byDrain)).dropLast, d.items.length = o.size
  all : f.worker.isDone = false → ∀ d ∈ deliveries.filter (·.byDrain), d.items.length = o.size

namespace DrainsFull

variable {o : Options} {now : Nat} {f f' : Feed Nat α} {m : Move} {chunk : Option (List α)}
  {deliveries : List (Delivery α)}

theorem frame (h : DrainsFull o deliveries f)
    (hdone : f'.worker.isDone = false → f.worker.isDone = false) : DrainsFull o deliveries f' :=
  ⟨h.init, fun hw => h.all (hdone hw)⟩

theorem collect {d : Delivery α} (h : DrainsFull o deliveries f) (hd : d.byDrain = false)
    (hdone : f.worker.isDone = false) : DrainsFull o (deliveries ++ [d]) f' := by
  have hfilter : (deliveries ++ [d]).filter (·.byDrain) = deliveries.filter (·.byDrain) := by
    simp [hd]
  constructor <;> rw [hfilter]
  · exact h.init
  · exact fun _ => h.all hdone

theorem drain {d : Delivery α} (h : DrainsFull o deliveries f) (hd : d.byDrain = true)
    (hdone : f.worker.isDone = false)
    (hfull : f'.worker.isDone = false → d.items.length = o.size) :
    DrainsFull o (deliveries ++ [d]) f' := by
  have hfilter : (deliveries ++ [d]).filter (·.byDrain) =
      deliveries.filter (·.byDrain) ++ [d] := by
    simp [hd]
  constructor <;> rw [hfilter]
  · rw [List.dropLast_concat]
    exact h.all hdone
  · intro hw e he
    rcases List.mem_append.mp he with he | he
    · exact h.all hdone e he
    · obtain rfl := List.mem_singleton.mp he
      exact hfull hw

theorem moved (h : DrainsFull o deliveries f) (hf : f.Sound o) (hm : f.Moved o now m f' chunk) :
    DrainsFull o (deliveries ++ chunk.toList.map (⟨now, ·, f⟩)) f' := by
  have hbatch := hf.batch_lt
  cases hm with
  | stopNoticed hw | endNoticed hw | collected hw | drained hw | tickSwallowed hw =>
    simpa using h.frame fun _ => by rw [hw]; rfl
  | finished | panicked => simpa using h.frame (by simp [Worker.isDone])
  | @handled _ resume hw =>
    refine (List.append_nil deliveries).symm ▸ h.frame fun hdone => ?_
    cases resume <;> simp_all [Resume.worker, Worker.isDone]
  | aged hw | filled hw =>
    exact h.collect (by rw [Delivery.byDrain, hw]; rfl) (by rw [hw]; rfl)
  | drainFilled hw _ hge =>
    refine h.drain (by rw [Delivery.byDrain, hw]; rfl) (by rw [hw]; rfl) fun _ => ?_
    rw [hw, Worker.batch_draining] at hbatch
    simp
    omega
  | flushed hw =>
    exact h.drain (by rw [Delivery.byDrain, hw]; rfl) (by rw [hw]; rfl) (by simp [Worker.isDone])

end DrainsFull

namespace Source

variable {o : Options} {now i : Nat} {a : Action α} {x y : Option (Source α)}
  {item : Option α} {chunk : Option (List α)} {receipts : List (Receipt α)}
  {deliveries : List (Delivery α)}

/-- A worker hands over what it receives as it should. -/
def Flushes (o : Options) (now : Nat) (receipts : List (Receipt α))
    (deliveries : List (Delivery α)) : Option (Source α) → Prop
  | some (.read f) =>
    Grouping o now receipts deliveries f ∧ f.LeftInTime ∧ DrainsFull o deliveries f
  | _ => receipts = [] ∧ deliveries = []

/-- As long as the worker does not move, nothing is received and nothing handed over. -/
theorem Change.idle (h : Change o now i a x item chunk y) (ha : ∀ m, a ≠ .move i m)
    (hx : Flushes o now receipts deliveries x) :
    Flushes o now receipts deliveries y ∧ chunk = none := by
  induction h with
  | same => exact ⟨hx, rfl⟩
  | born n _ ih => exact ih hx
  | @sent x _ _ hsent hdeserted =>
    cases x with
    | read f =>
      obtain ⟨⟨groups, rest, hreceipts, hgrouped⟩, hleft, hfull⟩ := hx
      exact ⟨⟨⟨groups, rest, hreceipts, hgrouped.frame rfl rfl⟩,
        hleft.frame rfl id hdeserted, hfull.frame id⟩, rfl⟩
    | offered | abandoned => exact ⟨hx, rfl⟩
  | @started c =>
    obtain ⟨rfl, rfl⟩ := hx
    exact ⟨⟨⟨[], [], rfl, .start c now⟩, by simp [Feed.LeftInTime, Feed.start, Worker.isShut],
      ⟨by simp, by simp⟩⟩, rfl⟩
  | abandoned => exact ⟨hx, rfl⟩
  | told =>
    obtain ⟨⟨groups, rest, hreceipts, hgrouped⟩, hleft, hfull⟩ := hx
    exact ⟨⟨⟨groups, rest, hreceipts, hgrouped.frame rfl rfl⟩,
      hleft.frame rfl (fun _ => rfl) id, hfull.frame id⟩, rfl⟩
  | moved haction => exact absurd haction (ha _)

theorem Change.read_of_chunk {items : List α} (h : Change o now i a x item chunk y)
    (hchunk : items ∈ chunk) : ∃ f, x = some (.read f) := by
  induction h with
  | born n _ ih => exact absurd (ih hchunk) (by simp)
  | @moved f => exact ⟨f, rfl⟩
  | _ => simp at hchunk

end Source

/-- What the worker of a source receives by an action. -/
def System.received (s : System α) (source : Nat) : Action α → Option (Receipt α)
  | .move i m => if i = source then (s.feed? source).bind (·.received s.now m) else none
  | _ => none

/-- All that the worker of a source has received, in order. -/
def receipts (source : Nat) (turns : History α) : List (Receipt α) :=
  turns.flatMap fun t => (t.before.received source t.action).toList

/-- The chunks among what is seen of an action, with the feed that they were taken from. -/
def System.delivered (s : System α) (source : Nat) (events : List (Event α)) :
    List (Delivery α) :=
  match s.feed? source with
  | some f => (events.filterMap (Event.chunk? source)).map (⟨s.now, ·, f⟩)
  | none => []

/-- The chunks of a source that were handed over, in order, and how. -/
def deliveries (source : Nat) (turns : History α) : List (Delivery α) :=
  turns.flatMap fun t => t.before.delivered source t.events

theorem receipts_append (source : Nat) (turns later : History α) :
    receipts source (turns ++ later) = receipts source turns ++ receipts source later :=
  List.flatMap_append

theorem deliveries_append (source : Nat) (turns later : History α) :
    deliveries source (turns ++ later) = deliveries source turns ++ deliveries source later :=
  List.flatMap_append

namespace System

variable {o : Options} {s s' : System α} {a : Action α} {events : List (Event α)}
  {turns : History α} {source : Nat}

theorem eq_of_move {m : Move} (h : s.step (.move source m) = some (s', events)) :
    ∃ f f' chunk, s.feed? source = some f ∧ f.Moved s.options s.now m f' chunk ∧
      s' = s.setFeed source f' ∧ events = chunk.toList.map (.chunk source) := by
  cases did_of_step h with
  | asked ha | atOnce ha => cases ha
  | moved hf hmoved => exact ⟨_, _, _, hf, hmoved, rfl, rfl⟩

/-- Time does not pass beyond the moment at which a batch has to be handed over. -/
theorem le_due_of_advance {now : Nat} {f : Feed Nat α} {batch : List α}
    (h : s.advance? now = some s') (hf : s.feed? source = some f)
    (hw : f.worker = .collecting batch) (hbatch : batch ≠ []) :
    now ≤ Instant.tick f.ticker.next := by
  simp only [advance?, Option.ite_none_right_eq_some, Option.some.injEq] at h
  refine h.1.2.2 f.ticker.next (List.mem_filterMap.mpr ⟨.read f, ?_, ?_⟩)
  · exact List.mem_of_getElem? (feed?_eq_some hf)
  · obtain ⟨x, batch, rfl⟩ := List.exists_cons_of_ne_nil hbatch
    simp [Source.feed?, Feed.due?, hw]

theorem flushes_of_advance {now : Nat} {receipts : List (Receipt α)}
    {deliveries : List (Delivery α)} (h : s.advance? now = some s')
    (hs : Source.Flushes o s.now receipts deliveries s.sources[source]?) :
    Source.Flushes o s'.now receipts deliveries s'.sources[source]? := by
  have heq : s' = { s with now } := by
    simp only [advance?, Option.ite_none_right_eq_some, Option.some.injEq] at h
    exact h.2.symm
  subst heq
  cases hx : s.sources[source]? with
  | none => simpa [hx, Source.Flushes] using hs
  | some x =>
    rw [hx] at hs
    cases x with
    | offered | abandoned => exact hs
    | read f =>
      obtain ⟨⟨groups, rest, hreceipts, hgrouped⟩, hleft, hfull⟩ := hs
      refine ⟨⟨groups, rest, hreceipts, hgrouped.punctual, hgrouped.items, ?_⟩, hleft, hfull⟩
      intro batch hw first hfirst
      refine ⟨(hgrouped.due batch hw first hfirst).1, le_due_of_advance h (feed?_of_read hx) hw ?_⟩
      rintro rfl
      obtain rfl := hgrouped.rest_eq_nil (by rw [hw]; rfl)
      simp at hfirst

theorem flushes_of_step {receipts : List (Receipt α)} {deliveries : List (Delivery α)}
    (h : s.step a = some (s', events)) (hwf : s.WellFormed)
    (hsound : Source.Sound s.options s.sources[source]?)
    (hs : Source.Flushes s.options s.now receipts deliveries s.sources[source]?) :
    Source.Flushes s.options s'.now (receipts ++ (s.received source a).toList)
      (deliveries ++ s.delivered source events) s'.sources[source]? := by
  by_cases hmove : ∃ m, a = .move source m
  · obtain ⟨m, rfl⟩ := hmove
    obtain ⟨f, f', chunk, hf, hmoved, rfl, rfl⟩ := eq_of_move h
    have hread := feed?_eq_some hf
    rw [hread] at hs hsound
    obtain ⟨⟨groups, rest, rfl, hgrouped⟩, hleft, hfull⟩ := hs
    have hchunk : (chunk.toList.map (Event.chunk source)).filterMap (Event.chunk? source) =
        chunk.toList := by
      cases chunk <;> simp [Event.chunk?]
    rw [setFeed, getElem?_setSource_self s _ hread]
    simp only [received, delivered, hf, if_true, Option.bind_some, hchunk]
    exact ⟨hgrouped.moved hsound hleft hmoved, hleft.moved hsound hmoved,
      hfull.moved hsound hmoved⟩
  · obtain ⟨item, chunk, hchange, -, hchunk⟩ := effect_of_step hwf h source
    have hreceived : s.received source a = none := by
      cases a with
      | move i m =>
        have hi : i ≠ source := by
          rintro rfl
          exact hmove ⟨m, rfl⟩
        simp [received, hi]
      | _ => rfl
    obtain ⟨hs', rfl⟩ := hchange.idle (fun m hm => hmove ⟨m, hm⟩) hs
    have hdelivered : s.delivered source events = [] := by
      unfold delivered
      split <;> simp [hchunk]
    rw [hreceived, hdelivered]
    simp only [Option.toList_none, List.append_nil]
    rcases settings_of_step h with hsettings | ⟨now, -, hadvance⟩
    · rw [show s'.now = s.now from congrArg Prod.snd hsettings]
      exact hs'
    · exact flushes_of_advance hadvance hs

theorem flushes_of_run (h : Run step (new o) turns s) (source : Nat) :
    Source.Flushes o s.now (receipts source turns) (deliveries source turns)
      s.sources[source]? := by
  induction h with
  | nil => exact ⟨rfl, rfl⟩
  | @snoc turns s₁ s₂ a events hrun hstep ih =>
    have hsound := sound_of_run hrun source
    rw [← options_of_run hrun] at ih hsound ⊢
    rw [receipts_append, deliveries_append]
    simpa [receipts, deliveries] using
      flushes_of_step hstep (wellFormed_of_run hrun) hsound ih

theorem items_deliveries (h : Run step (new o) turns s) (source : Nat) :
    (deliveries source turns).map (·.items) = chunks source turns := by
  unfold deliveries chunks
  rw [List.map_flatMap]
  refine List.flatMap_congr fun t ht => ?_
  obtain ⟨before, after, s₁, -, hbefore, hstep, -⟩ := h.split ht
  obtain ⟨item, chunk, hchange, -, hchunk⟩ :=
    effect_of_step (wellFormed_of_run hbefore) hstep source
  unfold delivered
  split
  · rw [List.map_map]
    exact List.map_id _
  · rename_i hnone
    cases chunk with
    | none => simpa using hchunk.symm
    | some items =>
      obtain ⟨f, hf⟩ := hchange.read_of_chunk rfl
      simp [feed?_of_read hf] at hnone

theorem step_move {f f' : Feed Nat α} {m : Move} {items : List α} (hf : s.feed? source = some f)
    (h : f.step s.options s.now m = some (f', some items)) :
    s.step (.move source m) = some (s.setFeed source f', [.chunk source items]) := by
  simp only [step, move?, hf, h]

theorem step_tick {f : Feed Nat α} {x : α} {batch : List α} (hf : s.feed? source = some f)
    (hw : f.worker = .collecting (x :: batch)) (hdue : f.ticker.isDue s.now = true) :
    ∃ s', s.step (.move source .tick) = some (s', [.chunk source (x :: batch)]) := by
  obtain ⟨f', hstep⟩ : ∃ f', f.step s.options s.now .tick = some (f', some (x :: batch)) := by
    rw [Feed.step, Feed.tick?, if_pos hdue]
    generalize f.ticker.tick s.options.wait.total s.now = ticker
    exact ⟨_, by rw [hw]; rfl⟩
  exact ⟨s.setFeed source f', step_move hf hstep⟩

/-- The chunks are what was received, cut into pieces of at most the size of a chunk.  Unless the
source is closing, a chunk is handed over in time, and a short one not before time; what is still
in hand is not overdue, and at the last moment it can be handed over.  All chunks that are handed
over while the source is emptied are full, except the last. -/
theorem chunks_punctual {o : Options} {source : Nat} {turns : History α} {s : System α}
    {f : Feed Nat α} (h : Run step (new o) turns s) (hf : s.feed? source = some f) :
    (deliveries source turns).map (·.items) = chunks source turns ∧
    (∃ groups rest, receipts source turns = groups.flatten ++ rest ∧
      List.Forall₂ (Punctual o) groups (deliveries source turns) ∧
      rest.map (·.item) = f.worker.batch ∧
      (¬ f.Closing → ∀ first ∈ rest.head?,
        s.now ≤ Instant.tick (first.time + o.wait.total) ∧
        (s.now = Instant.tick (first.time + o.wait.total) →
          ∃ s', s.step (.move source .tick) = some (s', [.chunk source f.worker.batch])))) ∧
    ∀ d ∈ ((deliveries source turns).filter (·.byDrain)).dropLast, d.items.length = o.size := by
  have hflushes := flushes_of_run h source
  rw [feed?_eq_some hf] at hflushes
  obtain ⟨⟨groups, rest, hreceipts, hgrouped⟩, hleft, hfull⟩ := hflushes
  refine ⟨items_deliveries h source,
    ⟨groups, rest, hreceipts, hgrouped.punctual, hgrouped.items, ?_⟩, hfull.init⟩
  intro hopen first hfirst
  have hitems := hgrouped.items
  cases hw : f.worker with
  | collecting batch =>
    obtain ⟨hnext, hnow⟩ := hgrouped.due batch hw first hfirst
    rw [hnext] at hnow
    refine ⟨hnow, fun hlast => ?_⟩
    cases batch with
    | nil =>
      obtain rfl := hgrouped.rest_eq_nil (by rw [hw]; rfl)
      simp at hfirst
    | cons x batch =>
      refine step_tick hf hw ?_
      simp [Ticker.isDue, hnext, hlast]
  | draining => exact absurd (hleft (by rw [hw]; rfl) (by simp [hw])) hopen
  | _ =>
    obtain rfl := hgrouped.rest_eq_nil (by rw [hw]; rfl)
    simp at hfirst

/-- Two items that come at once fill a chunk, a third one waits for the tick, and of those that
come last one is left over when the worker is told to stop. -/
def tickedRun : List (Action Nat) :=
  [.start 0 4, .send 1 0 10, .send 2 0 20, .send 3 0 30, .move 0 .receive, .move 0 .receive,
    .move 0 .handlerReturns, .move 0 .receive, .advance 10000000000, .move 0 .tick,
    .move 0 .handlerReturns, .send 4 0 40, .send 5 0 50, .send 6 0 60, .stop 7,
    .move 0 .noticeStop, .move 0 .receive, .move 0 .receive, .move 0 .handlerReturns,
    .move 0 .receive, .move 0 .finish, .move 0 .handlerReturns]

theorem chunks_punctual_tickedRun : ∃ turns s f,
    Run step (new { size := 2 }) turns s ∧ s.feed? 0 = some f ∧
      (deliveries 0 turns).map (·.items) = [[10, 20], [30], [40, 50], [60]] ∧
      (deliveries 0 turns).map (·.time) = [0, 10000000000, 10000000000, 10000000000] ∧
      (∃ groups rest, receipts 0 turns = groups.flatten ++ rest ∧
        List.Forall₂ (Punctual { size := 2 }) groups (deliveries 0 turns)) ∧
      ∀ d ∈ ((deliveries 0 turns).filter (·.byDrain)).dropLast, d.items.length = 2 := by
  have hseen : (replay step (new { size := 2 }) tickedRun).map (fun r =>
      ((deliveries 0 r.1).map (·.items), (deliveries 0 r.1).map (·.time), (r.2.feed? 0).isSome)) =
      some ([[10, 20], [30], [40, 50], [60]],
        [0, 10000000000, 10000000000, 10000000000], true) := by
    decide +kernel
  obtain ⟨⟨turns, s⟩, hreplay, hseen⟩ := Option.map_eq_some_iff.mp hseen
  simp only [Prod.mk.injEq] at hseen
  obtain ⟨hitems, htimes, hread⟩ := hseen
  obtain ⟨f, hf⟩ := Option.isSome_iff_exists.mp hread
  have hrun := Run.of_replay hreplay
  obtain ⟨-, ⟨groups, rest, hreceipts, hpunctual, -⟩, hfull⟩ := chunks_punctual hrun hf
  exact ⟨turns, s, f, hrun, hf, hitems, htimes, ⟨groups, rest, hreceipts, hpunctual⟩, hfull⟩

end System

end Batchflow.Chunker
