import Batchflow.Proofs.Chunker.Flushing

/-!
# How long a batch may wait

The first item of a batch sets the ticker, so a worker that collects hands its batch over in time.
A worker that empties a closed source has no ticker.  It hands over when its batch is full or when
its source has ended, and a closed source has not ended while somebody holds a place in it.  So a
batch is handed over in time unless a place that was reserved before is still outstanding, and then
it may wait for any time.
-/

namespace Batchflow.Chunker

variable {α : Type}

namespace Feed

/-- The worker empties a closed source and has a batch in hand.  There is nothing to receive, but
somebody may still fill a place. -/
structure HeldUp (f : Feed Nat α) : Prop where
  draining : f.worker.isDraining = true
  batch : f.worker.batch ≠ []
  buffer : f.channel.buffer = []
  held : f.channel.places.held ≠ []

instance (f : Feed Nat α) : Decidable f.HeldUp :=
  decidable_of_iff (f.worker.isDraining = true ∧ f.worker.batch ≠ [] ∧ f.channel.buffer = [] ∧
      f.channel.places.held ≠ [])
    ⟨fun ⟨hd, hb, hr, hp⟩ => ⟨hd, hb, hr, hp⟩, fun ⟨hd, hb, hr, hp⟩ => ⟨hd, hb, hr, hp⟩⟩

variable {o : Options} {now : Nat} {f f' : Feed Nat α} {m : Move} {chunk : Option (List α)}

theorem isDraining_iff {w : Worker α} : w.isDraining = true ↔ w = .draining w.batch := by
  cases w <;> simp [Worker.isDraining]

theorem HeldUp.not_moved (h : f.HeldUp) : ¬ f.Moved o now m f' chunk := by
  have hw := isDraining_iff.mp h.draining
  have hbuffer := h.buffer
  have hreceive {x : α} {c : Channel Nat α} : f.channel.receive? ≠ some (x, c) := by
    simp [Channel.receive?, hbuffer]
  intro hm
  cases hm with
  | drained _ hr | drainFilled _ hr => exact hreceive hr
  | finished hempty => exact h.batch (by simp [hempty])
  | flushed _ hend => exact h.held (Channel.exhausted_iff.mp hend).1.2
  | stopNoticed hw' | tickSwallowed hw' | aged hw' | collected hw' | filled hw' | endNoticed hw'
  | handled hw' | panicked _ hw' => simp [hw'] at hw

/-- A worker that has a batch in hand and closed its source can go on unless it is held up. -/
theorem HeldUp.of_waiting (hf : f.Sound o) (hdraining : f.worker.isDraining = true)
    (hbatch : f.worker.batch ≠ []) (hreceive : f.step o now .receive = none)
    (hfinish : f.step o now .finish = none) : f.HeldUp := by
  have hw := isDraining_iff.mp hdraining
  obtain ⟨x, batch, hne⟩ := List.exists_cons_of_ne_nil hbatch
  rw [hne] at hw
  have hbuffer : f.channel.buffer = [] := by
    cases hb : f.channel.buffer with
    | nil => rfl
    | cons y rest =>
      simp only [step, receive?, Channel.receive?, hb, hw] at hreceive
      split at hreceive <;> cases hreceive
  refine ⟨hdraining, hbatch, hbuffer, fun hheld => ?_⟩
  have hend : f.channel.exhausted = true :=
    Channel.exhausted_iff.mpr ⟨⟨hbuffer, hheld⟩, .inl (hf.closed_of_draining hw)⟩
  simp [step, finish?, hw, hend] at hfinish

theorem Moved.batch_of_chunk {items : List α} (h : Moved o now f m f' (some items)) :
    f.worker.batch <+: items ∧ f'.worker.batch = [] := by
  cases h with
  | aged hw | flushed hw => simp [hw]
  | filled hw | drainFilled hw => simp [hw]

theorem Moved.held_of_closed (h : Moved o now f m f' chunk) (hf : f.channel.Settled)
    (hclosed : f.channel.closed = true) : f'.channel.places.held = f.channel.places.held := by
  cases h with
  | collected _ hr | filled _ hr | drained _ hr | drainFilled _ hr =>
    exact Channel.held_receive (hf hclosed) hr
  | _ => rfl

theorem time_of_received {r : Receipt α} (h : f.received now m = some r) : r.time = now := by
  cases m with
  | receive =>
    obtain ⟨_, -, rfl⟩ := Option.map_eq_some_iff.mp h
    rfl
  | _ => cases h

end Feed

/-- What the worker of a source has received since its last chunk. -/
def inHand (source : Nat) (turns : History α) : List (Receipt α) :=
  (receipts source turns).drop (chunks source turns).flatten.length

theorem Grouped.length_flatten {o : Options} {now : Nat} {groups : List (List (Receipt α))}
    {rest : List (Receipt α)} {deliveries : List (Delivery α)} {f : Feed Nat α}
    (h : Grouped o now groups rest deliveries f) :
    groups.flatten.length = (deliveries.map (·.items)).flatten.length := by
  have hpunctual := h.punctual
  clear h
  induction hpunctual with
  | nil => rfl
  | cons hd _ ih => simp [ih, ← hd.items]

namespace System

variable {o : Options} {s s' : System α} {a : Action α} {events : List (Event α)}
  {turns : History α} {source : Nat} {f : Feed Nat α}

theorem grouped_of_run (h : Run step (new o) turns s) (hf : s.feed? source = some f) :
    ∃ groups, receipts source turns = groups.flatten ++ inHand source turns ∧
      Grouped o s.now groups (inHand source turns) (deliveries source turns) f := by
  have hflushes := flushes_of_run h source
  rw [feed?_eq_some hf] at hflushes
  obtain ⟨⟨groups, rest, hreceipts, hgrouped⟩, -⟩ := hflushes
  have hrest : inHand source turns = rest := by
    rw [inHand, ← items_deliveries h, ← hgrouped.length_flatten, hreceipts, List.drop_left]
  rw [hrest]
  exact ⟨groups, hreceipts, hgrouped⟩

/-- Nothing is received or handed over before a worker reads the source. -/
theorem nothing_of_unread (h : Run step (new o) turns s) (hf : s.feed? source = none) :
    receipts source turns = [] ∧ chunks source turns = [] := by
  suffices hnone : receipts source turns = [] ∧ deliveries source turns = [] by
    rw [← items_deliveries h, hnone.2]
    exact ⟨hnone.1, rfl⟩
  have hflushes := flushes_of_run h source
  cases hx : s.sources[source]? with
  | none =>
    rw [hx] at hflushes
    exact hflushes
  | some x =>
    cases x with
    | read g => simp [feed?_of_read hx] at hf
    | offered | abandoned =>
      rw [hx] at hflushes
      exact hflushes

theorem length_chunks_le (h : Run step (new o) turns s) :
    (chunks source turns).flatten.length ≤ (receipts source turns).length := by
  cases hf : s.feed? source with
  | none => simp [nothing_of_unread h hf]
  | some f =>
    obtain ⟨groups, hreceipts, hgrouped⟩ := grouped_of_run h hf
    rw [← items_deliveries h, ← hgrouped.length_flatten, hreceipts, List.length_append]
    exact Nat.le_add_right _ _

theorem time_of_received {r : Receipt α} (h : s.received source a = some r) : r.time = s.now := by
  unfold received at h
  split at h
  · obtain ⟨f, -, hr⟩ := Option.bind_eq_some_iff.mp (Option.ite_none_right_eq_some.mp h).2
    exact Feed.time_of_received hr
  · cases h

/-- A chunk that is handed over has the batch in hand at its head, and nothing is in hand then. -/
theorem batch_of_chunk {items : List α} (h : s.step a = some (s', events)) (hwf : s.WellFormed)
    (hchunk : .chunk source items ∈ events) :
    ∃ f f', s.feed? source = some f ∧ s'.feed? source = some f' ∧ f.worker.batch <+: items ∧
      f'.worker.batch = [] := by
  obtain ⟨item, chunk, hchange, -, hchunks⟩ := effect_of_step hwf h source
  have hmem : items ∈ chunk.toList := by
    rw [← hchunks]
    exact List.mem_filterMap.mpr ⟨_, hchunk, by simp [Event.chunk?]⟩
  obtain rfl : chunk = some items := by simpa using hmem
  obtain ⟨f, hf⟩ := hchange.read_of_chunk rfl
  rw [hf] at hchange
  generalize hy : (s', events).1.sources[source]? = y at hchange
  cases hchange with
  | moved _ hmoved =>
    exact ⟨f, _, feed?_of_read hf, feed?_of_read hy, hmoved.batch_of_chunk⟩

/-- Who is first in hand after an action was so before, or has just been received. -/
theorem first_of_step {first : Receipt α} (h : Run step (new o) turns s)
    (hstep : s.step a = some (s', events))
    (hfirst : first ∈ (inHand source (turns ++ [⟨s, a, events⟩])).head?) :
    first ∈ (inHand source turns).head? ∨ s.received source a = some first := by
  have hwf := wellFormed_of_run h
  by_cases hchunk : ∃ items, .chunk source items ∈ events
  · obtain ⟨items, hitems⟩ := hchunk
    obtain ⟨-, f', -, hf', -, hbatch⟩ := batch_of_chunk hstep hwf hitems
    obtain ⟨groups, -, hgrouped⟩ := grouped_of_run (h.snoc hstep) hf'
    simp [hgrouped.rest_eq_nil hbatch] at hfirst
  · have hnone : events.filterMap (Event.chunk? source) = [] := by
      rw [List.filterMap_eq_nil_iff]
      intro e he
      cases e with
      | chunk i items =>
        by_cases hi : i = source
        · exact absurd ⟨items, hi ▸ he⟩ hchunk
        · simp [Event.chunk?, hi]
      | _ => rfl
    have hlast : inHand source (turns ++ [⟨s, a, events⟩]) =
        inHand source turns ++ (s.received source a).toList := by
      have hnew : chunks source [⟨s, a, events⟩] = [] := by simpa [chunks] using hnone
      rw [inHand, inHand, chunks_append, hnew, List.append_nil, receipts_append,
        List.drop_append_of_le_length (length_chunks_le h)]
      simp [receipts]
    rw [hlast] at hfirst
    cases hhand : inHand source turns with
    | cons r rest => simpa [hhand] using Or.inl hfirst
    | nil => simpa [hhand] using hfirst

theorem now_le_of_step (h : s.step a = some (s', events)) : s.now ≤ s'.now := by
  rcases settings_of_step h with hsame | ⟨now, -, hadvance⟩
  · exact Nat.le_of_eq (congrArg Prod.snd hsame).symm
  · simp only [advance?, Option.ite_none_right_eq_some, Option.some.injEq] at hadvance
    obtain ⟨⟨hle, -⟩, rfl⟩ := hadvance
    exact hle

theorem now_eq_of_advance {now : Nat} (h : s.step (.advance now) = some (s', events)) :
    s' = { s with now } := by
  simp only [step, advance?, Option.map_eq_some_iff, Option.ite_none_right_eq_some,
    Option.some.injEq, Prod.mk.injEq] at h
  obtain ⟨_, ⟨-, rfl⟩, rfl, -⟩ := h
  rfl

/-- The clock has come at least as far as it was ever moved. -/
theorem advanced_le_now (h : Run step (new o) turns s) :
    ∀ t ∈ turns, ∀ now, t.action = .advance now → now ≤ s.now := by
  induction h with
  | nil => simp
  | @snoc turns s₁ s₂ a events hrun hstep ih =>
    intro t ht now ha
    rcases List.mem_append.mp ht with ht | ht
    · exact Nat.le_trans (ih t ht now ha) (now_le_of_step hstep)
    · obtain rfl := List.mem_singleton.mp ht
      obtain rfl : a = .advance now := ha
      obtain rfl := now_eq_of_advance hstep
      exact Nat.le_refl now

theorem step_eq_none_of_quiet {m : Move} (hquiet : s.quiet = true) (hf : s.feed? source = some f)
    (hm : m ∈ f.ownMoves) : f.step s.options s.now m = none := by
  simp only [quiet, Bool.and_eq_true, List.all_eq_true, List.mem_range] at hquiet
  obtain ⟨hlt, -⟩ := List.getElem?_eq_some_iff.mp (feed?_eq_some hf)
  have hidle := hquiet.2 source hlt
  simp only [hf, List.all_eq_true, Option.isNone_iff_eq_none] at hidle
  have hmove := hidle m hm
  simp only [move?, hf] at hmove
  split at hmove
  · assumption
  · cases hmove
  · cases hmove

theorem heldUp_of_quiet (h : Run step (new o) turns s) (hquiet : s.quiet = true)
    (hf : s.feed? source = some f) (hdraining : f.worker.isDraining = true)
    (hbatch : f.worker.batch ≠ []) : f.HeldUp := by
  have hsound := sound_of_run h source
  rw [feed?_eq_some hf, ← options_of_run h] at hsound
  have hown : f.ownMoves = [.receive, .finish] := by
    rw [Feed.ownMoves, Feed.isDraining_iff.mp hdraining]
  exact .of_waiting hsound hdraining hbatch
    (step_eq_none_of_quiet hquiet hf (by simp [hown]))
    (step_eq_none_of_quiet hquiet hf (by simp [hown]))

end System

structure Lingering (f f' : Feed Nat α) (chunks : List (List α)) : Prop where
  heldUp : f'.HeldUp
  held : f'.channel.places.held = f.channel.places.held
  worker : f'.worker = f.worker
  chunks : chunks = []

theorem Lingering.frame {f f₁ f₂ : Feed Nat α} {chunks : List (List α)}
    (h : Lingering f f₁ chunks) (hw : f₂.worker = f₁.worker)
    (hbuffer : f₂.channel.buffer = f₁.channel.buffer)
    (hheld : f₂.channel.places.held = f₁.channel.places.held) : Lingering f f₂ chunks where
  heldUp := ⟨hw ▸ h.heldUp.draining, hw ▸ h.heldUp.batch, hbuffer ▸ h.heldUp.buffer,
    hheld ▸ h.heldUp.held⟩
  held := hheld.trans h.held
  worker := hw.trans h.worker
  chunks := h.chunks

def Source.Lingers (o : Options) (f : Feed Nat α) (chunks : List (List α)) :
    Option (Source α) → Prop
  | some (.read f') =>
    f'.Sound o ∧ f'.channel.closed = true ∧
      (Lingering f f' chunks ∨
        f'.channel.places.held.length < f.channel.places.held.length)
  | _ => False

theorem Source.Change.lingers {o : Options} {now i : Nat} {a : Action α} {x y : Option (Source α)}
    {item : Option α} {chunk : Option (List α)} {f : Feed Nat α} {chunks : List (List α)}
    (h : Change o now i a x item chunk y) (hx : Lingers o f chunks x) :
    Lingers o f (chunks ++ chunk.toList) y := by
  cases h with
  | same => simpa using hx
  | born | started | abandoned => exact hx.elim
  | @sent x _ c hsent =>
    cases x with
    | offered | abandoned => exact hx.elim
    | read f₁ =>
      obtain ⟨hsound, hclosed, hplaces⟩ := hx
      rw [Option.toList_none, List.append_nil]
      refine ⟨hsound.sent hsent, hsent.closed.trans hclosed, ?_⟩
      rcases hplaces, hsent.held_or hsound.settled hclosed with
        ⟨hlingering | hlt, hless | ⟨hheld, rfl⟩⟩
      · exact .inr (hlingering.held ▸ hless)
      · exact .inl (hlingering.frame rfl (hsent.buffer.trans (List.append_nil _)) hheld)
      · exact .inr (Nat.lt_trans hless hlt)
      · exact .inr (hheld.symm ▸ hlt)
  | told =>
    obtain ⟨hsound, hclosed, hplaces⟩ := hx
    rw [Option.toList_none, List.append_nil]
    exact ⟨⟨hsound.size_pos, hsound.settled, hsound.batch_lt, hsound.closed_eq, hsound.spent⟩,
      hclosed, hplaces.imp_left (·.frame rfl rfl rfl)⟩
  | moved _ hmoved =>
    obtain ⟨hsound, hclosed, hlingering | hlt⟩ := hx
    · exact absurd hmoved hlingering.heldUp.not_moved
    · exact ⟨hsound.moved hmoved, (hmoved.closed hsound hclosed).1,
        .inr (hmoved.held_of_closed hsound.settled hclosed ▸ hlt)⟩

theorem System.lingers_of_run {o : Options} {s s' : System α} {turns later : History α}
    {source : Nat} {f : Feed Nat α} (h : Run step (new o) turns s)
    (hf : s.feed? source = some f) (hheld : f.HeldUp) (hlater : Run step s later s') :
    Source.Lingers o f (chunks source later) s'.sources[source]? := by
  have hsound := sound_of_run h source
  rw [feed?_eq_some hf] at hsound
  have hclosed := hsound.closed_of_draining (Feed.isDraining_iff.mp hheld.draining)
  induction hlater with
  | nil =>
    rw [feed?_eq_some hf]
    exact ⟨hsound, hclosed, .inl ⟨hheld, rfl, rfl, rfl⟩⟩
  | @snoc later s₁ s₂ a events hrun hstep ih =>
    have hall := h.append hrun
    obtain ⟨item, chunk, hchange, -, hchunk⟩ :=
      effect_of_step (wellFormed_of_run hall) hstep source
    rw [options_of_run hall] at hchange
    rw [chunks_append]
    simpa [chunks, hchunk] using hchange.lingers ih

/-- The worker of a source was held up when a turn was taken. -/
def HeldUpAt (source : Nat) (t : Turn (System α) (Action α) (Event α)) : Prop :=
  ∃ f, t.before.feed? source = some f ∧ f.HeldUp

/-- The moment by which an item that begins a batch should be handed over. -/
def Options.limit (o : Options) (first : Receipt α) : Nat :=
  Instant.tick (first.time + o.wait.total)

/-- The clock went past the limit of an item only while the worker was held up. -/
def Excused (o : Options) (source : Nat) (turns : History α) (first : Receipt α) : Prop :=
  ∀ t ∈ turns, ∀ now, t.action = .advance now → o.limit first < now → HeldUpAt source t

namespace System

variable {o : Options} {s s' : System α} {a : Action α} {events : List (Event α)}
  {turns : History α} {source : Nat} {f : Feed Nat α} {first : Receipt α}

theorem excused_of_received (h : Run step (new o) turns s)
    (hfirst : s.received source a = some first) : Excused o source turns first := by
  intro t ht now ha hlt
  have hnow : now ≤ first.time := time_of_received hfirst ▸ advanced_le_now h t ht now ha
  have hlimit := Instant.le_tick (first.time + o.wait.total)
  rw [Options.limit] at hlt
  omega

/-- While a batch is in hand the clock stops at its limit, unless the worker is held up. -/
theorem le_limit_or_heldUp {now : Nat} (h : Run step (new o) turns s)
    (hstep : s.step (.advance now) = some (s', events))
    (hfirst : first ∈ (inHand source turns).head?) :
    now ≤ o.limit first ∨ ∃ f, s.feed? source = some f ∧ f.HeldUp := by
  cases hf : s.feed? source with
  | none => simp [inHand, nothing_of_unread h hf] at hfirst
  | some f =>
    obtain ⟨groups, -, hgrouped⟩ := grouped_of_run h hf
    have hbatch : f.worker.batch ≠ [] := by
      intro hempty
      simp [hgrouped.rest_eq_nil hempty] at hfirst
    obtain ⟨s₁, hadvance, -⟩ := Option.map_eq_some_iff.mp hstep
    cases hw : f.worker with
    | collecting batch =>
      rw [hw] at hbatch
      have hdue := le_due_of_advance hadvance hf hw hbatch
      rw [(hgrouped.due batch hw first hfirst).1] at hdue
      exact .inl hdue
    | draining batch =>
      have hquiet : s.quiet = true := by
        simp only [advance?, Option.ite_none_right_eq_some] at hadvance
        exact hadvance.1.2.1
      exact .inr ⟨f, rfl, heldUp_of_quiet h hquiet hf (by rw [hw]; rfl) hbatch⟩
    | _ => simp [hw] at hbatch

theorem excused_of_run (h : Run step (new o) turns s) :
    ∀ first ∈ (inHand source turns).head?, Excused o source turns first := by
  induction h with
  | nil => simp [inHand, receipts]
  | @snoc turns s₁ s₂ a events hrun hstep ih =>
    intro first hfirst t ht now ha hlt
    have hold := first_of_step hrun hstep hfirst
    rcases List.mem_append.mp ht with ht | ht
    · rcases hold with hfirst | hreceived
      · exact ih first hfirst t ht now ha hlt
      · exact excused_of_received hrun hreceived t ht now ha hlt
    · obtain rfl := List.mem_singleton.mp ht
      obtain rfl : a = .advance now := ha
      rcases hold with hfirst | hreceived
      · exact (le_limit_or_heldUp hrun hstep hfirst).resolve_left (Nat.not_le.mpr hlt)
      · cases hreceived

/-- The clock stands where it was moved to. -/
theorem now_le_of_advances {limit : Nat} (h : Run step (new o) turns s)
    (hle : ∀ t ∈ turns, ∀ now, t.action = .advance now → now ≤ limit) : s.now ≤ limit := by
  induction h with
  | nil => exact Nat.zero_le _
  | @snoc turns s₁ s₂ a events hrun hstep ih =>
    rcases settings_of_step hstep with hsame | ⟨now, rfl, -⟩
    · rw [show s₂.now = s₁.now from congrArg Prod.snd hsame]
      exact ih fun t ht => hle t (List.mem_append_left _ ht)
    · obtain rfl := now_eq_of_advance hstep
      exact hle _ (List.mem_append_right _ (List.mem_singleton_self _)) now rfl

/-- At its limit a batch can be handed over, or else the worker is held up. -/
theorem canGoOn_of_limit (h : Run step (new o) turns s) (hf : s.feed? source = some f)
    (hfirst : first ∈ (inHand source turns).head?) (hlimit : o.limit first ≤ s.now)
    (hfree : ¬ f.HeldUp) : ∃ m out, s.step (.move source m) = some out := by
  obtain ⟨groups, -, hgrouped⟩ := grouped_of_run h hf
  have hbatch : f.worker.batch ≠ [] := by
    intro hempty
    simp [hgrouped.rest_eq_nil hempty] at hfirst
  cases hw : f.worker with
  | collecting batch =>
    obtain ⟨x, rest, rfl⟩ := List.exists_cons_of_ne_nil (by simpa [hw] using hbatch)
    have hnext := (hgrouped.due _ hw first hfirst).1
    have hdue : f.ticker.isDue s.now = true := by
      simpa [Ticker.isDue, hnext, Options.limit] using hlimit
    obtain ⟨s', hstep⟩ := step_tick hf hw hdue
    exact ⟨.tick, _, hstep⟩
  | draining batch =>
    by_contra hnone
    have hsound := sound_of_run h source
    rw [feed?_eq_some hf, ← options_of_run h] at hsound
    have hidle (m : Move) : f.step s.options s.now m = none := by
      cases hm : f.step s.options s.now m with
      | none => rfl
      | some out =>
        refine absurd ⟨m, ?_⟩ hnone
        obtain ⟨f', chunk | items⟩ := out
        · exact ⟨_, by simp only [step, move?, hf, hm]; rfl⟩
        · exact ⟨_, step_move hf hm⟩
    exact hfree (.of_waiting hsound (by rw [hw]; rfl) hbatch (hidle _) (hidle _))
  | _ => simp [hw] at hbatch

/-- A batch is handed over by the moment at which its first item has waited as long as it may, also
while the source is emptied, unless the worker is held up: the clock goes past that moment only
then.  A worker that is held up keeps its batch, however much time passes, for as long as the places
that are outstanding stay so. -/
theorem overdue_only_if_heldUp {o : Options} {source : Nat} {turns : History α} {s : System α}
    {f : Feed Nat α} (h : Run step (new o) turns s) (hf : s.feed? source = some f) :
    (inHand source turns).map (·.item) = f.worker.batch ∧
    (∀ first ∈ (inHand source turns).head?,
      Excused o source turns first ∧
      ((∀ t ∈ turns, ¬ HeldUpAt source t) → s.now ≤ o.limit first) ∧
      (o.limit first ≤ s.now → ¬ f.HeldUp → ∃ m out, s.step (.move source m) = some out)) ∧
    (∀ a s' events items, s.step a = some (s', events) → .chunk source items ∈ events →
      f.worker.batch <+: items) ∧
    (f.HeldUp →
      (∀ later s' f', Run step s later s' → s'.feed? source = some f' →
        f'.channel.places.held = f.channel.places.held →
        f'.HeldUp ∧ f'.worker = f.worker ∧ chunks source later = []) ∧
      (s.quiet = true → s.dues = [] → ∀ now, s.now ≤ now →
        s.step (.advance now) = some ({ s with now }, []))) := by
  obtain ⟨groups, -, hgrouped⟩ := grouped_of_run h hf
  refine ⟨hgrouped.items, ?_, ?_, fun hheld => ⟨?_, ?_⟩⟩
  · intro first hfirst
    have hexcused := excused_of_run h first hfirst
    refine ⟨hexcused, fun hnever => ?_, canGoOn_of_limit h hf hfirst⟩
    refine now_le_of_advances h fun t ht now ha => ?_
    by_contra hlt
    exact hnever t ht (hexcused t ht now ha (Nat.not_le.mp hlt))
  · intro a s' events items hstep hchunk
    obtain ⟨f₁, -, hf₁, -, hprefix, -⟩ := batch_of_chunk hstep (wellFormed_of_run h) hchunk
    obtain rfl := Option.some.inj (hf.symm.trans hf₁)
    exact hprefix
  · intro later s' f' hlater hf' hsame
    have hlingers := lingers_of_run h hf hheld hlater
    rw [feed?_eq_some hf'] at hlingers
    obtain ⟨-, -, hlingering | hlt⟩ := hlingers
    · exact ⟨hlingering.heldUp, hlingering.worker, hlingering.chunks⟩
    · simp [hsame] at hlt
  · intro hquiet hdues now hle
    simp [step, advance?, hle, hquiet, hdues]

/-- A batch of one item is in hand when its worker is told to stop, while a place is reserved. -/
def lingeringRun : List (Action Nat) :=
  [.start 0 2, .send 1 0 10, .move 0 .receive, .reserve 2 0, .stop 3, .move 0 .noticeStop,
    .advance 60000000000]

theorem overdue_only_if_heldUp_lingeringRun : ∃ turns s f first,
    Run step (new {}) turns s ∧ s.feed? 0 = some f ∧ (inHand 0 turns).head? = some first ∧
      first.item = 10 ∧ Excused {} 0 turns first ∧
      (∀ later s' f', Run step s later s' → s'.feed? 0 = some f' →
        f'.channel.places.held = [2] → f'.worker.batch = [10] ∧ chunks 0 later = []) ∧
      ∀ now, 60000000000 ≤ now → s.step (.advance now) = some ({ s with now }, []) := by
  have hseen : (replay step (new {}) lingeringRun).map (fun r =>
      ((r.2.feed? 0).map fun f => (decide f.HeldUp, f.worker.batch, f.channel.places.held),
        (inHand 0 r.1).map (·.item), r.2.now, r.2.quiet && r.2.dues.isEmpty)) =
      some (some (true, [10], [2]), [10], 60000000000, true) := by
    decide +kernel
  obtain ⟨⟨turns, s⟩, hreplay, hseen⟩ := Option.map_eq_some_iff.mp hseen
  simp only [Prod.mk.injEq] at hseen
  obtain ⟨hfeed, hitems, hnow, hidle⟩ := hseen
  obtain ⟨hquiet, hdues⟩ : s.quiet = true ∧ s.dues = [] := by simpa using hidle
  obtain ⟨f, hf, hfeed⟩ := Option.map_eq_some_iff.mp hfeed
  simp only [Prod.mk.injEq] at hfeed
  obtain ⟨hheldUp, hbatch, hheld⟩ := hfeed
  have hheldUp := of_decide_eq_true hheldUp
  obtain ⟨first, hhand, hitem⟩ := List.map_eq_singleton_iff.mp hitems
  have hrun := Run.of_replay hreplay
  obtain ⟨-, hexcused, -, hlingers⟩ := overdue_only_if_heldUp hrun hf
  refine ⟨turns, s, f, first, hrun, hf, by simp [hhand], hitem,
    (hexcused first (by simp [hhand])).1, ?_, ?_⟩
  · intro later s' f' hlater hf' hsame
    obtain ⟨-, hkept, hchunks⟩ := (hlingers hheldUp).1 later s' f' hlater hf' (hsame.trans hheld.symm)
    exact ⟨hkept ▸ hbatch, hchunks⟩
  · intro now hle
    exact (hlingers hheldUp).2 hquiet hdues now (hnow ▸ hle)

/-- The item has waited for a minute, where ten seconds are allowed. -/
theorem overdue_lingeringRun : ∃ turns, ∃ s : System Nat, ∃ first,
    Run step (new { wait := .ofSecs 10 }) turns s ∧ (inHand 0 turns).head? = some first ∧
      first.time = 0 ∧ chunks 0 turns = [] ∧ first.time + (Duration.ofSecs 10).total < s.now := by
  have hseen : (replay step (new { wait := .ofSecs 10 }) lingeringRun).map (fun r =>
      ((inHand 0 r.1).map (·.time), chunks 0 r.1, r.2.now)) = some ([0], [], 60000000000) := by
    decide +kernel
  obtain ⟨⟨turns, s⟩, hreplay, hseen⟩ := Option.map_eq_some_iff.mp hseen
  simp only [Prod.mk.injEq] at hseen
  obtain ⟨htimes, hchunks, hnow⟩ := hseen
  obtain ⟨first, hhand, htime⟩ := List.map_eq_singleton_iff.mp htimes
  refine ⟨turns, s, first, Run.of_replay hreplay, by simp [hhand], htime, hchunks, ?_⟩
  rw [htime, hnow]
  decide +kernel

end System

end Batchflow.Chunker
