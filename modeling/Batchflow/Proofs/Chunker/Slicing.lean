import Batchflow.Proofs.Chunker.Flushing

/-!
# Where the items are cut into chunks

Items are cut into chunks by two loops: one that waits for ticks and the order to stop as well, and
one that empties the source.  A worker may change from the first to the second after any item, and
the two cut alike: a chunk is handed over as soon as it is full.  So as long as no batch is handed
over for its age, the chunks are the slices of what the source has taken, and neither the order in
which things happen nor the capacity of the source can be seen in them.
-/

namespace Batchflow.Chunker

variable {α : Type}

/-- Consecutive slices of so many items; what is left over makes a shorter one at the end. -/
def slices (size : Nat) (items : List α) : List (List α) :=
  (List.range ((items.length + size - 1) / size)).map fun k => (items.drop (k * size)).take size

section Slices

variable {size : Nat} {items chunk : List α} {chunks : List (List α)}

theorem slices_nil (hsize : 0 < size) : slices size ([] : List α) = [] := by
  have hnone : ([] : List α).length + size - 1 < size := by
    simp only [List.length_nil]
    omega
  rw [slices, Nat.div_eq_of_lt hnone]
  rfl

/-- A full slice comes first, and the others are those of the rest. -/
theorem slices_append (hsize : 0 < size) (hfull : chunk.length = size) :
    slices size (chunk ++ items) = chunk :: slices size items := by
  have hcount : ((chunk ++ items).length + size - 1) / size =
      (items.length + size - 1) / size + 1 := by
    have hsum : (chunk ++ items).length + size - 1 = items.length + size - 1 + size := by
      rw [List.length_append]
      omega
    rw [hsum, Nat.add_div_right _ hsize]
  have hfirst : ((chunk ++ items).drop (0 * size)).take size = chunk := by
    rw [Nat.zero_mul, List.drop_zero, ← hfull, List.take_left]
  have hlater (k : Nat) : ((chunk ++ items).drop ((k + 1) * size)).take size =
      (items.drop (k * size)).take size := by
    have hskip : (k + 1) * size = chunk.length + k * size := by
      rw [hfull, Nat.succ_mul, Nat.add_comm]
    rw [hskip, List.drop_append, List.drop_eq_nil_of_le (Nat.le_add_right _ _), List.nil_append,
      Nat.add_sub_cancel_left]
  rw [slices, hcount, List.range_succ_eq_map, List.map_cons, List.map_map, hfirst]
  exact congrArg _ (List.map_congr_left fun k _ => hlater k)

theorem slices_of_length_le (hpos : 1 ≤ items.length) (hle : items.length ≤ size) :
    slices size items = [items] := by
  have hcount : (items.length + size - 1) / size = 1 := by
    refine Nat.div_eq_of_lt_le ?_ ?_ <;> omega
  rw [slices, hcount]
  simp [List.take_of_length_le hle]

/-- Pieces of which all but the last are full are the slices of what they make up. -/
theorem slices_flatten (hlast : ∀ chunk ∈ chunks, 1 ≤ chunk.length ∧ chunk.length ≤ size)
    (hfull : ∀ chunk ∈ chunks.dropLast, chunk.length = size) (hsize : 0 < size) :
    slices size chunks.flatten = chunks := by
  induction chunks with
  | nil => exact slices_nil hsize
  | cons chunk chunks ih =>
    cases chunks with
    | nil =>
      obtain ⟨hpos, hle⟩ := hlast chunk List.mem_cons_self
      simpa using slices_of_length_le hpos hle
    | cons next chunks =>
      rw [List.dropLast_cons_of_ne_nil (List.cons_ne_nil _ _)] at hfull
      rw [List.flatten_cons, slices_append hsize (hfull chunk List.mem_cons_self)]
      refine congrArg _ (ih (fun c hc => hlast c (List.mem_cons_of_mem _ hc)) ?_)
      exact fun c hc => hfull c (List.mem_cons_of_mem _ hc)

end Slices

/-- Every chunk that was handed over is full, except one that comes last of all. -/
structure CutFull (o : Options) (chunks : List (List α)) (f : Feed Nat α) : Prop where
  bounded : ∀ chunk ∈ chunks, 1 ≤ chunk.length ∧ chunk.length ≤ o.size
  init : ∀ chunk ∈ chunks.dropLast, chunk.length = o.size
  all : f.worker.isDone = false → ∀ chunk ∈ chunks, chunk.length = o.size

namespace CutFull

variable {o : Options} {now : Nat} {f f' : Feed Nat α} {m : Move} {chunk : Option (List α)}
  {items : List α} {chunks : List (List α)}

theorem start (c : Channel Nat α) (now : Nat) : CutFull o [] (Feed.start c now) where
  bounded := by simp
  init := by simp
  all := by simp

theorem frame (h : CutFull o chunks f)
    (hdone : f'.worker.isDone = false → f.worker.isDone = false) : CutFull o chunks f' :=
  ⟨h.bounded, h.init, fun hw => h.all (hdone hw)⟩

/-- A worker that was not done hands over one more chunk. -/
theorem add (h : CutFull o chunks f) (hdone : f.worker.isDone = false) (hpos : 1 ≤ items.length)
    (hle : items.length ≤ o.size) (hfull : f'.worker.isDone = false → items.length = o.size) :
    CutFull o (chunks ++ [items]) f' where
  bounded chunk hchunk := by
    rcases List.mem_append.mp hchunk with hchunk | hchunk
    · exact h.bounded chunk hchunk
    · obtain rfl := List.mem_singleton.mp hchunk
      exact ⟨hpos, hle⟩
  init := by
    rw [List.dropLast_concat]
    exact h.all hdone
  all hw chunk hchunk := by
    rcases List.mem_append.mp hchunk with hchunk | hchunk
    · exact h.all hdone chunk hchunk
    · obtain rfl := List.mem_singleton.mp hchunk
      exact hfull hw

/-- Both loops hand over full chunks; only the rest that is left at the end may be short. -/
theorem moved (h : CutFull o chunks f) (hf : f.Sound o) (hm : f.Moved o now m f' chunk)
    (hdue : ∀ due ∈ f.due?, now < Instant.tick due) : CutFull o (chunks ++ chunk.toList) f' := by
  have hbatch := hf.batch_lt
  have hlength := hm.length_chunk hf
  cases hm with
  | stopNoticed hw | endNoticed hw | collected hw | drained hw | tickSwallowed hw =>
    simpa using h.frame fun _ => by rw [hw]; rfl
  | finished | panicked => simpa using h.frame (by simp [Worker.isDone])
  | @handled _ resume hw =>
    refine (List.append_nil chunks).symm ▸ h.frame fun hdone => ?_
    cases resume <;> simp_all [Resume.worker, Worker.isDone]
  | @aged x batch hw hticked =>
    have hlate : now < Instant.tick f.ticker.next := hdue _ (by simp [Feed.due?, hw])
    simp only [Ticker.isDue, decide_eq_true_eq] at hticked
    omega
  | filled hw _ hge | drainFilled hw _ hge =>
    obtain ⟨hpos, hle⟩ := hlength _ rfl
    refine h.add (by rw [hw]; rfl) hpos hle fun _ => ?_
    simp only [List.length_append, List.length_singleton] at hle ⊢
    omega
  | flushed hw =>
    obtain ⟨hpos, hle⟩ := hlength _ rfl
    exact h.add (by rw [hw]; rfl) hpos hle (by simp [Worker.isDone])

end CutFull

namespace Source

variable {o : Options} {now i : Nat} {a : Action α} {x y : Option (Source α)}
  {item : Option α} {chunk : Option (List α)} {chunks : List (List α)}

def CutFull (o : Options) (chunks : List (List α)) : Option (Source α) → Prop
  | some (.read f) => Chunker.CutFull o chunks f
  | _ => chunks = []

theorem Change.cutFull (h : Change o now i a x item chunk y) (hx : CutFull o chunks x)
    (hsound : Sound o x)
    (hdue : ∀ f, x = some (.read f) → ∀ due ∈ f.due?, now < Instant.tick due) :
    CutFull o (chunks ++ chunk.toList) y := by
  induction h with
  | same => simpa using hx
  | born n _ ih => exact ih hx rfl (by simp)
  | @sent x =>
    rw [Option.toList_none, List.append_nil]
    cases x with
    | read f => exact Chunker.CutFull.frame hx id
    | offered | abandoned => exact hx
  | @started c =>
    obtain rfl := hx
    exact .start c now
  | abandoned => simpa [CutFull] using hx
  | told =>
    rw [Option.toList_none, List.append_nil]
    exact Chunker.CutFull.frame hx id
  | @moved f _ _ _ _ hmoved => exact Chunker.CutFull.moved hx hsound hmoved (hdue f rfl)

def Broken : Option (Source α) → Prop
  | some (.read f) => ∃ panic, f.worker = .panicked panic
  | _ => False

theorem Change.broken (h : Change o now i a x item chunk y) (hx : Broken x) : Broken y := by
  cases h with
  | same => exact hx
  | born => exact hx.elim
  | @sent x =>
    cases x with
    | read f => exact hx
    | offered | abandoned => exact hx.elim
  | started | abandoned => exact hx.elim
  | told => exact hx
  | moved _ hmoved =>
    obtain ⟨panic, hw⟩ := hx
    have halive := hmoved.not_ended
    simp [hw, Worker.ended] at halive

end Source

/-- The ticker of a source is never due while its worker has a batch in hand. -/
def NeverDue (source : Nat) (turns : History α) : Prop :=
  ∀ t ∈ turns, ∀ f ∈ t.before.feed? source, ∀ due ∈ f.due?, t.before.now < Instant.tick due

instance (source : Nat) (turns : History α) : Decidable (NeverDue source turns) :=
  inferInstanceAs (Decidable (∀ t ∈ turns, _))

namespace System

variable {o : Options} {s s' : System α} {turns : History α} {source : Nat} {f : Feed Nat α}

theorem broken_of_panic {panic : Panic} {events : List (Event α)}
    (h : s.step (.move source (.handlerPanics panic)) = some (s', events)) :
    Source.Broken s'.sources[source]? := by
  obtain ⟨f, f', chunk, hf, hmoved, rfl, -⟩ := eq_of_move h
  rw [setFeed, getElem?_setSource_self s _ (feed?_eq_some hf)]
  cases hmoved with
  | panicked => exact ⟨panic, rfl⟩

theorem handlerReturned_of_run (h : Run step (new o) turns s)
    (hs : ¬ Source.Broken s.sources[source]?) : HandlerReturned source turns := by
  induction h with
  | nil => simp [HandlerReturned]
  | @snoc turns s₁ s₂ a events hrun hstep ih =>
    obtain ⟨item, chunk, hchange, -⟩ := effect_of_step (wellFormed_of_run hrun) hstep source
    intro t ht panic haction
    rcases List.mem_append.mp ht with ht | ht
    · exact ih (fun hbroken => hs (hchange.broken hbroken)) t ht panic haction
    · obtain rfl := List.mem_singleton.mp ht
      obtain rfl : a = .move source (.handlerPanics panic) := haction
      exact hs (broken_of_panic hstep)

theorem cutFull_of_run (h : Run step (new o) turns s) (hdue : NeverDue source turns) :
    Source.CutFull o (chunks source turns) s.sources[source]? := by
  induction h with
  | nil => rfl
  | @snoc turns s₁ s₂ a events hrun hstep ih =>
    obtain ⟨item, chunk, hchange, -, hchunk⟩ :=
      effect_of_step (wellFormed_of_run hrun) hstep source
    rw [options_of_run hrun] at hchange
    have hcut := hchange.cutFull (ih fun t ht => hdue t (by simp [ht])) (sound_of_run hrun source)
      fun f hf => hdue ⟨s₁, a, events⟩ (by simp) f (feed?_of_read hf)
    rw [chunks_append]
    simpa [chunks, hchunk] using hcut

/-- A worker that was done with its source has handed over the slices of what the source took. -/
theorem chunks_of_returned (h : Run step (new o) turns s) (hf : s.feed? source = some f)
    (hreturned : f.worker = .returned) (hdue : NeverDue source turns) :
    chunks source turns = slices o.size (taken source turns) := by
  have hread := feed?_eq_some hf
  have hsound : f.Sound o := by
    have := sound_of_run h source
    rwa [hread] at this
  have hcut : CutFull o (chunks source turns) f := by
    have := cutFull_of_run h hdue
    rwa [hread] at this
  have hp : HandlerReturned source turns := by
    refine handlerReturned_of_run h ?_
    rw [hread]
    rintro ⟨panic, hpanicked⟩
    simp [hreturned] at hpanicked
  obtain ⟨hitems, hworker⟩ : Source.Accounts _ _ (some (.read f)) := hread ▸ accounts_of_run h hp
  obtain ⟨hspent, hbatch⟩ := hsound.buffer_of_ended (by rw [hreturned]; rfl) hworker
  have hflatten : taken source turns = (chunks source turns).flatten := by
    rw [hitems, Feed.kept, hbatch, hspent.buffer]
    simp
  rw [hflatten, slices_flatten hcut.bounded hcut.init hsound.size_pos]

/-- Once its worker has come to an orderly end, and no batch was ever due, the chunks of a source
are the slices of what it has taken.  So whatever takes the same items in another run, with another
capacity, other callers and in another order, makes the same chunks. -/
theorem chunks_eq_slices {o : Options} {source : Nat} {turns : History α} {s : System α}
    {f : Feed Nat α} (h : Run step (new o) turns s) (hf : s.feed? source = some f)
    (hreturned : f.worker = .returned) (hdue : NeverDue source turns) :
    chunks source turns = slices o.size (taken source turns) ∧
    ∀ (o' : Options) (source' : Nat) (turns' : History α) (s' : System α) (f' : Feed Nat α),
      Run step (new o') turns' s' → s'.feed? source' = some f' → f'.worker = .returned →
      NeverDue source' turns' → o'.size = o.size → taken source' turns' = taken source turns →
      chunks source' turns' = chunks source turns := by
  have hslices := chunks_of_returned h hf hreturned hdue
  refine ⟨hslices, ?_⟩
  intro o' source' turns' s' f' h' hf' hreturned' hdue' hsize htaken
  rw [chunks_of_returned h' hf' hreturned' hdue', hslices, hsize, htaken]

/-- Each item comes alone, a chunk is full before the stop, and the rest is handed over after it. -/
def steadyRun : List (Action Nat) :=
  [.start 0 1, .send 1 0 10, .move 0 .receive, .send 2 0 20, .move 0 .receive,
    .move 0 .handlerReturns, .send 3 0 30, .move 0 .receive, .stop 4, .move 0 .noticeStop,
    .move 0 .finish, .move 0 .handlerReturns, .resume 4]

/-- A tick finds the batch empty, and all items come before the worker sees that it is to stop. -/
def lateRun : List (Action Nat) :=
  [.start 0 4, .move 0 .tick, .send 1 0 10, .send 2 0 20, .send 3 0 30, .stop 4,
    .move 0 .noticeStop, .move 0 .receive, .move 0 .receive, .move 0 .handlerReturns,
    .move 0 .receive, .move 0 .finish, .move 0 .handlerReturns, .resume 4]

theorem chunks_eq_slices_lateRun : ∃ turns s f turns' s' f',
    Run step (new { size := 2 }) turns s ∧ s.feed? 0 = some f ∧ f.worker = .returned ∧
      Run step (new { size := 2 }) turns' s' ∧ s'.feed? 0 = some f' ∧ f'.worker = .returned ∧
      NeverDue 0 turns ∧ NeverDue 0 turns' ∧ taken 0 turns = [10, 20, 30] ∧
      chunks 0 turns = slices 2 [10, 20, 30] ∧ chunks 0 turns' = chunks 0 turns := by
  have hseen : ∀ actions ∈ [lateRun, steadyRun], (replay step (new { size := 2 }) actions).map
      (fun r => (taken 0 r.1, decide (NeverDue 0 r.1), (r.2.feed? 0).map (·.worker))) =
      some ([10, 20, 30], true, some .returned) := by
    decide +kernel
  have hlate := hseen lateRun (by simp)
  have hsteady := hseen steadyRun (by simp)
  obtain ⟨⟨turns, s⟩, hreplay, hlate⟩ := Option.map_eq_some_iff.mp hlate
  obtain ⟨⟨turns', s'⟩, hreplay', hsteady⟩ := Option.map_eq_some_iff.mp hsteady
  simp only [Prod.mk.injEq, decide_eq_true_eq] at hlate hsteady
  obtain ⟨htaken, hdue, hworker⟩ := hlate
  obtain ⟨htaken', hdue', hworker'⟩ := hsteady
  obtain ⟨f, hf, hreturned⟩ := Option.map_eq_some_iff.mp hworker
  obtain ⟨f', hf', hreturned'⟩ := Option.map_eq_some_iff.mp hworker'
  have hrun := Run.of_replay hreplay
  have hrun' := Run.of_replay hreplay'
  obtain ⟨hslices, hsame⟩ := chunks_eq_slices hrun hf hreturned hdue
  rw [htaken] at hslices
  exact ⟨turns, s, f, turns', s', f', hrun, hf, hreturned, hrun', hf', hreturned', hdue, hdue',
    htaken, hslices,
    hsame _ 0 turns' s' f' hrun' hf' hreturned' hdue' rfl (htaken'.trans htaken.symm)⟩

end System

end Batchflow.Chunker
