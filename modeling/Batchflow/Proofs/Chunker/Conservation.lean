import Batchflow.Proofs.Chunker.Clock
import Batchflow.Proofs.Chunker.Source
import Batchflow.Proofs.Run

/-!
# No item is lost or repeated

Whatever a source takes is handed over in the order in which it was taken: at any time the chunks
so far, the batch in hand and the buffer of the source make up the items taken so far.  When the
worker is done nothing is in hand or in the buffer, and the source takes nothing more.
-/

namespace Batchflow.Chunker

variable {α : Type}

/-- What has happened to a chunker so far. -/
abbrev History (α : Type) := List (Turn (System α) (Action α) (Event α))

/-- The items that a source has taken, in order. -/
def taken (source : Nat) (turns : History α) : List α :=
  turns.flatMap fun t => t.events.filterMap (Event.taken? source)

/-- The chunks of a source that were handed over, in order. -/
def chunks (source : Nat) (turns : History α) : List (List α) :=
  turns.flatMap fun t => t.events.filterMap (Event.chunk? source)

def Action.filled? (source : Nat) : Action α → Option α
  | .fill _ i item => if i = source then some item else none
  | _ => none

/-- The items that were sent through places reserved before, in order. -/
def filled (source : Nat) (turns : History α) : List α :=
  turns.flatMap fun t => (t.action.filled? source).toList

def HandlerReturned (source : Nat) (turns : History α) : Prop :=
  ∀ t ∈ turns, ∀ panic, t.action ≠ .move source (.handlerPanics panic)

theorem taken_append (source : Nat) (turns later : History α) :
    taken source (turns ++ later) = taken source turns ++ taken source later :=
  List.flatMap_append

theorem chunks_append (source : Nat) (turns later : History α) :
    chunks source (turns ++ later) = chunks source turns ++ chunks source later :=
  List.flatMap_append

theorem Options.size_pos {o : Options} (h : o.validate = .ok ()) : 0 < o.size := by
  unfold validate Config.checkNumber at h
  split at h
  · contradiction
  · rename_i hsize
    split_ifs at hsize with hrange
    simp only [not_or, minSize] at hrange
    omega

namespace Source

variable {o : Options} {now i : Nat} {a : Action α} {x y : Option (Source α)}
  {item : Option α} {chunk : Option (List α)}

def Sound (o : Options) : Option (Source α) → Prop
  | some (.offered c) => c.closed = false
  | some (.read f) => f.Sound o
  | _ => True

theorem Change.sound (h : Change o now i a x item chunk y) (hx : Sound o x) : Sound o y := by
  induction h with
  | same => exact hx
  | born n _ ih => exact ih rfl
  | @sent x _ _ hsent =>
    cases x with
    | offered c => exact hsent.closed.trans hx
    | read f => exact Feed.Sound.sent hx hsent
    | abandoned c => trivial
  | started hvalid => exact Feed.Sound.start (Options.size_pos hvalid) hx now
  | abandoned => trivial
  | told => exact ⟨hx.size_pos, hx.settled, hx.batch_lt, hx.closed_eq, hx.spent⟩
  | moved _ hmoved => exact Feed.Sound.moved hx hmoved

/-- The chunks handed over, the batch in hand and the buffer make up the items taken. -/
def Accounts (items : List α) (chunks : List (List α)) : Option (Source α) → Prop
  | none => items = [] ∧ chunks = []
  | some (.offered c) => items = c.buffer ∧ chunks = []
  | some (.read f) => items = chunks.flatten ++ f.kept ∧ ∀ panic, f.worker ≠ .panicked panic
  | some (.abandoned _) => chunks = []

theorem Change.accounts {items : List α} {chunks : List (List α)}
    (h : Change o now i a x item chunk y) (hx : Accounts items chunks x)
    (ha : ∀ panic, a ≠ .move i (.handlerPanics panic)) :
    Accounts (items ++ item.toList) (chunks ++ chunk.toList) y := by
  induction h with
  | same => simpa using hx
  | born n _ ih => exact ih ⟨hx.1, hx.2⟩
  | @sent x _ _ hsent =>
    have hbuffer := hsent.buffer
    cases x with
    | offered c =>
      simp only [Source.channel] at hbuffer
      exact ⟨by rw [hbuffer, hx.1], by simpa using hx.2⟩
    | read f =>
      simp only [Source.channel] at hbuffer
      refine ⟨?_, hx.2⟩
      rw [hx.1, Feed.kept, Feed.kept, hbuffer]
      simp
    | abandoned c => exact (List.append_nil _).trans hx
  | started =>
    obtain ⟨rfl, rfl⟩ := hx
    exact ⟨by simp [Feed.kept, Feed.start], by simp [Feed.start]⟩
  | abandoned => simpa [Accounts] using hx.2
  | told => exact ⟨by simpa [Feed.kept] using hx.1, hx.2⟩
  | @moved f f' m chunk haction hmoved =>
    have hm : ∀ panic, m ≠ .handlerPanics panic := fun panic hm =>
      ha panic (haction.trans (hm ▸ rfl))
    refine ⟨?_, hmoved.not_panicked hm hx.2⟩
    rw [hx.1, hmoved.kept_eq hm]
    simp

def Closed (o : Options) (holders : List Nat) : Option (Source α) → Prop
  | some (.read f) =>
    f.Sound o ∧ f.channel.closed = true ∧ ∀ who ∈ f.channel.places.held, who ∈ holders
  | _ => False

/-- A closed source takes what fills a place that was reserved before, and nothing else. -/
theorem Change.closed {holders : List Nat} (h : Change o now i a x item chunk y)
    (hx : Closed o holders x) :
    Closed o holders y ∧ ∀ z ∈ item, ∃ call ∈ holders, a = .fill call i z := by
  cases h with
  | same => exact ⟨hx, by simp⟩
  | born => exact hx.elim
  | @sent x _ _ hsent _ hfill =>
    cases x with
    | read f =>
      obtain ⟨hsound, hclosed, hheld⟩ := hx
      refine ⟨⟨hsound.sent hsent, hsent.closed.trans hclosed,
        fun who hw => hheld who (hsent.held hsound.settled hclosed hw)⟩, fun z hz => ?_⟩
      obtain ⟨call, hcall, ha⟩ := hfill hclosed z hz
      exact ⟨call, hheld call hcall, ha⟩
    | offered | abandoned => exact hx.elim
  | started | abandoned => exact hx.elim
  | told =>
    obtain ⟨hsound, hclosed, hheld⟩ := hx
    exact ⟨⟨⟨hsound.size_pos, hsound.settled, hsound.batch_lt, hsound.closed_eq, hsound.spent⟩,
      hclosed, hheld⟩, by simp⟩
  | moved _ hmoved =>
    obtain ⟨hsound, hclosed, hheld⟩ := hx
    obtain ⟨hclosed', hheld'⟩ := hmoved.closed hsound hclosed
    exact ⟨⟨hsound.moved hmoved, hclosed', fun who hw => hheld who (hheld' who hw)⟩, by simp⟩

end Source

namespace System

variable {o : Options} {s s' : System α} {turns later : History α} {source : Nat}

theorem wellFormed_of_run (h : Run step (new o) turns s) : s.WellFormed :=
  h.invariant (wellFormed_new o) fun _ _ _ _ hs hstep => hs.step hstep

theorem options_of_run (h : Run step (new o) turns s) : s.options = o :=
  h.invariant (P := fun s => s.options = o) rfl fun _ _ _ _ hs hstep =>
    (options_of_step hstep).trans hs

theorem sound_of_run (h : Run step (new o) turns s) (source : Nat) :
    Source.Sound o s.sources[source]? := by
  induction h with
  | nil => trivial
  | snoc hrun hstep ih =>
    obtain ⟨item, chunk, hchange, -⟩ := effect_of_step (wellFormed_of_run hrun) hstep source
    rw [options_of_run hrun] at hchange
    exact hchange.sound ih

theorem accounts_of_run (h : Run step (new o) turns s) (hp : HandlerReturned source turns) :
    Source.Accounts (taken source turns) (chunks source turns) s.sources[source]? := by
  induction h with
  | nil => exact ⟨rfl, rfl⟩
  | @snoc turns s₁ s₂ a events hrun hstep ih =>
    obtain ⟨item, chunk, hchange, htaken, hchunk⟩ :=
      effect_of_step (wellFormed_of_run hrun) hstep source
    have haccounts := hchange.accounts (ih fun t ht => hp t (by simp [ht]))
      fun panic => hp ⟨s₁, a, events⟩ (by simp) panic
    rw [taken_append, chunks_append]
    simpa [taken, chunks, htaken, hchunk] using haccounts

theorem events_of_fill {call : Nat} {item : α} {events : List (Event α)}
    (h : s.step (.fill call source item) = some (s', events)) : events = [.took source item] := by
  cases did_of_step h with
  | asked ha | atOnce ha => cases ha
  | filled => rfl

theorem closed_of_run {holders : List Nat} (h : Run step s later s') (hs : s.WellFormed)
    (hc : Source.Closed s.options holders s.sources[source]?) :
    s'.WellFormed ∧ s'.options = s.options ∧
      Source.Closed s.options holders s'.sources[source]? := by
  refine h.invariant (P := fun s' => s'.WellFormed ∧ s'.options = s.options ∧
    Source.Closed s.options holders s'.sources[source]?) ⟨hs, rfl, hc⟩ ?_
  rintro s₁ a s₂ events ⟨hs₁, ho, hc₁⟩ hstep
  obtain ⟨item, chunk, hchange, -⟩ := effect_of_step hs₁ hstep source
  rw [ho] at hchange
  exact ⟨hs₁.step hstep, (options_of_step hstep).trans ho, (hchange.closed hc₁).1⟩

/-- All that a closed source takes by a step fills a place of one of the holders. -/
theorem taken_of_closed {holders : List Nat} {a : Action α} {events : List (Event α)}
    (h : s.step a = some (s', events)) (hs : s.WellFormed)
    (hc : Source.Closed s.options holders s.sources[source]?) :
    events.filterMap (Event.taken? source) = (a.filled? source).toList ∧
      ∀ call item, a = .fill call source item → call ∈ holders := by
  obtain ⟨item, chunk, hchange, hitem, -⟩ := effect_of_step hs h source
  have hfill := (hchange.closed hc).2
  constructor
  · cases item with
    | some x =>
      obtain ⟨call, -, rfl⟩ := hfill x rfl
      simp [hitem, Action.filled?]
    | none =>
      cases a with
      | fill call i x =>
        rw [events_of_fill h]
        by_cases hi : i = source <;> simp [Event.taken?, Action.filled?, hi]
      | _ => exact hitem
  · rintro call x rfl
    rw [events_of_fill h] at hitem
    obtain ⟨call', hcall', heq⟩ := hfill x (by cases item <;> simp_all [Event.taken?])
    simp only [Action.fill.injEq] at heq
    exact heq.1 ▸ hcall'

theorem later_of_closed {holders : List Nat} (h : Run step s later s') (hs : s.WellFormed)
    (hc : Source.Closed s.options holders s.sources[source]?) :
    taken source later = filled source later ∧
      ∀ t ∈ later, ∀ call item, t.action = .fill call source item → call ∈ holders := by
  have hturn : ∀ t ∈ later, t.events.filterMap (Event.taken? source) =
      (t.action.filled? source).toList ∧
      ∀ call item, t.action = .fill call source item → call ∈ holders := by
    intro t ht
    obtain ⟨before, after, s₁, -, hbefore, hstep, -⟩ := h.split ht
    obtain ⟨hs₁, ho, hc₁⟩ := closed_of_run hbefore hs hc
    exact taken_of_closed hstep hs₁ (ho ▸ hc₁)
  exact ⟨List.flatMap_congr fun t ht => (hturn t ht).1, fun t ht => (hturn t ht).2⟩

theorem filled_eq_nil (h : ∀ t ∈ later, ∀ call item, t.action ≠ .fill call source item) :
    filled source later = [] := by
  refine List.flatMap_eq_nil_iff.mpr fun t ht => ?_
  have hno := h t ht
  cases ha : t.action with
  | fill call i x =>
    by_cases hi : i = source
    · subst hi
      exact absurd ha (hno call x)
    · simp [Action.filled?, hi]
  | _ => rfl

/-- Nothing that a source takes is lost, repeated or put out of order: what was handed over, what
the worker has in hand and what is in the buffer are, in this order, what was taken.  When the
worker has ended, all of it was handed over.  Once the source is closed, it takes nothing but what
is sent through places reserved before, and when the worker has ended nothing at all. -/
theorem items_conserved {o : Options} {source : Nat} {turns : History α} {s : System α}
    {f : Feed Nat α} (h : Run step (new o) turns s) (hf : s.feed? source = some f)
    (hp : HandlerReturned source turns) :
    (chunks source turns).flatten ++ f.worker.batch ++ f.channel.buffer = taken source turns ∧
    (f.worker.ended = true → (chunks source turns).flatten = taken source turns) ∧
    (f.channel.closed = true → ∀ later s', Run step s later s' →
      taken source later = filled source later ∧
      ∀ t ∈ later, ∀ call item, t.action = .fill call source item →
        call ∈ f.channel.places.held) ∧
    (f.worker.ended = true → ∀ later s', Run step s later s' → taken source later = []) := by
  have hread := feed?_eq_some hf
  obtain ⟨hitems, hworker⟩ : Source.Accounts _ _ (some (.read f)) := hread ▸ accounts_of_run h hp
  have hsound : f.Sound o := by
    have := sound_of_run h source
    rwa [hread] at this
  have hshut (hclosed : f.channel.closed = true) :
      Source.Closed s.options f.channel.places.held s.sources[source]? := by
    rw [hread, options_of_run h]
    exact ⟨hsound, hclosed, fun _ hw => hw⟩
  refine ⟨?_, ?_, fun hclosed later s' hrun =>
    later_of_closed hrun (wellFormed_of_run h) (hshut hclosed), ?_⟩
  · rw [hitems, Feed.kept, List.append_assoc]
  · intro hended
    obtain ⟨hspent, hbatch⟩ := hsound.buffer_of_ended hended hworker
    rw [hitems, Feed.kept, hbatch, hspent.buffer]
    simp
  · intro hended later s' hrun
    obtain ⟨hspent, -⟩ := hsound.buffer_of_ended hended hworker
    obtain ⟨htaken, hfills⟩ := later_of_closed hrun (wellFormed_of_run h) (hshut hspent.closed)
    rw [htaken]
    refine filled_eq_nil fun t ht call item ha => ?_
    have := hfills t ht call item ha
    simp [hspent.held] at this

/-- One item is sent at once and one through a place that was reserved before the stop. -/
def reservedRun : List (Action Nat) :=
  [.start 0 2, .send 1 0 10, .reserve 2 0, .stop 3, .move 0 .noticeStop, .move 0 .receive,
    .fill 2 0 20, .move 0 .receive, .move 0 .finish, .move 0 .handlerReturns, .resume 3]

theorem items_conserved_reservedRun : ∃ turns s f,
    replay step (new {}) reservedRun = some (turns, s) ∧ s.feed? 0 = some f ∧
      HandlerReturned 0 turns ∧ f.worker.ended = true ∧ taken 0 turns = [10, 20] ∧
      (chunks 0 turns).flatten = taken 0 turns ∧
      ∀ later s', Run step s later s' → taken 0 later = [] := by
  obtain ⟨turns, s, hreplay⟩ : ∃ turns s, replay step (new {}) reservedRun = some (turns, s) :=
    ⟨_, _, rfl⟩
  have hp : HandlerReturned 0 turns := by
    intro t ht panic ha
    have hmem := Run.action_mem_of_replay hreplay ht
    simp [reservedRun, ha] at hmem
  obtain ⟨rfl, rfl⟩ := Prod.mk.inj (Option.some.inj hreplay)
  have hconserved := items_conserved (.of_replay hreplay) rfl hp
  exact ⟨_, _, _, hreplay, rfl, hp, rfl, rfl, hconserved.2.1 rfl, hconserved.2.2.2 rfl⟩

end System

end Batchflow.Chunker
