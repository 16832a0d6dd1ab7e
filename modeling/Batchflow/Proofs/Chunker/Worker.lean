import Batchflow.Chunker.Worker
import Batchflow.Proofs.Channel

/-!
# What a worker does

One relation says all that a move of a worker can be.  From it follow what a move keeps: batches
stay below the size of a chunk, the source is closed just when the worker has left its first loop,
and nothing is left in the source when the worker is done with it.  No move loses an item, except
that a handler's panic takes the source with it.
-/

namespace Batchflow.Chunker

variable {ι α : Type}

namespace Worker

@[simp] theorem batch_collecting (b : List α) : (collecting b).batch = b := rfl

@[simp] theorem batch_draining (b : List α) : (draining b).batch = b := rfl

@[simp] theorem batch_handling (c : List α) (r : Resume) : (handling c r).batch = [] := rfl

@[simp] theorem batch_returned : (returned : Worker α).batch = [] := rfl

@[simp] theorem batch_panicked (p : Panic) : (panicked p : Worker α).batch = [] := rfl

theorem isSome_outcome (w : Worker α) : w.outcome?.isSome = w.ended := by cases w <;> rfl

theorem ended_of_outcome {w : Worker α} {outcome : Except Panic Unit}
    (h : w.outcome? = some outcome) : w.ended = true := by
  rw [← w.isSome_outcome, h, Option.isSome_some]

/-- The worker has left the loop in which it waits for ticks and the order to stop. -/
def isShut : Worker α → Bool
  | .collecting _ => false
  | .handling _ .collect => false
  | _ => true

/-- The worker has taken all that there was to take. -/
def isSpent : Worker α → Bool
  | .handling _ .finish => true
  | .returned => true
  | _ => false

def isDraining : Worker α → Bool
  | .draining _ => true
  | _ => false

def isHandling : Worker α → Bool
  | .handling _ _ => true
  | _ => false

end Worker

/-- What the worker is once the handler has returned. -/
def Resume.worker : Resume → Worker α
  | .collect => .collecting []
  | .drain => .draining []
  | .finish => .returned

@[simp] theorem Resume.batch_worker (r : Resume) : (r.worker : Worker α).batch = [] := by
  cases r <;> rfl

namespace Feed

/-- All that a move of the worker can be, with the chunk that is handed over by it. -/
inductive Moved (o : Options) (now : Nat) (f : Feed ι α) :
    Move → Feed ι α → Option (List α) → Prop
  | stopNoticed {batch} : f.worker = .collecting batch → f.stopRequested = true →
      Moved o now f .noticeStop
        { f with channel := f.channel.close, worker := .draining batch } none
  | tickSwallowed : f.worker = .collecting [] → f.ticker.isDue now = true →
      Moved o now f .tick { f with ticker := f.ticker.tick o.wait.total now } none
  | aged {x batch} : f.worker = .collecting (x :: batch) → f.ticker.isDue now = true →
      Moved o now f .tick
        { f with
          ticker := f.ticker.tick o.wait.total now, worker := .handling (x :: batch) .collect }
        (some (x :: batch))
  | collected {batch x channel} : f.worker = .collecting batch →
      f.channel.receive? = some (x, channel) → batch.length + 1 < o.size →
      Moved o now f .receive
        { f with
          channel, ticker := f.tickerAfter o now batch, worker := .collecting (batch ++ [x]) }
        none
  | filled {batch x channel} : f.worker = .collecting batch →
      f.channel.receive? = some (x, channel) → o.size ≤ batch.length + 1 →
      Moved o now f .receive
        { f with
          channel, ticker := f.tickerAfter o now batch
          worker := .handling (batch ++ [x]) .collect }
        (some (batch ++ [x]))
  | drained {batch x channel} : f.worker = .draining batch →
      f.channel.receive? = some (x, channel) → batch.length + 1 < o.size →
      Moved o now f .receive { f with channel, worker := .draining (batch ++ [x]) } none
  | drainFilled {batch x channel} : f.worker = .draining batch →
      f.channel.receive? = some (x, channel) → o.size ≤ batch.length + 1 →
      Moved o now f .receive { f with channel, worker := .handling (batch ++ [x]) .drain }
        (some (batch ++ [x]))
  | endNoticed {batch} : f.worker = .collecting batch → f.channel.exhausted = true →
      Moved o now f .noticeEnd { f with channel := f.channel.close, worker := .draining batch } none
  | finished : f.worker = .draining [] → f.channel.exhausted = true →
      Moved o now f .finish { f with worker := .returned } none
  | flushed {x batch} : f.worker = .draining (x :: batch) → f.channel.exhausted = true →
      Moved o now f .finish { f with worker := .handling (x :: batch) .finish } (some (x :: batch))
  | handled {chunk resume} : f.worker = .handling chunk resume →
      Moved o now f .handlerReturns { f with worker := resume.worker } none
  | panicked {chunk resume} (panic : Panic) : f.worker = .handling chunk resume →
      Moved o now f (.handlerPanics panic)
        { f with channel := f.channel.discard, worker := .panicked panic } none

variable {o : Options} {now : Nat} {f f' : Feed ι α} {m : Move} {chunk : Option (List α)}

theorem moved_of_receive (h : f.receive? o now = some (f', chunk)) :
    Moved o now f .receive f' chunk := by
  unfold receive? at h
  split at h
  · contradiction
  · rename_i x channel hreceive
    split at h
    · rename_i batch hworker
      dsimp only [handOver] at h
      split at h <;> obtain ⟨rfl, rfl⟩ := Prod.mk.inj (Option.some.inj h)
      · exact .filled hworker hreceive ‹_›
      · exact .collected hworker hreceive (by omega)
    · rename_i batch hworker
      dsimp only [handOver] at h
      split at h <;> obtain ⟨rfl, rfl⟩ := Prod.mk.inj (Option.some.inj h)
      · exact .drainFilled hworker hreceive ‹_›
      · exact .drained hworker hreceive (by omega)
    · contradiction

theorem moved_of_tick (h : f.tick? o now = some (f', chunk)) : Moved o now f .tick f' chunk := by
  unfold tick? at h
  split at h
  · rename_i hdue
    dsimp only at h
    split at h
    · obtain ⟨rfl, rfl⟩ := Prod.mk.inj (Option.some.inj h)
      exact .tickSwallowed ‹_› hdue
    · obtain ⟨rfl, rfl⟩ := Prod.mk.inj (Option.some.inj h)
      exact .aged ‹_› hdue
    · contradiction
  · contradiction

theorem moved_of_finish (h : f.finish? = some (f', chunk)) : Moved o now f .finish f' chunk := by
  unfold finish? at h
  split at h
  · rename_i hworker
    split at h
    · rename_i hend
      split at h <;> obtain ⟨rfl, rfl⟩ := Prod.mk.inj (Option.some.inj h)
      · exact .finished hworker hend
      · exact .flushed hworker hend
    · contradiction
  · contradiction

theorem moved_of_handlerReturns (h : f.handlerReturns? = some f') :
    Moved o now f .handlerReturns f' none := by
  unfold handlerReturns? at h
  split at h <;> simp only [Option.some.injEq, reduceCtorEq] at h <;> subst h <;>
    exact .handled ‹_›

theorem moved_of_handlerPanics {panic : Panic} (h : f.handlerPanics? panic = some f') :
    Moved o now f (.handlerPanics panic) f' none := by
  unfold handlerPanics? at h
  split at h <;> simp only [Option.some.injEq, reduceCtorEq] at h
  subst h
  exact .panicked panic ‹_›

theorem moved_of_step (h : f.step o now m = some (f', chunk)) : Moved o now f m f' chunk := by
  cases m with
  | noticeStop =>
    simp only [step, noticeStop?, Option.map_eq_some_iff, Prod.mk.injEq] at h
    obtain ⟨_, hf, rfl, rfl⟩ := h
    split at hf
    · split at hf <;> simp only [Option.some.injEq, reduceCtorEq] at hf
      subst hf
      exact .stopNoticed ‹_› ‹_›
    · contradiction
  | tick => exact moved_of_tick h
  | receive => exact moved_of_receive h
  | noticeEnd =>
    simp only [step, noticeEnd?, Option.map_eq_some_iff, Prod.mk.injEq] at h
    obtain ⟨_, hf, rfl, rfl⟩ := h
    split at hf
    · split at hf <;> simp only [Option.some.injEq, reduceCtorEq] at hf
      subst hf
      exact .endNoticed ‹_› ‹_›
    · contradiction
  | finish => exact moved_of_finish h
  | handlerReturns =>
    simp only [step, Option.map_eq_some_iff, Prod.mk.injEq] at h
    obtain ⟨_, hf, rfl, rfl⟩ := h
    exact moved_of_handlerReturns hf
  | handlerPanics panic =>
    simp only [step, Option.map_eq_some_iff, Prod.mk.injEq] at h
    obtain ⟨_, hf, rfl, rfl⟩ := h
    exact moved_of_handlerPanics hf

structure Sound (o : Options) (f : Feed ι α) : Prop where
  size_pos : 0 < o.size
  settled : f.channel.Settled
  batch_lt : f.worker.batch.length < o.size
  closed_eq : f.channel.closed = f.worker.isShut
  spent : f.worker.isSpent = true → f.channel.Spent

theorem Sound.start {c : Channel ι α} (hsize : 0 < o.size) (hc : c.closed = false) (now : Nat) :
    (start c now).Sound o where
  size_pos := hsize
  settled := fun h => by simp [Feed.start, hc] at h
  batch_lt := hsize
  closed_eq := hc
  spent := fun h => by simp [Feed.start, Worker.isSpent] at h

theorem Sound.sent [DecidableEq ι] {c : Channel ι α} {taken : Option α} (hf : f.Sound o)
    (h : f.channel.Sent taken c) : { f with channel := c }.Sound o where
  size_pos := hf.size_pos
  settled := h.settled hf.settled
  batch_lt := hf.batch_lt
  closed_eq := h.closed.trans hf.closed_eq
  spent := fun hs => h.spent hf.settled (hf.spent hs)

theorem Sound.closed_of_draining {batch : List α} (hf : f.Sound o)
    (h : f.worker = .draining batch) : f.channel.closed = true := by
  rw [hf.closed_eq, h]; rfl

/-- A worker that goes on after a chunk keeps what it was before. -/
theorem Sound.handled {chunk : List α} {resume : Resume} (hf : f.Sound o)
    (h : f.worker = .handling chunk resume) : { f with worker := resume.worker }.Sound o where
  size_pos := hf.size_pos
  settled := hf.settled
  batch_lt := by simpa using hf.size_pos
  closed_eq := by
    rw [hf.closed_eq, h]
    cases resume <;> rfl
  spent := by
    intro hs
    apply hf.spent
    cases resume <;> simp_all [Resume.worker, Worker.isSpent]

theorem Sound.moved (hf : f.Sound o) (h : Moved o now f m f' chunk) : f'.Sound o := by
  have hbatch := hf.batch_lt
  have hclosed := hf.closed_eq
  cases h with
  | stopNoticed hw | endNoticed hw =>
    rw [hw] at hbatch
    exact ⟨hf.size_pos, Channel.settled_close _, hbatch, rfl,
      fun h => by simp [Worker.isSpent] at h⟩
  | tickSwallowed hw =>
    exact ⟨hf.size_pos, hf.settled, hbatch, hclosed, hf.spent⟩
  | aged hw =>
    rw [hw] at hclosed
    exact ⟨hf.size_pos, hf.settled, hf.size_pos, hclosed, fun h => by simp [Worker.isSpent] at h⟩
  | collected hw hr hlt =>
    rw [hw] at hclosed
    exact ⟨hf.size_pos, hf.settled.receive hr, by simpa using hlt,
      (Channel.closed_receive hr).trans hclosed, fun h => by simp [Worker.isSpent] at h⟩
  | filled hw hr =>
    rw [hw] at hclosed
    exact ⟨hf.size_pos, hf.settled.receive hr, hf.size_pos,
      (Channel.closed_receive hr).trans hclosed, fun h => by simp [Worker.isSpent] at h⟩
  | drained hw hr hlt =>
    rw [hw] at hclosed
    exact ⟨hf.size_pos, hf.settled.receive hr, by simpa using hlt,
      (Channel.closed_receive hr).trans hclosed, fun h => by simp [Worker.isSpent] at h⟩
  | drainFilled hw hr =>
    rw [hw] at hclosed
    exact ⟨hf.size_pos, hf.settled.receive hr, hf.size_pos,
      (Channel.closed_receive hr).trans hclosed, fun h => by simp [Worker.isSpent] at h⟩
  | finished hw hend | flushed hw hend =>
    exact ⟨hf.size_pos, hf.settled, hf.size_pos, hf.closed_of_draining hw,
      fun _ => Channel.spent_of_exhausted hend (hf.closed_of_draining hw)⟩
  | handled hw => exact hf.handled hw
  | panicked p hw =>
    exact ⟨hf.size_pos, Channel.settled_discard _, hf.size_pos, rfl,
      fun h => by simp [Worker.isSpent] at h⟩

/-- What the worker has received and not handed over, and what it has still to receive. -/
def kept (f : Feed ι α) : List α := f.worker.batch ++ f.channel.buffer

/-- A move hands over what comes first and keeps the rest in order. -/
theorem Moved.kept_eq (h : Moved o now f m f' chunk) (hm : ∀ panic, m ≠ .handlerPanics panic) :
    f.kept = chunk.toList.flatten ++ f'.kept := by
  cases h with
  | stopNoticed hw | endNoticed hw | tickSwallowed hw | aged hw | finished hw | flushed hw =>
    simp [kept, hw, Channel.close]
  | collected hw hr | filled hw hr | drained hw hr | drainFilled hw hr =>
    simp [kept, hw, (Channel.receive?_eq_some hr).1]
  | handled hw => simp [kept, hw]
  | panicked p => exact absurd rfl (hm p)

theorem Moved.not_panicked (h : Moved o now f m f' chunk) (hm : ∀ panic, m ≠ .handlerPanics panic)
    (hf : ∀ panic, f.worker ≠ .panicked panic) : ∀ panic, f'.worker ≠ .panicked panic := by
  intro panic hworker
  cases h with
  | panicked p => exact hm p rfl
  | @handled _ resume => cases resume <;> simp [Resume.worker] at hworker
  | tickSwallowed => exact hf panic hworker
  | _ => simp at hworker

theorem Moved.length_chunk (h : Moved o now f m f' chunk) (hf : f.Sound o) :
    ∀ items ∈ chunk, 1 ≤ items.length ∧ items.length ≤ o.size := by
  have hbatch := hf.batch_lt
  intro items hitems
  cases h <;> simp only [Option.mem_def, reduceCtorEq, Option.some.injEq] at hitems <;>
    rename_i hw _ <;> subst hitems <;> simp_all <;> omega

theorem Moved.closed (h : Moved o now f m f' chunk) (hf : f.Sound o)
    (hclosed : f.channel.closed = true) :
    f'.channel.closed = true ∧ ∀ who ∈ f'.channel.places.held, who ∈ f.channel.places.held := by
  have hline := hf.settled hclosed
  cases h with
  | stopNoticed | endNoticed | panicked => exact ⟨rfl, fun _ h => h⟩
  | collected _ hr | filled _ hr | drained _ hr | drainFilled _ hr =>
    exact ⟨(Channel.closed_receive hr).trans hclosed, fun _ h => Channel.held_receive hline hr ▸ h⟩
  | _ => exact ⟨hclosed, fun _ h => h⟩

theorem Sound.buffer_of_ended (hf : f.Sound o) (hended : f.worker.ended = true)
    (hp : ∀ panic, f.worker ≠ .panicked panic) : f.channel.Spent ∧ f.worker.batch = [] := by
  cases hw : f.worker with
  | returned => exact ⟨hf.spent (by rw [hw]; rfl), rfl⟩
  | panicked p => exact absurd hw (hp p)
  | _ => simp [hw, Worker.ended] at hended

theorem Moved.not_ended (h : Moved o now f m f' chunk) : f.worker.ended = false := by
  cases h <;> simp_all [Worker.ended]

end Feed

end Batchflow.Chunker
