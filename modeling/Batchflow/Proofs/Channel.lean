import Batchflow.Channel
import Mathlib.Tactic.SplitIfs

/-!
# What happens to a channel

Those who send change a channel in a handful of ways, collected here in one relation.  The rest of
the theory uses that relation and not the definitions of the single operations.  Once closed, a
channel has nobody waiting, its places are only given up, and when the last of them is gone it
takes nothing more.
-/

namespace Batchflow

namespace Permits

variable {ι : Type} {p : Permits ι} {who : ι}

theorem held_add (h : p.line = []) : p.add.held = p.held := by
  simp [add, h]

theorem line_add (h : p.line = []) : p.add.line = [] := by
  simp [add, h]

variable [DecidableEq ι]

@[simp] theorem holds_iff : p.holds who = true ↔ who ∈ p.held := by simp [holds]

theorem line_leave (h : p.line = []) : (p.leave who).line = [] := by
  unfold leave giveBack
  split
  · exact line_add h
  · simp [h]

theorem mem_held_of_leave {w : ι} (h : p.line = []) (hw : w ∈ (p.leave who).held) : w ∈ p.held := by
  unfold leave giveBack at hw
  split at hw
  · rw [held_add (p := p.spend who) h] at hw
    exact List.mem_of_mem_erase hw
  · exact hw

end Permits

namespace Channel

variable {ι α : Type}

theorem receive?_eq_some {c c' : Channel ι α} {x : α} (h : c.receive? = some (x, c')) :
    c.buffer = x :: c'.buffer ∧ c' = { c with buffer := c'.buffer, places := c.places.add } := by
  unfold receive? at h
  split at h
  · contradiction
  · rename_i hbuffer
    simp only [Option.some.injEq, Prod.mk.injEq] at h
    obtain ⟨rfl, rfl⟩ := h
    exact ⟨hbuffer, rfl⟩

theorem handles_receive {c c' : Channel ι α} {x : α} (h : c.receive? = some (x, c')) :
    c'.handles = c.handles := by
  rw [(receive?_eq_some h).2]

theorem closed_receive {c c' : Channel ι α} {x : α} (h : c.receive? = some (x, c')) :
    c'.closed = c.closed := by
  rw [(receive?_eq_some h).2]

/-- Nobody waits at a closed channel. -/
def Settled (c : Channel ι α) : Prop := c.closed = true → c.places.line = []

structure Spent (c : Channel ι α) : Prop where
  closed : c.closed = true
  buffer : c.buffer = []
  held : c.places.held = []

/-- Nobody is left who could send. -/
structure Deserted (c : Channel ι α) : Prop where
  handles : c.handles = 0
  line : c.places.line = []
  held : c.places.held = []

theorem not_deserted {c : Channel ι α} (h : 0 < c.handles) : ¬ c.Deserted := by
  intro hd
  have := hd.handles
  omega

theorem capacity_discard (c : Channel ι α) : c.discard.capacity = c.capacity := by
  simp only [discard, close, capacity, Permits.total, List.length_nil]
  omega

/-- A channel with so many places, none of which is free while somebody waits. -/
structure Sized (c : Channel ι α) (n : Nat) : Prop where
  capacity : c.capacity = n
  fair : c.places.Fair

theorem sized_ofCapacity (n handles : Nat) : (ofCapacity n handles : Channel ι α).Sized n :=
  ⟨rfl, Permits.fair_ofFree n⟩

theorem Sized.receive {c c' : Channel ι α} {x : α} {n : Nat} (hc : c.Sized n)
    (h : c.receive? = some (x, c')) : c'.Sized n := by
  refine ⟨(capacity_receive h).trans hc.capacity, ?_⟩
  rw [(receive?_eq_some h).2]
  exact hc.fair.add

theorem Sized.close {c : Channel ι α} {n : Nat} (hc : c.Sized n) : c.close.Sized n :=
  ⟨hc.capacity, fun _ => rfl⟩

theorem Sized.discard {c : Channel ι α} {n : Nat} (hc : c.Sized n) : c.discard.Sized n :=
  ⟨c.capacity_discard.trans hc.capacity, fun _ => rfl⟩

theorem settled_close (c : Channel ι α) : c.close.Settled := fun _ => rfl

theorem settled_discard (c : Channel ι α) : c.discard.Settled := fun _ => rfl

theorem Settled.receive {c c' : Channel ι α} {x : α} (hc : c.Settled)
    (h : c.receive? = some (x, c')) : c'.Settled := by
  intro hclosed
  rw [closed_receive h] at hclosed
  rw [(receive?_eq_some h).2]
  exact Permits.line_add (hc hclosed)

theorem held_receive {c c' : Channel ι α} {x : α} (hline : c.places.line = [])
    (h : c.receive? = some (x, c')) : c'.places.held = c.places.held := by
  rw [(receive?_eq_some h).2]
  exact Permits.held_add hline

theorem Deserted.receive {c c' : Channel ι α} {x : α} (hc : c.Deserted)
    (h : c.receive? = some (x, c')) : c'.Deserted := by
  obtain ⟨-, hc'⟩ := receive?_eq_some h
  refine ⟨?_, ?_, ?_⟩
  · rw [hc']; exact hc.handles
  · rw [hc']; exact Permits.line_add hc.line
  · rw [held_receive hc.line h]; exact hc.held

theorem Deserted.close {c : Channel ι α} (hc : c.Deserted) : c.close.Deserted :=
  ⟨hc.handles, rfl, hc.held⟩

theorem exhausted_iff {c : Channel ι α} : c.exhausted = true ↔
    (c.buffer = [] ∧ c.places.held = []) ∧
      (c.closed = true ∨ c.handles = 0 ∧ c.places.line = []) := by
  simp [exhausted]

theorem spent_of_exhausted {c : Channel ι α} (h : c.exhausted = true) (hc : c.closed = true) :
    c.Spent :=
  ⟨hc, (exhausted_iff.mp h).1.1, (exhausted_iff.mp h).1.2⟩

theorem deserted_of_exhausted {c : Channel ι α} (h : c.exhausted = true) (hc : c.closed = false) :
    c.Deserted := by
  obtain ⟨⟨-, hheld⟩, hclosed | ⟨hhandles, hline⟩⟩ := exhausted_iff.mp h
  · simp [hc] at hclosed
  · exact ⟨hhandles, hline, hheld⟩

@[simp] theorem handles_send (c : Channel ι α) (who : ι) (x : α) :
    (c.send who x).1.handles = c.handles := by
  unfold send
  split
  · rfl
  · split <;> rfl

theorem closed_of_send_refused {c c' : Channel ι α} {who : ι} {x : α}
    (h : c.send who x = (c', .refused)) : c.closed = true := by
  unfold send at h
  split at h
  · assumption
  · split at h <;> simp at h

theorem eq_of_send_refused {c c' : Channel ι α} {who : ι} {x : α}
    (h : c.send who x = (c', .refused)) : c' = c := by
  rw [send, if_pos (closed_of_send_refused h)] at h
  exact (Prod.mk.inj h).1.symm

theorem send_eq_accepted {c c' : Channel ι α} {who : ι} {x : α}
    (h : c.send who x = (c', .accepted)) : c.closed = false ∧ ∃ free, c.places.free = free + 1 ∧
      c' = { c with places := { c.places with free }, buffer := c.buffer ++ [x] } := by
  unfold send at h
  split at h
  · cases h
  · rename_i hopen
    split at h
    · cases h
    · rename_i free hfree
      exact ⟨by simpa using hopen, free, hfree, (Prod.mk.inj h).1.symm⟩

theorem send_eq_waiting {c c' : Channel ι α} {who : ι} {x : α}
    (h : c.send who x = (c', .waiting)) : c.closed = false ∧ c.places.free = 0 ∧
      c' = { c with places := c.places.request who } := by
  unfold send at h
  split at h
  · cases h
  · rename_i hopen
    split at h
    · rename_i hfree
      exact ⟨by simpa using hopen, hfree, (Prod.mk.inj h).1.symm⟩
    · cases h

variable [DecidableEq ι]

/-- What those who send may do to a channel, with the item that the channel takes by it. -/
inductive Sent (c : Channel ι α) : Option α → Channel ι α → Prop
  | refused : Sent c none c
  | accepted {free} (x : α) : c.closed = false → c.places.free = free + 1 →
      Sent c (some x) { c with places := { c.places with free }, buffer := c.buffer ++ [x] }
  | requested (who : ι) : c.closed = false → Sent c none { c with places := c.places.request who }
  | filled {who : ι} (x : α) : who ∈ c.places.held → Sent c (some x) (c.fill who x)
  | left (who : ι) : Sent c none (c.leave who)
  | counted (handles : Nat) : Sent c none { c with handles }

theorem resume?_eq_accepted {c : Channel ι α} {who : ι} (h : c.resume? who = some .accepted) :
    c.closed = false ∧ who ∈ c.places.held := by
  unfold resume? at h
  split_ifs at h with hclosed hholds
  · simp at h
  · exact ⟨by simpa using hclosed, Permits.holds_iff.mp hholds⟩

theorem closed_of_resume_refused {c : Channel ι α} {who : ι}
    (h : c.resume? who = some .refused) : c.closed = true := by
  unfold resume? at h
  split_ifs at h with hclosed
  · exact hclosed
  · simp at h

theorem Deserted.leave {c : Channel ι α} {who : ι} (hc : c.Deserted) : (c.leave who).Deserted := by
  have hplaces : c.places.leave who = c.places := by
    unfold Permits.leave
    rw [if_neg (by simp [hc.held]), hc.line, List.erase_nil, ← hc.line]
  exact ⟨hc.handles, by simp [Channel.leave, hplaces, hc.line],
    by simp [Channel.leave, hplaces, hc.held]⟩

/-- The item of a sender that is accepted at once. -/
def Arrival.taken (x : α) : Arrival → Option α
  | .accepted => some x
  | _ => none

theorem sent_of_send {c c' : Channel ι α} {who : ι} {x : α} {arrival : Arrival}
    (h : c.send who x = (c', arrival)) : c.Sent (Arrival.taken x arrival) c' := by
  unfold send at h
  split at h
  · obtain ⟨rfl, rfl⟩ := Prod.mk.inj h
    exact .refused
  · rename_i hopen
    rw [Bool.not_eq_true] at hopen
    split at h <;> obtain ⟨rfl, rfl⟩ := Prod.mk.inj h
    · exact .requested who hopen
    · exact .accepted x hopen ‹_›

theorem sent_of_reserve {c c' : Channel ι α} {who : ι} {arrival : Arrival}
    (h : c.reserve who = (c', arrival)) : c.Sent none c' := by
  unfold reserve at h
  split at h
  · obtain ⟨rfl, -⟩ := Prod.mk.inj h
    exact .refused
  · rename_i hopen
    rw [Bool.not_eq_true] at hopen
    split at h <;> obtain ⟨rfl, -⟩ := Prod.mk.inj h <;> exact .requested who hopen

namespace Sent

variable {c c' : Channel ι α} {taken : Option α}

theorem buffer (h : c.Sent taken c') : c'.buffer = c.buffer ++ taken.toList := by
  cases h <;> simp [fill, leave]

theorem closed (h : c.Sent taken c') : c'.closed = c.closed := by
  cases h <;> rfl

theorem settled (h : c.Sent taken c') (hc : c.Settled) : c'.Settled := by
  intro hclosed
  rw [h.closed] at hclosed
  cases h with
  | refused => exact hc hclosed
  | accepted => exact hc hclosed
  | requested who hopen => simp [hopen] at hclosed
  | filled => exact hc hclosed
  | left => exact Permits.line_leave (hc hclosed)
  | counted => exact hc hclosed

theorem held (h : c.Sent taken c') (hc : c.Settled) (hclosed : c.closed = true) {who : ι}
    (hw : who ∈ c'.places.held) : who ∈ c.places.held := by
  cases h with
  | refused => exact hw
  | accepted _ hopen => simp [hopen] at hclosed
  | requested _ hopen => simp [hopen] at hclosed
  | filled => exact List.mem_of_mem_erase hw
  | left => exact Permits.mem_held_of_leave (hc hclosed) hw
  | counted => exact hw

/-- In a closed channel a place is lost, or all stay with those who hold them and nothing is sent. -/
theorem held_or (h : c.Sent taken c') (hc : c.Settled) (hclosed : c.closed = true) :
    c'.places.held.length < c.places.held.length ∨
      c'.places.held = c.places.held ∧ taken = none := by
  cases h with
  | accepted _ hopen | requested _ hopen => simp [hopen] at hclosed
  | refused | counted => exact .inr ⟨rfl, rfl⟩
  | filled _ hheld =>
    have hpos := List.length_pos_of_mem hheld
    refine .inl ?_
    simp only [fill, Permits.spend, List.length_erase_of_mem hheld]
    omega
  | left who =>
    by_cases hheld : who ∈ c.places.held
    · have hpos := List.length_pos_of_mem hheld
      have hline : (c.places.spend who).line = [] := hc hclosed
      refine .inl ?_
      rw [leave, Permits.leave, if_pos hheld, Permits.giveBack, Permits.held_add hline,
        Permits.spend, List.length_erase_of_mem hheld]
      omega
    · simp [leave, Permits.leave, hheld]

theorem sized {n : Nat} (h : c.Sent taken c') (hc : c.Sized n) : c'.Sized n := by
  have hcapacity := hc.capacity
  cases h with
  | refused => exact hc
  | accepted x _ hfree =>
    refine ⟨?_, fun _ => hc.fair (by omega)⟩
    simp only [Channel.capacity, Permits.total, hfree, List.length_append,
      List.length_singleton] at hcapacity ⊢
    omega
  | requested who => exact ⟨by simpa [Channel.capacity] using hcapacity, hc.fair.request who⟩
  | filled x hheld => exact ⟨(capacity_fill hheld x).trans hcapacity, hc.fair⟩
  | left who => exact ⟨(capacity_leave c who).trans hcapacity, hc.fair.leave who⟩
  | counted => exact ⟨hcapacity, hc.fair⟩

theorem none_of_spent (h : c.Sent taken c') (hc : c.Spent) : taken = none := by
  cases h with
  | accepted _ hopen => exact absurd hc.closed (by simp [hopen])
  | filled _ hheld => simp [hc.held] at hheld
  | _ => rfl

theorem spent (h : c.Sent taken c') (hs : c.Settled) (hc : c.Spent) : c'.Spent := by
  refine ⟨h.closed.trans hc.closed, ?_, ?_⟩
  · rw [h.buffer, h.none_of_spent hc, hc.buffer, Option.toList_none, List.append_nil]
  · apply List.eq_nil_iff_forall_not_mem.mpr
    intro who hw
    have := h.held hs hc.closed hw
    simp [hc.held] at this

end Sent

end Channel

end Batchflow
