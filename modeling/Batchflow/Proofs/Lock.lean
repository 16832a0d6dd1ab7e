import Batchflow.Proofs.Calls
import Batchflow.Proofs.Channel

/-!
# A lock and the calls that take it

A lock is one permit.  Those who want it or have it are pending calls, and a call that has begun
what the lock protects keeps the lock until it is over.  So there is never more than one such call.
-/

namespace Batchflow

namespace Permits

variable {ι : Type} {p : Permits ι} {who w : ι}

/-- Those who hold a permit and then those who wait for one. -/
def everybody (p : Permits ι) : List ι := p.held ++ p.line

@[simp] theorem everybody_add (p : Permits ι) : p.add.everybody = p.everybody := by
  unfold add everybody
  split <;> simp_all

theorem everybody_request (p : Permits ι) (who : ι) :
    (p.request who).everybody.Perm (who :: p.everybody) := by
  unfold request everybody
  split
  · rw [← List.append_assoc]
    exact List.perm_append_singleton who _
  · rw [List.append_assoc]
    exact List.perm_middle

theorem held_add_of_mem (h : w ∈ p.held) : w ∈ p.add.held := by
  unfold add
  split
  · exact h
  · exact List.mem_append_left _ h

theorem held_request_of_mem (h : w ∈ p.held) : w ∈ (p.request who).held := by
  unfold request
  split
  · exact h
  · exact List.mem_append_left _ h

theorem mem_held_request (h : 0 < p.free) : who ∈ (p.request who).held := by
  unfold request
  split
  · omega
  · exact List.mem_append_right _ (List.mem_singleton_self who)

variable [DecidableEq ι]

theorem everybody_spend (h : who ∈ p.held) :
    (p.spend who).everybody = p.everybody.erase who := by
  rw [everybody, everybody, List.erase_append_left _ h]
  rfl

theorem everybody_giveBack (h : who ∈ p.held) :
    (p.giveBack who).everybody = p.everybody.erase who := by
  rw [giveBack, everybody_add, everybody_spend h]

theorem everybody_leave (p : Permits ι) (who : ι) :
    (p.leave who).everybody = p.everybody.erase who := by
  unfold leave
  split
  · exact everybody_giveBack ‹_›
  · rw [everybody, everybody, List.erase_append_right _ ‹_›]

theorem held_leave_of_mem (h : w ∈ p.held) (hw : w ≠ who) : w ∈ (p.leave who).held := by
  unfold leave giveBack
  split
  · exact held_add_of_mem ((List.mem_erase_of_ne hw).mpr h)
  · exact h

end Permits

/-- What a pending call has to do with a lock. -/
inductive Stand where
  /-- Nothing. -/
  | outside
  /-- It wants the lock. -/
  | waiting
  /-- It has taken the lock and keeps it. -/
  | inside
  deriving DecidableEq

variable {ι κ : Type} {stand : κ → Stand} {lock : Permits ι}
  {calls : List (ι × κ)} {who w : ι} {c k : κ}

structure Guarded (stand : κ → Stand) (lock : Permits ι) (calls : List (ι × κ)) : Prop where
  keys : (calls.map Prod.fst).Nodup
  single : lock.total = 1
  nodup : lock.everybody.Nodup
  pending : ∀ who ∈ lock.everybody, ∃ c, (who, c) ∈ calls ∧ stand c ≠ .outside
  waiting : ∀ who c, (who, c) ∈ calls → stand c = .waiting → who ∈ lock.everybody
  inside : ∀ who c, (who, c) ∈ calls → stand c = .inside → who ∈ lock.held

namespace Guarded

theorem map (h : Guarded stand lock calls) (f : κ → κ) (hf : ∀ c, stand (f c) = stand c) :
    Guarded stand lock (calls.map fun e => (e.1, f e.2)) := by
  have hmem : ∀ {who c}, (who, c) ∈ calls.map (fun e => (e.1, f e.2)) →
      ∃ k, (who, k) ∈ calls ∧ stand c = stand k := by
    intro who c hc
    obtain ⟨⟨w, k⟩, hk, heq⟩ := List.mem_map.mp hc
    obtain ⟨rfl, rfl⟩ := Prod.mk.inj heq
    exact ⟨k, hk, hf k⟩
  refine ⟨?_, h.single, h.nodup, ?_, ?_, ?_⟩
  · rw [List.map_map]
    exact h.keys
  · intro who hwho
    obtain ⟨c, hc, hstand⟩ := h.pending who hwho
    exact ⟨f c, List.mem_map.mpr ⟨_, hc, rfl⟩, by rwa [hf]⟩
  · intro who c hc hstand
    obtain ⟨k, hk, hsame⟩ := hmem hc
    exact h.waiting who k hk (hsame ▸ hstand)
  · intro who c hc hstand
    obtain ⟨k, hk, hsame⟩ := hmem hc
    exact h.inside who k hk (hsame ▸ hstand)

/-- Whoever waits for the lock waits for a holder. -/
theorem exists_held (h : Guarded stand lock calls) (hfair : lock.Fair)
    (hwho : who ∈ lock.everybody) : ∃ w, w ∈ lock.held := by
  by_contra hnone
  have hheld : lock.held = [] := List.eq_nil_iff_forall_not_mem.mpr fun w hw => hnone ⟨w, hw⟩
  have hfree : 0 < lock.free := by
    have := h.single
    simp only [Permits.total, hheld, List.length_nil] at this
    omega
  rw [Permits.everybody, hheld, hfair hfree] at hwho
  exact absurd hwho List.not_mem_nil

theorem new : Guarded stand (.ofFree 1 : Permits ι) [] where
  keys := by simp
  single := rfl
  nodup := by simp [Permits.everybody, Permits.ofFree]
  pending := by simp [Permits.everybody, Permits.ofFree]
  waiting := by simp
  inside := by simp

/-- There is one holder at most. -/
theorem eq_of_held (h : Guarded stand lock calls) (hwho : who ∈ lock.held) (hw : w ∈ lock.held) :
    who = w := by
  have hlength : lock.held.length ≤ 1 := by
    have := h.single
    simp only [Permits.total] at this
    omega
  obtain ⟨v, hv⟩ := List.length_eq_one_iff.mp
    (Nat.le_antisymm hlength (List.length_pos_of_mem hwho))
  rw [hv, List.mem_singleton] at hwho hw
  rw [hwho, hw]

theorem eq_of_mem (h : Guarded stand lock calls) (hc : (who, c) ∈ calls) (hk : (who, k) ∈ calls) :
    c = k :=
  Calls.eq_of_mem h.keys hc hk

theorem not_outside (h : Guarded stand lock calls) (hwho : who ∈ lock.everybody)
    (hc : (who, c) ∈ calls) : stand c ≠ .outside := by
  obtain ⟨k, hk, hstand⟩ := h.pending who hwho
  rwa [h.eq_of_mem hc hk]

theorem not_inside (h : Guarded stand lock calls) (hwho : who ∈ lock.held)
    (hc : (who, c) ∈ calls) (hwaiting : stand c = .waiting) (hk : (w, k) ∈ calls) :
    stand k ≠ .inside := by
  intro hin
  obtain rfl := h.eq_of_held (h.inside w k hk hin) hwho
  obtain rfl := h.eq_of_mem hk hc
  simp [hwaiting] at hin

theorem free_of_outside (h : Guarded stand lock calls)
    (hout : ∀ who c, (who, c) ∈ calls → stand c = .outside) : 0 < lock.free := by
  have hheld : lock.held = [] := by
    refine List.eq_nil_iff_forall_not_mem.mpr fun who hwho => ?_
    obtain ⟨c, hc, hstand⟩ := h.pending who (List.mem_append_left _ hwho)
    exact hstand (hout who c hc)
  have := h.single
  simp only [Permits.total, hheld, List.length_nil] at this
  omega

theorem not_mem_everybody (h : Guarded stand lock calls) (hnew : ∀ c, (who, c) ∉ calls) :
    who ∉ lock.everybody := by
  intro hmem
  obtain ⟨k, hk, -⟩ := h.pending who hmem
  exact hnew k hk

theorem free_of_held_request (h : Guarded stand lock calls) (hnew : ∀ c, (who, c) ∉ calls)
    (hheld : who ∈ (lock.request who).held) : 0 < lock.free := by
  by_contra hzero
  -- Without a free lock it would stand in the line only.
  have hin : who ∈ lock.held := by
    rwa [Permits.request, Nat.eq_zero_of_not_pos hzero] at hheld
  exact h.not_mem_everybody hnew (List.mem_append_left _ hin)

/-- A new call that waits for something is no matter to the call that has taken the lock. -/
theorem inside_await [BEq ι] [LawfulBEq ι] (hnew : ∀ c, (who, c) ∉ calls) (hc : stand c ≠ .inside)
    (hk : stand k = .inside) :
    (w, k) ∈ calls.filter (·.1 != who) ++ [(who, c)] ↔ (w, k) ∈ calls := by
  refine Calls.mem_await.trans ⟨?_, fun hmem => .inl ⟨hmem, ?_⟩⟩
  · rintro (hmem | ⟨-, rfl⟩)
    · exact hmem.1
    · exact absurd hk hc
  · rintro rfl
    exact hnew k hmem

theorem inside_without [BEq ι] [LawfulBEq ι] (h : Guarded stand lock calls)
    (hc : (who, c) ∈ calls) (hout : stand c ≠ .inside) (hk : stand k = .inside) :
    (w, k) ∈ calls.filter (·.1 != who) ↔ (w, k) ∈ calls := by
  refine Calls.mem_without.trans ⟨And.left, fun hmem => ⟨hmem, ?_⟩⟩
  rintro rfl
  obtain rfl := h.eq_of_mem hc hmem
  exact hout hk

variable [DecidableEq ι]

theorem request (h : Guarded stand lock calls) (hnew : ∀ c, (who, c) ∉ calls)
    (hc : stand c = .waiting) :
    Guarded stand (lock.request who) (calls.filter (·.1 != who) ++ [(who, c)]) := by
  have hperm := Permits.everybody_request lock who
  have hne : ∀ {w k}, (w, k) ∈ calls → w ≠ who := by
    rintro w k hk rfl
    exact hnew k hk
  have hout := h.not_mem_everybody hnew
  refine ⟨Calls.keys_await h.keys, by simpa using h.single, ?_, ?_, ?_, ?_⟩
  · exact hperm.nodup_iff.mpr (List.nodup_cons.mpr ⟨hout, h.nodup⟩)
  · intro w hw
    rcases List.mem_cons.mp (hperm.mem_iff.mp hw) with rfl | hw
    · exact ⟨c, Calls.mem_await.mpr (.inr ⟨rfl, rfl⟩), by simp [hc]⟩
    · obtain ⟨k, hk, hstand⟩ := h.pending w hw
      exact ⟨k, Calls.mem_await.mpr (.inl ⟨hk, hne hk⟩), hstand⟩
  · intro w k hk hstand
    rw [hperm.mem_iff]
    rcases Calls.mem_await.mp hk with ⟨hk, -⟩ | ⟨rfl, -⟩
    · exact List.mem_cons_of_mem _ (h.waiting w k hk hstand)
    · exact List.mem_cons_self
  · intro w k hk hstand
    rcases Calls.mem_await.mp hk with ⟨hk, -⟩ | ⟨-, rfl⟩
    · exact Permits.held_request_of_mem (h.inside w k hk hstand)
    · simp [hc] at hstand

theorem enter (h : Guarded stand lock calls) (hwho : who ∈ lock.held) (hc : stand c = .inside) :
    Guarded stand lock (calls.filter (·.1 != who) ++ [(who, c)]) := by
  refine ⟨Calls.keys_await h.keys, h.single, h.nodup, ?_, ?_, ?_⟩
  · intro w hw
    by_cases hne : w = who
    · exact ⟨c, Calls.mem_await.mpr (.inr ⟨hne, rfl⟩), by simp [hc]⟩
    · obtain ⟨k, hk, hstand⟩ := h.pending w hw
      exact ⟨k, Calls.mem_await.mpr (.inl ⟨hk, hne⟩), hstand⟩
  · intro w k hk hstand
    rcases Calls.mem_await.mp hk with ⟨hk, -⟩ | ⟨-, rfl⟩
    · exact h.waiting w k hk hstand
    · simp [hc] at hstand
  · intro w k hk hstand
    rcases Calls.mem_await.mp hk with ⟨hk, -⟩ | ⟨rfl, -⟩
    · exact h.inside w k hk hstand
    · exact hwho

/-- A call that waits for the lock or has it is over. -/
theorem leave (h : Guarded stand lock calls) (who : ι) :
    Guarded stand (lock.leave who) (calls.filter (·.1 != who)) := by
  have hall := Permits.everybody_leave lock who
  refine ⟨Calls.keys_without h.keys, (Permits.total_leave lock who).trans h.single, ?_, ?_, ?_, ?_⟩
  · rw [hall]
    exact h.nodup.erase who
  · intro w hw
    rw [hall, h.nodup.mem_erase_iff] at hw
    obtain ⟨k, hk, hstand⟩ := h.pending w hw.2
    exact ⟨k, Calls.mem_without.mpr ⟨hk, hw.1⟩, hstand⟩
  · intro w k hk hstand
    obtain ⟨hk, hne⟩ := Calls.mem_without.mp hk
    rw [hall, h.nodup.mem_erase_iff]
    exact ⟨hne, h.waiting w k hk hstand⟩
  · intro w k hk hstand
    obtain ⟨hk, hne⟩ := Calls.mem_without.mp hk
    exact Permits.held_leave_of_mem (h.inside w k hk hstand) hne

theorem giveBack (h : Guarded stand lock calls) (hwho : who ∈ lock.held) :
    Guarded stand (lock.giveBack who) (calls.filter (·.1 != who)) := by
  have := h.leave who
  rwa [Permits.leave, if_pos hwho] at this

theorem without (h : Guarded stand lock calls) (hc : (who, c) ∈ calls) (hout : stand c = .outside) :
    Guarded stand lock (calls.filter (·.1 != who)) := by
  have hwho : who ∉ lock.everybody := fun hmem => h.not_outside hmem hc hout
  have hleave := h.leave who
  have heq : lock.leave who = lock := by
    simp only [Permits.everybody, List.mem_append, not_or] at hwho
    rw [Permits.leave, if_neg hwho.1, List.erase_of_not_mem hwho.2]
  rwa [heq] at hleave

/-- A call that has nothing to do with the lock has to wait for something. -/
theorem await (h : Guarded stand lock calls) (hnew : ∀ c, (who, c) ∉ calls)
    (hc : stand c = .outside) :
    Guarded stand lock (calls.filter (·.1 != who) ++ [(who, c)]) := by
  have hne : ∀ {w k}, (w, k) ∈ calls → w ≠ who := by
    rintro w k hk rfl
    exact hnew k hk
  refine ⟨Calls.keys_await h.keys, h.single, h.nodup, ?_, ?_, ?_⟩
  · intro w hw
    obtain ⟨k, hk, hstand⟩ := h.pending w hw
    exact ⟨k, Calls.mem_await.mpr (.inl ⟨hk, hne hk⟩), hstand⟩
  · intro w k hk hstand
    rcases Calls.mem_await.mp hk with ⟨hk, -⟩ | ⟨-, rfl⟩
    · exact h.waiting w k hk hstand
    · simp [hc] at hstand
  · intro w k hk hstand
    rcases Calls.mem_await.mp hk with ⟨hk, -⟩ | ⟨-, rfl⟩
    · exact h.inside w k hk hstand
    · simp [hc] at hstand

end Guarded

end Batchflow
