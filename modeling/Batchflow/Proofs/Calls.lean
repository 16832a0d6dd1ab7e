import Mathlib.Data.List.Nodup

/-!
# Tables of pending calls

Calls that have not returned stand in a list with their keys.  A call that goes on is taken out of
the list and, if it has to wait again, put at its end.
-/

namespace Batchflow.Calls

variable {ι κ : Type} [BEq ι] [LawfulBEq ι] {calls : List (ι × κ)} {who w : ι} {c k : κ}

theorem mem_of_lookup (h : calls.lookup who = some c) : (who, c) ∈ calls := by
  obtain ⟨l₁, l₂, rfl, -⟩ := List.lookup_eq_some_iff.mp h
  simp

theorem not_mem_of_lookup (h : calls.lookup who = none) : (who, c) ∉ calls := by
  intro hmem
  have := List.lookup_eq_none_iff.mp h _ hmem
  simp at this

omit [BEq ι] [LawfulBEq ι] in
theorem eq_of_mem (hkeys : (calls.map Prod.fst).Nodup) (hc : (who, c) ∈ calls)
    (hk : (who, k) ∈ calls) : c = k := by
  have := List.inj_on_of_nodup_map hkeys hc hk rfl
  exact (Prod.mk.inj this).2

theorem lookup_of_mem (hkeys : (calls.map Prod.fst).Nodup) (hc : (who, c) ∈ calls) :
    calls.lookup who = some c := by
  cases hlookup : calls.lookup who with
  | none => exact absurd hc (not_mem_of_lookup hlookup)
  | some k => rw [eq_of_mem hkeys hc (mem_of_lookup hlookup)]

theorem mem_without : (w, k) ∈ calls.filter (·.1 != who) ↔ (w, k) ∈ calls ∧ w ≠ who := by
  simp [List.mem_filter]

omit [LawfulBEq ι] in
theorem keys_without (hkeys : (calls.map Prod.fst).Nodup) :
    ((calls.filter (·.1 != who)).map Prod.fst).Nodup :=
  hkeys.sublist (List.filter_sublist.map _)

theorem mem_await : (w, k) ∈ calls.filter (·.1 != who) ++ [(who, c)] ↔
    (w, k) ∈ calls ∧ w ≠ who ∨ w = who ∧ k = c := by
  simp [List.mem_filter]

theorem keys_await (hkeys : (calls.map Prod.fst).Nodup) :
    ((calls.filter (·.1 != who) ++ [(who, c)]).map Prod.fst).Nodup := by
  rw [List.map_append, List.nodup_append]
  refine ⟨keys_without hkeys, by simp, ?_⟩
  intro a ha b hb
  obtain ⟨⟨w, k⟩, hw, rfl⟩ := List.mem_map.mp ha
  simp only [List.map_cons, List.map_nil, List.mem_singleton] at hb
  subst hb
  exact (mem_without.mp hw).2

/-- To take a call out of the table changes nothing else. -/
theorem perm_without (hkeys : (calls.map Prod.fst).Nodup) (hc : (who, c) ∈ calls) :
    calls.Perm ((who, c) :: calls.filter (·.1 != who)) := by
  obtain ⟨l₁, l₂, rfl⟩ := List.append_of_mem hc
  have hnodup := (List.perm_middle.map Prod.fst).nodup_iff.mp hkeys
  have hne : ∀ e ∈ l₁ ++ l₂, (e.1 != who) = true := by
    intro e he
    rw [bne_iff_ne]
    rintro rfl
    exact (List.nodup_cons.mp hnodup).1 (List.mem_map.mpr ⟨e, he, rfl⟩)
  have hfilter : (l₁ ++ (who, c) :: l₂).filter (·.1 != who) = l₁ ++ l₂ := by
    rw [List.filter_append, List.filter_cons_of_neg (by simp), ← List.filter_append]
    exact List.filter_eq_self.mpr hne
  rw [hfilter]
  exact List.perm_middle

theorem without_eq_self (h : calls.lookup who = none) : calls.filter (·.1 != who) = calls := by
  refine List.filter_eq_self.mpr fun e he => ?_
  rw [bne_iff_ne]
  rintro rfl
  simpa using List.lookup_eq_none_iff.mp h e he

theorem lookup_without_self : (calls.filter (·.1 != who)).lookup who = none := by
  refine List.lookup_eq_none_iff.mpr fun e he => ?_
  have hne := (List.mem_filter.mp he).2
  rw [bne_iff_ne] at hne
  simpa using hne.symm

theorem lookup_without_of_ne (h : w ≠ who) :
    (calls.filter (·.1 != who)).lookup w = calls.lookup w := by
  induction calls with
  | nil => rfl
  | cons e calls ih =>
    rw [List.filter_cons]
    split
    · rw [List.lookup_cons, List.lookup_cons, ih]
    · rename_i heq
      rw [bne_iff_ne, not_not] at heq
      rw [ih, List.lookup_cons, heq, beq_false_of_ne h]

theorem lookup_await_of_ne (h : w ≠ who) :
    (calls.filter (·.1 != who) ++ [(who, c)]).lookup w = calls.lookup w := by
  rw [List.lookup_append, lookup_without_of_ne h, List.lookup_cons, beq_false_of_ne h,
    List.lookup_nil, Option.or_none]

theorem lookup_await (h : calls.lookup who = none) :
    (calls.filter (·.1 != who) ++ [(who, c)]).lookup who = some c := by
  have hnone : (calls.filter (·.1 != who)).lookup who = none := by
    rw [List.lookup_eq_none_iff] at h ⊢
    exact fun entry hentry => h entry (List.mem_of_mem_filter hentry)
  simp [List.lookup_append, hnone]

omit [LawfulBEq ι] in
/-- A change of every call is a change of the one that is found. -/
theorem lookup_map (f : κ → κ) :
    (calls.map fun e => (e.1, f e.2)).lookup who = (calls.lookup who).map f := by
  induction calls with
  | nil => rfl
  | cons e calls ih =>
    rw [List.map_cons, List.lookup_cons, List.lookup_cons, ih]
    cases who == e.1 <;> rfl

theorem without_await : (calls.filter (·.1 != who) ++ [(who, c)]).filter (·.1 != who) =
    calls.filter (·.1 != who) := by
  simp

end Batchflow.Calls
