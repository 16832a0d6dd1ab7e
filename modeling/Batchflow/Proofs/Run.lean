import Mathlib.Data.List.Induction

/-!
# Runs

A system takes one action after another, and something is seen of each.  A run keeps all of it:
the state each action was taken in, the action, and what was seen.  What a system has done so far
is read off the run, turn by turn.
-/

namespace Batchflow

/-- One action of a run, with the state it was taken in and what was seen of it. -/
structure Turn (σ α ε : Type) where
  before : σ
  action : α
  events : List ε

variable {σ α ε : Type}

/-- From a state these turns, one after the other, lead to another state. -/
inductive Run (step : σ → α → Option (σ × List ε)) (s : σ) : List (Turn σ α ε) → σ → Prop
  | nil : Run step s [] s
  | snoc {turns s₁ s₂ a events} : Run step s turns s₁ → step s₁ a = some (s₂, events) →
      Run step s (turns ++ [⟨s₁, a, events⟩]) s₂

/-- Takes actions one after the other, as long as each is possible. -/
def replay (step : σ → α → Option (σ × List ε)) : σ → List α → Option (List (Turn σ α ε) × σ)
  | s, [] => some ([], s)
  | s, a :: actions =>
    match step s a with
    | none => none
    | some (s', events) =>
      (replay step s' actions).map fun r => (⟨s, a, events⟩ :: r.1, r.2)

namespace Run

variable {step : σ → α → Option (σ × List ε)} {s s₁ s₂ : σ} {turns rest : List (Turn σ α ε)}

theorem append (h : Run step s turns s₁) (h' : Run step s₁ rest s₂) :
    Run step s (turns ++ rest) s₂ := by
  induction h' with
  | nil => simpa using h
  | snoc _ hstep ih => simpa using ih.snoc hstep

theorem of_step {a : α} {events : List ε} (h : step s a = some (s₁, events)) :
    Run step s [⟨s, a, events⟩] s₁ := by
  simpa using nil.snoc h

theorem of_replay {actions : List α} (h : replay step s actions = some (turns, s₁)) :
    Run step s turns s₁ := by
  induction actions generalizing s turns with
  | nil =>
    simp only [replay, Option.some.injEq, Prod.mk.injEq] at h
    obtain ⟨rfl, rfl⟩ := h
    exact nil
  | cons a actions ih =>
    simp only [replay] at h
    split at h
    · contradiction
    · rename_i s' events hstep
      obtain ⟨r, hr, hrs⟩ := Option.map_eq_some_iff.mp h
      obtain ⟨rfl, rfl⟩ := Prod.mk.inj hrs
      exact (of_step hstep).append (ih hr)

theorem action_mem_of_replay {actions : List α} {t : Turn σ α ε}
    (h : replay step s actions = some (turns, s₁)) (ht : t ∈ turns) : t.action ∈ actions := by
  induction actions generalizing s turns with
  | nil =>
    simp only [replay, Option.some.injEq, Prod.mk.injEq] at h
    obtain ⟨rfl, -⟩ := h
    exact absurd ht List.not_mem_nil
  | cons a actions ih =>
    simp only [replay] at h
    split at h
    · contradiction
    · obtain ⟨r, hr, hrs⟩ := Option.map_eq_some_iff.mp h
      obtain ⟨rfl, rfl⟩ := Prod.mk.inj hrs
      rcases List.mem_cons.mp ht with rfl | ht
      · exact List.mem_cons_self
      · exact List.mem_cons_of_mem _ (ih hr ht)

theorem snoc_inv {t : Turn σ α ε} (h : Run step s (turns ++ [t]) s₂) :
    Run step s turns t.before ∧ step t.before t.action = some (s₂, t.events) := by
  generalize hall : turns ++ [t] = all at h
  cases h with
  | nil => simp at hall
  | snoc hrun hstep =>
    obtain ⟨rfl, hlast⟩ := List.append_inj' hall rfl
    obtain rfl := List.singleton_inj.mp hlast
    exact ⟨hrun, hstep⟩

theorem cut (h : Run step s (turns ++ rest) s₂) :
    ∃ s₁, Run step s turns s₁ ∧ Run step s₁ rest s₂ := by
  induction rest using List.reverseRecOn generalizing s₂ with
  | nil => exact ⟨s₂, by simpa using h, nil⟩
  | append_singleton rest t ih =>
    rw [← List.append_assoc] at h
    obtain ⟨hrun, hstep⟩ := h.snoc_inv
    obtain ⟨s₁, h₁, h₂⟩ := ih hrun
    exact ⟨s₁, h₁, h₂.snoc hstep⟩

theorem cut_turn {t : Turn σ α ε} (h : Run step s (turns ++ t :: rest) s₂) :
    Run step s turns t.before ∧
      ∃ s₁, step t.before t.action = some (s₁, t.events) ∧ Run step s₁ rest s₂ := by
  rw [List.append_cons] at h
  obtain ⟨s₁, hupto, hrest⟩ := h.cut
  obtain ⟨hrun, hstep⟩ := hupto.snoc_inv
  exact ⟨hrun, s₁, hstep, hrest⟩

theorem split {t : Turn σ α ε} (h : Run step s turns s₂) (ht : t ∈ turns) :
    ∃ before after s₁, turns = before ++ t :: after ∧ Run step s before t.before ∧
      step t.before t.action = some (s₁, t.events) ∧ Run step s₁ after s₂ := by
  obtain ⟨before, after, rfl⟩ := List.append_of_mem ht
  obtain ⟨hrun, s₁, hstep, hafter⟩ := h.cut_turn
  exact ⟨before, after, s₁, rfl, hrun, hstep, hafter⟩

theorem invariant {P : σ → Prop} (h : Run step s turns s₂) (h₀ : P s)
    (hstep : ∀ s a s' events, P s → step s a = some (s', events) → P s') : P s₂ := by
  induction h with
  | nil => exact h₀
  | snoc _ h ih => exact hstep _ _ _ _ ih h

end Run

end Batchflow
