import Batchflow.Lifecycle
import Batchflow.Proofs.Lock
import Batchflow.Proofs.Run

/-!
# Starts and stops in turn

Something that can be started and stopped is stopped, or runs, or is being stopped by a call.  The
call that starts it leaves a mark, and so does the call that begins to stop it.  As long as it
passes from stage to stage as it should, the marks are a start, a stop, a start, and so on.
-/

namespace Batchflow

/-- What a call does that gets the lock. -/
inductive Mark where
  | start
  | stop
  deriving DecidableEq

inductive Stage where
  | stopped
  | running
  | stopping
  deriving DecidableEq

def Alternates (ms : List Mark) : Prop := ∀ i m, ms[i]? = some m → (m = .start ↔ i % 2 = 0)

theorem alternates_nil : Alternates [] := fun i m h => by simp at h

theorem Alternates.concat {ms : List Mark} {m : Mark} (h : Alternates ms)
    (hm : m = .start ↔ ms.length % 2 = 0) : Alternates (ms ++ [m]) := by
  intro i k hk
  rw [List.getElem?_append] at hk
  split at hk
  · exact h i k hk
  · obtain ⟨hlt, hk⟩ := List.getElem?_eq_some_iff.mp hk
    simp only [List.length_singleton] at hlt
    obtain rfl : i = ms.length := by omega
    simp only [List.getElem_singleton] at hk
    rwa [← hk]

namespace Stage

/-- How one stage follows another, with the mark that is left. -/
inductive Passes : Stage → Option Mark → Stage → Prop
  | stays (x : Stage) : Passes x none x
  | started : Passes .stopped (some .start) .running
  | taken : Passes .running (some .stop) .stopping
  | ended : Passes .stopping none .stopped

theorem Passes.alternates {x y : Stage} {mark : Option Mark} {ms : List Mark} (h : Passes x mark y)
    (hms : Alternates ms ∧ (x = .running ↔ ms.length % 2 = 1)) :
    Alternates (ms ++ mark.toList) ∧ (y = .running ↔ (ms ++ mark.toList).length % 2 = 1) := by
  obtain ⟨halternates, hx⟩ := hms
  cases h with
  | stays => simpa using ⟨halternates, hx⟩
  | started =>
    have heven : ms.length % 2 = 0 := by simpa using hx
    refine ⟨halternates.concat (by simp [heven]), ?_⟩
    simp only [Option.toList_some, List.length_append, List.length_singleton, true_iff]
    omega
  | taken =>
    have hodd : ms.length % 2 = 1 := by simpa using hx
    refine ⟨halternates.concat (by simp [hodd]), ?_⟩
    simp only [Option.toList_some, List.length_append, List.length_singleton, reduceCtorEq,
      false_iff]
    omega
  | ended => simpa using ⟨halternates, by simpa using hx⟩

/-- When every turn of a run passes from one stage to another, the marks alternate. -/
theorem alternates_of_run {σ α ε : Type} {step : σ → α → Option (σ × List ε)} {s s' : σ}
    {turns : List (Turn σ α ε)} {mark : Turn σ α ε → Option Mark} (stage : σ → Stage)
    (h : Run step s turns s') (hs : stage s = .stopped)
    (hpasses : ∀ before t after s₁, turns = before ++ t :: after → Run step s before t.before →
      step t.before t.action = some (s₁, t.events) →
      Passes (stage t.before) (mark t) (stage s₁)) :
    Alternates (turns.filterMap mark) ∧
      (stage s' = .running ↔ (turns.filterMap mark).length % 2 = 1) := by
  induction h with
  | nil => exact ⟨alternates_nil, by simp [hs]⟩
  | @snoc turns s₁ s₂ a events hrun hstep ih =>
    have hbefore := ih fun before t after s₃ heq =>
      hpasses before t (after ++ [⟨s₁, a, events⟩]) s₃ (by simp [heq])
    have hmarks (t : Turn σ α ε) :
        (turns ++ [t]).filterMap mark = turns.filterMap mark ++ (mark t).toList := by
      rw [List.filterMap_append]
      cases hmark : mark t <;> simp [hmark]
    rw [hmarks]
    exact (hpasses turns ⟨s₁, a, events⟩ [] s₂ rfl hrun hstep).alternates hbefore

variable {ι κ : Type} {stand : κ → Stand} {state : Lifecycle} {calls calls' : List (ι × κ)}

/-- The stage, from the state and the calls that have not returned. -/
def of (stand : κ → Stand) (state : Lifecycle) (calls : List (ι × κ)) : Stage :=
  match state with
  | .running => if calls.any fun e => stand e.2 = .inside then .stopping else .running
  | _ => .stopped

theorem of_congr (h : ∀ w c, stand c = .inside → ((w, c) ∈ calls' ↔ (w, c) ∈ calls)) :
    of stand state calls' = of stand state calls := by
  have hany : (calls'.any fun e => stand e.2 = .inside) =
      calls.any fun e => stand e.2 = .inside := by
    rw [Bool.eq_iff_iff]
    simp only [List.any_eq_true, Prod.exists, decide_eq_true_eq]
    exact ⟨fun ⟨w, c, hc, hin⟩ => ⟨w, c, (h w c hin).mp hc, hin⟩,
      fun ⟨w, c, hc, hin⟩ => ⟨w, c, (h w c hin).mpr hc, hin⟩⟩
  unfold of
  rw [hany]

theorem passes_of_congr (h : ∀ w c, stand c = .inside → ((w, c) ∈ calls' ↔ (w, c) ∈ calls)) :
    Passes (of stand state calls) none (of stand state calls') := by
  rw [of_congr h]
  exact .stays _

theorem of_not_inside (h : ∀ w c, (w, c) ∈ calls → stand c ≠ .inside) :
    of stand state calls = if state = .running then .running else .stopped := by
  cases state with
  | stopped | draining => rfl
  | running =>
    simp only [of, if_true, ite_eq_right_iff, reduceCtorEq, imp_false, List.any_eq_true,
      decide_eq_true_eq]
    rintro ⟨⟨w, c⟩, hc, hin⟩
    exact h w c hc hin

theorem of_stopping {w : ι} {c : κ} (hc : (w, c) ∈ calls) (hin : stand c = .inside) :
    of stand .running calls = .stopping := by
  unfold of
  simp only [ite_eq_left_iff, reduceCtorEq, imp_false, not_not, List.any_eq_true,
    decide_eq_true_eq]
  exact ⟨(w, c), hc, hin⟩

end Stage

end Batchflow
