import Batchflow.Proofs.Chunker.Action

/-!
# The options and the clock

The options of a chunker never change, and its clock moves only when time passes.
-/

namespace Batchflow.Chunker.System

variable {α : Type} {s s' : System α} {a : Action α} {events : List (Event α)} {call : Nat}

/-- What a chunker reads and never writes. -/
def settings (s : System α) : Options × Nat := (s.options, s.now)

theorem settings_abandon (s : System α) (source : Nat) :
    (s.abandon source).settings = s.settings := by
  unfold abandon
  split <;> rfl

theorem settings_requestStop (s : System α) (source : Nat) :
    (s.requestStop source).settings = s.settings := by
  unfold requestStop
  split <;> rfl

theorem settings_leaveChannel (s : System α) (source call : Nat) :
    (s.leaveChannel source call).settings = s.settings := by
  unfold leaveChannel
  split <;> rfl

theorem settings_of_went (h : s.Went call s' events) : s'.settings = s.settings := by
  cases h with
  | startRefused => exact s.settings_abandon _
  | @stopTaken source =>
    have hrequest := settings_requestStop { s with running := none } source
    exact hrequest
  | _ => rfl

/-- Only the passing of time moves the clock, and nothing changes the options. -/
theorem settings_of_step (h : s.step a = some (s', events)) :
    s'.settings = s.settings ∨ ∃ now, a = .advance now ∧ s.advance? now = some s' := by
  generalize hout : (s', events) = out at h
  have hdid := did_of_step h
  subst hout
  cases hdid with
  | asked ha => cases ha <;> exact .inl rfl
  | atOnce ha _ _ hwent =>
    have hsettings := settings_of_went hwent
    cases ha <;> exact .inl hsettings
  | startAborted => exact .inl (s.settings_abandon _)
  | sendAborted | reserveAborted => exact .inl (s.settings_leaveChannel _ _)
  | resumed hwent => exact .inl (settings_of_went hwent)
  | advanced hadvance => exact .inr ⟨_, rfl, hadvance⟩
  | _ => exact .inl rfl

theorem options_of_step (h : s.step a = some (s', events)) : s'.options = s.options := by
  rcases settings_of_step h with h | ⟨now, -, h⟩
  · exact congrArg Prod.fst h
  · simp only [advance?, Option.ite_none_right_eq_some, Option.some.injEq] at h
    obtain ⟨-, rfl⟩ := h
    rfl

end Batchflow.Chunker.System
