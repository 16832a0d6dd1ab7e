import Batchflow.Proofs.Json.Grammar

/-!
# Values that are skipped

A valid value is skipped as a whole, however deep it is, and nothing behind it is touched.  A value
takes no more depth than it has characters, so the length of the text is depth enough.
-/

namespace Batchflow.Json

open Decimal

variable {c : Char} {cs cs₁ rest text : List Char}

theorem Chars.skip (h : Chars cs rest) : skipString? cs = some rest := by
  induction h with
  | close => simp [skipString?]
  | plain hquote hslash hcontrol _ ih => simp [skipString?, hslash, hcontrol, ih]
  | @letter e cs rest he _ ih =>
    have hletter : e ≠ 'u' ∧ ∃ c, unescape? e = some c := by
      simp only [List.mem_cons, List.not_mem_nil, or_false] at he
      rcases he with rfl | rfl | rfl | rfl | rfl | rfl | rfl | rfl <;> exact ⟨by decide, _, rfl⟩
    obtain ⟨hu, c, hc⟩ := hletter
    simp [skipString?, hu, hc, ih]
  | unit hunit _ ih => simp [skipString?, hunit, ih]

namespace Numeral

theorem takeDigits_append {ds : List Char} (hds : ∀ c ∈ ds, c.isDigit = true)
    (hrest : Stops rest) : takeDigits (ds ++ rest) = (ds, rest) :=
  Prod.ext (takeWhile_digits_append hds hrest) (dropWhile_digits_append hds hrest)

theorem scanWhole?_append (h : WholeText text) (hrest : Stops rest) :
    scanWhole? (text ++ rest) = some (text, rest) := by
  cases h with
  | zero =>
    have htake : takeDigits (['0'] ++ rest) = (['0'], rest) := takeDigits_append (by simp) hrest
    rw [scanWhole?, htake]
    rfl
  | digits hzero hdigits =>
    rw [scanWhole?, takeDigits_append hdigits hrest]
    split
    · rename_i heq
      exact absurd (Prod.mk.inj heq).1 (List.cons_ne_nil _ _)
    · rename_i heq
      exact absurd (List.cons.inj (Prod.mk.inj heq).1).1 hzero
    · rfl

/-- Behind a fraction neither a digit nor a point follows. -/
def Ends (rest : List Char) : Prop := ∀ c ∈ rest.head?, c.isDigit = false ∧ c ≠ '.'

theorem Ends.stops (h : Ends rest) : Stops rest := fun c hc => (h c hc).1

theorem ends_of_delimited (h : Delimited rest) : Ends rest := by
  cases rest with
  | nil => simp [Ends]
  | cons c cs =>
    intro d hd
    obtain rfl := Option.some.inj hd
    have hpoint := h.not_cons (p := (· == '.')) rfl
    exact ⟨h.not_cons (p := Char.isDigit) rfl, by simpa using hpoint⟩

theorem ends_of_exponent (h : ExponentText text) (hrest : Delimited rest) :
    Ends (text ++ rest) := by
  cases h with
  | none => exact ends_of_delimited hrest
  | digits hmark =>
    intro d hd
    obtain rfl := Option.some.inj hd
    rcases hmark with rfl | rfl <;> exact ⟨rfl, by decide⟩

theorem stops_of_fraction (h : FractionText text) (hrest : Ends rest) : Stops (text ++ rest) := by
  cases h with
  | none => exact hrest.stops
  | digits => exact stops_cons rfl

theorem scanFraction?_append (h : FractionText text) (hrest : Ends rest) :
    ∃ ds, scanFraction? (text ++ rest) = some (ds, rest) := by
  cases h with
  | none =>
    refine ⟨[], ?_⟩
    rw [List.nil_append, scanFraction?]
    rintro cs rfl
    exact (hrest '.' rfl).2 rfl
  | @digits ds hne hdigits =>
    refine ⟨ds, ?_⟩
    rw [List.cons_append, scanFraction?, takeDigits_append hdigits hrest.stops]
    split
    · rename_i heq
      exact absurd (Prod.mk.inj heq).1 hne
    · rfl

theorem scanPower?_append {ds : List Char} (negative : Bool) (hne : ds ≠ [])
    (hdigits : ∀ d ∈ ds, d.isDigit = true) (hrest : Stops rest) :
    scanPower? negative (ds ++ rest) = some (some (negative, ds), rest) := by
  rw [scanPower?, takeDigits_append hdigits hrest]
  split
  · rename_i heq
    exact absurd (Prod.mk.inj heq).1 hne
  · rename_i heq
    obtain ⟨rfl, rfl⟩ := Prod.mk.inj heq
    rfl

theorem scanExponent?_append (h : ExponentText text) (hrest : Delimited rest) :
    ∃ power, scanExponent? (text ++ rest) = some (power, rest) := by
  cases h with
  | none => exact ⟨none, scanExponent?_of_delimited hrest⟩
  | @digits mark sign ds hmark hsign hne hdigits =>
    have hpower (negative : Bool) := scanPower?_append negative hne hdigits hrest.stops
    obtain ⟨d, ds, rfl⟩ := List.exists_cons_of_ne_nil hne
    have hd := hdigits d List.mem_cons_self
    have hplus : d ≠ '+' := by
      rintro rfl
      contradiction
    have hminus : d ≠ '-' := by
      rintro rfl
      contradiction
    rcases hmark with rfl | rfl <;> rcases hsign with rfl | rfl | rfl
    all_goals simp only [List.cons_append, List.nil_append] at hpower ⊢
    · simp [scanExponent?, hplus, hminus, hpower]
    · simp [scanExponent?, hpower]
    · simp [scanExponent?, hpower]
    · simp [scanExponent?, hplus, hminus, hpower]
    · simp [scanExponent?, hpower]
    · simp [scanExponent?, hpower]

theorem scan?_append (h : NumeralText text) (hrest : Delimited rest) :
    ∃ x, scan? (text ++ rest) = some (x, rest) := by
  obtain @⟨sign, whole, fraction, exponent, hsign, hwhole, hfraction, hexponent⟩ := h
  have hends := ends_of_exponent hexponent hrest
  have hscanWhole := scanWhole?_append hwhole (stops_of_fraction hfraction hends)
  obtain ⟨ds, hscanFraction⟩ := scanFraction?_append hfraction hends
  obtain ⟨power, hscanExponent⟩ := scanExponent?_append hexponent hrest
  obtain ⟨c, cs, rfl, hc⟩ := hwhole.exists_cons
  have hminus : c ≠ '-' := by
    rintro rfl
    contradiction
  simp only [List.append_assoc, List.cons_append] at hscanWhole ⊢
  rcases hsign with rfl | rfl
  · simp [scan?, hminus, hscanWhole, hscanFraction, hscanExponent]
  · simp [scan?, hscanWhole, hscanFraction, hscanExponent]

end Numeral

theorem skipValue?_skipSpace (depth : Nat) (cs : List Char) :
    skipValue? depth (skipSpace cs) = skipValue? depth cs := by
  cases depth with
  | zero => rfl
  | succ depth => rw [skipValue?, skipValue?, skipSpace_skipSpace]

theorem skipItems?_skipSpace (depth : Nat) (cs : List Char) :
    skipItems? depth (skipSpace cs) = skipItems? depth cs := by
  cases depth with
  | zero => rfl
  | succ depth => rw [skipItems?, skipItems?, skipValue?_skipSpace]

theorem skipFields?_skipSpace (depth : Nat) (cs : List Char) :
    skipFields? depth (skipSpace cs) = skipFields? depth cs := by
  cases depth with
  | zero => rfl
  | succ depth => rw [skipFields?, skipFields?, skipSpace_skipSpace]

/-- The piece is skipped, and nothing behind it.  A value may have blanks in front. -/
def Skips : Piece → List Char → List Char → Prop
  | .value, cs, rest => ∀ {text depth}, Gap text cs → Delimited rest →
      2 * text.length < depth → skipValue? depth text = some rest
  | .items, cs, rest => ∀ {depth}, 2 * cs.length + 1 < depth → skipItems? depth cs = some rest
  | .members, cs, rest => ∀ {depth}, 2 * cs.length + 1 < depth → skipFields? depth cs = some rest

theorem skipValue?_numeral {depth : Nat} (hspace : skipSpace text = c :: cs)
    (hc : startsNumeral c = true) :
    skipValue? (depth + 1) text = (Numeral.scan? (c :: cs)).map (·.2) := by
  have hne (d : Char) (hd : startsNumeral d = false) : c ≠ d := by
    rintro rfl
    rw [hc] at hd
    contradiction
  rw [skipValue?, hspace]
  simp [hne 'n' rfl, hne 't' rfl, hne 'f' rfl, hne '"' rfl, hne '[' rfl, hne '{' rfl]

theorem skips_numeral (h : NumeralText text) : Skips .value (text ++ rest) rest := by
  intro whole depth hgap hrest hdepth
  obtain ⟨depth, rfl⟩ : ∃ n, depth = n + 1 := ⟨depth - 1, by omega⟩
  obtain ⟨x, hscan⟩ := Numeral.scan?_append h hrest
  obtain ⟨c, cs, rfl, hc⟩ := h.exists_cons
  rw [List.cons_append] at hscan hgap
  rw [skipValue?_numeral (hgap.skipSpace_cons (isSpace_of_startsNumeral hc)) hc, hscan]
  rfl

theorem skips_array (hcs : Visible (skipSpace cs)) (h : Skips .items cs rest) :
    Skips .value ('[' :: cs) rest := by
  intro text depth hgap _ hdepth
  obtain ⟨depth, rfl⟩ : ∃ n, depth = n + 1 := ⟨depth - 1, by omega⟩
  have hstart := hgap.length_lt
  have hskip : skipItems? depth cs = some rest := h (by omega)
  obtain ⟨c, t, hcons, -, hc⟩ := hcs
  rw [← skipItems?_skipSpace, hcons] at hskip
  rw [skipValue?, hgap.skipSpace_cons rfl]
  simp [hcons, hc, hskip]

theorem skips_object (hcs : ∃ t, skipSpace cs = '"' :: t) (h : Skips .members cs rest) :
    Skips .value ('{' :: cs) rest := by
  intro text depth hgap _ hdepth
  obtain ⟨depth, rfl⟩ : ∃ n, depth = n + 1 := ⟨depth - 1, by omega⟩
  have hstart := hgap.length_lt
  have hskip : skipFields? depth cs = some rest := h (by omega)
  obtain ⟨t, hcons⟩ := hcs
  rw [← skipFields?_skipSpace, hcons] at hskip
  rw [skipValue?, hgap.skipSpace_cons rfl]
  simp [hcons, hskip]

theorem Valid.skips {piece : Piece} (h : Valid piece cs rest) : Skips piece cs rest := by
  induction h with
  | nullWord | trueWord | falseWord =>
    intro text depth hgap _ hdepth
    obtain ⟨depth, rfl⟩ : ∃ n, depth = n + 1 := ⟨depth - 1, by omega⟩
    rw [skipValue?, hgap.skipSpace_cons rfl]
    rfl
  | numeral h => exact skips_numeral h
  | string h =>
    intro text depth hgap _ hdepth
    obtain ⟨depth, rfl⟩ : ∃ n, depth = n + 1 := ⟨depth - 1, by omega⟩
    rw [skipValue?, hgap.skipSpace_cons rfl]
    exact h.skip
  | emptyArray h | emptyObject h =>
    intro text depth hgap _ hdepth
    obtain ⟨depth, rfl⟩ : ∃ n, depth = n + 1 := ⟨depth - 1, by omega⟩
    have hclose := h.skipSpace_cons rfl
    rw [skipValue?, hgap.skipSpace_cons rfl]
    simp [hclose]
  | array h ih => exact skips_array h.visible_items ih
  | object h ih => exact skips_object h.quote_members ih
  | lastItem hgap hvalue hafter ih =>
    intro depth hdepth
    obtain ⟨depth, rfl⟩ : ∃ n, depth = n + 1 := ⟨depth - 1, by omega⟩
    rw [skipItems?, ih hgap (hafter.delimited (delimited_cons (by simp))) (by omega)]
    simp [hafter.skipSpace_cons rfl]
  | moreItems hgap hvalue hafter hmore ih ihmore =>
    intro depth hdepth
    obtain ⟨depth, rfl⟩ : ∃ n, depth = n + 1 := ⟨depth - 1, by omega⟩
    have hstart := hgap.length_le
    have hlength := hvalue.length_lt
    have hend := hafter.length_lt
    rw [skipItems?, ih hgap (hafter.delimited (delimited_cons (by simp))) (by omega)]
    simp [hafter.skipSpace_cons rfl, ihmore (show _ < depth by omega)]
  | lastMember hgap hkey hcolon hblank hvalue hafter ih =>
    intro depth hdepth
    obtain ⟨depth, rfl⟩ : ∃ n, depth = n + 1 := ⟨depth - 1, by omega⟩
    have hstart := hgap.length_lt
    have hname := hkey.length_lt
    have hmiddle := hcolon.length_lt
    have hskip := ih hblank (hafter.delimited (delimited_cons (by simp))) (show _ < depth by omega)
    rw [skipFields?, hgap.skipSpace_cons rfl]
    simp [hkey.skip, hcolon.skipSpace_cons rfl, hskip, hafter.skipSpace_cons rfl]
  | moreMembers hgap hkey hcolon hblank hvalue hafter hmore ih ihmore =>
    intro depth hdepth
    obtain ⟨depth, rfl⟩ : ∃ n, depth = n + 1 := ⟨depth - 1, by omega⟩
    have hstart := hgap.length_lt
    have hname := hkey.length_lt
    have hmiddle := hcolon.length_lt
    have hbefore := hblank.length_le
    have hlength := hvalue.length_lt
    have hend := hafter.length_lt
    have hskip := ih hblank (hafter.delimited (delimited_cons (by simp))) (show _ < depth by omega)
    have hrest := ihmore (show _ < depth by omega)
    rw [skipFields?, hgap.skipSpace_cons rfl]
    simp [hkey.skip, hcolon.skipSpace_cons rfl, hskip, hafter.skipSpace_cons rfl, hrest]

theorem skip?_of_valid (hgap : Gap text cs) (h : Valid .value cs rest) (hrest : Delimited rest) :
    skip? text = some rest :=
  h.skips hgap hrest (Nat.lt_succ_self _)

end Batchflow.Json
