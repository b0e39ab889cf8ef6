import AlertRules.Proofs.Glob.Flaws
import AlertRules.Proofs.Matching.Search

/-!
# AlertRules.Proofs.Matching.Patterns — patterns that can match nothing

A condition on a pattern holds as the glob says, if the anchor finds its language in the text under the
key (`onKey_holds_iff_found`).  A spoiled pattern has no matcher: no event meets a condition on it, and no
rule that has such a condition matches anything (`compile?_eq_none_iff_spoiled`).  Nobody is told.
-/

namespace AlertRules

open Glob (Spoiled Found Matcher language)

variable {s : Setting} {e : Event}

/-- A condition on a key holds iff the pattern is not spoiled and the anchor of the key finds its
language in the text there. -/
theorem onKey_holds_iff_found {key pattern : String} :
    (Condition.onKey key pattern).holds s e = true ↔
      ¬ Spoiled s.mode pattern.toList ∧ ∃ v, (e.at? key).bind Json.text? = some v ∧ v ≠ "" ∧
        Found (.ofKey key) (language s.mode pattern.toList) v.toList := by
  rw [onKey_holds_iff_isMatch, ← exists_and_left]
  refine exists_congr fun v => ?_
  rw [Matcher.any_isMatch_iff_found, ← Glob.not_sound_iff_spoiled, not_not]
  constructor
  · rintro ⟨hv, hne, hsound, hfound⟩
    exact ⟨hsound, hv, hne, hfound⟩
  · rintro ⟨hsound, hv, hne, hfound⟩
    exact ⟨hv, hne, hsound, hfound⟩

/-- As a rule of that kind, `r` looks for the pattern under the key, as one of its conditions or as a
template. -/
def Rule.Seeks (r : Rule) (kind : Kind) (key pattern : String) : Prop :=
  ∃ cs, r.conditionsAs kind = some cs ∧ Condition.onKey key pattern ∈ cs

theorem Rule.Seeks.condition_holds {r : Rule} {kind : Kind} {key pattern : String}
    (h : r.Seeks kind key pattern) (hr : r.holds s kind e = true) :
    (Condition.onKey key pattern).holds s e = true := by
  obtain ⟨cs, hcs, hmem⟩ := h
  obtain ⟨-, cs', hcs', hall⟩ := Rule.holds_iff.mp hr
  obtain rfl : cs = cs' := Option.some.inj (hcs.symm.trans hcs')
  exact hall _ hmem

/-- A pattern has no matcher iff it is spoiled, which takes a hyphen in it.  Then no event meets a
condition on it and no rule that looks for it matches; a condition on any other pattern holds as the
glob says. -/
theorem compile?_eq_none_iff_spoiled (pattern : String) :
    (∀ anchor mode, Matcher.compile? pattern anchor mode = none ↔ Spoiled mode pattern.toList) ∧
    (∀ mode, Spoiled mode pattern.toList → '-' ∈ pattern.toList) ∧
    (∀ (s : Setting) (key : String) (e : Event),
      (Condition.onKey key pattern).holds s e = true ↔
        ¬ Spoiled s.mode pattern.toList ∧ ∃ v, (e.at? key).bind Json.text? = some v ∧ v ≠ "" ∧
          Found (.ofKey key) (language s.mode pattern.toList) v.toList) ∧
    ∀ (s : Setting) (r : Rule) (kind : Kind) (key : String), r.Seeks kind key pattern →
      Spoiled s.mode pattern.toList → ∀ e, r.holds s kind e = false := by
  refine ⟨?compiles, ?hyphen, ?condition, ?rule⟩
  case compiles =>
    intro anchor mode
    exact Matcher.compile?_eq_none_iff
  case hyphen =>
    intro mode
    exact Glob.hyphen_mem_of_spoiled
  case condition =>
    intro s key e
    exact onKey_holds_iff_found
  case rule =>
    intro s r kind key hseeks hspoiled e
    apply Bool.eq_false_iff.mpr
    intro hr
    exact (onKey_holds_iff_found.mp (hseeks.condition_holds hr)).1 hspoiled

/-- The range of `[z-a]` is inverted, so a template for it matches nothing. -/
theorem compile?_eq_none_iff_spoiled_inverted :
    let r := Rule.forPattern "za" "[z-a]" []
    r.Seeks .content "content.body" "[z-a]" ∧ Spoiled .strict "[z-a]".toList ∧
      ∀ (s : Setting), s.mode = .strict → ∀ e, r.holds s .content e = false := by
  intro r
  obtain ⟨hcompiles, -, -, hrule⟩ := compile?_eq_none_iff_spoiled "[z-a]"
  have hseeks : r.Seeks .content "content.body" "[z-a]" := ⟨_, rfl, List.mem_cons_self⟩
  have hspoiled : Spoiled .strict "[z-a]".toList := (hcompiles .full .strict).mp (by decide +kernel)
  refine ⟨hseeks, hspoiled, ?_⟩
  intro s hmode
  exact hrule s r .content "content.body" hseeks (hmode ▸ hspoiled)

/-- The pattern `[z-a]` has no matcher. -/
theorem not_always_compiles :
    ¬ ∀ pattern anchor mode, (Matcher.compile? pattern anchor mode).isSome = true := by
  intro h
  have hnone : (Matcher.compile? "[z-a]" .full .strict).isSome = false := by decide +kernel
  exact Bool.false_ne_true (hnone.symm.trans (h "[z-a]" .full .strict))

end AlertRules
