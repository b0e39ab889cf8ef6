import Mathlib.Data.List.Induction
import AlertRules.Proofs.FetchCache.Freshness

/-!
# AlertRules.Proofs.FetchCache.Currency — when the rules are current

`isCurrent` looks at a flag.  Here it is tied to the history of the run: the rules are current exactly
when a fetch that started after every invalidation so far has given rules, and then these are the
rules at hand.

`Dated` says where current rules come from.  `Settled` is the other direction: rules of the present
generation are current.  It carries over from step to step because current rules leave nothing in
flight, so that no older fetch can end later and take their place.
-/

namespace AlertRules.FetchCache

theorem lt_of_outcome {c : FetchCache} {f : Nat} {answer : Answer}
    (h : c.outcome? f = some answer) : f < c.fetches.length := by
  obtain ⟨fetch, hget, -⟩ := outcome?_eq_some.mp h
  exact (List.getElem?_eq_some_iff.mp hget).1

theorem lt_of_startedAt {c : FetchCache} {f g : Nat} (h : c.startedAt? f = some g) :
    f < c.fetches.length := by
  obtain ⟨fetch, hget, -⟩ := Option.map_eq_some_iff.mp h
  exact (List.getElem?_eq_some_iff.mp hget).1

theorem exists_startedAt_of_lt {c : FetchCache} {f : Nat} (h : f < c.fetches.length) :
    ∃ g, c.startedAt? f = some g :=
  ⟨_, by rw [startedAt?, List.getElem?_eq_getElem h, Option.map_some]⟩

/-! ## Rules of the present generation are current -/

/-- If a fetch of the present generation has given rules, the rules are current. -/
def Settled (c : FetchCache) : Prop :=
  ∀ f x, c.outcome? f = some (.ok x) → c.startedAt? f = some c.generation → c.current = true

theorem settled_empty : Settled empty := by
  intro f x hf
  simp [empty, outcome?] at hf

theorem Settled.begin {c : FetchCache} (h : Settled c) : Settled c.begin := by
  intro f x hf hgen
  rw [outcome?_begin] at hf
  rw [startedAt?_begin, if_neg (Nat.ne_of_lt (lt_of_outcome hf))] at hgen
  exact h f x hf hgen

theorem Settled.ended {c : FetchCache} (h : Settled c) (hd : Dated c) {f : Nat} {fetch : Fetch}
    (ending : Ending) (hf : c.fetches[f]? = some fetch) (hflight : c.inFlight = some f) :
    Settled (c.ended f fetch ending) := by
  intro g x hg hgen
  rw [startedAt?_ended hf] at hgen
  rw [outcome?_ended hf] at hg
  split at hg
  · rename_i hgf
    subst hgf
    have hstart : fetch.generation = c.generation := by
      simpa [startedAt?, hf, FetchCache.ended] using hgen
    cases ending with
    | loaded rules => simp [FetchCache.ended, land, hstart]
    | failed failure => exact absurd hg (by simp [Ending.answer])
    | crashed message => exact absurd hg (by simp [Ending.answer])
  · have hcur : c.current = true := h g x hg (by simpa [FetchCache.ended] using hgen)
    exact absurd (hd.current_idle hcur) (by simp [hflight])

theorem Settled.invalidate {c : FetchCache} (hd : Dated c) : Settled c.invalidate := by
  intro f x _ hgen
  have hle : c.generation + 1 ≤ c.generation := hd.startedAt_le f _ hgen
  exact absurd hle (Nat.not_succ_le_self _)

theorem Settled.transition {c c' : FetchCache} (h : Settled c) (hd : Dated c) (hs : Sound c)
    (ht : Transition c c') : Settled c' := by
  cases ht with
  | idle => exact h
  | served _ => exact h
  | joined _ _ => exact h
  | begun _ _ => exact h.begin
  | ended ending hf hr => exact h.ended hd ending hf (hs.running_in_flight _ ⟨_, hf, hr⟩)
  | told _ hf _ =>
    intro g x hg hgen
    rw [outcome?_told hf] at hg
    rw [startedAt?_told hf] at hgen
    exact h g x hg hgen
  | cancelled _ => exact h
  | invalidated => exact .invalidate hd

theorem Settled.run {c : FetchCache} (h : Settled c) (hd : Dated c) (hs : Sound c)
    (steps : List Step) : Settled (c.run steps) := by
  have hboth {c c' : FetchCache} (hc : Dated c ∧ Settled c) (hs : Sound c) (ht : Transition c c') :
      Dated c' ∧ Settled c' :=
    ⟨hc.1.transition hs ht, hc.2.transition hc.1 hs ht⟩
  exact (hs.run_keeps hboth ⟨hd, h⟩ steps).2

theorem settled_after (steps : List Step) : Settled (after steps) :=
  settled_empty.run dated_empty sound_empty steps

/-! ## Fetches since the last invalidation -/

/-- At none of the invalidations in the run had the fetch of that number started. -/
def StartedSince (steps : List Step) (f : Nat) : Prop :=
  ∀ before between, steps = before ++ .invalidate :: between →
    (after (before ++ [.invalidate])).fetches.length ≤ f

theorem Does.generation_eq {c c' : FetchCache} {s : Step} (hd : Does c s c') (hs : s ≠ .invalidate) :
    c'.generation = c.generation := by
  cases hd with
  | ended ending _ _ => exact generation_land c _ ending
  | invalidated => exact absurd rfl hs
  | served _ | joined _ _ | begun _ _ | late _ | told _ _ _ | unmoved _ | cancelled _ | settled
  | looked => rfl

/-- A fetch of the present generation started after every invalidation. -/
theorem startedSince_of_present {steps : List Step} {f : Nat}
    (h : (after steps).startedAt? f = some (after steps).generation) : StartedSince steps f := by
  intro before between hsteps
  have hdiv : Divided ((after (before ++ [.invalidate])).run between)
      (after before).fetches.length ((after before).generation + 1) := by
    rw [after_append]
    exact (dated_after before).divided.run between
  have hrun : (after (before ++ [.invalidate])).run between = after steps := by
    rw [hsteps, ← after_append, List.append_assoc, List.singleton_append]
  rw [hrun] at hdiv
  have hnot : ¬ f < (after before).fetches.length := by
    rw [← hdiv.startedAt_lt_iff f _ h]
    exact Nat.not_lt.mpr hdiv.generation_ge
  rw [after_append]
  exact Nat.not_lt.mp hnot

/-- A fetch that started after every invalidation is of the present generation. -/
theorem present_of_startedSince {steps : List Step} {f : Nat}
    (hf : f < (after steps).fetches.length) (h : StartedSince steps f) :
    (after steps).startedAt? f = some (after steps).generation := by
  induction steps using List.reverseRecOn with
  | nil => simp [after, empty] at hf
  | append_singleton steps s ih =>
    have hstep : after (steps ++ [s]) = (after steps).step s := after_append steps [s]
    by_cases hs : s = .invalidate
    · subst hs
      exact absurd hf (Nat.not_lt.mpr (h steps [] rfl))
    · have hsince : StartedSince steps f := by
        intro before between hsteps
        exact h before (between ++ [s]) (by rw [hsteps, List.append_assoc, List.cons_append])
      have hgen := (does_step (after steps) s).generation_eq hs
      obtain ⟨g, hg⟩ := exists_startedAt_of_lt hf
      rw [hg, hstep, hgen]
      rw [hstep] at hg
      rcases (transition_step (after steps) s).startedAt? hg with hold | ⟨-, rfl⟩
      · rw [← hold]
        exact ih (lt_of_startedAt hold) hsince
      · rfl

/-! ## Being current -/

theorem isCurrent_of_latest {c : FetchCache} {x : Fetched} (hcur : c.current = true)
    (hx : c.latest = some x) : c.isCurrent = true := by
  rw [isCurrent, hcur, hx]
  rfl

/-- **Currency.**  After every run: if the rules are current, they are the rules that a fetch has given
which started after every invalidation so far; once such a fetch has given rules, the rules are
current; and while a fetch runs they are not. -/
theorem current_iff_loaded_since (steps : List Step) :
    let c := after steps
    (c.isCurrent = true → ∃ f x, c.latest = some x ∧ c.rulesNow = x.rules ∧
      c.outcome? f = some (.ok x) ∧ StartedSince steps f) ∧
    ((∃ f x, c.outcome? f = some (.ok x) ∧ StartedSince steps f) → c.isCurrent = true) ∧
    (∀ f, c.Running f → c.isCurrent = false) := by
  intro c
  have hs : Sound c := sound_after steps
  have hd : Dated c := dated_after steps
  refine ⟨?_, ?_, ?_⟩
  · intro hcur
    have hflag : c.current = true := (Bool.and_eq_true _ _ ▸ hcur).1
    obtain ⟨f, x, hx, hf, hgen⟩ := hd.current_latest hflag
    refine ⟨f, x, hx, ?_, hf, startedSince_of_present hgen⟩
    rw [rulesNow, hx]
    rfl
  · rintro ⟨f, x, hf, hsince⟩
    have hflag : c.current = true :=
      settled_after steps f x hf (present_of_startedSince (lt_of_outcome hf) hsince)
    obtain ⟨-, y, hy, -, -⟩ := hd.current_latest hflag
    exact isCurrent_of_latest hflag hy
  · intro f hrun
    have hflight := hs.running_in_flight f hrun
    rw [Bool.eq_false_iff]
    intro hcur
    have hflag : c.current = true := (Bool.and_eq_true _ _ ▸ hcur).1
    exact absurd (hd.current_idle hflag) (by simp [hflight])

end AlertRules.FetchCache
