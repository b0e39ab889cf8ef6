import Mathlib.Data.List.Basic
import AlertRules.Proofs.FetchCache.Currency

/-!
# AlertRules.Proofs.FetchCache.Crashes — the flight after a crash

A fetch that ends by itself empties the flight.  One that crashed leaves it to the first of its waiters
who looks, and there may be none left: they may have given up, or not have looked yet.  Until then the
flight holds a fetch that has ended, and a request joins that fetch instead of starting a new one.

`CrashedUnseen` says from the steps of a run that a fetch is in this position.  `Marked` is the
invariant that nothing else keeps the flight: it holds a fetch that runs, or one whose crash nobody has
seen.  `begins_iff_no_unseen_crash` puts together what this means for the next request.
-/

namespace AlertRules.FetchCache

/-! ## Crashes that nobody has seen -/

/-- The fetch of that number crashed, and no waiter has observed it. -/
def Unseen (c : FetchCache) (f : Nat) : Prop :=
  ∃ fetch, c.fetches[f]? = some fetch ∧ fetch.crashed = true ∧ fetch.observed = false

/-- In the step, one of those who wait for the fetch looks. -/
def LooksAt (c : FetchCache) (f : Nat) (s : Step) : Prop :=
  ∃ w, s = .observe w ∧ c.waiters[w]? = some ⟨some f, .pending⟩

/-- In the run, none of those who wait for the fetch looks. -/
def Unlooked (c : FetchCache) (f : Nat) : List Step → Prop
  | [] => True
  | s :: steps => ¬ c.LooksAt f s ∧ (c.step s).Unlooked f steps

/-- At some point of the run the fetch, running, crashed, and since then none of those who wait for it
has looked. -/
def CrashedUnseen (steps : List Step) (f : Nat) : Prop :=
  ∃ before message between, steps = before ++ .complete f (.crashed message) :: between ∧
    (after before).Running f ∧
    (after (before ++ [.complete f (.crashed message)])).Unlooked f between

theorem unlooked_concat {c : FetchCache} {f : Nat} {steps : List Step} {s : Step} :
    c.Unlooked f (steps ++ [s]) ↔ c.Unlooked f steps ∧ ¬ (c.run steps).LooksAt f s := by
  induction steps generalizing c with
  | nil => simp [Unlooked]
  | cons t steps ih => rw [List.cons_append, Unlooked, Unlooked, ih, and_assoc, run_cons]

theorem outcome_of_unseen {c : FetchCache} (hs : Sound c) {f : Nat} (h : c.Unseen f) :
    ∃ answer, c.outcome? f = some answer := by
  obtain ⟨fetch, hf, hcrash, -⟩ := h
  obtain ⟨answer, hr⟩ := Option.ne_none_iff_exists'.mp (hs.crashed_ended f fetch hf hcrash)
  exact ⟨answer, outcome?_eq_some.mpr ⟨fetch, hf, hr⟩⟩

/-! ## What holds the flight -/

/-- **`Marked c`** — the flight holds a fetch that runs, or one that crashed unseen; and nobody sees the
end of a fetch before it has ended. -/
structure Marked (c : FetchCache) : Prop where
  flight : ∀ f, c.inFlight = some f → c.Running f ∨ c.Unseen f
  unobserved : ∀ (f : Nat) (fetch : Fetch), c.fetches[f]? = some fetch → fetch.result = none →
    fetch.observed = false

theorem marked_empty : Marked empty where
  flight := by simp [empty]
  unobserved := by simp [empty]

theorem Marked.begin {c : FetchCache} (h : Marked c) : Marked c.begin where
  flight := by
    intro g hg
    refine Or.inl (running_begin.mpr (Or.inl ?_))
    exact (Option.some.inj hg).symm
  unobserved := by
    intro g fetch hg hr
    rw [getElem?_begin] at hg
    split at hg
    · cases hg
      rfl
    · exact h.unobserved g fetch hg hr

theorem Marked.ended {c : FetchCache} (h : Marked c) (hs : Sound c) {f : Nat} {fetch : Fetch}
    (ending : Ending) (hf : c.fetches[f]? = some fetch) (hr : fetch.result = none) :
    Marked (c.ended f fetch ending) where
  flight := by
    intro g hg
    simp only [FetchCache.ended, inFlight_land] at hg
    split at hg
    · rename_i hcrash
      rw [hs.running_in_flight f ⟨fetch, hf, hr⟩] at hg
      obtain rfl := Option.some.inj hg
      refine Or.inr ⟨_, by rw [getElem?_ended hf, if_pos rfl], hcrash, ?_⟩
      exact h.unobserved _ fetch hf hr
    · exact absurd hg (by simp)
  unobserved := by
    intro g fetch' hg hr'
    rw [getElem?_ended hf] at hg
    split at hg
    · cases hg
      exact absurd hr' (by simp)
    · exact h.unobserved g fetch' hg hr'

theorem Marked.told {c : FetchCache} (h : Marked c) {f : Nat} {fetch : Fetch} {answer : Answer}
    (hf : c.fetches[f]? = some fetch) (hr : fetch.result = some answer) (w : Nat) :
    Marked (c.told w f fetch answer) where
  flight := by
    intro g hg
    simp only [FetchCache.told] at hg
    split at hg
    · exact absurd hg (by simp)
    · rename_i hseen
      rcases h.flight g hg with hrun | ⟨fetch', hg', hcrash, hobs⟩
      · exact Or.inl ((running_told hf w answer).mpr hrun)
      · -- had the crash of this very fetch been unseen, the look would have emptied the flight
        have hne : g ≠ f := by
          rintro rfl
          obtain rfl := Option.some.inj (hf.symm.trans hg')
          exact hseen (by simp [hcrash, hobs])
        exact Or.inr ⟨fetch', by rw [getElem?_told hf, if_neg hne, hg'], hcrash, hobs⟩
  unobserved := by
    intro g fetch' hg hr'
    rw [getElem?_told hf] at hg
    split at hg
    · cases hg
      exact absurd hr' (by simp [hr])
    · exact h.unobserved g fetch' hg hr'

theorem Marked.transition {c c' : FetchCache} (h : Marked c) (hs : Sound c)
    (ht : Transition c c') : Marked c' := by
  cases ht with
  | idle => exact h
  | served _ => exact ⟨h.flight, h.unobserved⟩
  | joined _ _ => exact ⟨h.flight, h.unobserved⟩
  | begun _ _ => exact ⟨h.begin.flight, h.begin.unobserved⟩
  | ended ending hf hr => exact h.ended hs ending hf hr
  | told _ hf hr => exact h.told hf hr _
  | cancelled _ => exact ⟨h.flight, h.unobserved⟩
  | invalidated => exact ⟨h.flight, h.unobserved⟩

theorem Marked.run {c : FetchCache} (h : Marked c) (hs : Sound c) (steps : List Step) :
    Marked (c.run steps) :=
  hs.run_keeps Marked.transition h steps

theorem marked_after (steps : List Step) : Marked (after steps) :=
  marked_empty.run sound_empty steps

/-- The flight holds what runs and what crashed unseen, and nothing else. -/
theorem Marked.inFlight_iff {c : FetchCache} (h : Marked c) (hs : Sound c) {f : Nat} :
    c.inFlight = some f ↔ c.Running f ∨ c.Unseen f := by
  constructor
  · exact h.flight f
  · rintro (hrun | ⟨fetch, hf, hcrash, hobs⟩)
    · exact hs.running_in_flight f hrun
    · exact hs.unseen_crash_in_flight f fetch hf hcrash hobs

/-! ## Unseen crashes along a run -/

theorem Ending.isCrash_iff {ending : Ending} :
    ending.isCrash = true ↔ ∃ message, ending = .crashed message := by
  cases ending with
  | loaded rules => simp [Ending.isCrash]
  | failed failure => simp [Ending.isCrash]
  | crashed message => simp [Ending.isCrash]

theorem unseen_begin {c : FetchCache} {g : Nat} : c.begin.Unseen g ↔ c.Unseen g := by
  simp only [Unseen, getElem?_begin]
  split
  · rename_i h
    subst h
    simp [Fetch.begun]
  · rfl

theorem unseen_ended {c : FetchCache} (h : Marked c) {f : Nat} {fetch : Fetch}
    (hf : c.fetches[f]? = some fetch) (hr : fetch.result = none) (ending : Ending) {g : Nat} :
    (c.ended f fetch ending).Unseen g ↔
      g = f ∧ ending.isCrash = true ∨ g ≠ f ∧ c.Unseen g := by
  have hobs := h.unobserved f fetch hf hr
  simp only [Unseen, getElem?_ended hf]
  by_cases hgf : g = f
  · simp [hgf, hobs]
  · simp [hgf]

theorem unseen_told {c : FetchCache} {f : Nat} {fetch : Fetch} (hf : c.fetches[f]? = some fetch)
    (w : Nat) (answer : Answer) {g : Nat} :
    (c.told w f fetch answer).Unseen g ↔ g ≠ f ∧ c.Unseen g := by
  simp only [Unseen, getElem?_told hf]
  by_cases hgf : g = f
  · simp [hgf]
  · simp [hgf]

theorem not_unseen_of_running {c : FetchCache} (hs : Sound c) {f : Nat} (h : c.Running f) :
    ¬ c.Unseen f := by
  rintro ⟨fetch, hf, hcrash, -⟩
  obtain ⟨fetch', hf', hr⟩ := h
  obtain rfl := Option.some.inj (hf.symm.trans hf')
  exact hs.crashed_ended f fetch hf hcrash hr

/-- A crash is unseen after a step iff it happened in the step, or it was unseen before and no waiter of
the fetch has looked. -/
theorem Does.unseen_iff {c c' : FetchCache} {s : Step} (hd : Does c s c') (h : Marked c)
    (hs : Sound c) (f : Nat) :
    c'.Unseen f ↔
      (∃ message, s = .complete f (.crashed message) ∧ c.Running f) ∨
        c.Unseen f ∧ ¬ c.LooksAt f s := by
  cases hd with
  | begun _ _ =>
    show c.begin.Unseen f ↔ _
    rw [unseen_begin]
    simp [LooksAt]
  | @ended g fetch ending hg hr =>
    have hrun : c.Running g := ⟨fetch, hg, hr⟩
    have hnot := not_unseen_of_running hs hrun
    rw [unseen_ended h hg hr]
    constructor
    · rintro (⟨rfl, hcrash⟩ | ⟨-, hf⟩)
      · obtain ⟨message, rfl⟩ := Ending.isCrash_iff.mp hcrash
        exact Or.inl ⟨message, rfl, hrun⟩
      · exact Or.inr ⟨hf, by simp [LooksAt]⟩
    · rintro (⟨message, hstep, -⟩ | ⟨hf, -⟩)
      · obtain ⟨rfl, rfl⟩ := Step.complete.inj hstep
        exact Or.inl ⟨rfl, rfl⟩
      · exact Or.inr ⟨fun hfg => hnot (hfg ▸ hf), hf⟩
  | late hlate =>
    constructor
    · exact fun hf => Or.inr ⟨hf, by simp [LooksAt]⟩
    · rintro (⟨message, hstep, hrun⟩ | ⟨hf, -⟩)
      · obtain ⟨rfl, rfl⟩ := Step.complete.inj hstep
        exact absurd hrun hlate
      · exact hf
  | @told w g fetch answer hw hg hr =>
    rw [unseen_told hg]
    simp [LooksAt, hw, and_comm, eq_comm]
  | @unmoved w hidle =>
    have hlook : c.Unseen f → ¬ c.LooksAt f (.observe w) := by
      rintro hf ⟨w', hstep, hw⟩
      obtain rfl := Step.observe.inj hstep
      obtain ⟨answer, hout⟩ := outcome_of_unseen hs hf
      exact absurd (hout.symm.trans (hidle f hw)) (by simp)
    constructor
    · exact fun hf => Or.inr ⟨hf, hlook hf⟩
    · rintro (⟨message, hstep, -⟩ | ⟨hf, -⟩)
      · exact absurd hstep (by simp)
      · exact hf
  | served _ | joined _ _ | cancelled _ | settled | invalidated | looked =>
    show c.Unseen f ↔ _
    simp [LooksAt]

/-- The crashes that nobody has seen are those of which the run says so. -/
theorem unseen_iff (steps : List Step) (f : Nat) :
    (after steps).Unseen f ↔ CrashedUnseen steps f := by
  -- the last step decides: it is the crash, or it must not be a look
  induction steps using List.reverseRecOn with
  | nil => simp [after, empty, Unseen, CrashedUnseen]
  | append_singleton steps s ih =>
    have hstep : after (steps ++ [s]) = (after steps).step s := after_append steps [s]
    rw [hstep, (does_step _ s).unseen_iff (marked_after steps) (sound_after steps), ih]
    constructor
    · rintro (⟨message, rfl, hrun⟩ | ⟨⟨before, message, between, rfl, hrun, hun⟩, hlook⟩)
      · exact ⟨steps, message, [], rfl, hrun, trivial⟩
      · refine ⟨before, message, between ++ [s], by simp, hrun, unlooked_concat.mpr ⟨hun, ?_⟩⟩
        rwa [← after_append, List.append_assoc, List.singleton_append]
    · rintro ⟨before, message, between, hsteps, hrun, hun⟩
      rcases List.eq_nil_or_concat' between with rfl | ⟨between, t, rfl⟩
      · obtain ⟨rfl, hs⟩ := List.append_inj' hsteps rfl
        exact Or.inl ⟨message, List.singleton_inj.mp hs, hrun⟩
      · rw [← List.cons_append, ← List.append_assoc] at hsteps
        obtain ⟨rfl, hs⟩ := List.append_inj' hsteps rfl
        obtain rfl := List.singleton_inj.mp hs
        obtain ⟨hun, hlook⟩ := unlooked_concat.mp hun
        refine Or.inr ⟨⟨before, message, between, rfl, hrun, hun⟩, ?_⟩
        rwa [← after_append, List.append_assoc, List.singleton_append] at hlook

/-- A fetch that crashed unseen has the outcome of its crash. -/
theorem outcome_of_crashedUnseen {steps : List Step} {f : Nat} (h : CrashedUnseen steps f) :
    ∃ message, (after steps).outcome? f = some ((Ending.crashed message).answer 0) := by
  obtain ⟨before, message, between, rfl, hrun, -⟩ := h
  refine ⟨message, ?_⟩
  rw [after_append, run_cons]
  exact (extends_run _ between).outcome f _ (outcome?_complete hrun _)

/-! ## The next request -/

/-- **`c.JoinsCrash f`** — nothing runs, and the next request joins the fetch of that number, whose
outcome is a crash. -/
structure JoinsCrash (c : FetchCache) (f : Nat) : Prop where
  stale : c.isCurrent = false
  idle : ∀ g, ¬ c.Running g
  request_eq : c.request = c.enrol ⟨some f, .pending⟩
  crash : ∃ message, c.outcome? f = some ((Ending.crashed message).answer 0)

/-- **`BeginsAnew steps c`** — what the crashes of the run mean afterwards.  The flight holds a fetch iff
that fetch runs or crashed unseen; if rules are not current and no fetch runs, the next request starts
one iff there is no such crash, and joins the crashed fetch if there is one; and a request that finds the
rules not current is told the outcome of a fetch that had ended before iff that fetch crashed unseen. -/
structure BeginsAnew (steps : List Step) (c : FetchCache) : Prop where
  flight_iff : ∀ f, c.inFlight = some f ↔ c.Running f ∨ CrashedUnseen steps f
  begins_iff : c.isCurrent = false → (∀ f, ¬ c.Running f) →
    (c.request.fetchCount = c.fetchCount + 1 ↔ ∀ f, ¬ CrashedUnseen steps f)
  request_eq : c.isCurrent = false → (∀ f, ¬ c.Running f) → (∀ f, ¬ CrashedUnseen steps f) →
    c.request = c.begin.enrol ⟨some c.fetches.length, .pending⟩
  joins : ∀ f, CrashedUnseen steps f → c.JoinsCrash f
  told_iff : c.isCurrent = false → ∀ later joined answer,
    (c.run (.request :: later)).waiters[c.waiters.length]? = some ⟨joined, .answered answer⟩ →
      ∃ f, joined = some f ∧ (c.run (.request :: later)).outcome? f = some answer ∧
        ((∃ ended, c.outcome? f = some ended) ↔ CrashedUnseen steps f)

section AfterRun

variable (steps : List Step)

theorem inFlight_after {f : Nat} :
    (after steps).inFlight = some f ↔ (after steps).Running f ∨ CrashedUnseen steps f := by
  rw [(marked_after steps).inFlight_iff (sound_after steps), unseen_iff]

/-- With nothing running, only an unseen crash can hold the flight. -/
theorem inFlight_after_eq_none (hidle : ∀ f, ¬ (after steps).Running f) :
    (after steps).inFlight = none ↔ ∀ f, ¬ CrashedUnseen steps f := by
  rw [Option.eq_none_iff_forall_ne_some]
  exact forall_congr' fun f => not_congr ((inFlight_after steps).trans (or_iff_right (hidle f)))

theorem joinsCrash {steps : List Step} {f : Nat} (h : CrashedUnseen steps f) :
    (after steps).JoinsCrash f := by
  have hin : (after steps).inFlight = some f := (inFlight_after steps).mpr (Or.inr h)
  have hcur : (after steps).isCurrent = false := by
    rw [Bool.eq_false_iff]
    intro hcur
    obtain ⟨x, -, hx⟩ := atHand?_of_current hcur
    obtain ⟨hnone, -⟩ := (dated_after steps).atHand hx
    exact absurd (hin.symm.trans hnone) (by simp)
  refine ⟨hcur, ?_, request_of_inFlight (atHand?_of_not_current hcur) hin,
    outcome_of_crashedUnseen h⟩
  intro g hg
  obtain rfl := Option.some.inj (((sound_after steps).running_in_flight g hg).symm.trans hin)
  exact not_unseen_of_running (sound_after steps) hg ((unseen_iff steps g).mpr h)

/-- The fetch that a request joins or starts had ended before iff it had crashed unseen. -/
theorem ended_iff_crashedUnseen :
    (∃ ended, (after steps).outcome?
        ((after steps).inFlight.getD (after steps).fetches.length) = some ended) ↔
      CrashedUnseen steps ((after steps).inFlight.getD (after steps).fetches.length) := by
  constructor
  · rintro ⟨ended, hended⟩
    cases hf : (after steps).inFlight with
    | some f =>
      rw [hf, Option.getD_some] at hended
      exact ((inFlight_after steps).mp hf).resolve_left (not_running_of_outcome hended)
    | none =>
      rw [hf, Option.getD_none] at hended
      exact absurd (lt_of_outcome hended) (Nat.lt_irrefl _)
  · intro hcrash
    obtain ⟨message, hout⟩ := outcome_of_crashedUnseen hcrash
    exact ⟨_, hout⟩

end AfterRun

/-- **`begins_iff_no_unseen_crash`** — after every run, a request for rules that are neither current nor
being fetched starts a fetch unless one crashed unseen. -/
theorem begins_iff_no_unseen_crash (steps : List Step) : BeginsAnew steps (after steps) where
  flight_iff _ := inFlight_after steps
  begins_iff hcur hidle := by
    have hat := atHand?_of_not_current hcur
    rw [← inFlight_after_eq_none steps hidle]
    cases hf : (after steps).inFlight with
    | some f => simp [request_of_inFlight hat hf, enrol]
    | none => simp [request_of_idle hat hf, enrol, begin]
  request_eq hcur hidle hnone :=
    request_of_idle (atHand?_of_not_current hcur) ((inFlight_after_eq_none steps hidle).mpr hnone)
  joins _ := joinsCrash
  told_iff hcur later joined answer hw := by
    obtain ⟨hjoined, hout⟩ := told_of_request (sound_after steps) (atHand?_of_not_current hcur) hw
    exact ⟨_, hjoined, hout, ended_iff_crashedUnseen steps⟩

/-- It is not so that a request starts a fetch whenever rules are not current and no fetch runs: a fetch
that crashed after its only waiter had given up still holds the flight. -/
theorem not_always_begins :
    ¬ ∀ steps : List Step, let c := after steps
      c.isCurrent = false → (∀ f, ¬ c.Running f) → c.request.fetchCount = c.fetchCount + 1 := by
  intro h
  have hidle : ∀ f, ¬ (after [.request, .cancel 0, .complete 0 (.crashed "boom")]).Running f := by
    rintro f hf
    have hflight := (sound_after _).running_in_flight f hf
    obtain rfl : 0 = f := Option.some.inj hflight
    exact not_running_of_outcome rfl hf
  exact absurd (h _ rfl hidle) (by decide)

end AlertRules.FetchCache
