import AlertRules.Proofs.FetchCache.Currency

/-!
# AlertRules.Proofs.FetchCache.LastGood — the last good rules

The cache keeps the rules of the fetch that succeeded last, and a fetch that fails or crashes takes
nothing away from them: whoever reads the cache meanwhile sees what was there before, and those who
waited for the fetch are told why it gave nothing.

`Newest` is the invariant behind this.  It compares fetches by their numbers, which are given in the
order in which fetches start.  An older fetch can never end after a younger one has given rules, since
only the last fetch runs.
-/

namespace AlertRules.FetchCache

/-! ## What is read -/

/-- **`ReadsAs c c'`** — whoever reads the cache sees in `c'` what there was to be seen in `c`. -/
structure ReadsAs (c c' : FetchCache) : Prop where
  latest : c'.latest = c.latest
  rulesNow : c'.rulesNow = c.rulesNow
  hasRules : c'.hasRules = c.hasRules
  isCurrent : c'.isCurrent = c.isCurrent

/-- All that is read is the rules kept, and whether they are current. -/
theorem readsAs_of_eq {c c' : FetchCache} (hlatest : c'.latest = c.latest)
    (hcur : c'.current = c.current) : ReadsAs c c' where
  latest := hlatest
  rulesNow := by rw [FetchCache.rulesNow, hlatest, FetchCache.rulesNow]
  hasRules := by rw [FetchCache.hasRules, hlatest, FetchCache.hasRules]
  isCurrent := by rw [FetchCache.isCurrent, hlatest, hcur, FetchCache.isCurrent]

theorem readsAs_ended {c : FetchCache} (f : Nat) (fetch : Fetch) {ending : Ending}
    (hfail : ∀ rules, ending ≠ .loaded rules) : ReadsAs c (c.ended f fetch ending) := by
  cases ending with
  | loaded rules => exact absurd rfl (hfail rules)
  | failed failure => exact readsAs_of_eq rfl rfl
  | crashed message => exact readsAs_of_eq rfl rfl

theorem answer_ne_ok {ending : Ending} (hfail : ∀ rules, ending ≠ .loaded rules) {n : Nat}
    {x : Fetched} : ending.answer n ≠ .ok x := by
  cases ending with
  | loaded rules => exact absurd rfl (hfail rules)
  | failed failure => simp [Ending.answer]
  | crashed message => simp [Ending.answer]

/-- Only the end of a fetch that gives rules, and an invalidation, change what is read. -/
theorem Does.readsAs {c c' : FetchCache} {s : Step} (hd : Does c s c')
    (hload : ∀ f rules, s ≠ .complete f (.loaded rules)) (hinv : s ≠ .invalidate) :
    ReadsAs c c' := by
  cases hd with
  | ended ending hf hr =>
    refine readsAs_ended _ _ ?_
    rintro rules rfl
    exact hload _ rules rfl
  | invalidated => exact absurd rfl hinv
  | served _ | joined _ _ | begun _ _ | late _ | told _ _ _ | unmoved _ | cancelled _ | settled
  | looked => exact readsAs_of_eq rfl rfl

/-! ## Who waited is told -/

/-- Once a fetch has an outcome, those who stay with it have been told that outcome, or nothing yet. -/
theorem Sound.pending_or_told {c : FetchCache} (h : Sound c) {w f : Nat} {waiting : Waiting}
    {answer : Answer} (hw : c.waiters[w]? = some ⟨some f, waiting⟩) (hnot : waiting ≠ .cancelled)
    (ha : c.outcome? f = some answer) : waiting = .pending ∨ waiting = .answered answer := by
  cases waiting with
  | pending => exact Or.inl rfl
  | answered told =>
    have htold := h.told_outcome hw
    rw [ha] at htold
    rw [Option.some.inj htold]
    exact Or.inr rfl
  | cancelled => exact absurd rfl hnot

/-! ## The rules kept are the newest -/

/-- No fetch that has given rules started after the one whose rules are kept. -/
def Newest (c : FetchCache) : Prop :=
  ∀ g y, c.outcome? g = some (.ok y) →
    ∃ f x, g ≤ f ∧ c.latest = some x ∧ c.outcome? f = some (.ok x)

theorem newest_empty : Newest empty := by
  intro g y hg
  simp [empty, outcome?] at hg

/-- Outcomes that come without rules leave the rules kept the newest. -/
theorem Newest.mono {c c' : FetchCache} (h : Newest c) (hext : Extends c c')
    (hlatest : c'.latest = c.latest)
    (hnew : ∀ g y, c'.outcome? g = some (.ok y) → c.outcome? g = some (.ok y)) : Newest c' := by
  intro g y hg
  obtain ⟨f, x, hle, hx, hf⟩ := h g y (hnew g y hg)
  exact ⟨f, x, hle, hlatest.trans hx, hext.outcome f _ hf⟩

theorem Newest.ended {c : FetchCache} (h : Newest c) (hs : Sound c) {f : Nat} {fetch : Fetch}
    (ending : Ending) (hf : c.fetches[f]? = some fetch) (hr : fetch.result = none) :
    Newest (c.ended f fetch ending) := by
  by_cases hload : ∃ rules, ending = .loaded rules
  · obtain ⟨rules, rfl⟩ := hload
    -- the fetch that runs is the last one, so every other one is older
    have hlast : f + 1 = c.fetches.length :=
      hs.flight_last f (hs.running_in_flight f ⟨fetch, hf, hr⟩)
    intro g y hg
    refine ⟨f, ⟨c.nextObject, rules⟩, ?_, rfl, by rw [outcome?_ended hf, if_pos rfl]; rfl⟩
    rw [outcome?_ended hf] at hg
    split at hg
    · rename_i hgf
      exact Nat.le_of_eq hgf
    · have hlt := lt_of_outcome hg
      omega
  · have hfail : ∀ rules, ending ≠ .loaded rules := fun rules h => hload ⟨rules, h⟩
    refine h.mono (Transition.ended ending hf hr).extends (readsAs_ended f fetch hfail).latest ?_
    intro g y hg
    rw [outcome?_ended hf] at hg
    split at hg
    · exact absurd (Option.some.inj hg) (answer_ne_ok hfail)
    · exact hg

theorem Newest.transition {c c' : FetchCache} (h : Newest c) (hs : Sound c)
    (ht : Transition c c') : Newest c' := by
  cases ht with
  | idle => exact h
  | served _ => exact h
  | joined _ _ => exact h
  | begun hx hf =>
    refine h.mono (Transition.begun hx hf).extends rfl ?_
    intro g y hg
    rwa [outcome?_enrol, outcome?_begin] at hg
  | ended ending hf hr => exact h.ended hs ending hf hr
  | told hw hf hr =>
    refine h.mono (Transition.told hw hf hr).extends rfl ?_
    intro g y hg
    rwa [outcome?_told hf] at hg
  | cancelled _ => exact h
  | invalidated => exact h

theorem Newest.run {c : FetchCache} (h : Newest c) (hs : Sound c) (steps : List Step) :
    Newest (c.run steps) :=
  hs.run_keeps Newest.transition h steps

theorem newest_after (steps : List Step) : Newest (after steps) :=
  newest_empty.run sound_empty steps

/-- The number of the fetch whose rules are kept only grows. -/
theorem Newest.le_of_latest {c : FetchCache} (h : Newest c) (hs : Sound c) {f g : Nat}
    {x y : Fetched} (hf : c.outcome? f = some (.ok x)) (hy : c.latest = some y)
    (hg : c.outcome? g = some (.ok y)) : f ≤ g := by
  obtain ⟨g', y', hle, hy', hg'⟩ := h f x hf
  obtain rfl : y = y' := Option.some.inj (hy.symm.trans hy')
  rwa [hs.object_once g' g y y hg' hg rfl] at hle

/-! ## Rules once there stay there -/

theorem hasRules_iff {c : FetchCache} (h : Newest c) (hs : Sound c) :
    c.hasRules = true ↔ ∃ f x, c.outcome? f = some (.ok x) := by
  rw [hasRules, Option.isSome_iff_exists]
  constructor
  · rintro ⟨x, hx⟩
    obtain ⟨f, hf⟩ := hs.latest_loaded x hx
    exact ⟨f, x, hf⟩
  · rintro ⟨f, x, hf⟩
    obtain ⟨-, y, -, hy, -⟩ := h f x hf
    exact ⟨y, hy⟩

/-- The rules read are those of the fetch that started last among those that have given any, or there
are none. -/
inductive ReadsNewest (c : FetchCache) : Prop
  | loaded (f : Nat) (x : Fetched) (latest_eq : c.latest = some x) (rulesNow_eq : c.rulesNow = x.rules)
      (outcome : c.outcome? f = some (.ok x)) (newest : ∀ g y, c.outcome? g = some (.ok y) → g ≤ f)
  | none (latest_eq : c.latest = .none) (rulesNow_eq : c.rulesNow = .empty)
      (unloaded : ∀ g y, c.outcome? g ≠ some (.ok y))

theorem Newest.readsNewest {c : FetchCache} (h : Newest c) (hs : Sound c) : c.ReadsNewest := by
  cases hx : c.latest with
  | some x =>
    obtain ⟨f, hf⟩ := hs.latest_loaded x hx
    refine .loaded f x hx (by rw [rulesNow, hx]; rfl) hf ?_
    intro g y hg
    exact h.le_of_latest hs hg hx hf
  | none =>
    refine .none hx (by rw [rulesNow, hx]; rfl) ?_
    intro g y hg
    obtain ⟨-, z, -, hz, -⟩ := h g y hg
    rw [hx] at hz
    exact absurd hz (by simp)

/-! ## Every run -/

/-- **`c.TellsFailure w f failure`** — the waiter is with the fetch that failed: it has been told nothing
or the failure, and has it from its next look on. -/
structure TellsFailure (c : FetchCache) (w f : Nat) (failure : Failure) : Prop where
  waits : ∃ waiting, c.waiters[w]? = some ⟨some f, waiting⟩ ∧
    (waiting = .pending ∨ waiting = .answered (.error failure))
  settles : ∀ more,
    (c.run (.observe w :: more)).waiters[w]? = some ⟨some f, .answered (.error failure)⟩

/-- The rules outlast the fetches that fail or crash.  Only a fetch that gives rules, or an
invalidation, changes what is read, and an invalidation leaves the rules; whoever joined a fetch that
fails and is not cancelled is told its failure; the rules read are the newest, and whatever follows they
are never those of an older fetch; and once there are rules there always are. -/
structure Outlasts (c : FetchCache) : Prop where
  unread : ∀ s, (∀ f rules, s ≠ .complete f (.loaded rules)) → s ≠ .invalidate → ReadsAs c (c.step s)
  latest_invalidate : c.invalidate.latest = c.latest
  rulesNow_invalidate : c.invalidate.rulesNow = c.rulesNow
  hasRules_invalidate : c.invalidate.hasRules = c.hasRules
  tells : ∀ w f waiting, c.waiters[w]? = some ⟨some f, waiting⟩ → waiting ≠ .cancelled →
    ∀ later failure, Step.cancel w ∉ later → (c.run later).outcome? f = some (.error failure) →
      (c.run later).TellsFailure w f failure
  fails : ∀ f ending failure, c.Running f → ending.answer c.nextObject = .error failure →
    (c.complete f ending).outcome? f = some (.error failure)
  newest : c.ReadsNewest
  forward : ∀ later f g x y, c.latest = some x → c.outcome? f = some (.ok x) →
    (c.run later).latest = some y → (c.run later).outcome? g = some (.ok y) → f ≤ g
  stays : c.hasRules = true → ∀ later, (c.run later).hasRules = true

/-- **`rules_outlast_failures`** — after every run the rules outlast what fails. -/
theorem rules_outlast_failures (steps : List Step) : (after steps).Outlasts where
  unread s hload hinv := (does_step _ s).readsAs hload hinv
  latest_invalidate := rfl
  rulesNow_invalidate := rfl
  hasRules_invalidate := rfl
  tells w f waiting hw hnot later failure hlater hfail := by
    obtain ⟨waiting', hw', hnot'⟩ := waiter_stays hw hnot hlater
    have hlast : Sound ((after steps).run later) := (sound_after steps).run later
    exact ⟨⟨waiting', hw', hlast.pending_or_told hw' hnot' hfail⟩,
      hlast.look_settles hw' hnot' hfail⟩
  fails f ending failure hf hfail := by
    rw [outcome?_complete hf, hfail]
  newest := (newest_after steps).readsNewest (sound_after steps)
  forward later f g x y hx hf hy hg := by
    have hlater := (extends_run _ later).outcome f _ hf
    exact ((newest_after steps).run (sound_after steps) later).le_of_latest
      ((sound_after steps).run later) hlater hy hg
  stays hrules later := by
    obtain ⟨f, x, hf⟩ := (hasRules_iff (newest_after steps) (sound_after steps)).mp hrules
    exact (hasRules_iff ((newest_after steps).run (sound_after steps) later)
      ((sound_after steps).run later)).mpr ⟨f, x, (extends_run _ later).outcome f _ hf⟩

end AlertRules.FetchCache
