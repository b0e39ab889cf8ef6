import AlertRules.Proofs.FetchCache.Alone

/-!
# AlertRules.Proofs.FetchCache.Runs — every order of steps

A **run** of the cache is a list of steps, taken one after the other from the empty cache: callers
ask, fetches end, waiters look or give up, the cache is invalidated or merely read.  Nothing is said
about which step follows which, so what holds after every run holds in every interleaving.

* `Transition` says once what a step can do, with the condition under which it does it; `Does` says in
  addition which step it is.
* `Sound` is the invariant.  Its core is `unseen_crash_in_flight`: a crashed fetch whose end nobody has
  seen still holds the flight, so the waiter who empties the flight after a crash never takes away
  the marker of another fetch.
* `run_keeps` is the induction over a run: what every transition keeps, every run keeps.  So every run
  keeps `Sound` (`sound_after`), and whatever else is kept with its help (`Sound.run_keeps`).
-/

namespace AlertRules.FetchCache

/-! ## Steps and runs -/

/-- What can happen to a cache next. -/
inductive Step where
  | request
  | complete (f : Nat) (ending : Ending)
  | observe (w : Nat)
  | cancel (w : Nat)
  | invalidate
  /-- One of the reads, which change nothing. -/
  | look

/-- The cache after a step. -/
def step (c : FetchCache) : Step → FetchCache
  | .request => c.request
  | .complete f ending => c.complete f ending
  | .observe w => c.observe w
  | .cancel w => c.cancel w
  | .invalidate => c.invalidate
  | .look => c

/-- The cache after several steps. -/
def run (c : FetchCache) (steps : List Step) : FetchCache :=
  steps.foldl step c

/-- The cache after a run from the beginning. -/
def after (steps : List Step) : FetchCache :=
  empty.run steps

@[simp] theorem run_nil (c : FetchCache) : c.run [] = c := rfl

@[simp] theorem run_cons (c : FetchCache) (s : Step) (steps : List Step) :
    c.run (s :: steps) = (c.step s).run steps := rfl

theorem run_append (c : FetchCache) (steps more : List Step) :
    c.run (steps ++ more) = (c.run steps).run more := by
  simp [run, List.foldl_append]

theorem after_append (steps more : List Step) :
    after (steps ++ more) = (after steps).run more :=
  run_append empty steps more

/-! ## What a fetch and a waiter are up to -/

/-- The fetch of that number has started and has not ended. -/
def Running (c : FetchCache) (f : Nat) : Prop :=
  ∃ fetch, c.fetches[f]? = some fetch ∧ fetch.result = none

/-- What the fetch of that number gave, once it has ended. -/
def outcome? (c : FetchCache) (f : Nat) : Option Answer :=
  (c.fetches[f]?).bind Fetch.result

/-- One more waiter, the last. -/
def enrol (c : FetchCache) (waiter : Waiter) : FetchCache :=
  { c with waiters := c.waiters ++ [waiter] }

/-- One more fetch, the last, in flight. -/
def begin (c : FetchCache) : FetchCache :=
  { c with
    fetches := c.fetches ++ [.begun c.generation]
    fetchCount := c.fetchCount + 1
    inFlight := some c.fetches.length }

/-- The running fetch of that number has ended. -/
def ended (c : FetchCache) (f : Nat) (fetch : Fetch) (ending : Ending) : FetchCache :=
  { c.land fetch ending with
    fetches := c.fetches.set f
      { fetch with result := some (ending.answer c.nextObject), crashed := ending.isCrash } }

/-- The waiter of that number has seen the end of its fetch. -/
def told (c : FetchCache) (w f : Nat) (fetch : Fetch) (answer : Answer) : FetchCache :=
  { c with
    waiters := c.waiters.set w ⟨some f, .answered answer⟩
    fetches := c.fetches.set f { fetch with observed := true }
    inFlight := if fetch.crashed && !fetch.observed then none else c.inFlight }

theorem outcome?_eq_some {c : FetchCache} {f : Nat} {answer : Answer} :
    c.outcome? f = some answer ↔
      ∃ fetch, c.fetches[f]? = some fetch ∧ fetch.result = some answer := by
  simp only [outcome?, Option.bind_eq_some_iff]

theorem not_running_of_outcome {c : FetchCache} {f : Nat} {answer : Answer}
    (h : c.outcome? f = some answer) : ¬ c.Running f := by
  rintro ⟨fetch, hf, hr⟩
  simp [outcome?, hf, hr] at h

/-- A fetch that has started is running, or it has an outcome. -/
theorem running_or_outcome {c : FetchCache} {f : Nat} (h : f < c.fetches.length) :
    c.Running f ∨ ∃ answer, c.outcome? f = some answer := by
  have hf := List.getElem?_eq_getElem h
  cases hr : (c.fetches[f]).result with
  | none => exact Or.inl ⟨_, hf, hr⟩
  | some answer => exact Or.inr ⟨answer, outcome?_eq_some.mpr ⟨_, hf, hr⟩⟩

/-! ## What a step can do -/

/-- **`Transition c c'`** — a step may lead from `c` to `c'`. -/
inductive Transition (c : FetchCache) : FetchCache → Prop where
  | idle : Transition c c
  | served {x : Fetched} (hx : c.atHand? = some x) :
      Transition c (c.enrol ⟨none, .answered (.ok x)⟩)
  | joined {f : Nat} (hx : c.atHand? = none) (hf : c.inFlight = some f) :
      Transition c (c.enrol ⟨some f, .pending⟩)
  | begun (hx : c.atHand? = none) (hf : c.inFlight = none) :
      Transition c (c.begin.enrol ⟨some c.fetches.length, .pending⟩)
  | ended {f : Nat} {fetch : Fetch} (ending : Ending) (hf : c.fetches[f]? = some fetch)
      (hr : fetch.result = none) : Transition c (c.ended f fetch ending)
  | told {w f : Nat} {fetch : Fetch} {answer : Answer}
      (hw : c.waiters[w]? = some ⟨some f, .pending⟩) (hf : c.fetches[f]? = some fetch)
      (hr : fetch.result = some answer) : Transition c (c.told w f fetch answer)
  | cancelled {w : Nat} {fetch : Option Nat} (hw : c.waiters[w]? = some ⟨fetch, .pending⟩) :
      Transition c { c with waiters := c.waiters.set w ⟨fetch, .cancelled⟩ }
  | invalidated : Transition c c.invalidate

theorem request_of_atHand {c : FetchCache} {x : Fetched} (hx : c.atHand? = some x) :
    c.request = c.enrol ⟨none, .answered (.ok x)⟩ := by
  simp only [request, hx, enrol]

theorem request_of_inFlight {c : FetchCache} {f : Nat} (hx : c.atHand? = none)
    (hf : c.inFlight = some f) : c.request = c.enrol ⟨some f, .pending⟩ := by
  simp only [request, hx, join, hf, enrol]

theorem request_of_idle {c : FetchCache} (hx : c.atHand? = none) (hf : c.inFlight = none) :
    c.request = c.begin.enrol ⟨some c.fetches.length, .pending⟩ := by
  simp only [request, hx, join, hf, enrol, begin]

theorem complete_of_running {c : FetchCache} {f : Nat} {fetch : Fetch} (ending : Ending)
    (hf : c.fetches[f]? = some fetch) (hr : fetch.result = none) :
    c.complete f ending = c.ended f fetch ending := by
  simp only [complete, hf, hr, Option.isNone_none, if_true, ended]

theorem complete_of_not_running {c : FetchCache} {f : Nat} (ending : Ending)
    (h : ¬ c.Running f) : c.complete f ending = c := by
  unfold complete
  split
  · rename_i fetch hf
    have hr : fetch.result ≠ none := fun hr => h ⟨fetch, hf, hr⟩
    rw [if_neg (by simpa [Option.isNone_iff_eq_none] using hr)]
  · rfl

theorem observe_of_outcome {c : FetchCache} {w f : Nat} {fetch : Fetch} {answer : Answer}
    (hw : c.waiters[w]? = some ⟨some f, .pending⟩) (hf : c.fetches[f]? = some fetch)
    (hr : fetch.result = some answer) : c.observe w = c.told w f fetch answer := by
  simp only [observe, hw, result?, hf, hr, Option.bind_some, Option.map_some, told]

/-- A look changes nothing, or it is the look of a waiter at the outcome of its fetch. -/
theorem observe_cases (c : FetchCache) (w : Nat) :
    c.observe w = c ∨ ∃ f fetch answer, c.waiters[w]? = some ⟨some f, .pending⟩ ∧
      c.fetches[f]? = some fetch ∧ fetch.result = some answer := by
  cases hw : c.waiters[w]? with
  | none => exact Or.inl (by simp only [observe, hw])
  | some waiter =>
    obtain ⟨fetch?, waiting⟩ := waiter
    cases hres : c.result? ⟨fetch?, waiting⟩ with
    | none => exact Or.inl (by simp only [observe, hw, hres])
    | some p =>
      unfold result? at hres
      split at hres
      · rename_i f hp hf?
        obtain ⟨fetch, hf, hres⟩ := Option.bind_eq_some_iff.mp hres
        obtain ⟨answer, hr, -⟩ := Option.map_eq_some_iff.mp hres
        simp only at hp hf?
        subst hp hf?
        exact Or.inr ⟨f, fetch, answer, rfl, hf, hr⟩
      · exact absurd hres (by simp)

theorem cancel_cases (c : FetchCache) (w : Nat) :
    c.cancel w = c ∨ ∃ fetch, c.waiters[w]? = some ⟨fetch, .pending⟩ ∧
      c.cancel w = { c with waiters := c.waiters.set w ⟨fetch, .cancelled⟩ } := by
  unfold cancel
  split
  · rename_i fetch hw
    exact Or.inr ⟨fetch, hw, rfl⟩
  · exact Or.inl rfl

/-- **`Does c s c'`** — the step `s` leads from `c` to `c'`: which transition it makes, and when it makes
none. -/
inductive Does (c : FetchCache) : Step → FetchCache → Prop where
  | served {x : Fetched} (hx : c.atHand? = some x) :
      Does c .request (c.enrol ⟨none, .answered (.ok x)⟩)
  | joined {f : Nat} (hx : c.atHand? = none) (hf : c.inFlight = some f) :
      Does c .request (c.enrol ⟨some f, .pending⟩)
  | begun (hx : c.atHand? = none) (hf : c.inFlight = none) :
      Does c .request (c.begin.enrol ⟨some c.fetches.length, .pending⟩)
  | ended {f : Nat} {fetch : Fetch} (ending : Ending) (hf : c.fetches[f]? = some fetch)
      (hr : fetch.result = none) : Does c (.complete f ending) (c.ended f fetch ending)
  | late {f : Nat} {ending : Ending} (h : ¬ c.Running f) : Does c (.complete f ending) c
  | told {w f : Nat} {fetch : Fetch} {answer : Answer}
      (hw : c.waiters[w]? = some ⟨some f, .pending⟩) (hf : c.fetches[f]? = some fetch)
      (hr : fetch.result = some answer) : Does c (.observe w) (c.told w f fetch answer)
  | unmoved {w : Nat}
      (h : ∀ f, c.waiters[w]? = some ⟨some f, .pending⟩ → c.outcome? f = none) :
      Does c (.observe w) c
  | cancelled {w : Nat} {fetch : Option Nat} (hw : c.waiters[w]? = some ⟨fetch, .pending⟩) :
      Does c (.cancel w) { c with waiters := c.waiters.set w ⟨fetch, .cancelled⟩ }
  | settled {w : Nat} : Does c (.cancel w) c
  | invalidated : Does c .invalidate c.invalidate
  | looked : Does c .look c

theorem does_request (c : FetchCache) : Does c .request c.request := by
  cases hx : c.atHand? with
  | some x => rw [request_of_atHand hx]; exact .served hx
  | none =>
    cases hf : c.inFlight with
    | some f => rw [request_of_inFlight hx hf]; exact .joined hx hf
    | none => rw [request_of_idle hx hf]; exact .begun hx hf

theorem does_observe (c : FetchCache) (w : Nat) : Does c (.observe w) (c.observe w) := by
  by_cases h : ∃ f answer, c.waiters[w]? = some ⟨some f, .pending⟩ ∧ c.outcome? f = some answer
  · obtain ⟨f, answer, hw, hout⟩ := h
    obtain ⟨fetch, hf, hr⟩ := outcome?_eq_some.mp hout
    rw [observe_of_outcome hw hf hr]
    exact .told hw hf hr
  · have hnone : ∀ f, c.waiters[w]? = some ⟨some f, .pending⟩ → c.outcome? f = none := by
      intro f hw
      rw [Option.eq_none_iff_forall_ne_some]
      exact fun answer hout => h ⟨f, answer, hw, hout⟩
    rcases observe_cases c w with hkeep | ⟨f, fetch, answer, hw, hf, hr⟩
    · rw [hkeep]
      exact .unmoved hnone
    · exact absurd ⟨f, answer, hw, outcome?_eq_some.mpr ⟨fetch, hf, hr⟩⟩ h

/-- What a step does is told by `Does`. -/
theorem does_step (c : FetchCache) (s : Step) : Does c s (c.step s) := by
  cases s with
  | request => exact does_request c
  | complete f ending =>
    show Does c _ (c.complete f ending)
    by_cases h : c.Running f
    · obtain ⟨fetch, hf, hr⟩ := h
      rw [complete_of_running ending hf hr]
      exact .ended ending hf hr
    · rw [complete_of_not_running ending h]
      exact .late h
  | observe w => exact does_observe c w
  | cancel w =>
    show Does c _ (c.cancel w)
    rcases cancel_cases c w with h | ⟨fetch, hw, h⟩
    · rw [h]
      exact .settled
    · rw [h]
      exact .cancelled hw
  | invalidate => exact .invalidated
  | look => exact .looked

theorem Does.transition {c c' : FetchCache} {s : Step} (h : Does c s c') : Transition c c' := by
  cases h with
  | served hx => exact .served hx
  | joined hx hf => exact .joined hx hf
  | begun hx hf => exact .begun hx hf
  | ended ending hf hr => exact .ended ending hf hr
  | told hw hf hr => exact .told hw hf hr
  | cancelled hw => exact .cancelled hw
  | invalidated => exact .invalidated
  | late _ | unmoved _ | settled | looked => exact .idle

/-- Every step is one of the transitions. -/
theorem transition_step (c : FetchCache) (s : Step) : Transition c (c.step s) :=
  (does_step c s).transition

/-- What every transition keeps, every run keeps. -/
theorem run_keeps {P : FetchCache → Prop} (hkeeps : ∀ {c c'}, P c → Transition c c' → P c')
    {c : FetchCache} (h : P c) (steps : List Step) : P (c.run steps) := by
  induction steps generalizing c with
  | nil => exact h
  | cons s steps ih => exact ih (hkeeps h (transition_step c s))

/-! ## How steps change what can be seen of the fetches -/

section Views

variable {c : FetchCache} {f : Nat} {fetch : Fetch}

@[simp] theorem outcome?_enrol (c : FetchCache) (waiter : Waiter) (g : Nat) :
    (c.enrol waiter).outcome? g = c.outcome? g := rfl

@[simp] theorem running_enrol (c : FetchCache) (waiter : Waiter) (g : Nat) :
    (c.enrol waiter).Running g ↔ c.Running g := Iff.rfl

theorem getElem?_begin (c : FetchCache) (g : Nat) :
    c.begin.fetches[g]? =
      if g = c.fetches.length then some (.begun c.generation) else c.fetches[g]? := by
  simp only [begin]
  split
  · rename_i h
    simp [h]
  · rename_i h
    rcases Nat.lt_or_gt_of_ne h with h | h
    · rw [List.getElem?_append_left h]
    · rw [List.getElem?_eq_none (by simp; omega), List.getElem?_eq_none (by omega)]

@[simp] theorem outcome?_begin (c : FetchCache) (g : Nat) :
    c.begin.outcome? g = c.outcome? g := by
  simp only [outcome?, getElem?_begin]
  split
  · rename_i h
    subst h
    simp [Fetch.begun]
  · rfl

theorem running_begin {g : Nat} : c.begin.Running g ↔ g = c.fetches.length ∨ c.Running g := by
  simp only [Running, getElem?_begin]
  constructor
  · rintro ⟨fetch, hg, hr⟩
    split at hg
    · rename_i h
      exact Or.inl h
    · exact Or.inr ⟨fetch, hg, hr⟩
  · rintro (h | ⟨fetch, hg, hr⟩)
    · exact ⟨.begun c.generation, by rw [if_pos h], rfl⟩
    · have hlt := (List.getElem?_eq_some_iff.mp hg).1
      exact ⟨fetch, by rw [if_neg (Nat.ne_of_lt hlt), hg], hr⟩

@[simp] theorem waiters_land (c : FetchCache) (fetch : Fetch) (ending : Ending) :
    (c.land fetch ending).waiters = c.waiters := by
  cases ending <;> rfl

@[simp] theorem fetchCount_land (c : FetchCache) (fetch : Fetch) (ending : Ending) :
    (c.land fetch ending).fetchCount = c.fetchCount := by
  cases ending <;> rfl

@[simp] theorem generation_land (c : FetchCache) (fetch : Fetch) (ending : Ending) :
    (c.land fetch ending).generation = c.generation := by
  cases ending <;> rfl

theorem inFlight_land (c : FetchCache) (fetch : Fetch) (ending : Ending) :
    (c.land fetch ending).inFlight = if ending.isCrash then c.inFlight else none := by
  cases ending <;> rfl

theorem nextObject_le_land (c : FetchCache) (fetch : Fetch) (ending : Ending) :
    c.nextObject ≤ (c.land fetch ending).nextObject := by
  cases ending <;> simp [land]

theorem getElem?_ended (hf : c.fetches[f]? = some fetch) (ending : Ending) (g : Nat) :
    (c.ended f fetch ending).fetches[g]? =
      if g = f then some { fetch with
        result := some (ending.answer c.nextObject), crashed := ending.isCrash }
      else c.fetches[g]? := by
  have hlt := (List.getElem?_eq_some_iff.mp hf).1
  simp only [ended, List.getElem?_set]
  by_cases h : g = f
  · subst h
    simp [hlt]
  · simp [h, Ne.symm h]

theorem outcome?_ended (hf : c.fetches[f]? = some fetch) (ending : Ending) (g : Nat) :
    (c.ended f fetch ending).outcome? g =
      if g = f then some (ending.answer c.nextObject) else c.outcome? g := by
  simp only [outcome?, getElem?_ended hf]
  split <;> rfl

theorem running_ended (hf : c.fetches[f]? = some fetch) (ending : Ending) {g : Nat} :
    (c.ended f fetch ending).Running g ↔ g ≠ f ∧ c.Running g := by
  simp only [Running, getElem?_ended hf]
  by_cases h : g = f
  · simp [h]
  · simp [h]

theorem getElem?_told (hf : c.fetches[f]? = some fetch) (w : Nat) (answer : Answer) (g : Nat) :
    (c.told w f fetch answer).fetches[g]? =
      if g = f then some { fetch with observed := true } else c.fetches[g]? := by
  have hlt := (List.getElem?_eq_some_iff.mp hf).1
  simp only [told, List.getElem?_set]
  by_cases h : g = f
  · subst h
    simp [hlt]
  · simp [h, Ne.symm h]

theorem outcome?_told (hf : c.fetches[f]? = some fetch) (w : Nat) (answer : Answer) (g : Nat) :
    (c.told w f fetch answer).outcome? g = c.outcome? g := by
  simp only [outcome?, getElem?_told hf]
  split
  · rename_i h
    subst h
    simp [hf]
  · rfl

theorem running_told (hf : c.fetches[f]? = some fetch) (w : Nat) (answer : Answer) {g : Nat} :
    (c.told w f fetch answer).Running g ↔ c.Running g := by
  simp only [Running, getElem?_told hf]
  by_cases h : g = f
  · subst h
    simp [hf]
  · simp [h]

end Views

/-! ## Outcomes stay -/

/-- **`Extends c c'`** — all fetches of `c` are in `c'`, with the outcomes they had. -/
structure Extends (c c' : FetchCache) : Prop where
  length_le : c.fetches.length ≤ c'.fetches.length
  outcome : ∀ f answer, c.outcome? f = some answer → c'.outcome? f = some answer

theorem Transition.extends {c c' : FetchCache} (h : Transition c c') : Extends c c' := by
  cases h with
  | idle => exact ⟨Nat.le_refl _, fun _ _ h => h⟩
  | served _ => exact ⟨Nat.le_refl _, fun _ _ h => h⟩
  | joined _ _ => exact ⟨Nat.le_refl _, fun _ _ h => h⟩
  | begun _ _ => exact ⟨by simp [enrol, begin], fun f answer h => by simpa using h⟩
  | @ended f fetch ending hf hr =>
    refine ⟨by simp [FetchCache.ended], ?_⟩
    intro g answer h
    have hne : g ≠ f := by
      rintro rfl
      simp [outcome?, hf, hr] at h
    rw [outcome?_ended hf, if_neg hne, h]
  | @told w f fetch answer hw hf hr =>
    exact ⟨by simp [FetchCache.told], fun g a h => by rw [outcome?_told hf, h]⟩
  | cancelled _ => exact ⟨Nat.le_refl _, fun _ _ h => h⟩
  | invalidated => exact ⟨Nat.le_refl _, fun _ _ h => h⟩

theorem extends_run (c : FetchCache) (steps : List Step) : Extends c (c.run steps) := by
  have hkeeps {c' c'' : FetchCache} (h : Extends c c') (ht : Transition c' c'') : Extends c c'' :=
    ⟨Nat.le_trans h.length_le ht.extends.length_le,
      fun f a hf => ht.extends.outcome f a (h.outcome f a hf)⟩
  exact run_keeps hkeeps ⟨Nat.le_refl _, fun _ _ h => h⟩ steps

/-! ## The invariant -/

/-- **`c.Grounded waiter`** — what a waiter joined exists, and what it was told is so: the outcome of
the fetch it joined, or rules that some fetch gave. -/
inductive Grounded (c : FetchCache) : Waiter → Prop where
  | pending {f : Nat} (hf : f < c.fetches.length) : Grounded c ⟨some f, .pending⟩
  | cancelled {f : Nat} (hf : f < c.fetches.length) : Grounded c ⟨some f, .cancelled⟩
  | answered {f : Nat} {answer : Answer} (hf : c.outcome? f = some answer) :
      Grounded c ⟨some f, .answered answer⟩
  | served {f : Nat} {x : Fetched} (hf : c.outcome? f = some (.ok x)) :
      Grounded c ⟨none, .answered (.ok x)⟩

theorem Grounded.mono {c c' : FetchCache} {waiter : Waiter} (h : Grounded c waiter)
    (hext : Extends c c') : Grounded c' waiter := by
  cases h with
  | pending hf => exact .pending (Nat.lt_of_lt_of_le hf hext.length_le)
  | cancelled hf => exact .cancelled (Nat.lt_of_lt_of_le hf hext.length_le)
  | answered hf => exact .answered (hext.outcome _ _ hf)
  | served hf => exact .served (hext.outcome _ _ hf)

/-- **`Sound c`** — what holds after every run. -/
structure Sound (c : FetchCache) : Prop where
  counted : c.fetchCount = c.fetches.length
  flight_last : ∀ f, c.inFlight = some f → f + 1 = c.fetches.length
  running_in_flight : ∀ f, c.Running f → c.inFlight = some f
  crashed_ended : ∀ (f : Nat) (fetch : Fetch), c.fetches[f]? = some fetch → fetch.crashed = true →
    fetch.result ≠ none
  /-- A crash that nobody has seen still holds the flight. -/
  unseen_crash_in_flight : ∀ (f : Nat) (fetch : Fetch), c.fetches[f]? = some fetch → fetch.crashed = true →
    fetch.observed = false → c.inFlight = some f
  latest_loaded : ∀ x, c.latest = some x → ∃ f, c.outcome? f = some (.ok x)
  object_lt : ∀ (f : Nat) (x : Fetched), c.outcome? f = some (.ok x) → x.object < c.nextObject
  /-- Two fetches never give the same object. -/
  object_once : ∀ (f g : Nat) (x y : Fetched), c.outcome? f = some (.ok x) → c.outcome? g = some (.ok y) →
    x.object = y.object → f = g
  waiter_grounded : ∀ (w : Nat) (waiter : Waiter), c.waiters[w]? = some waiter → c.Grounded waiter

theorem sound_empty : Sound empty where
  counted := rfl
  flight_last := by simp [empty]
  running_in_flight := by simp [empty, Running]
  crashed_ended := by simp [empty]
  unseen_crash_in_flight := by simp [empty]
  latest_loaded := by simp [empty]
  object_lt := by simp [empty, outcome?]
  object_once := by simp [empty, outcome?]
  waiter_grounded := by simp [empty]

theorem Sound.enrol {c : FetchCache} (h : Sound c) {waiter : Waiter} (hw : c.Grounded waiter) :
    Sound (c.enrol waiter) where
  counted := h.counted
  flight_last := h.flight_last
  running_in_flight := h.running_in_flight
  crashed_ended := h.crashed_ended
  unseen_crash_in_flight := h.unseen_crash_in_flight
  latest_loaded := h.latest_loaded
  object_lt := h.object_lt
  object_once := h.object_once
  waiter_grounded := by
    intro w waiter' hget
    have hmem := List.mem_of_getElem? hget
    simp only [FetchCache.enrol, List.mem_append, List.mem_singleton] at hmem
    have hext : Extends c (c.enrol waiter) := ⟨Nat.le_refl _, fun _ _ h => h⟩
    rcases hmem with hmem | rfl
    · obtain ⟨i, hi⟩ := List.getElem?_of_mem hmem
      exact (h.waiter_grounded i waiter' hi).mono hext
    · exact hw.mono hext

theorem Sound.begin {c : FetchCache} (h : Sound c) (hf : c.inFlight = none) : Sound c.begin where
  counted := by simp [FetchCache.begin, h.counted]
  flight_last := by simp [FetchCache.begin]
  running_in_flight := by
    intro g hg
    rcases running_begin.mp hg with rfl | hg
    · rfl
    · exact absurd (h.running_in_flight g hg) (by simp [hf])
  crashed_ended := by
    intro g fetch hg hc
    rw [getElem?_begin] at hg
    split at hg
    · cases hg
      exact absurd hc (by simp [Fetch.begun])
    · exact h.crashed_ended g fetch hg hc
  unseen_crash_in_flight := by
    intro g fetch hg hc ho
    rw [getElem?_begin] at hg
    split at hg
    · cases hg
      exact absurd hc (by simp [Fetch.begun])
    · exact absurd (h.unseen_crash_in_flight g fetch hg hc ho) (by simp [hf])
  latest_loaded := by
    intro x hx
    obtain ⟨g, hg⟩ := h.latest_loaded x hx
    exact ⟨g, by simpa using hg⟩
  object_lt := by
    intro g x hg
    exact h.object_lt g x (by simpa using hg)
  object_once := by
    intro g g' x y hg hg'
    exact h.object_once g g' x y (by simpa using hg) (by simpa using hg')
  waiter_grounded := by
    intro w waiter hw
    refine (h.waiter_grounded w waiter hw).mono ⟨by simp [FetchCache.begin], ?_⟩
    intro g a hg
    simpa using hg

theorem answer_object {ending : Ending} {n : Nat} {x : Fetched}
    (h : ending.answer n = .ok x) : x.object = n := by
  cases ending with
  | loaded rules => cases h; rfl
  | failed failure => exact absurd h (by simp [Ending.answer])
  | crashed message => exact absurd h (by simp [Ending.answer])

theorem latest_ended {c : FetchCache} {f : Nat} {fetch : Fetch} {ending : Ending} {x : Fetched}
    (hx : (c.ended f fetch ending).latest = some x) :
    c.latest = some x ∨ ending.answer c.nextObject = .ok x := by
  cases ending with
  | loaded rules => exact Or.inr (by simpa [FetchCache.ended, land, Ending.answer] using hx)
  | failed failure => exact Or.inl hx
  | crashed message => exact Or.inl hx

/-- The object of rules that have just been fetched is the newest one. -/
theorem nextObject_ended {c : FetchCache} {f : Nat} {fetch : Fetch} {ending : Ending} {x : Fetched}
    (hx : ending.answer c.nextObject = .ok x) :
    (c.ended f fetch ending).nextObject = c.nextObject + 1 := by
  cases ending with
  | loaded rules => rfl
  | failed failure => exact absurd hx (by simp [Ending.answer])
  | crashed message => exact absurd hx (by simp [Ending.answer])

theorem Sound.ended {c : FetchCache} (h : Sound c) {f : Nat} {fetch : Fetch} (ending : Ending)
    (hf : c.fetches[f]? = some fetch) (hr : fetch.result = none) :
    Sound (c.ended f fetch ending) := by
  have hflight : c.inFlight = some f := h.running_in_flight f ⟨fetch, hf, hr⟩
  have hext : Extends c (c.ended f fetch ending) := (Transition.ended ending hf hr).extends
  constructor
  case counted =>
    simp [FetchCache.ended, h.counted]
  case flight_last =>
    intro g hg
    have hg' : c.inFlight = some g := by
      simp only [FetchCache.ended, inFlight_land] at hg
      split at hg
      · exact hg
      · exact absurd hg (by simp)
    simpa [FetchCache.ended] using h.flight_last g hg'
  case running_in_flight =>
    intro g hg
    obtain ⟨hne, hg⟩ := (running_ended hf ending).mp hg
    have hgf := h.running_in_flight g hg
    rw [hflight] at hgf
    exact absurd (Option.some.inj hgf).symm hne
  case crashed_ended =>
    intro g fetch' hg hc
    rw [getElem?_ended hf] at hg
    split at hg
    · cases hg
      simp
    · exact h.crashed_ended g fetch' hg hc
  case unseen_crash_in_flight =>
    intro g fetch' hg hc ho
    rw [getElem?_ended hf] at hg
    split at hg
    · rename_i hgf
      cases hg
      -- a fetch that crashed keeps the flight until a waiter sees it
      simp only at hc
      simp only [FetchCache.ended, inFlight_land, hc, if_true, hflight, hgf]
    · rename_i hgf
      have hgf' := h.unseen_crash_in_flight g fetch' hg hc ho
      rw [hflight] at hgf'
      exact absurd (Option.some.inj hgf').symm hgf
  case latest_loaded =>
    intro x hx
    rcases latest_ended hx with hx | hx
    · obtain ⟨g, hg⟩ := h.latest_loaded x hx
      exact ⟨g, hext.outcome g _ hg⟩
    · exact ⟨f, by rw [outcome?_ended hf, if_pos rfl, hx]⟩
  case object_lt =>
    intro g x hg
    rw [outcome?_ended hf] at hg
    split at hg
    · have hx := Option.some.inj hg
      rw [answer_object hx, nextObject_ended hx]
      exact Nat.lt_succ_self _
    · exact Nat.lt_of_lt_of_le (h.object_lt g x hg) (nextObject_le_land c fetch ending)
  case object_once =>
    intro g g' x y hg hg' hxy
    rw [outcome?_ended hf] at hg hg'
    split at hg <;> split at hg'
    · rename_i hgf hgf'
      rw [hgf, hgf']
    · have hlt := h.object_lt g' y hg'
      rw [← hxy, answer_object (Option.some.inj hg)] at hlt
      exact absurd hlt (Nat.lt_irrefl _)
    · have hlt := h.object_lt g x hg
      rw [hxy, answer_object (Option.some.inj hg')] at hlt
      exact absurd hlt (Nat.lt_irrefl _)
    · exact h.object_once g g' x y hg hg' hxy
  case waiter_grounded =>
    intro w waiter hw
    have hw' : c.waiters[w]? = some waiter := by simpa [FetchCache.ended] using hw
    exact (h.waiter_grounded w waiter hw').mono hext

theorem Sound.told {c : FetchCache} (h : Sound c) {w f : Nat} {fetch : Fetch} {answer : Answer}
    (hw : c.waiters[w]? = some ⟨some f, .pending⟩) (hf : c.fetches[f]? = some fetch)
    (hr : fetch.result = some answer) : Sound (c.told w f fetch answer) := by
  have hout : c.outcome? f = some answer := outcome?_eq_some.mpr ⟨fetch, hf, hr⟩
  have hext : Extends c (c.told w f fetch answer) := (Transition.told hw hf hr).extends
  -- if the flight is emptied, it held `f`, which has ended
  have hflight : ∀ g, g ≠ f → c.inFlight = some g →
      (c.told w f fetch answer).inFlight = some g := by
    intro g hne hg
    simp only [FetchCache.told]
    split
    · rename_i hcrash
      simp only [Bool.and_eq_true, Bool.not_eq_true'] at hcrash
      have hcf := h.unseen_crash_in_flight f fetch hf hcrash.1 hcrash.2
      rw [hg] at hcf
      exact absurd (Option.some.inj hcf) hne
    · exact hg
  constructor
  case counted =>
    simp [FetchCache.told, h.counted]
  case flight_last =>
    intro g hg
    have hg' : c.inFlight = some g := by
      simp only [FetchCache.told] at hg
      split at hg
      · exact absurd hg (by simp)
      · exact hg
    simpa [FetchCache.told] using h.flight_last g hg'
  case running_in_flight =>
    intro g hg
    have hrun : c.Running g := (running_told hf w answer).mp hg
    have hne : g ≠ f := by
      rintro rfl
      exact not_running_of_outcome hout hrun
    exact hflight g hne (h.running_in_flight g hrun)
  case crashed_ended =>
    intro g fetch' hg hc
    rw [getElem?_told hf] at hg
    split at hg
    · cases hg
      simp [hr]
    · exact h.crashed_ended g fetch' hg hc
  case unseen_crash_in_flight =>
    intro g fetch' hg hc ho
    rw [getElem?_told hf] at hg
    split at hg
    · cases hg
      exact absurd ho (by simp)
    · rename_i hne
      exact hflight g hne (h.unseen_crash_in_flight g fetch' hg hc ho)
  case latest_loaded =>
    intro x hx
    obtain ⟨g, hg⟩ := h.latest_loaded x hx
    exact ⟨g, hext.outcome g _ hg⟩
  case object_lt =>
    intro g x hg
    rw [outcome?_told hf] at hg
    exact h.object_lt g x hg
  case object_once =>
    intro g g' x y hg hg'
    rw [outcome?_told hf] at hg hg'
    exact h.object_once g g' x y hg hg'
  case waiter_grounded =>
    intro w' waiter hget
    simp only [FetchCache.told, List.getElem?_set] at hget
    split at hget
    · split at hget
      · cases hget
        exact .answered (hext.outcome f answer hout)
      · exact absurd hget (by simp)
    · exact (h.waiter_grounded w' waiter hget).mono hext

theorem Sound.cancelled {c : FetchCache} (h : Sound c) {w : Nat} {fetch : Option Nat}
    (hw : c.waiters[w]? = some ⟨fetch, .pending⟩) :
    Sound { c with waiters := c.waiters.set w ⟨fetch, .cancelled⟩ } where
  counted := h.counted
  flight_last := h.flight_last
  running_in_flight := h.running_in_flight
  crashed_ended := h.crashed_ended
  unseen_crash_in_flight := h.unseen_crash_in_flight
  latest_loaded := h.latest_loaded
  object_lt := h.object_lt
  object_once := h.object_once
  waiter_grounded := by
    intro w' waiter hget
    simp only [List.getElem?_set] at hget
    split at hget
    · split at hget
      · cases hget
        cases h.waiter_grounded w _ hw with
        | pending hf => exact .cancelled hf
      · exact absurd hget (by simp)
    · exact (h.waiter_grounded w' waiter hget).mono ⟨Nat.le_refl _, fun _ _ h => h⟩

theorem Sound.invalidate {c : FetchCache} (h : Sound c) : Sound c.invalidate where
  counted := h.counted
  flight_last := h.flight_last
  running_in_flight := h.running_in_flight
  crashed_ended := h.crashed_ended
  unseen_crash_in_flight := h.unseen_crash_in_flight
  latest_loaded := h.latest_loaded
  object_lt := h.object_lt
  object_once := h.object_once
  waiter_grounded := fun w waiter hw =>
    (h.waiter_grounded w waiter hw).mono ⟨Nat.le_refl _, fun _ _ h => h⟩

theorem Sound.transition {c c' : FetchCache} (h : Sound c) (ht : Transition c c') : Sound c' := by
  cases ht with
  | idle => exact h
  | served hx =>
    obtain ⟨f, hf⟩ := h.latest_loaded _ (latest_of_atHand hx)
    exact h.enrol (.served hf)
  | joined hx hf =>
    have hlast := h.flight_last _ hf
    exact h.enrol (.pending (by omega))
  | begun hx hf => exact (h.begin hf).enrol (.pending (by simp [FetchCache.begin]))
  | ended ending hf hr => exact h.ended ending hf hr
  | told hw hf hr => exact h.told hw hf hr
  | cancelled hw => exact h.cancelled hw
  | invalidated => exact h.invalidate

section Keeps

variable {c : FetchCache}

theorem Sound.run (h : Sound c) (steps : List Step) : Sound (c.run steps) :=
  run_keeps Sound.transition h steps

/-- A second invariant may count on the first. -/
theorem Sound.run_keeps {P : FetchCache → Prop} (hs : Sound c)
    (hkeeps : ∀ {c c'}, P c → Sound c → Transition c c' → P c') (h : P c) (steps : List Step) :
    P (c.run steps) := by
  have hboth {c c' : FetchCache} (hc : Sound c ∧ P c) (ht : Transition c c') : Sound c' ∧ P c' :=
    ⟨hc.1.transition ht, hkeeps hc.2 hc.1 ht⟩
  exact (FetchCache.run_keeps hboth ⟨hs, h⟩ steps).2

end Keeps

/-- Every run keeps the invariant. -/
theorem sound_after (steps : List Step) : Sound (after steps) :=
  sound_empty.run steps

end AlertRules.FetchCache
