import AlertRules.Proofs.FetchCache.Runs

/-!
# AlertRules.Proofs.FetchCache.Sharing — callers share fetches

What a single request does is decided by two observations, `isCurrent` and `isFetching`: it is answered
at once, joins the fetch in flight, or starts the only fetch that runs.  Whoever joined a fetch gets
the outcome of that fetch and of no other, at whatever moment the others come, look or leave.
`Shares` puts this together, and holds after every run (`gets_share_fetches`).
-/

namespace AlertRules.FetchCache

/-! ## What a request starts -/

/-- Rules are at hand exactly when they are current. -/
theorem isSome_atHand? (c : FetchCache) : c.atHand?.isSome = c.isCurrent := by
  unfold atHand? isCurrent
  cases c.current <;> simp

theorem atHand?_of_current {c : FetchCache} (h : c.isCurrent = true) :
    ∃ x, c.latest = some x ∧ c.atHand? = some x := by
  rw [← isSome_atHand?, Option.isSome_iff_exists] at h
  obtain ⟨x, hx⟩ := h
  exact ⟨x, latest_of_atHand hx, hx⟩

theorem atHand?_of_not_current {c : FetchCache} (h : c.isCurrent = false) : c.atHand? = none := by
  rwa [← isSome_atHand?, Option.isSome_eq_false_iff, Option.isNone_iff_eq_none] at h

theorem inFlight_of_not_fetching {c : FetchCache} (h : c.isFetching = false) :
    c.inFlight = none := by
  simpa [isFetching] using h

/-- The step asks for rules that are neither current nor on their way. -/
def startsFetch (c : FetchCache) : Step → Bool
  | .request => !c.isCurrent && !c.isFetching
  | _ => false

/-- How many steps of a run ask for rules that are neither current nor on their way. -/
def startedIn (c : FetchCache) : List Step → Nat
  | [] => 0
  | s :: steps => (c.startsFetch s).toNat + (c.step s).startedIn steps

theorem Does.fetchCount_eq {c c' : FetchCache} {s : Step} (hd : Does c s c') :
    c'.fetchCount = c.fetchCount + (c.startsFetch s).toNat := by
  cases hd with
  | served hx =>
    have hcur : c.isCurrent = true := by
      rw [← isSome_atHand?, hx]
      rfl
    simp [enrol, startsFetch, hcur]
  | joined _ hf => simp [enrol, startsFetch, isFetching, hf]
  | begun hx hf =>
    have hcur : c.isCurrent = false := by
      rw [← isSome_atHand?, hx]
      rfl
    simp [enrol, begin, startsFetch, isFetching, hf, hcur]
  | ended ending _ _ => simp [FetchCache.ended, startsFetch]
  | late _ | told _ _ _ | unmoved _ | cancelled _ | settled | invalidated | looked => rfl

theorem fetchCount_run (c : FetchCache) (steps : List Step) :
    (c.run steps).fetchCount = c.fetchCount + c.startedIn steps := by
  induction steps generalizing c with
  | nil => rfl
  | cons s steps ih => rw [run_cons, ih, (does_step c s).fetchCount_eq, startedIn, Nat.add_assoc]

/-! ## What becomes of a waiter -/

/-- Of two pending waiters, what settles one leaves the other as it is. -/
theorem waiter_set {waiters : List Waiter} {w w' : Nat} {fetch fetch' : Option Nat}
    {waiting : Waiting} (hw : waiters[w]? = some ⟨fetch, waiting⟩)
    (hw' : waiters[w']? = some ⟨fetch', .pending⟩) (settled : Waiting) :
    ∃ waiting', (waiters.set w' ⟨fetch', settled⟩)[w]? = some ⟨fetch, waiting'⟩ ∧
      (waiting' = waiting ∨ waiting = .pending ∧ waiting' = settled ∧ w' = w) := by
  have hlt : w < waiters.length := (List.getElem?_eq_some_iff.mp hw).1
  rw [List.getElem?_set]
  by_cases hww : w' = w
  · subst hww
    obtain ⟨rfl, rfl⟩ : fetch' = fetch ∧ Waiting.pending = waiting := by
      simpa [hw'] using hw
    exact ⟨settled, by simp [hlt], Or.inr ⟨rfl, rfl, rfl⟩⟩
  · exact ⟨waiting, by simp [hww, hw], Or.inl rfl⟩

/-- A step leaves a waiter with its fetch; it answers a pending one, or cancels it if it is the step
that cancels this waiter. -/
theorem Does.waiter {c c' : FetchCache} {s : Step} (hd : Does c s c') {w : Nat} {fetch : Option Nat}
    {waiting : Waiting} (hw : c.waiters[w]? = some ⟨fetch, waiting⟩) :
    ∃ waiting', c'.waiters[w]? = some ⟨fetch, waiting'⟩ ∧
      (waiting' = waiting ∨
        waiting = .pending ∧ (waiting' = .cancelled → s = .cancel w)) := by
  have hlt : w < c.waiters.length := (List.getElem?_eq_some_iff.mp hw).1
  have henrolled (waiter : Waiter) : (c.waiters ++ [waiter])[w]? = some ⟨fetch, waiting⟩ := by
    rw [List.getElem?_append_left hlt, hw]
  cases hd with
  | served _ | joined _ _ | begun _ _ => exact ⟨waiting, henrolled _, Or.inl rfl⟩
  | ended ending _ _ =>
    refine ⟨waiting, ?_, Or.inl rfl⟩
    simpa [FetchCache.ended] using hw
  | @told w' f fetch' answer hw' _ _ =>
    obtain ⟨waiting', hset, hsame | ⟨hpending, rfl, -⟩⟩ := waiter_set hw hw' (.answered answer)
    · exact ⟨waiting', hset, Or.inl hsame⟩
    · exact ⟨_, hset, Or.inr ⟨hpending, by simp⟩⟩
  | cancelled hw' =>
    obtain ⟨waiting', hset, hsame | ⟨hpending, -, rfl⟩⟩ := waiter_set hw hw' .cancelled
    · exact ⟨waiting', hset, Or.inl hsame⟩
    · exact ⟨waiting', hset, Or.inr ⟨hpending, fun _ => rfl⟩⟩
  | late _ | unmoved _ | settled | invalidated | looked => exact ⟨waiting, hw, Or.inl rfl⟩

/-- A waiter keeps its fetch through a run, and an answer once it has it; only a pending waiter that
is cancelled in the run ends up cancelled. -/
theorem waiter_run {c : FetchCache} {w : Nat} {fetch : Option Nat} {waiting : Waiting}
    (hw : c.waiters[w]? = some ⟨fetch, waiting⟩) (steps : List Step) :
    ∃ waiting', (c.run steps).waiters[w]? = some ⟨fetch, waiting'⟩ ∧
      (waiting' = waiting ∨
        waiting = .pending ∧ (waiting' = .cancelled → Step.cancel w ∈ steps)) := by
  induction steps generalizing c waiting with
  | nil => exact ⟨waiting, hw, Or.inl rfl⟩
  | cons s steps ih =>
    obtain ⟨mid, hmid, hs⟩ := (does_step c s).waiter hw
    obtain ⟨last, hlast, hr⟩ := ih hmid
    refine ⟨last, hlast, ?_⟩
    rcases hs with rfl | ⟨hpend, hcancel⟩
    · rcases hr with rfl | ⟨hpend, hcancel⟩
      · exact Or.inl rfl
      · exact Or.inr ⟨hpend, fun h => List.mem_cons_of_mem _ (hcancel h)⟩
    · refine Or.inr ⟨hpend, ?_⟩
      intro h
      rcases hr with rfl | ⟨-, hlater⟩
      · rw [hcancel h]
        exact List.mem_cons_self
      · exact List.mem_cons_of_mem _ (hlater h)

/-- A pending waiter whose fetch has ended is answered when it looks. -/
theorem observe_answers {c : FetchCache} {w f : Nat} {answer : Answer}
    (hw : c.waiters[w]? = some ⟨some f, .pending⟩) (ha : c.outcome? f = some answer) :
    (c.observe w).waiters[w]? = some ⟨some f, .answered answer⟩ := by
  obtain ⟨fetch, hf, hr⟩ := outcome?_eq_some.mp ha
  have hlt : w < c.waiters.length := (List.getElem?_eq_some_iff.mp hw).1
  rw [observe_of_outcome hw hf hr]
  simp [told, hlt]

/-- A running fetch can end in every way, and then has the outcome of that ending. -/
theorem outcome?_complete {c : FetchCache} {f : Nat} (h : c.Running f) (ending : Ending) :
    (c.complete f ending).outcome? f = some (ending.answer c.nextObject) := by
  obtain ⟨fetch, hf, hr⟩ := h
  rw [complete_of_running ending hf hr, outcome?_ended hf, if_pos rfl]

/-- What a waiter that joined a fetch was told is the outcome of that fetch. -/
theorem Sound.told_outcome {c : FetchCache} (h : Sound c) {w f : Nat} {answer : Answer}
    (hw : c.waiters[w]? = some ⟨some f, .answered answer⟩) : c.outcome? f = some answer := by
  cases h.waiter_grounded w _ hw with
  | answered hf => exact hf

theorem Sound.joined_lt {c : FetchCache} (h : Sound c) {w f : Nat} {waiting : Waiting}
    (hw : c.waiters[w]? = some ⟨some f, waiting⟩) : f < c.fetches.length := by
  cases h.waiter_grounded w _ hw with
  | pending hf => exact hf
  | cancelled hf => exact hf
  | answered hf =>
    obtain ⟨fetch, hf, -⟩ := outcome?_eq_some.mp hf
    exact (List.getElem?_eq_some_iff.mp hf).1

/-- Once its fetch has ended, a waiter that was not cancelled has the outcome from its next look on. -/
theorem Sound.look_settles {c : FetchCache} (h : Sound c) {w f : Nat} {waiting : Waiting}
    {answer : Answer} (hw : c.waiters[w]? = some ⟨some f, waiting⟩) (hnot : waiting ≠ .cancelled)
    (ha : c.outcome? f = some answer) (more : List Step) :
    (c.run (.observe w :: more)).waiters[w]? = some ⟨some f, .answered answer⟩ := by
  have hlook : (c.observe w).waiters[w]? = some ⟨some f, .answered answer⟩ := by
    cases hwait : waiting with
    | pending =>
      rw [hwait] at hw
      exact observe_answers hw ha
    | answered told =>
      rw [hwait] at hw
      have htold := h.told_outcome hw
      rw [ha] at htold
      obtain ⟨waiting', hw', hkeep⟩ := (does_step c (.observe w)).waiter hw
      rcases hkeep with rfl | ⟨hpend, -⟩
      · rw [Option.some.inj htold]
        exact hw'
      · exact absurd hpend (by simp)
    | cancelled => exact absurd hwait hnot
  rw [run_cons]
  obtain ⟨waiting', hw', hkeep⟩ := waiter_run hlook more
  rcases hkeep with rfl | ⟨hpend, -⟩
  · exact hw'
  · exact absurd hpend (by simp)

/-! ## Every run -/

/-- The next request starts a fetch, which is the only one that runs then. -/
structure Begins (c : FetchCache) : Prop where
  request_eq : c.request = c.begin.enrol ⟨some c.fetches.length, .pending⟩
  count_succ : c.request.fetchCount = c.fetchCount + 1
  runs_alone : ∀ f, c.request.Running f ↔ f = c.fetches.length

theorem Sound.begins {c : FetchCache} (h : Sound c) (hcur : c.isCurrent = false)
    (hfetch : c.isFetching = false) : c.Begins := by
  have hf := inFlight_of_not_fetching hfetch
  have hrequest := request_of_idle (atHand?_of_not_current hcur) hf
  refine ⟨hrequest, by rw [hrequest]; rfl, fun f => ?_⟩
  rw [hrequest, running_enrol, running_begin, or_iff_left_iff_imp]
  intro hrun
  exact absurd (h.running_in_flight f hrun) (by simp [hf])

/-- **`c.Serves w f`** — the waiter is with the fetch: it has been told nothing but its outcome, and once
there is one, it has it from its next look on. -/
structure Serves (c : FetchCache) (w f : Nat) : Prop where
  waits : ∃ waiting, c.waiters[w]? = some ⟨some f, waiting⟩ ∧ waiting ≠ .cancelled ∧
    ∀ answer, waiting = .answered answer → c.outcome? f = some answer
  settles : c.Running f ∨ ∃ answer, c.outcome? f = some answer ∧
    ∀ more, (c.run (.observe w :: more)).waiters[w]? = some ⟨some f, .answered answer⟩

theorem Sound.serves {c : FetchCache} (h : Sound c) {w f : Nat} {waiting : Waiting}
    (hw : c.waiters[w]? = some ⟨some f, waiting⟩) (hnot : waiting ≠ .cancelled) : c.Serves w f where
  waits := by
    refine ⟨waiting, hw, hnot, ?_⟩
    rintro answer rfl
    exact h.told_outcome hw
  settles := by
    rcases running_or_outcome (h.joined_lt hw) with hrun | ⟨answer, ha⟩
    · exact Or.inl hrun
    · exact Or.inr ⟨answer, ha, h.look_settles hw hnot ha⟩

/-- A waiter who does not give up stays with the fetch, whatever the run. -/
theorem waiter_stays {c : FetchCache} {w : Nat} {fetch : Option Nat} {waiting : Waiting}
    (hw : c.waiters[w]? = some ⟨fetch, waiting⟩) (hnot : waiting ≠ .cancelled) {steps : List Step}
    (hsteps : Step.cancel w ∉ steps) :
    ∃ waiting', (c.run steps).waiters[w]? = some ⟨fetch, waiting'⟩ ∧ waiting' ≠ .cancelled := by
  obtain ⟨waiting', hw', hbecame⟩ := waiter_run hw steps
  refine ⟨waiting', hw', ?_⟩
  rintro rfl
  rcases hbecame with h | ⟨-, h⟩
  · exact hnot h.symm
  · exact hsteps (h rfl)

/-- **`Shares steps c`** — after the run, callers share fetches.  At most one fetch runs, and it is in
flight; fetches are counted right, one for each request that found rules neither current nor in flight.
The next request is answered at once, joins the fetch in flight, or starts one.  A running fetch can end
in every way, and its outcome never changes and belongs to no other fetch. -/
structure Shares (steps : List Step) (c : FetchCache) : Prop where
  running_unique : ∀ f g, c.Running f → c.Running g → f = g
  fetching : ∀ f, c.Running f → c.isFetching = true
  counts_fetches : c.fetchCount = c.fetches.length
  counts_requests : c.fetchCount = empty.startedIn steps
  answered : c.isCurrent = true →
    ∃ x, c.latest = some x ∧ c.request = c.enrol ⟨none, .answered (.ok x)⟩
  joins : ∀ f, c.isCurrent = false → c.inFlight = some f → c.request = c.enrol ⟨some f, .pending⟩
  starts : c.isCurrent = false → c.isFetching = false → c.Begins
  ends : ∀ f ending, c.Running f →
    (c.complete f ending).outcome? f = some (ending.answer c.nextObject)
  outcome_stays : ∀ f answer, c.outcome? f = some answer → ∀ later,
    (c.run later).outcome? f = some answer
  outcome_unshared : ∀ f g x y, c.outcome? f = some (.ok x) → c.outcome? g = some (.ok y) →
    x.object = y.object → f = g
  served : ∀ w f waiting, c.waiters[w]? = some ⟨some f, waiting⟩ → waiting ≠ .cancelled →
    ∀ later, Step.cancel w ∉ later → (c.run later).Serves w f

/-- **`gets_share_fetches`** — after every run callers share fetches: whoever joined one and is not
cancelled stays with it whatever follows, is told nothing but its outcome, and has it from the first
look after its end on. -/
theorem gets_share_fetches (steps : List Step) : Shares steps (after steps) where
  running_unique f g hf hg := by
    have hff := (sound_after steps).running_in_flight f hf
    rw [(sound_after steps).running_in_flight g hg] at hff
    exact (Option.some.inj hff).symm
  fetching f hf := by
    simp only [isFetching, (sound_after steps).running_in_flight f hf, Option.isSome_some]
  counts_fetches := (sound_after steps).counted
  counts_requests := by
    have hcount := fetchCount_run empty steps
    rw [show empty.fetchCount = 0 from rfl, Nat.zero_add] at hcount
    exact hcount
  answered hcur := by
    obtain ⟨x, hx, hat⟩ := atHand?_of_current hcur
    exact ⟨x, hx, request_of_atHand hat⟩
  joins f hcur hf := request_of_inFlight (atHand?_of_not_current hcur) hf
  starts := (sound_after steps).begins
  ends f ending hf := outcome?_complete hf ending
  outcome_stays f answer hf later := (extends_run _ later).outcome f answer hf
  outcome_unshared := (sound_after steps).object_once
  served w f waiting hw hnot later hlater := by
    have hlast : Sound ((after steps).run later) := (sound_after steps).run later
    obtain ⟨waiting', hw', hnot'⟩ := waiter_stays hw hnot hlater
    exact hlast.serves hw' hnot'

end AlertRules.FetchCache
