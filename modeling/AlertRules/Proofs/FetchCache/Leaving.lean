import Mathlib.Data.List.Induction
import AlertRules.Proofs.FetchCache.Sharing

/-!
# AlertRules.Proofs.FetchCache.Leaving — waiters who give up

A fetch runs on its own, whoever waits for it.  So a waiter who gives up, even the one whose request
started the fetch, leaves no trace that others could see, as long as no fetch crashes.  (After a crash
it matters who is left to look.)

Two runs are compared: one in which some waiters, the **gone** ones, give up at any points, and the
same run without these steps.  `Alike` relates what the runs lead to: all is the same but what became
of the gone waiters, and whether the end of a fetch has been observed, which counts only for crashes.
A step that both runs take keeps them alike (`Alike.step`), and so does a gone waiter who gives up in
one of them (`alike_cancel`).
-/

namespace AlertRules.FetchCache

/-! ## Runs without crashes -/

/-- At no point of the run does a running fetch crash. -/
def Calm (steps : List Step) : Prop :=
  ∀ before f message rest, steps = before ++ .complete f (.crashed message) :: rest →
    ¬ (after before).Running f

/-- No fetch has crashed. -/
def Whole (c : FetchCache) : Prop :=
  ∀ (f : Nat) (fetch : Fetch), c.fetches[f]? = some fetch → fetch.crashed = false

theorem Calm.of_append {steps more : List Step} (h : Calm (steps ++ more)) : Calm steps := by
  rintro before f message rest rfl
  exact h before f message (rest ++ more) (by simp)

theorem calm_of_notMem {steps : List Step}
    (h : ∀ f message, Step.complete f (.crashed message) ∉ steps) : Calm steps := by
  rintro before f message rest rfl
  exact absurd (List.mem_append_right _ List.mem_cons_self) (h f message)

theorem Whole.begin {c : FetchCache} (h : Whole c) : Whole c.begin := by
  intro g fetch hg
  rw [getElem?_begin] at hg
  split at hg
  · cases hg
    rfl
  · exact h g fetch hg

theorem Whole.ended {c : FetchCache} (h : Whole c) {f : Nat} {fetch : Fetch} {ending : Ending}
    (hf : c.fetches[f]? = some fetch) (hcrash : ending.isCrash = false) :
    Whole (c.ended f fetch ending) := by
  intro g fetch' hg
  rw [getElem?_ended hf] at hg
  split at hg
  · cases hg
    exact hcrash
  · exact h g fetch' hg

theorem Whole.told {c : FetchCache} (h : Whole c) {f : Nat} {fetch : Fetch}
    (hf : c.fetches[f]? = some fetch) (w : Nat) (answer : Answer) :
    Whole (c.told w f fetch answer) := by
  intro g fetch' hg
  rw [getElem?_told hf] at hg
  split at hg
  · cases hg
    exact h f fetch hf
  · exact h g fetch' hg

/-- A step in which no running fetch crashes leaves all fetches whole. -/
theorem Whole.does {c c' : FetchCache} {s : Step} (h : Whole c) (hd : Does c s c')
    (hs : ∀ f message, s = .complete f (.crashed message) → ¬ c.Running f) : Whole c' := by
  cases hd with
  | begun _ _ => exact h.begin
  | ended ending hf hr =>
    refine h.ended hf ?_
    cases ending with
    | loaded rules => rfl
    | failed failure => rfl
    | crashed message => exact absurd ⟨_, hf, hr⟩ (hs _ message rfl)
  | told _ hf _ => exact h.told hf _ _
  | served _ | joined _ _ | late _ | unmoved _ | cancelled _ | settled | invalidated
  | looked => exact h

theorem whole_after {steps : List Step} (h : Calm steps) : Whole (after steps) := by
  induction steps using List.reverseRecOn with
  | nil => simp [after, empty, Whole]
  | append_singleton steps s ih =>
    rw [after_append steps [s]]
    refine (ih h.of_append).does (does_step _ s) ?_
    rintro f message rfl
    exact h steps f message [] rfl

/-! ## Runs that differ in who is gone -/

/-- The fetch, as if nobody had observed its end. -/
def Fetch.bare (f : Fetch) : Fetch :=
  { f with observed := false }

theorem Fetch.bare_eq_iff {f g : Fetch} :
    f.bare = g.bare ↔
      f.generation = g.generation ∧ f.result = g.result ∧ f.crashed = g.crashed := by
  simp [Fetch.bare]

/-- **`Alike gone c c'`** — the caches differ at most in the gone waiters, and in whether the end of a
fetch has been observed. -/
structure Alike (gone : Nat → Bool) (c c' : FetchCache) : Prop where
  latest : c.latest = c'.latest
  current : c.current = c'.current
  generation : c.generation = c'.generation
  inFlight : c.inFlight = c'.inFlight
  fetchCount : c.fetchCount = c'.fetchCount
  nextObject : c.nextObject = c'.nextObject
  fetches : c.fetches.map Fetch.bare = c'.fetches.map Fetch.bare
  size : c.waiters.length = c'.waiters.length
  waiters : ∀ w, gone w = false → c.waiters[w]? = c'.waiters[w]?

variable {gone : Nat → Bool} {c c' : FetchCache}

namespace Alike

theorem refl (gone : Nat → Bool) (c : FetchCache) : Alike gone c c :=
  ⟨rfl, rfl, rfl, rfl, rfl, rfl, rfl, rfl, fun _ _ => rfl⟩

theorem symm (h : Alike gone c c') : Alike gone c' c where
  latest := h.latest.symm
  current := h.current.symm
  generation := h.generation.symm
  inFlight := h.inFlight.symm
  fetchCount := h.fetchCount.symm
  nextObject := h.nextObject.symm
  fetches := h.fetches.symm
  size := h.size.symm
  waiters := fun w hw => (h.waiters w hw).symm

theorem trans {c'' : FetchCache} (h : Alike gone c c') (h' : Alike gone c' c'') :
    Alike gone c c'' where
  latest := h.latest.trans h'.latest
  current := h.current.trans h'.current
  generation := h.generation.trans h'.generation
  inFlight := h.inFlight.trans h'.inFlight
  fetchCount := h.fetchCount.trans h'.fetchCount
  nextObject := h.nextObject.trans h'.nextObject
  fetches := h.fetches.trans h'.fetches
  size := h.size.trans h'.size
  waiters := fun w hw => (h.waiters w hw).trans (h'.waiters w hw)

/-! ### What alike caches agree on -/

theorem atHand? (h : Alike gone c c') : c.atHand? = c'.atHand? := by
  rw [FetchCache.atHand?, FetchCache.atHand?, h.current, h.latest]

theorem length_fetches (h : Alike gone c c') : c.fetches.length = c'.fetches.length := by
  have hlen := congrArg List.length h.fetches
  rwa [List.length_map, List.length_map] at hlen

/-- A fetch of one cache is a fetch of the other, observed or not. -/
theorem exists_fetch (h : Alike gone c c') {f : Nat} {fetch : Fetch}
    (hf : c.fetches[f]? = some fetch) :
    ∃ fetch', c'.fetches[f]? = some fetch' ∧ fetch.bare = fetch'.bare := by
  have hmap := congrArg (·[f]?) h.fetches
  simp only [List.getElem?_map, hf, Option.map_some] at hmap
  obtain ⟨fetch', hf', hbare⟩ := Option.map_eq_some_iff.mp hmap.symm
  exact ⟨fetch', hf', hbare.symm⟩

theorem running_of (h : Alike gone c c') {f : Nat} (hrun : c.Running f) : c'.Running f := by
  obtain ⟨fetch, hf, hr⟩ := hrun
  obtain ⟨fetch', hf', hbare⟩ := h.exists_fetch hf
  exact ⟨fetch', hf', (Fetch.bare_eq_iff.mp hbare).2.1.symm.trans hr⟩

theorem running_iff (h : Alike gone c c') {f : Nat} : c.Running f ↔ c'.Running f :=
  ⟨h.running_of, h.symm.running_of⟩

theorem outcome? (h : Alike gone c c') (f : Nat) : c.outcome? f = c'.outcome? f := by
  cases hf : c.fetches[f]? with
  | some fetch =>
    obtain ⟨fetch', hf', hbare⟩ := h.exists_fetch hf
    rw [FetchCache.outcome?, FetchCache.outcome?, hf, hf']
    exact (Fetch.bare_eq_iff.mp hbare).2.1
  | none =>
    have hf' : c'.fetches[f]? = none := by
      rw [List.getElem?_eq_none_iff] at hf ⊢
      rwa [← h.length_fetches]
    rw [FetchCache.outcome?, FetchCache.outcome?, hf, hf']

theorem whole (h : Alike gone c c') (hc : Whole c) : Whole c' := by
  intro f fetch' hf'
  obtain ⟨fetch, hf, hbare⟩ := h.symm.exists_fetch hf'
  exact (Fetch.bare_eq_iff.mp hbare).2.2.trans (hc f fetch hf)

/-! ### Steps that both runs take -/

theorem enrol (h : Alike gone c c') (waiter : Waiter) :
    Alike gone (c.enrol waiter) (c'.enrol waiter) where
  latest := h.latest
  current := h.current
  generation := h.generation
  inFlight := h.inFlight
  fetchCount := h.fetchCount
  nextObject := h.nextObject
  fetches := h.fetches
  size := by simp only [FetchCache.enrol, List.length_append, h.size]
  waiters := by
    intro w hw
    simp only [FetchCache.enrol, List.getElem?_append, h.size, h.waiters w hw]

theorem begin (h : Alike gone c c') : Alike gone c.begin c'.begin where
  latest := h.latest
  current := h.current
  generation := h.generation
  inFlight := by simp only [FetchCache.begin, h.length_fetches]
  fetchCount := by simp only [FetchCache.begin, h.fetchCount]
  nextObject := h.nextObject
  fetches := by simp only [FetchCache.begin, List.map_append, h.fetches, h.generation]
  size := h.size
  waiters := h.waiters

theorem request (h : Alike gone c c') : Alike gone c.request c'.request := by
  have hat := h.atHand?
  have hfl := h.inFlight
  cases hx : c.atHand? with
  | some x =>
    rw [request_of_atHand hx, request_of_atHand (hat ▸ hx)]
    exact h.enrol _
  | none =>
    cases hf : c.inFlight with
    | some f =>
      rw [request_of_inFlight hx hf, request_of_inFlight (hat ▸ hx) (hfl ▸ hf)]
      exact h.enrol _
    | none =>
      rw [request_of_idle hx hf, request_of_idle (hat ▸ hx) (hfl ▸ hf), h.length_fetches]
      exact h.begin.enrol _

theorem ended (h : Alike gone c c') {fetch fetch' : Fetch} (hbare : fetch.bare = fetch'.bare)
    (f : Nat) (ending : Ending) : Alike gone (c.ended f fetch ending) (c'.ended f fetch' ending) := by
  have hgen : fetch.generation = fetch'.generation := (Fetch.bare_eq_iff.mp hbare).1
  have hset : (c.ended f fetch ending).fetches.map Fetch.bare =
      (c'.ended f fetch' ending).fetches.map Fetch.bare := by
    simp only [FetchCache.ended, List.map_set, h.fetches, h.nextObject, Fetch.bare, hgen]
  cases ending with
  | loaded rules =>
    exact ⟨by simp [FetchCache.ended, land, h.nextObject],
      by simp [FetchCache.ended, land, h.generation, hgen], h.generation, rfl, h.fetchCount,
      by simp [FetchCache.ended, land, h.nextObject], hset, h.size, h.waiters⟩
  | failed failure =>
    exact ⟨h.latest, h.current, h.generation, rfl, h.fetchCount, h.nextObject, hset, h.size,
      h.waiters⟩
  | crashed message =>
    exact ⟨h.latest, h.current, h.generation, h.inFlight, h.fetchCount, h.nextObject, hset,
      h.size, h.waiters⟩

theorem complete (h : Alike gone c c') (f : Nat) (ending : Ending) :
    Alike gone (c.complete f ending) (c'.complete f ending) := by
  by_cases hrun : c.Running f
  · obtain ⟨fetch, hf, hr⟩ := hrun
    obtain ⟨fetch', hf', hbare⟩ := h.exists_fetch hf
    have hr' : fetch'.result = none := (Fetch.bare_eq_iff.mp hbare).2.1.symm.trans hr
    rw [complete_of_running ending hf hr, complete_of_running ending hf' hr']
    exact h.ended hbare f ending
  · rw [complete_of_not_running ending hrun,
      complete_of_not_running ending (mt h.running_iff.mpr hrun)]
    exact h

/-- Fetches that end whole are told in the same way. -/
theorem told (h : Alike gone c c') (hc : Whole c) {f : Nat} {fetch fetch' : Fetch}
    (hf : c.fetches[f]? = some fetch) (hbare : fetch.bare = fetch'.bare) (w : Nat)
    (answer : Answer) : Alike gone (c.told w f fetch answer) (c'.told w f fetch' answer) where
  latest := h.latest
  current := h.current
  generation := h.generation
  inFlight := by
    have hwhole : fetch.crashed = false := hc f fetch hf
    have hwhole' : fetch'.crashed = false := (Fetch.bare_eq_iff.mp hbare).2.2.symm.trans hwhole
    simp [FetchCache.told, hwhole, hwhole', h.inFlight]
  fetchCount := h.fetchCount
  nextObject := h.nextObject
  fetches := by
    obtain ⟨hgen, hres, hcrash⟩ := Fetch.bare_eq_iff.mp hbare
    simp only [FetchCache.told, List.map_set, h.fetches, Fetch.bare, hgen, hres, hcrash]
  size := by simp only [FetchCache.told, List.length_set, h.size]
  waiters := by
    intro w' hw'
    simp only [FetchCache.told, List.getElem?_set, h.size, h.waiters w' hw']

/-- A waiter who is there in both caches sees the same. -/
theorem observe (h : Alike gone c c') (hc : Whole c) {w : Nat} (hw : gone w = false) :
    Alike gone (c.observe w) (c'.observe w) := by
  rcases observe_cases c w with hkeep | ⟨f, fetch, answer, hwait, hf, hr⟩
  · rcases observe_cases c' w with hkeep' | ⟨f, fetch', answer, hwait', hf', hr'⟩
    · rw [hkeep, hkeep']
      exact h
    · obtain ⟨fetch, hf, hbare⟩ := h.symm.exists_fetch hf'
      have hwait : c.waiters[w]? = some ⟨some f, .pending⟩ := (h.waiters w hw).trans hwait'
      have hr : fetch.result = some answer := (Fetch.bare_eq_iff.mp hbare).2.1.symm.trans hr'
      rw [observe_of_outcome hwait hf hr, observe_of_outcome hwait' hf' hr']
      exact h.told hc hf hbare.symm w answer
  · obtain ⟨fetch', hf', hbare⟩ := h.exists_fetch hf
    have hwait' : c'.waiters[w]? = some ⟨some f, .pending⟩ := (h.waiters w hw).symm.trans hwait
    have hr' : fetch'.result = some answer := (Fetch.bare_eq_iff.mp hbare).2.1.symm.trans hr
    rw [observe_of_outcome hwait hf hr, observe_of_outcome hwait' hf' hr']
    exact h.told hc hf hbare w answer

theorem cancel (h : Alike gone c c') {w : Nat} (hw : gone w = false) :
    Alike gone (c.cancel w) (c'.cancel w) := by
  unfold FetchCache.cancel
  rw [h.waiters w hw]
  split
  · refine ⟨h.latest, h.current, h.generation, h.inFlight, h.fetchCount, h.nextObject, h.fetches,
      by simp only [List.length_set, h.size], ?_⟩
    intro w' hw'
    simp only [List.getElem?_set, h.size, h.waiters w' hw']
  · exact h

theorem invalidate (h : Alike gone c c') : Alike gone c.invalidate c'.invalidate where
  latest := h.latest
  current := rfl
  generation := congrArg (· + 1) h.generation
  inFlight := h.inFlight
  fetchCount := h.fetchCount
  nextObject := h.nextObject
  fetches := h.fetches
  size := h.size
  waiters := h.waiters

end Alike

/-! ### What a gone waiter does -/

theorem ne_of_gone {w w' : Nat} (hw : gone w = true) (hw' : gone w' = false) : w ≠ w' := by
  rintro rfl
  exact absurd (hw.symm.trans hw') (by simp)

/-- That a waiter has seen the end of its fetch shows at this waiter alone, unless the fetch crashed. -/
theorem alike_told (hc : Whole c) {w f : Nat} {fetch : Fetch} (hf : c.fetches[f]? = some fetch)
    (answer : Answer) (hw : gone w = true) : Alike gone c (c.told w f fetch answer) where
  latest := rfl
  current := rfl
  generation := rfl
  inFlight := by simp [told, hc f fetch hf]
  fetchCount := rfl
  nextObject := rfl
  fetches := by
    apply List.ext_getElem?
    intro g
    rw [List.getElem?_map, List.getElem?_map, getElem?_told hf]
    split
    · rename_i h
      rw [h, hf]
      rfl
    · rfl
  size := by simp [told]
  waiters := by
    intro w' hw'
    simp [told, ne_of_gone hw hw']

theorem alike_observe (hc : Whole c) {w : Nat} (hw : gone w = true) :
    Alike gone c (c.observe w) := by
  rcases observe_cases c w with h | ⟨f, fetch, answer, hwait, hf, hr⟩
  · rw [h]
    exact .refl gone c
  · rw [observe_of_outcome hwait hf hr]
    exact alike_told hc hf answer hw

theorem alike_cancel (c : FetchCache) {w : Nat} (hw : gone w = true) :
    Alike gone c (c.cancel w) := by
  rcases cancel_cases c w with h | ⟨fetch, -, h⟩
  · rw [h]
    exact .refl gone c
  · rw [h]
    refine ⟨rfl, rfl, rfl, rfl, rfl, rfl, rfl, by simp, ?_⟩
    intro w' hw'
    simp [ne_of_gone hw hw']

/-! ## One run with and one without -/

/-- A step that both runs take keeps them alike. -/
theorem Alike.step (h : Alike gone c c') (hc : Whole c) (s : Step) :
    Alike gone (c.step s) (c'.step s) := by
  cases s with
  | request => exact h.request
  | complete f ending => exact h.complete f ending
  | observe w =>
    cases hw : gone w with
    | true => exact ((alike_observe hc hw).symm.trans h).trans (alike_observe (h.whole hc) hw)
    | false => exact h.observe hc hw
  | cancel w =>
    cases hw : gone w with
    | true => exact ((alike_cancel c hw).symm.trans h).trans (alike_cancel c' hw)
    | false => exact h.cancel hw
  | invalidate => exact h.invalidate
  | look => exact h

/-- The step is none in which a gone waiter gives up. -/
def stays (gone : Nat → Bool) : Step → Bool
  | .cancel w => !gone w
  | _ => true

theorem exists_cancel_of_not_stays {s : Step} (h : ¬ stays gone s = true) :
    ∃ w, s = .cancel w ∧ gone w = true := by
  cases s with
  | cancel w => exact ⟨w, rfl, by simpa [stays] using h⟩
  | _ => exact absurd rfl h

/-- A calm run and the same run without gone waiters who give up lead to alike caches. -/
theorem alike_after (gone : Nat → Bool) {steps : List Step} (hcalm : Calm steps) :
    Alike gone (after steps) (after (steps.filter (stays gone))) := by
  induction steps using List.reverseRecOn with
  | nil => exact .refl gone empty
  | append_singleton steps s ih =>
    have halike := ih hcalm.of_append
    rw [List.filter_append, after_append, after_append]
    by_cases hs : stays gone s = true
    · rw [List.filter_cons_of_pos hs, List.filter_nil]
      exact halike.step (whole_after hcalm.of_append) s
    · obtain ⟨w, rfl, hw⟩ := exists_cancel_of_not_stays hs
      rw [List.filter_cons_of_neg hs, List.filter_nil]
      exact (alike_cancel _ hw).symm.trans halike

/-- **`SameFor gone c c'`** — whoever reads the caches, and every waiter that is not gone, finds the same
in both. -/
structure SameFor (gone : Nat → Bool) (c c' : FetchCache) : Prop where
  latest : c.latest = c'.latest
  rulesNow : c.rulesNow = c'.rulesNow
  hasRules : c.hasRules = c'.hasRules
  isCurrent : c.isCurrent = c'.isCurrent
  isFetching : c.isFetching = c'.isFetching
  generation : c.generation = c'.generation
  fetchCount : c.fetchCount = c'.fetchCount
  running : ∀ f, c.Running f ↔ c'.Running f
  outcome : ∀ f, c.outcome? f = c'.outcome? f
  size : c.waiters.length = c'.waiters.length
  waiters : ∀ w, gone w = false → c.waiters[w]? = c'.waiters[w]?

theorem Alike.sameFor (h : Alike gone c c') : SameFor gone c c' where
  latest := h.latest
  rulesNow := by rw [rulesNow, rulesNow, h.latest]
  hasRules := by rw [hasRules, hasRules, h.latest]
  isCurrent := by rw [isCurrent, isCurrent, h.current, h.latest]
  isFetching := by rw [isFetching, isFetching, h.inFlight]
  generation := h.generation
  fetchCount := h.fetchCount
  running := fun _ => h.running_iff
  outcome := h.outcome?
  size := h.size
  waiters := h.waiters

/-- **Leaving.**  Take a run in which no fetch crashes, and any set of gone waiters.  After every step
of the run, the cache is the same for all others as after the steps up to there without those in which
a gone waiter gives up: the rules kept, whether they are current and whether a fetch is in flight, the
generation, the number of fetches and how each ended, and every other waiter with what it was told. -/
theorem leaving_unnoticed (gone : Nat → Bool) (steps : List Step) (hcalm : Calm steps) :
    ∀ before rest, steps = before ++ rest →
      SameFor gone (after before) (after (before.filter (stays gone))) := by
  rintro before rest rfl
  exact (alike_after gone hcalm.of_append).sameFor

/-- The waiter whose request started the fetch gives up, and the other one is told the rules. -/
theorem leaving_unnoticed_starter :
    let steps : List Step := [.request, .request, .cancel 0, .complete 0 (.loaded .empty), .observe 1]
    Calm steps ∧ steps.filter (stays (· == 0)) =
      [.request, .request, .complete 0 (.loaded .empty), .observe 1] ∧
    (after steps).waiters[1]? = some ⟨some 0, .answered (.ok ⟨0, .empty⟩)⟩ ∧
    SameFor (· == 0) (after steps) (after (steps.filter (stays (· == 0)))) := by
  intro steps
  have hcalm : Calm steps := calm_of_notMem (by simp [steps])
  exact ⟨hcalm, rfl, rfl,
    leaving_unnoticed (· == 0) steps hcalm steps [] (List.append_nil steps).symm⟩

end AlertRules.FetchCache
