import AlertRules.Proofs.FetchCache.Sharing

/-!
# AlertRules.Proofs.FetchCache.Freshness — rules and invalidations

A fetch belongs to the generation in which it started.  `Dated` ties the generations to the flag
`current`: current rules come from a fetch of the present generation, and while rules are current
nothing is in flight.  `Divided` says that an invalidation divides the fetches: the ones before it and
the ones after it can be told apart by their generation.

From this follows what a request may hope for that comes after an invalidation: rules of a fetch that
started after the invalidation too, unless an older fetch was still in flight when the request came.
-/

namespace AlertRules.FetchCache

/-! ## The generation of a fetch -/

/-- The generation in which the fetch of that number started. -/
def startedAt? (c : FetchCache) (f : Nat) : Option Nat :=
  (c.fetches[f]?).map Fetch.generation

theorem startedAt?_enrol (c : FetchCache) (waiter : Waiter) (g : Nat) :
    (c.enrol waiter).startedAt? g = c.startedAt? g := rfl

theorem startedAt?_begin (c : FetchCache) (g : Nat) :
    c.begin.startedAt? g =
      if g = c.fetches.length then some c.generation else c.startedAt? g := by
  simp only [startedAt?, getElem?_begin]
  split <;> rfl

theorem startedAt?_ended {c : FetchCache} {f : Nat} {fetch : Fetch}
    (hf : c.fetches[f]? = some fetch) (ending : Ending) (g : Nat) :
    (c.ended f fetch ending).startedAt? g = c.startedAt? g := by
  simp only [startedAt?, getElem?_ended hf]
  split
  · rename_i h
    rw [h, hf]
    rfl
  · rfl

theorem startedAt?_told {c : FetchCache} {f : Nat} {fetch : Fetch}
    (hf : c.fetches[f]? = some fetch) (w : Nat) (answer : Answer) (g : Nat) :
    (c.told w f fetch answer).startedAt? g = c.startedAt? g := by
  simp only [startedAt?, getElem?_told hf]
  split
  · rename_i h
    rw [h, hf]
    rfl
  · rfl

/-- A step keeps the generations of the fetches; one that starts now belongs to the present one. -/
theorem Transition.startedAt? {c c' : FetchCache} (h : Transition c c') {f g : Nat}
    (hf : c'.startedAt? f = some g) :
    c.startedAt? f = some g ∨ f = c.fetches.length ∧ g = c.generation := by
  cases h with
  | idle => exact Or.inl hf
  | served _ => exact Or.inl hf
  | joined _ _ => exact Or.inl hf
  | begun _ _ =>
    rw [startedAt?_enrol, startedAt?_begin] at hf
    split at hf
    · rename_i hlast
      exact Or.inr ⟨hlast, (Option.some.inj hf).symm⟩
    · exact Or.inl hf
  | ended ending hget _ => exact Or.inl (by rwa [startedAt?_ended hget] at hf)
  | told _ hget _ => exact Or.inl (by rwa [startedAt?_told hget] at hf)
  | cancelled _ => exact Or.inl hf
  | invalidated => exact Or.inl hf

theorem Transition.generation_le {c c' : FetchCache} (h : Transition c c') :
    c.generation ≤ c'.generation := by
  cases h with
  | ended ending _ _ => simp [FetchCache.ended]
  | invalidated => exact Nat.le_succ _
  | _ => exact Nat.le_refl _

/-! ## Current rules are of the present generation -/

/-- **`Dated c`** — no fetch is from the future, and current rules are from the present: nothing is in
flight then, and the rules at hand come from a fetch that started in this generation. -/
structure Dated (c : FetchCache) : Prop where
  startedAt_le : ∀ f g, c.startedAt? f = some g → g ≤ c.generation
  current_idle : c.current = true → c.inFlight = none
  current_latest : c.current = true → ∃ f x, c.latest = some x ∧
    c.outcome? f = some (.ok x) ∧ c.startedAt? f = some c.generation

theorem dated_empty : Dated empty where
  startedAt_le := by simp [empty, startedAt?]
  current_idle := by simp [empty]
  current_latest := by simp [empty]

theorem Dated.ended {c : FetchCache} (h : Dated c) {f : Nat} {fetch : Fetch} (ending : Ending)
    (hf : c.fetches[f]? = some fetch) (hflight : c.inFlight = some f) : Dated (c.ended f fetch ending) where
  startedAt_le := by
    intro g n hg
    rw [startedAt?_ended hf] at hg
    simpa [FetchCache.ended] using h.startedAt_le g n hg
  current_idle := by
    intro hcur
    -- only a crash leaves the flight as it was, and then the rules were not current before
    cases ending with
    | loaded rules => rfl
    | failed failure => rfl
    | crashed message => exact absurd (h.current_idle hcur) (by simp [hflight])
  current_latest := by
    intro hcur
    cases ending with
    | loaded rules =>
      have hgen : c.generation = fetch.generation := by
        simpa [FetchCache.ended, land] using hcur
      refine ⟨f, ⟨c.nextObject, rules⟩, rfl, ?_, ?_⟩
      · rw [outcome?_ended hf, if_pos rfl]
        rfl
      · rw [startedAt?_ended hf, FetchCache.startedAt?, hf, Option.map_some, ← hgen]
        rfl
    | failed failure => exact absurd (h.current_idle hcur) (by simp [hflight])
    | crashed message => exact absurd (h.current_idle hcur) (by simp [hflight])

theorem Dated.told {c : FetchCache} (h : Dated c) {w f : Nat} {fetch : Fetch} (answer : Answer)
    (hf : c.fetches[f]? = some fetch) : Dated (c.told w f fetch answer) where
  startedAt_le := by
    intro g n hg
    rw [startedAt?_told hf] at hg
    exact h.startedAt_le g n hg
  current_idle := by
    intro hcur
    have hidle := h.current_idle hcur
    simp [FetchCache.told, hidle]
  current_latest := by
    intro hcur
    obtain ⟨g, x, hx, hg, hgen⟩ := h.current_latest hcur
    exact ⟨g, x, hx, by rw [outcome?_told hf, hg], by rw [startedAt?_told hf, hgen]; rfl⟩

theorem Dated.begin {c : FetchCache} (h : Dated c) (hx : c.atHand? = none) : Dated c.begin := by
  have hnot : c.current ≠ true := by
    intro hcur
    obtain ⟨-, x, hlatest, -, -⟩ := h.current_latest hcur
    simp [atHand?, hcur, hlatest] at hx
  refine ⟨?_, fun hcur => absurd hcur hnot, fun hcur => absurd hcur hnot⟩
  intro g n hg
  rw [startedAt?_begin] at hg
  split at hg
  · exact Nat.le_of_eq (Option.some.inj hg).symm
  · exact h.startedAt_le g n hg

theorem Dated.invalidate {c : FetchCache} (h : Dated c) : Dated c.invalidate where
  startedAt_le := fun f g hf => Nat.le_succ_of_le (h.startedAt_le f g hf)
  current_idle := by simp [FetchCache.invalidate]
  current_latest := by simp [FetchCache.invalidate]

theorem Dated.transition {c c' : FetchCache} (h : Dated c) (hs : Sound c) (ht : Transition c c') :
    Dated c' := by
  cases ht with
  | idle => exact h
  | served _ => exact ⟨h.startedAt_le, h.current_idle, h.current_latest⟩
  | joined _ _ => exact ⟨h.startedAt_le, h.current_idle, h.current_latest⟩
  | begun hx _ =>
    have hb := h.begin hx
    exact ⟨hb.startedAt_le, hb.current_idle, hb.current_latest⟩
  | ended ending hf hr => exact h.ended ending hf (hs.running_in_flight _ ⟨_, hf, hr⟩)
  | told _ hf _ => exact h.told _ hf
  | cancelled _ => exact ⟨h.startedAt_le, h.current_idle, h.current_latest⟩
  | invalidated => exact h.invalidate

theorem Dated.run {c : FetchCache} (h : Dated c) (hs : Sound c) (steps : List Step) :
    Dated (c.run steps) :=
  hs.run_keeps Dated.transition h steps

theorem dated_after (steps : List Step) : Dated (after steps) :=
  dated_empty.run sound_empty steps

/-! ## An invalidation divides the fetches -/

/-- **`c.Divided n g`** — the first `n` fetches started before generation `g`, all later ones in it or
after it. -/
structure Divided (c : FetchCache) (n g : Nat) : Prop where
  generation_ge : g ≤ c.generation
  length_ge : n ≤ c.fetches.length
  startedAt_lt_iff : ∀ f m, c.startedAt? f = some m → (m < g ↔ f < n)

theorem Dated.divided {c : FetchCache} (h : Dated c) :
    Divided c.invalidate c.fetches.length (c.generation + 1) where
  generation_ge := Nat.le_refl _
  length_ge := Nat.le_refl _
  startedAt_lt_iff := by
    intro f m hf
    have hm := h.startedAt_le f m hf
    obtain ⟨fetch, hget, -⟩ := Option.map_eq_some_iff.mp hf
    have hlt : f < c.fetches.length := (List.getElem?_eq_some_iff.mp hget).1
    constructor <;> intro <;> omega

theorem Divided.transition {c c' : FetchCache} {n g : Nat} (h : Divided c n g)
    (ht : Transition c c') : Divided c' n g where
  generation_ge := Nat.le_trans h.generation_ge ht.generation_le
  length_ge := Nat.le_trans h.length_ge ht.extends.length_le
  startedAt_lt_iff := by
    intro f m hf
    rcases ht.startedAt? hf with hold | ⟨rfl, rfl⟩
    · exact h.startedAt_lt_iff f m hold
    · have hg := h.generation_ge
      have hn := h.length_ge
      constructor <;> intro <;> omega

theorem Divided.run {c : FetchCache} {n g : Nat} (h : Divided c n g) (steps : List Step) :
    Divided (c.run steps) n g :=
  run_keeps Divided.transition h steps

/-! ## A request after an invalidation -/

/-- A request that was answered at once got the rules of a fetch of the present generation. -/
theorem Dated.atHand {c : FetchCache} (h : Dated c) {x : Fetched} (hx : c.atHand? = some x) :
    c.inFlight = none ∧ ∃ f, c.outcome? f = some (.ok x) ∧ c.startedAt? f = some c.generation := by
  have hcur : c.current = true := by
    cases hnot : c.current with
    | true => rfl
    | false => simp [atHand?, hnot] at hx
  obtain ⟨f, y, hy, hf, hgen⟩ := h.current_latest hcur
  have hxy : x = y := by
    have hlatest := latest_of_atHand hx
    rw [hy] at hlatest
    exact (Option.some.inj hlatest).symm
  subst hxy
  exact ⟨h.current_idle hcur, f, hf, hgen⟩

/-- The waiter of a request: where it stands in every later state. -/
theorem waiter_of_request {c : FetchCache} {joined : Option Nat} {waiting : Waiting}
    (hreq : c.request.waiters[c.waiters.length]? = some ⟨joined, waiting⟩)
    {rest : List Step} {joined' : Option Nat} {answer : Answer}
    (hw : (c.run (.request :: rest)).waiters[c.waiters.length]? =
      some ⟨joined', .answered answer⟩) :
    joined' = joined ∧ (waiting = .answered answer ∨ waiting = .pending) := by
  obtain ⟨waiting', hw', hkeep⟩ := waiter_run hreq rest
  have heq : some (⟨joined', .answered answer⟩ : Waiter) = some ⟨joined, waiting'⟩ :=
    hw.symm.trans hw'
  simp only [Option.some.injEq, Waiter.mk.injEq] at heq
  obtain ⟨hj, rfl⟩ := heq
  rcases hkeep with h | ⟨h, -⟩
  · exact ⟨hj, Or.inl h.symm⟩
  · exact ⟨hj, Or.inr h⟩

/-- What a request that does not find the rules at hand is told later is the outcome of the fetch that
was in flight then or, if none was, of the fetch that it started. -/
theorem told_of_request {c : FetchCache} (hs : Sound c) (hat : c.atHand? = none) {later : List Step}
    {joined : Option Nat} {answer : Answer}
    (hw : (c.run (.request :: later)).waiters[c.waiters.length]? =
      some ⟨joined, .answered answer⟩) :
    joined = some (c.inFlight.getD c.fetches.length) ∧
      (c.run (.request :: later)).outcome? (c.inFlight.getD c.fetches.length) = some answer := by
  have hreq : c.request.waiters[c.waiters.length]? =
      some ⟨some (c.inFlight.getD c.fetches.length), .pending⟩ := by
    cases hf : c.inFlight with
    | some f => simp [request_of_inFlight hat hf, enrol]
    | none => simp [request_of_idle hat hf, enrol, begin]
  obtain ⟨rfl, -⟩ := waiter_of_request hreq hw
  exact ⟨rfl, (hs.run _).told_outcome hw⟩

/-- **Freshness.**  A request that comes after an invalidation and is answered with rules is answered with
the rules of one fetch, and that fetch started before the invalidation iff a fetch from before the
invalidation was in flight when the request came.  What was in flight then is what was joined. -/
theorem older_rules_iff_joined (before between rest : List Step) (joined : Option Nat)
    (x : Fetched) :
    let c₀ := after (before ++ [.invalidate])
    let c₁ := c₀.run between
    let c := c₁.run (.request :: rest)
    c.waiters[c₁.waiters.length]? = some ⟨joined, .answered (.ok x)⟩ →
    ∃ f, c.outcome? f = some (.ok x) ∧ (∀ g, c.outcome? g = some (.ok x) → g = f) ∧
      (f < c₀.fetchCount ↔ ∃ g, c₁.inFlight = some g ∧ g < c₀.fetchCount) ∧
      (∀ g, c₁.inFlight = some g → g = f) := by
  intro c₀ c₁ c hw
  have hs₀ : Sound c₀ := sound_after _
  have hs₁ : Sound c₁ := hs₀.run between
  have hs : Sound c := hs₁.run _
  have hd₁ : Dated c₁ := (dated_after _).run hs₀ between
  have hdiv : Divided c₁ c₀.fetches.length (after before).invalidate.generation := by
    have hc₀ : c₀ = (after before).invalidate := after_append before [.invalidate]
    have hd : Divided c₀ c₀.fetches.length (after before).invalidate.generation := by
      rw [hc₀]
      exact (dated_after before).divided
    exact hd.run between
  have hcount : c₀.fetchCount = c₀.fetches.length := hs₀.counted
  have honce : ∀ f, c.outcome? f = some (.ok x) → ∀ g, c.outcome? g = some (.ok x) → g = f :=
    fun f hf g hg => hs.object_once g f x x hg hf rfl
  rw [hcount]
  cases hat : c₁.atHand? with
  | some y =>
    obtain ⟨hidle, f, hf, hgen⟩ := hd₁.atHand hat
    have hreq : c₁.request.waiters[c₁.waiters.length]? = some ⟨none, .answered (.ok y)⟩ := by
      simp [request_of_atHand hat, enrol]
    obtain ⟨-, hy | hy⟩ := waiter_of_request hreq hw
    · obtain rfl : y = x := by simpa using hy
      have hfx : c.outcome? f = some (.ok y) := (extends_run c₁ _).outcome f _ hf
      refine ⟨f, hfx, honce f hfx, ?_, by simp [hidle]⟩
      rw [← hdiv.startedAt_lt_iff f _ hgen]
      simp only [hidle, reduceCtorEq, false_and, exists_false, iff_false, Nat.not_lt]
      exact hdiv.generation_ge
    · exact absurd hy (by simp)
  | none =>
    obtain ⟨-, hfx⟩ := told_of_request hs₁ hat hw
    refine ⟨_, hfx, honce _ hfx, ?_⟩
    cases c₁.inFlight with
    | some g => simp
    | none => simpa using hdiv.length_ge

/-- A request that starts its own fetch after an invalidation, while a fetch from before the
invalidation has come and gone. -/
theorem older_rules_iff_joined_own_fetch :
    let c₀ := after [.request, .invalidate]
    let c₁ := c₀.run [.complete 0 (.loaded .empty), .observe 0]
    let c := c₁.run [.request, .complete 1 (.loaded .empty), .observe 1]
    c.waiters[c₁.waiters.length]? = some ⟨some 1, .answered (.ok ⟨1, .empty⟩)⟩ ∧
    ∃ f, c.outcome? f = some (.ok ⟨1, .empty⟩) ∧
      (∀ g, c.outcome? g = some (.ok ⟨1, .empty⟩) → g = f) ∧
      (f < c₀.fetchCount ↔ ∃ g, c₁.inFlight = some g ∧ g < c₀.fetchCount) ∧
      (∀ g, c₁.inFlight = some g → g = f) :=
  ⟨rfl, older_rules_iff_joined [.request] [.complete 0 (.loaded .empty), .observe 0]
    [.complete 1 (.loaded .empty), .observe 1] (some 1) ⟨1, .empty⟩ rfl⟩

/-- It is not so that a request after an invalidation always gets the rules of a fetch that started
after the invalidation: one that joins an older fetch gets its rules. -/
theorem not_always_younger_rules :
    ¬ ∀ (before between rest : List Step) (joined : Option Nat) (x : Fetched) (f : Nat),
      let c₀ := after (before ++ [.invalidate])
      let c₁ := c₀.run between
      let c := c₁.run (.request :: rest)
      c.waiters[c₁.waiters.length]? = some ⟨joined, .answered (.ok x)⟩ →
      c.outcome? f = some (.ok x) → c₀.fetchCount ≤ f := by
  intro h
  have hle := h [.request] [] [.complete 0 (.loaded .empty), .observe 1] (some 0)
    ⟨0, .empty⟩ 0 rfl rfl
  exact absurd hle (by decide)

end AlertRules.FetchCache
