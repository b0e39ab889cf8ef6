import AlertRules.Proofs.FetchCache.Alone
import AlertRules.Service

/-!
# AlertRules.Proofs.Service.Runs — operations one after the other

A run of the service is a list of operations, each completed before the next, on a service that has
not fetched anything and whose file nobody else writes.  In every service that is reached no fetch is
in flight, and the rules in the cache, if they are current, are those in the file (`Settled`).
-/

namespace AlertRules.Service

/-! ## Operations -/

/-- An operation of the service. -/
inductive Op where
  | clear
  | get
  | find (e : Event)
  | findNow (e : Event)
  | findAmong (e : Event) (rules : Ruleset)
  | highlight (e : Event)
  | addContent (pattern : String) (actions : List Action)
  | addRoom (id : String) (actions : List Action)
  | addSender (id : String) (actions : List Action)
  | deleteContent (id : String)
  | deleteRoom (id : String)
  | deleteSender (id : String)

/-- The service after the operation. -/
def step (s : Service) : Op → Service
  | .clear => s.clear
  | .get => s.getRules.2
  | .find e => (s.match? e).2
  | .findNow e => (s.matchNow? e).2
  | .findAmong e rules => (s.matchWith e rules).2
  | .highlight e => (s.highlights e).2
  | .addContent pattern actions => (s.addContent pattern actions).2
  | .addRoom id actions => (s.addTemplate .room id actions).2
  | .addSender id actions => (s.addTemplate .sender id actions).2
  | .deleteContent id => (s.delete .content id).2
  | .deleteRoom id => (s.delete .room id).2
  | .deleteSender id => (s.delete .sender id).2

/-- The service after the operations, one after the other. -/
def run (s : Service) (ops : List Op) : Service :=
  ops.foldl step s

/-! ## What an operation changes -/

/-- **`s.SameRules s'`** — the two services have the same file and the same cache. -/
structure SameRules (s s' : Service) : Prop where
  path_eq : s'.path = s.path
  file_eq : s'.file = s.file
  cache_eq : s'.cache = s.cache

theorem SameRules.fetch_eq {s s' : Service} (h : SameRules s s') : s'.fetch = s.fetch := by
  rw [fetch, fetch, h.path_eq, h.file_eq]

theorem sameRules_matchWith (s : Service) (e : Event) (rules : Ruleset) :
    SameRules s (s.matchWith e rules).2 :=
  ⟨rfl, rfl, rfl⟩

/-- Matching an event changes no more than fetching the rules for it. -/
theorem sameRules_match? (s : Service) (e : Event) : SameRules s.getRules.2 (s.match? e).2 := by
  unfold match?
  split
  · rename_i heq
    rw [heq]
    exact ⟨rfl, rfl, rfl⟩
  · rename_i heq
    rw [heq]
    exact ⟨rfl, rfl, rfl⟩

theorem add_fst (s : Service) (kind : Kind) (id : String) (body : Json) :
    (s.add kind id body).1 = (RulesFile.add "global" kind id body s.file).1 :=
  rfl

theorem addFor_eq (s : Service) (pattern : String) (actions : List Action) :
    s.addFor pattern actions =
      ((s.add .content (s.freshId pattern)
          (.ofMembers [("pattern", .str pattern), ("actions", actionsJson actions)])).1.map
          fun _ => s.freshId pattern,
        (s.add .content (s.freshId pattern)
          (.ofMembers [("pattern", .str pattern), ("actions", actionsJson actions)])).2) := by
  unfold addFor
  dsimp only
  split
  · rename_i heq
    rw [heq]
    rfl
  · rename_i heq
    rw [heq]
    rfl

theorem addContent_of_hasRules {s : Service} (h : s.cache.hasRules = true) (pattern : String)
    (actions : List Action) : s.addContent pattern actions = s.addFor pattern actions := by
  rw [addContent, if_pos h]

theorem addContent_of_failed {s : Service} (h : s.cache.hasRules = false) {failure : Failure}
    (hget : s.getRules.1 = .error failure) (pattern : String) (actions : List Action) :
    s.addContent pattern actions = (.error failure, s.getRules.2) := by
  rw [addContent, if_neg (by rw [h]; simp)]
  split
  · rename_i heq
    rw [heq] at hget ⊢
    rw [Except.error.inj hget]
  · rename_i heq
    rw [heq] at hget
    exact absurd hget (by simp)

theorem addContent_of_loaded {s : Service} (h : s.cache.hasRules = false) {fetched : Fetched}
    (hget : s.getRules.1 = .ok fetched) (pattern : String) (actions : List Action) :
    s.addContent pattern actions = s.getRules.2.addFor pattern actions := by
  rw [addContent, if_neg (by rw [h]; simp)]
  split
  · rename_i heq
    rw [heq] at hget
    exact absurd hget (by simp)
  · rename_i heq
    rw [heq]

/-! ## Settled services -/

/-- No fetch is in flight, and current rules are the rules in the file. -/
structure Settled (s : Service) : Prop where
  idle : s.cache.inFlight = none
  current : ∀ fetched, s.cache.atHand? = some fetched → s.fetch = .ok fetched.rules

theorem settled_start (path : String) (file : File.Content) (setting : Setting) :
    (start path file setting).Settled :=
  ⟨rfl, fun fetched h => absurd h (by simp [start, FetchCache.empty, FetchCache.atHand?])⟩

/-- What a caller who asks for the rules gets, and what the cache keeps. -/
inductive Answered (s : Service) : Prop where
  /-- The rules in the file, which the cache keeps. -/
  | loaded (fetched : Fetched) (answer : s.getRules.1 = .ok fetched)
      (fetch_eq : s.fetch = .ok fetched.rules)
      (latest : s.getRules.2.cache.latest = some fetched)
  /-- The reason why there are none, and the cache keeps what it has. -/
  | failed (failure : Failure) (answer : s.getRules.1 = .error failure)
      (fetch_eq : s.fetch = .error failure)
      (latest : s.getRules.2.cache.latest = s.cache.latest)

/-- Whoever asks for the rules gets what the file holds. -/
theorem Settled.answered {s : Service} (h : s.Settled) : s.Answered := by
  cases hhand : s.cache.atHand? with
  | some fetched =>
    have hget := FetchCache.get_of_atHand hhand s.fetch
    refine .loaded fetched ?_ (h.current fetched hhand) ?_
    · rw [getRules, hget]
    · rw [getRules, hget]
      exact FetchCache.latest_of_atHand hhand
  | none =>
    cases hfetch : s.fetch with
    | ok rules =>
      obtain ⟨c, hget, hlatest, -, -⟩ := FetchCache.get_of_loaded h.idle hhand rules
      refine .loaded ⟨s.cache.nextObject, rules⟩ ?_ hfetch ?_
      · rw [getRules, hfetch, hget]
      · rw [getRules, hfetch, hget]
        exact hlatest
    | error failure =>
      obtain ⟨c, hget, hlatest, -, -⟩ := FetchCache.get_of_failed h.idle hhand failure
      refine .failed failure ?_ hfetch ?_
      · rw [getRules, hfetch, hget]
      · rw [getRules, hfetch, hget]
        exact hlatest

theorem Settled.getRules {s : Service} (h : s.Settled) : s.getRules.2.Settled := by
  cases hhand : s.cache.atHand? with
  | some fetched =>
    have hget := FetchCache.get_of_atHand hhand s.fetch
    rw [Service.getRules, hget]
    exact h
  | none =>
    cases hfetch : s.fetch with
    | ok rules =>
      obtain ⟨c, hget, hlatest, -, hidle⟩ := FetchCache.get_of_loaded h.idle hhand rules
      rw [Service.getRules, hfetch, hget]
      refine ⟨hidle, ?_⟩
      intro fetched hcurrent
      have heq := (FetchCache.latest_of_atHand hcurrent).symm.trans hlatest
      rw [Option.some.inj heq]
      exact hfetch
    | error failure =>
      obtain ⟨c, hget, hlatest, hcurrent, hidle⟩ := FetchCache.get_of_failed h.idle hhand failure
      rw [Service.getRules, hfetch, hget]
      refine ⟨hidle, ?_⟩
      intro fetched hsome
      have hnone : c.atHand? = none := by
        unfold FetchCache.atHand? at hhand ⊢
        rw [hlatest, hcurrent]
        exact hhand
      exact absurd (hnone.symm.trans hsome) (by simp)

theorem Settled.of_sameRules {s s' : Service} (h : s.Settled) (hsame : SameRules s s') :
    s'.Settled := by
  refine ⟨hsame.cache_eq ▸ h.idle, ?_⟩
  intro fetched hcurrent
  rw [hsame.fetch_eq]
  exact h.current fetched (hsame.cache_eq ▸ hcurrent)

/-- Without current rules only the flight counts. -/
theorem Settled.invalidate {s s' : Service} (h : s.Settled)
    (hcache : s'.cache = s.cache.invalidate) : s'.Settled := by
  refine ⟨by rw [hcache]; exact h.idle, ?_⟩
  intro fetched hcurrent
  have hnone : s'.cache.atHand? = none := FetchCache.atHand?_of_current_eq_false (by rw [hcache]; rfl)
  exact absurd (hnone.symm.trans hcurrent) (by simp)

theorem Settled.addContent {s : Service} (h : s.Settled) (pattern : String)
    (actions : List Action) : (s.addContent pattern actions).2.Settled := by
  cases hrules : s.cache.hasRules with
  | true =>
    rw [addContent_of_hasRules hrules, addFor_eq]
    exact h.invalidate rfl
  | false =>
    cases hget : s.getRules.1 with
    | error failure =>
      rw [addContent_of_failed hrules hget]
      exact h.getRules
    | ok fetched =>
      rw [addContent_of_loaded hrules hget, addFor_eq]
      exact h.getRules.invalidate rfl

/-- Every operation leaves a settled service settled. -/
theorem Settled.step {s : Service} (h : s.Settled) (op : Op) : (s.step op).Settled := by
  cases op with
  | clear => exact h.invalidate rfl
  | get => exact h.getRules
  | find e => exact h.getRules.of_sameRules (sameRules_match? s e)
  | findNow e => exact h.of_sameRules (sameRules_matchWith s e _)
  | findAmong e rules => exact h.of_sameRules (sameRules_matchWith s e rules)
  | highlight e => exact h.of_sameRules (sameRules_matchWith s e _)
  | addContent pattern actions => exact h.addContent pattern actions
  | addRoom id actions => exact h.invalidate rfl
  | addSender id actions => exact h.invalidate rfl
  | deleteContent id => exact h.invalidate rfl
  | deleteRoom id => exact h.invalidate rfl
  | deleteSender id => exact h.invalidate rfl

/-- Every service that a run reaches is settled. -/
theorem Settled.run {s : Service} (h : s.Settled) (ops : List Op) : (s.run ops).Settled := by
  induction ops generalizing s with
  | nil => exact h
  | cons op ops ih => exact ih (h.step op)

end AlertRules.Service
