import AlertRules.FetchCache

/-!
# AlertRules.Proofs.FetchCache.Alone — one caller at a time

A caller who waits alone and finds no fetch in flight gets the current rules, or starts a fetch and
gets what it gives.  Afterwards there is again no fetch in flight, so that callers who come one after
the other never meet each other.
-/

namespace AlertRules.FetchCache

variable {c : FetchCache}

theorem latest_of_atHand {fetched : Fetched} (h : c.atHand? = some fetched) :
    c.latest = some fetched := by
  unfold atHand? at h
  split at h
  · exact h
  · exact absurd h (by simp)

theorem atHand?_of_current_eq_false (h : c.current = false) : c.atHand? = none := by
  unfold atHand?
  rw [h]
  rfl

theorem get_of_atHand {fetched : Fetched} (h : c.atHand? = some fetched)
    (load : Except Failure Ruleset) : c.get load = (.ok fetched, c) := by
  unfold get
  rw [h]

/-- Alone, a caller starts a fetch and sees it end. -/
theorem get_of_idle (hidle : c.inFlight = none) (h : c.atHand? = none)
    (load : Except Failure Ruleset) :
    c.get load =
      ((Ending.ofExcept load).answer c.nextObject,
        c.join.2.complete c.fetches.length (Ending.ofExcept load)) := by
  have hjoin : c.join.1 = c.fetches.length := by
    unfold join
    rw [hidle]
  have hobject : c.join.2.nextObject = c.nextObject := by
    unfold join
    rw [hidle]
  unfold get
  rw [h]
  dsimp only
  rw [hobject, hjoin]

theorem complete_join (hidle : c.inFlight = none) (ending : Ending) :
    ∃ fetches, c.join.2.complete c.fetches.length ending =
      { c.join.2.land (.begun c.generation) ending with fetches } := by
  have hfetch : c.join.2.fetches[c.fetches.length]? = some (.begun c.generation) := by
    unfold join
    rw [hidle]
    exact List.getElem?_concat_length
  unfold complete
  rw [hfetch]
  exact ⟨_, rfl⟩

/-- A fetch that gives rules makes them the current ones. -/
theorem get_of_loaded (hidle : c.inFlight = none) (h : c.atHand? = none) (rules : Ruleset) :
    ∃ c', c.get (.ok rules) = (.ok ⟨c.nextObject, rules⟩, c') ∧
      c'.latest = some ⟨c.nextObject, rules⟩ ∧ c'.current = true ∧ c'.inFlight = none := by
  refine ⟨_, get_of_idle hidle h (.ok rules), ?_⟩
  obtain ⟨fetches, hcomplete⟩ := complete_join hidle (Ending.ofExcept (.ok rules))
  rw [hcomplete]
  unfold join
  rw [hidle]
  exact ⟨rfl, beq_self_eq_true c.generation, rfl⟩

/-- A fetch that fails leaves the rules as they are. -/
theorem get_of_failed (hidle : c.inFlight = none) (h : c.atHand? = none) (failure : Failure) :
    ∃ c', c.get (.error failure) = (.error failure, c') ∧
      c'.latest = c.latest ∧ c'.current = c.current ∧ c'.inFlight = none := by
  refine ⟨_, get_of_idle hidle h (.error failure), ?_⟩
  obtain ⟨fetches, hcomplete⟩ := complete_join hidle (Ending.ofExcept (.error failure))
  rw [hcomplete]
  unfold join
  rw [hidle]
  exact ⟨rfl, rfl, rfl⟩

end AlertRules.FetchCache
