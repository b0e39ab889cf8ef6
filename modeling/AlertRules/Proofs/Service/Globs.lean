import AlertRules.Proofs.Glob.Cache
import AlertRules.Proofs.Service.Answers

/-!
# AlertRules.Proofs.Service.Globs — the cache of globs cannot be seen

A service keeps one cache of globs for all its matches.  Whatever it has matched before, an event gets
the rule that it gets without a cache (`MatchesAfresh`).  The cache itself, whatever it has been asked
for, gives what compiling gives (`Glob.Cache.Serves`), and compiles no glob a second time while it is
kept (`Glob.Cache.Shares`).
-/

namespace AlertRules

namespace Glob

/-- What a glob is asked for with: the key of a condition, the glob, and the mode. -/
structure Call where
  key : String
  glob : String
  mode : Mode

/-- What the answer is kept under. -/
def Call.cacheKey (q : Call) : CacheKey :=
  ⟨Anchor.ofKey q.key, q.glob, q.mode⟩

namespace Cache

/-- The cache after these calls. -/
def asked (c : Cache) (calls : List Call) : Cache :=
  c.after (calls.map Call.cacheKey)

/-- **`c.Serves q`** — a call gives what compiling the glob gives, leaves between one and 1024 entries
for different keys, and throws entries away exactly if it is for a new key and there are 1024. -/
structure Serves (c : Cache) (q : Call) : Prop where
  matcher : (c.get q.cacheKey).1.map CachedMatcher.matcher =
    Matcher.compile? q.glob (Anchor.ofKey q.key) q.mode
  size_pos : 1 ≤ (c.get q.cacheKey).2.size
  size_le : (c.get q.cacheKey).2.size ≤ 1024
  keys : ((c.get q.cacheKey).2.entries.map CacheEntry.key).Nodup
  clears : c.Clears q.cacheKey ↔ (∀ e ∈ c.entries, e.key ≠ q.cacheKey) ∧ c.size = 1024

theorem Distinct.serves {c : Cache} (h : c.Distinct) (q : Call) : c.Serves q where
  matcher := c.get_eq_compile? q.cacheKey
  size_pos := size_get_pos c q.cacheKey
  size_le := (c.get q.cacheKey).2.bounded
  keys := (h.get q.cacheKey).keys
  clears := by
    rw [clears_iff, find?, List.find?_eq_none]
    simp only [decide_eq_true_eq, cacheLimit, ne_eq]

/-- **`c.Shares q between q'`** — of two calls with others between them, those for the same anchor, glob
and mode give the same object, or both nothing, unless the cache is cleared between them; and no others
give the same object. -/
structure Shares (c : Cache) (q : Call) (between : List Call) (q' : Call) : Prop where
  answer_eq : q'.cacheKey = q.cacheKey →
    ¬ (c.get q.cacheKey).2.ClearedAlong (between.map Call.cacheKey) →
    (((c.get q.cacheKey).2.asked between).get q'.cacheKey).1 = (c.get q.cacheKey).1
  same_object_iff : ∀ m m', (c.get q.cacheKey).1 = some m →
    (((c.get q.cacheKey).2.asked between).get q'.cacheKey).1 = some m' →
    (m.object = m'.object ↔ q.cacheKey = q'.cacheKey ∧
      ¬ (c.get q.cacheKey).2.ClearedAlong (between.map Call.cacheKey))

theorem Distinct.shares {c : Cache} (h : c.Distinct) (q : Call) (between : List Call) (q' : Call) :
    c.Shares q between q' where
  answer_eq hkey hkept := by
    rw [hkey]
    exact get_fst_of_kept h hkept
  same_object_iff _ _ hm hm' := object_eq_iff h hm hm'

end Cache

end Glob

namespace Service

/-- **`s.MatchesAfresh setting`** — every match gives what is found without a cache of globs. -/
structure MatchesAfresh (s : Service) (setting : Setting) : Prop where
  among : ∀ e rules, (s.matchWith e rules).1 = rules.match? setting e
  find : ∀ e, (s.match? e).1 =
    (s.getRules.1.map Fetched.rules).map fun rules => rules.match? setting e
  findNow : ∀ e, (s.matchNow? e).1 = s.cache.rulesNow.match? setting e
  highlight : ∀ e,
    (s.highlights e).1 = (s.cache.rulesNow.match? setting e).any MatchedRule.highlights

theorem matchWith_fst (s : Service) (e : Event) (rules : Ruleset) :
    (s.matchWith e rules).1 = rules.match? s.setting e :=
  rules.matchCached?_eq_match? s.setting e s.globs

theorem matchesAfresh (s : Service) : s.MatchesAfresh s.setting where
  among := s.matchWith_fst
  find := s.match?_fst
  findNow e := s.matchWith_fst e s.cache.rulesNow
  highlight e := congrArg (Option.any MatchedRule.highlights) (s.matchWith_fst e s.cache.rulesNow)

/-- **`globs_unseen`** — whatever a new cache has been asked for, it serves the next call, and shares
what it gives with a later one; and whatever a service has done, every match it makes is the one that
is made without a cache. -/
theorem globs_unseen (before between : List Glob.Call) (q q' : Glob.Call) (path : String)
    (file : File.Content) (setting : Setting) (ops : List Op) :
    (Glob.Cache.empty.asked before).Serves q ∧
      (Glob.Cache.empty.asked before).Shares q between q' ∧
      ((start path file setting).run ops).MatchesAfresh setting := by
  have hdistinct : (Glob.Cache.empty.asked before).Distinct := Glob.Cache.distinct_empty.after _
  refine ⟨hdistinct.serves q, hdistinct.shares q between q', ?_⟩
  have hplace := samePlace_run (start path file setting) ops
  have hafresh := ((start path file setting).run ops).matchesAfresh
  rw [hplace.setting_eq] at hafresh
  exact hafresh

end Service

end AlertRules
