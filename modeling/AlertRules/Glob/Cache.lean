import AlertRules.Glob.Matcher

/-!
# AlertRules.Glob.Cache — compiled globs, kept

The cache keeps what compiling a glob gave, success or failure, under the glob with its anchor and
mode.  When a new glob finds it full, it is emptied first.  Every matcher is an object with a number
of its own, so that two answers can be told to be the same object.

That what is kept is what compiling gives, and that there is never too much of it, are parts of the
type.
-/

namespace AlertRules.Glob

/-- What a compiled glob is kept under. -/
structure CacheKey where
  anchor : Anchor
  glob : String
  mode : Mode
  deriving DecidableEq

/-- The matcher that belongs to the key. -/
def CacheKey.compile? (k : CacheKey) : Option Matcher :=
  Matcher.compile? k.glob k.anchor k.mode

/-- What is kept: the result of compiling, and the number of the object. -/
structure CacheEntry where
  key : CacheKey
  compiled : Option Matcher
  object : Nat

/-- How many globs are kept. -/
def cacheLimit : Nat := 1024

/-- The compiled globs, the latest first, and the number of the next object. -/
structure Cache where
  entries : List CacheEntry
  nextObject : Nat
  faithful : ∀ e ∈ entries, e.compiled = e.key.compile?
  bounded : entries.length ≤ cacheLimit

namespace Cache

/-- Nothing has been compiled. -/
def empty : Cache where
  entries := []
  nextObject := 0
  faithful := by simp
  bounded := by simp

/-- A matcher from the cache, with the number of the object. -/
structure CachedMatcher where
  object : Nat
  matcher : Matcher

/-- What the cache answers from an entry. -/
def handle? (e : CacheEntry) : Option CachedMatcher :=
  e.compiled.map (⟨e.object, ·⟩)

/-- The entry under the key. -/
def find? (c : Cache) (key : CacheKey) : Option CacheEntry :=
  c.entries.find? (·.key = key)

/-- The entry that a new key gets. -/
def fresh (c : Cache) (key : CacheKey) : CacheEntry :=
  ⟨key, key.compile?, c.nextObject⟩

/-- The cache with a new entry for the key, emptied before if it is full. -/
def store (c : Cache) (key : CacheKey) : Cache :=
  if h : cacheLimit ≤ c.entries.length then
    { entries := [c.fresh key]
      nextObject := c.nextObject + 1
      faithful := by simp [fresh]
      bounded := by simp [cacheLimit] }
  else
    { entries := c.fresh key :: c.entries
      nextObject := c.nextObject + 1
      faithful := by
        intro e he
        rcases List.mem_cons.1 he with rfl | he
        · rfl
        · exact c.faithful e he
      bounded := by simp only [List.length_cons]; omega }

/-- The matcher for a key, compiled if need be, and the cache afterwards. -/
def get (c : Cache) (key : CacheKey) : Option CachedMatcher × Cache :=
  match c.find? key with
  | some e => (handle? e, c)
  | none => (handle? (c.fresh key), c.store key)

/-- How many globs are kept. -/
def size (c : Cache) : Nat :=
  c.entries.length

theorem get_eq_compile? (c : Cache) (key : CacheKey) :
    (c.get key).1.map CachedMatcher.matcher = key.compile? := by
  unfold get
  split
  · rename_i e he
    have hk : e.key = key := by simpa using List.find?_some he
    have hc := c.faithful e (List.mem_of_find?_eq_some he)
    rw [hk] at hc
    simp [handle?, hc, Function.comp_def]
  · simp [handle?, fresh, Function.comp_def]

end Cache

end AlertRules.Glob
