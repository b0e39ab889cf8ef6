import AlertRules.Glob.Cache
import Mathlib.Data.List.Nodup

/-!
# AlertRules.Proofs.Glob.Cache — what a cache of globs keeps

Asking for a glob does one of three things (`get_cases`): it is found, or it is compiled and kept beside
the others, or, when the cache is full, it is compiled and kept alone.  The last one **clears** the
cache, and nothing else does (`clears_iff`).

The entries are for different keys and are different objects (`Distinct`).  So two calls for one key
give the same as long as the cache is not cleared between them (`get_fst_of_kept`), and the same object
is given in no other case (`object_eq_iff`).
-/

namespace AlertRules.Glob.Cache

variable {c c' : Cache} {key key' : CacheKey} {keys : List CacheKey}

/-! ## One call -/

/-- **`c.Gets key answer c'`** — what asking for a key can do. -/
inductive Gets (c : Cache) (key : CacheKey) : Option CachedMatcher → Cache → Prop
  /-- The glob is kept, and nothing changes. -/
  | found (e : CacheEntry) (mem : e ∈ c.entries) (key_eq : e.key = key) :
    Gets c key (handle? e) c
  /-- The glob is compiled and kept beside the others. -/
  | added (c' : Cache) (missing : c.find? key = none) (room : c.size < cacheLimit)
    (entries_eq : c'.entries = c.fresh key :: c.entries)
    (next_eq : c'.nextObject = c.nextObject + 1) : Gets c key (handle? (c.fresh key)) c'
  /-- The glob is compiled and kept alone. -/
  | cleared (c' : Cache) (missing : c.find? key = none) (full : c.size = cacheLimit)
    (entries_eq : c'.entries = [c.fresh key])
    (next_eq : c'.nextObject = c.nextObject + 1) : Gets c key (handle? (c.fresh key)) c'

theorem key_eq_of_find? {e : CacheEntry} (h : c.find? key = some e) : e.key = key := by
  simpa using List.find?_some h

theorem key_ne_of_find?_eq_none (h : c.find? key = none) {e : CacheEntry} (he : e ∈ c.entries) :
    e.key ≠ key := by
  simpa using List.find?_eq_none.mp h e he

theorem get_cases (c : Cache) (key : CacheKey) : c.Gets key (c.get key).1 (c.get key).2 := by
  unfold get
  split
  · rename_i e he
    exact .found e (List.mem_of_find?_eq_some he) (key_eq_of_find? he)
  · rename_i hnone
    by_cases hfull : cacheLimit ≤ c.entries.length
    · refine .cleared _ hnone (Nat.le_antisymm c.bounded hfull) ?_ ?_ <;> rw [store, dif_pos hfull]
    · refine .added _ hnone (Nat.lt_of_not_le hfull) ?_ ?_ <;> rw [store, dif_neg hfull]

/-- The answer comes from an entry for the key, which is kept now. -/
theorem exists_entry (c : Cache) (key : CacheKey) :
    ∃ e ∈ (c.get key).2.entries, e.key = key ∧ (c.get key).1 = handle? e := by
  have hcases := get_cases c key
  generalize (c.get key).1 = answer, (c.get key).2 = c' at hcases ⊢
  cases hcases with
  | found e mem key_eq => exact ⟨e, mem, key_eq, rfl⟩
  | added c' missing room entries_eq | cleared c' missing full entries_eq =>
    exact ⟨c.fresh key, entries_eq ▸ List.mem_cons_self, rfl, rfl⟩

/-- What is kept after a call was kept before, or is new. -/
theorem mem_or_eq_fresh {e : CacheEntry} (he : e ∈ (c.get key).2.entries) :
    e ∈ c.entries ∨ e = c.fresh key := by
  have hcases := get_cases c key
  generalize (c.get key).1 = answer, (c.get key).2 = c' at hcases he
  cases hcases with
  | found e' mem key_eq => exact .inl he
  | added c' missing room entries_eq =>
    rw [entries_eq] at he
    exact (List.mem_cons.mp he).symm
  | cleared c' missing full entries_eq =>
    rw [entries_eq] at he
    exact .inr (List.mem_singleton.mp he)

/-- Asking for the key throws away an entry. -/
def Clears (c : Cache) (key : CacheKey) : Prop :=
  ∃ e ∈ c.entries, e ∉ (c.get key).2.entries

theorem clears_iff : c.Clears key ↔ c.find? key = none ∧ c.size = cacheLimit := by
  have hcases := get_cases c key
  unfold Clears
  generalize (c.get key).1 = answer, (c.get key).2 = c' at hcases ⊢
  cases hcases with
  | found e mem key_eq =>
    have hfound : c.find? key ≠ none := fun hnone => key_ne_of_find?_eq_none hnone mem key_eq
    simp [hfound]
  | added c' missing room entries_eq =>
    refine iff_of_false ?_ fun hfull => Nat.ne_of_lt room hfull.2
    rintro ⟨e, he, hnot⟩
    exact hnot (entries_eq ▸ List.mem_cons_of_mem _ he)
  | cleared c' missing full entries_eq =>
    refine iff_of_true ?_ ⟨missing, full⟩
    have hpos : 0 < c.entries.length := by
      have hlength : c.entries.length = cacheLimit := full
      rw [hlength]
      decide
    obtain ⟨e, he⟩ := List.exists_mem_of_length_pos hpos
    refine ⟨e, he, ?_⟩
    rw [entries_eq, List.mem_singleton]
    rintro rfl
    exact key_ne_of_find?_eq_none missing he rfl

theorem mem_get_of_not_clears (h : ¬ c.Clears key) {e : CacheEntry} (he : e ∈ c.entries) :
    e ∈ (c.get key).2.entries :=
  Classical.byContradiction fun hnot => h ⟨e, he, hnot⟩

theorem size_get_pos (c : Cache) (key : CacheKey) : 1 ≤ (c.get key).2.size := by
  obtain ⟨e, he, -⟩ := exists_entry c key
  exact List.length_pos_of_mem he

/-! ## Entries that can be told apart -/

/-- The entries are for different keys, and their objects are different and have been numbered. -/
structure Distinct (c : Cache) : Prop where
  keys : (c.entries.map CacheEntry.key).Nodup
  objects : (c.entries.map CacheEntry.object).Nodup
  numbered : ∀ e ∈ c.entries, e.object < c.nextObject

theorem distinct_empty : empty.Distinct :=
  ⟨List.nodup_nil, List.nodup_nil, fun _ he => absurd he List.not_mem_nil⟩

namespace Distinct

theorem get (h : c.Distinct) (key : CacheKey) : (c.get key).2.Distinct := by
  have hcases := get_cases c key
  generalize (c.get key).1 = answer, (c.get key).2 = c' at hcases ⊢
  cases hcases with
  | found e mem key_eq => exact h
  | added c' missing room entries_eq next_eq =>
    refine ⟨?_, ?_, ?_⟩
    · rw [entries_eq, List.map_cons, List.nodup_cons]
      refine ⟨?_, h.keys⟩
      intro hmem
      obtain ⟨e, he, heq⟩ := List.mem_map.mp hmem
      exact key_ne_of_find?_eq_none missing he heq
    · rw [entries_eq, List.map_cons, List.nodup_cons]
      refine ⟨?_, h.objects⟩
      intro hmem
      obtain ⟨e, he, heq⟩ := List.mem_map.mp hmem
      exact Nat.ne_of_lt (h.numbered e he) heq
    · rw [entries_eq, next_eq, List.forall_mem_cons]
      exact ⟨Nat.lt_succ_self _, fun e he => Nat.lt_succ_of_lt (h.numbered e he)⟩
  | cleared c' missing full entries_eq next_eq =>
    refine ⟨?_, ?_, ?_⟩
    · rw [entries_eq]
      exact List.nodup_singleton _
    · rw [entries_eq]
      exact List.nodup_singleton _
    · rw [entries_eq, next_eq, List.forall_mem_singleton]
      exact Nat.lt_succ_self _

/-- An entry that is kept answers for its key. -/
theorem get_fst (h : c.Distinct) {e : CacheEntry} (he : e ∈ c.entries) :
    (c.get e.key).1 = handle? e := by
  have hcases := get_cases c e.key
  generalize (c.get e.key).1 = answer, (c.get e.key).2 = c' at hcases ⊢
  cases hcases with
  | found e' mem key_eq =>
    rw [List.inj_on_of_nodup_map h.keys mem he key_eq]
  | added c' missing | cleared c' missing =>
    exact absurd rfl (key_ne_of_find?_eq_none missing he)

end Distinct

/-! ## Calls one after the other -/

/-- The cache after these calls. -/
def after (c : Cache) (keys : List CacheKey) : Cache :=
  keys.foldl (fun c key => (c.get key).2) c

/-- One of these calls clears the cache. -/
def ClearedAlong (c : Cache) : List CacheKey → Prop
  | [] => False
  | key :: keys => c.Clears key ∨ (c.get key).2.ClearedAlong keys

theorem Distinct.after (h : c.Distinct) (keys : List CacheKey) : (c.after keys).Distinct := by
  induction keys generalizing c with
  | nil => exact h
  | cons key keys ih => exact ih (h.get key)

/-- What is kept stays until the cache is cleared. -/
theorem mem_after_of_not_clearedAlong (h : ¬ c.ClearedAlong keys) {e : CacheEntry}
    (he : e ∈ c.entries) : e ∈ (c.after keys).entries := by
  induction keys generalizing c with
  | nil => exact he
  | cons key keys ih =>
    obtain ⟨hfirst, hrest⟩ := not_or.mp h
    exact ih hrest (mem_get_of_not_clears hfirst he)

/-- **`c.Since n`** — the objects that are kept have been numbered from `n` on. -/
structure Since (c : Cache) (n : Nat) : Prop where
  le_object : ∀ e ∈ c.entries, n ≤ e.object
  le_next : n ≤ c.nextObject

theorem Since.get {n : Nat} (h : c.Since n) (key : CacheKey) : (c.get key).2.Since n := by
  have hcases := get_cases c key
  generalize (c.get key).1 = answer, (c.get key).2 = c' at hcases ⊢
  cases hcases with
  | found e mem key_eq => exact h
  | added c' missing room entries_eq next_eq =>
    refine ⟨?_, next_eq ▸ Nat.le_succ_of_le h.le_next⟩
    rw [entries_eq, List.forall_mem_cons]
    exact ⟨h.le_next, h.le_object⟩
  | cleared c' missing full entries_eq next_eq =>
    refine ⟨?_, next_eq ▸ Nat.le_succ_of_le h.le_next⟩
    rw [entries_eq, List.forall_mem_singleton]
    exact h.le_next

theorem Since.after {n : Nat} (h : c.Since n) (keys : List CacheKey) : (c.after keys).Since n := by
  induction keys generalizing c with
  | nil => exact h
  | cons key keys ih => exact ih (h.get key)

theorem next_le_get (c : Cache) (key : CacheKey) : c.nextObject ≤ (c.get key).2.nextObject := by
  have hcases := get_cases c key
  generalize (c.get key).1 = answer, (c.get key).2 = c' at hcases ⊢
  cases hcases with
  | found e mem key_eq => exact Nat.le_refl _
  | added c' missing room entries_eq next_eq | cleared c' missing full entries_eq next_eq =>
    exact next_eq ▸ Nat.le_succ _

/-- What is kept after the cache has been cleared is new. -/
theorem since_of_clears (h : c.Clears key) : (c.get key).2.Since c.nextObject := by
  refine ⟨?_, next_le_get c key⟩
  obtain ⟨missing, full⟩ := clears_iff.mp h
  have hcases := get_cases c key
  generalize (c.get key).1 = answer, (c.get key).2 = c' at hcases ⊢
  cases hcases with
  | found e mem key_eq => exact absurd key_eq (key_ne_of_find?_eq_none missing mem)
  | added c' missing room => exact absurd full (Nat.ne_of_lt room)
  | cleared c' missing full entries_eq =>
    rw [entries_eq, List.forall_mem_singleton]
    exact Nat.le_refl _

theorem since_of_clearedAlong (h : c.ClearedAlong keys) : (c.after keys).Since c.nextObject := by
  induction keys generalizing c with
  | nil => exact h.elim
  | cons key keys ih =>
    rcases h with hfirst | hrest
    · exact (since_of_clears hfirst).after keys
    · have hlater := ih hrest
      have hnext := next_le_get c key
      exact ⟨fun e he => Nat.le_trans hnext (hlater.le_object e he),
        Nat.le_trans hnext hlater.le_next⟩

/-! ## Two calls -/

/-- Two calls for one key give the same, unless the cache is cleared between them. -/
theorem get_fst_of_kept (h : c.Distinct) (hkept : ¬ (c.get key).2.ClearedAlong keys) :
    (((c.get key).2.after keys).get key).1 = (c.get key).1 := by
  obtain ⟨e, he, rfl, hanswer⟩ := exists_entry c key
  rw [hanswer]
  exact ((h.get e.key).after keys).get_fst (mem_after_of_not_clearedAlong hkept he)

/-- Two calls give the same object only if they are for one key and the cache is not cleared between
them. -/
theorem object_eq_iff (h : c.Distinct) {m m' : CachedMatcher} (hm : (c.get key).1 = some m)
    (hm' : (((c.get key).2.after keys).get key').1 = some m') :
    m.object = m'.object ↔ key = key' ∧ ¬ (c.get key).2.ClearedAlong keys := by
  constructor
  · intro hobject
    obtain ⟨e, he, rfl, hanswer⟩ := exists_entry c key
    obtain ⟨e', he', rfl, hanswer'⟩ := exists_entry ((c.get e.key).2.after keys) key'
    have hsame : e.object = e'.object := by
      obtain ⟨matcher, -, rfl⟩ := Option.map_eq_some_iff.mp (hanswer.symm.trans hm)
      obtain ⟨matcher', -, rfl⟩ := Option.map_eq_some_iff.mp (hanswer'.symm.trans hm')
      exact hobject
    have hdistinct := (h.get e.key).after keys
    have hold : e.object < (c.get e.key).2.nextObject := (h.get e.key).numbered e he
    have hkept : ¬ (c.get e.key).2.ClearedAlong keys := by
      intro hcleared
      have hnew := ((since_of_clearedAlong hcleared).get e'.key).le_object e' he'
      omega
    refine ⟨?_, hkept⟩
    have hmem := mem_after_of_not_clearedAlong hkept he
    rcases mem_or_eq_fresh he' with hmem' | hfresh
    · rw [List.inj_on_of_nodup_map hdistinct.objects hmem hmem' hsame]
    · have hnext := hsame.trans (congrArg CacheEntry.object hfresh)
      exact absurd hnext (Nat.ne_of_lt (hdistinct.numbered e hmem))
  · rintro ⟨rfl, hkept⟩
    have hsame := (get_fst_of_kept h hkept).symm.trans hm'
    rw [hm] at hsame
    rw [Option.some.inj hsame]

end AlertRules.Glob.Cache
