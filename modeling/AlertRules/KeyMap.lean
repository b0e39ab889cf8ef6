/-!
# AlertRules.KeyMap — text-keyed maps in key order

A map from texts to values as the list of its **entries** in strictly increasing key order (the
order of code points, which is also the order of the UTF-8 bytes).  Two maps with the same content
are the same list, so equality of maps is equality of what they hold.

* `Entries.insert` puts a value under a key, in place or between its neighbours;
* `KeyMap` carries the order as a proof field, and `KeyMap.get?_insert` says what a look-up reads
  after an insertion.
-/

namespace AlertRules

namespace Entries

variable {β : Type}

/-- The keys increase strictly from entry to entry. -/
def Sorted (es : List (String × β)) : Prop :=
  es.Pairwise fun a b => a.1 < b.1

/-- The value under the key, replacing one that is there. -/
def insert (key : String) (value : β) : List (String × β) → List (String × β)
  | [] => [(key, value)]
  | (k, v) :: rest =>
    if key < k then (key, value) :: (k, v) :: rest
    else if k < key then (k, v) :: insert key value rest
    else (key, value) :: rest

/-- The pairs put in one after the other, so the last of equal keys wins. -/
def ofList (ps : List (String × β)) : List (String × β) :=
  ps.foldl (fun es p => insert p.1 p.2 es) []

theorem mem_insert {key : String} {value : β} {es : List (String × β)} {e : String × β}
    (h : e ∈ insert key value es) : e = (key, value) ∨ e ∈ es := by
  induction es with
  | nil => simpa [insert] using h
  | cons p rest ih =>
    obtain ⟨k, v⟩ := p
    simp only [insert] at h
    split at h
    · simpa using h
    · split at h
      · rcases List.mem_cons.1 h with h | h
        · simp [h]
        · rcases ih h with h | h <;> simp [h]
      · rcases List.mem_cons.1 h with h | h <;> simp [h]

theorem sorted_insert {key : String} {value : β} {es : List (String × β)} (h : Sorted es) :
    Sorted (insert key value es) := by
  induction es with
  | nil => simp [insert, Sorted]
  | cons p rest ih =>
    obtain ⟨k, v⟩ := p
    have hk := List.pairwise_cons.1 h
    simp only [insert]
    split
    · rename_i hlt
      refine List.pairwise_cons.2 ⟨fun e he => ?_, h⟩
      rcases List.mem_cons.1 he with rfl | he
      · exact hlt
      · exact String.lt_trans hlt (hk.1 e he)
    · split
      · rename_i hlt
        refine List.pairwise_cons.2 ⟨fun e he => ?_, ih hk.2⟩
        rcases mem_insert he with rfl | he
        · exact hlt
        · exact hk.1 e he
      · rename_i h1 h2
        have : k = key := String.le_antisymm (String.not_lt.1 h1) (String.not_lt.1 h2)
        subst this
        exact List.pairwise_cons.2 ⟨hk.1, hk.2⟩

theorem sorted_ofList (ps : List (String × β)) : Sorted (ofList ps) := by
  suffices ∀ es : List (String × β), Sorted es →
      Sorted (ps.foldl (fun es p => insert p.1 p.2 es) es) from this [] List.Pairwise.nil
  induction ps with
  | nil => exact fun _ h => h
  | cons p ps ih => exact fun es h => ih _ (sorted_insert h)

theorem lookup_cons_ne {k k' : String} {v : β} {es : List (String × β)} (h : k ≠ k') :
    ((k', v) :: es).lookup k = es.lookup k := by
  simp [List.lookup_cons, beq_eq_false_iff_ne.2 h]

theorem lookup_insert (key k : String) (value : β) (es : List (String × β)) :
    (insert key value es).lookup k = if k = key then some value else es.lookup k := by
  by_cases hk : k = key
  · subst hk
    induction es with
    | nil => simp [insert]
    | cons p rest ih =>
      obtain ⟨k', v⟩ := p
      simp only [insert]
      split
      · simp
      · split
        · rename_i hlt
          have hne : k ≠ k' := fun he => String.lt_irrefl k (by rw [← he] at hlt; exact hlt)
          simp [lookup_cons_ne hne, ih]
        · simp
  · induction es with
    | nil => simp [insert, lookup_cons_ne hk, hk]
    | cons p rest ih =>
      obtain ⟨k', v⟩ := p
      simp only [insert]
      split
      · simp [lookup_cons_ne hk]
      · split
        · simp only [List.lookup_cons, ih, hk, if_false]
        · rename_i h1 h2
          have : k' = key := String.le_antisymm (String.not_lt.1 h1) (String.not_lt.1 h2)
          subst this
          simp [lookup_cons_ne hk]

end Entries

/-- A map from texts to `β`: its entries, in strictly increasing key order. -/
structure KeyMap (β : Type) where
  entries : List (String × β)
  sorted : Entries.Sorted entries := by exact List.Pairwise.nil

namespace KeyMap

variable {β : Type}

/-- The map without entries. -/
def empty : KeyMap β := ⟨[], List.Pairwise.nil⟩

instance : Inhabited (KeyMap β) := ⟨empty⟩

/-- The value under the key. -/
def get? (m : KeyMap β) (key : String) : Option β :=
  m.entries.lookup key

/-- The map with the value under the key. -/
def insert (m : KeyMap β) (key : String) (value : β) : KeyMap β :=
  ⟨Entries.insert key value m.entries, Entries.sorted_insert m.sorted⟩

/-- The pairs put in one after the other. -/
def ofList (ps : List (String × β)) : KeyMap β :=
  ⟨Entries.ofList ps, Entries.sorted_ofList ps⟩

/-- The keys, in increasing order. -/
def keys (m : KeyMap β) : List String :=
  m.entries.map Prod.fst

/-- The values, in the order of their keys. -/
def values (m : KeyMap β) : List β :=
  m.entries.map Prod.snd

/-- The value under the key changed by `f`, starting from `start` when there is none. -/
def modify (m : KeyMap β) (key : String) (start : β) (f : β → β) : KeyMap β :=
  m.insert key (f ((m.get? key).getD start))

@[simp] theorem get?_empty (key : String) : (empty : KeyMap β).get? key = none := rfl

theorem get?_insert (m : KeyMap β) (key k : String) (value : β) :
    (m.insert key value).get? k = if k = key then some value else m.get? k :=
  Entries.lookup_insert key k value m.entries

theorem ext_entries {m n : KeyMap β} (h : m.entries = n.entries) : m = n := by
  cases m; cases n; cases h; rfl

end KeyMap

end AlertRules
