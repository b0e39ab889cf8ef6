import AlertRules.KeyMap

/-!
# AlertRules.Proofs.KeyMap — entries and look-ups

The entries of a list whose keys increase are what a look-up finds (`lookup_eq_some_iff`), so two such
lists that answer every look-up alike are the same list, and two such maps the same map.
-/

namespace AlertRules.Entries

variable {β : Type}

/-! ## Look-ups -/

theorem mem_of_lookup {key : String} {value : β} {es : List (String × β)}
    (h : es.lookup key = some value) : (key, value) ∈ es := by
  obtain ⟨before, after, rfl, -⟩ := List.lookup_eq_some_iff.mp h
  exact List.mem_append_right _ List.mem_cons_self

theorem lookup_of_mem {key : String} {value : β} {es : List (String × β)} (hes : Sorted es)
    (h : (key, value) ∈ es) : es.lookup key = some value := by
  induction es with
  | nil => exact absurd h List.not_mem_nil
  | cons e es ih =>
    obtain ⟨first, v⟩ := e
    obtain ⟨hfirst, hrest⟩ := List.pairwise_cons.mp hes
    rcases List.mem_cons.mp h with heq | hmem
    · obtain ⟨rfl, rfl⟩ := Prod.mk.inj heq
      exact List.lookup_cons_self
    · have hne : key ≠ first := fun heq => String.lt_irrefl key (heq ▸ hfirst _ hmem)
      rw [lookup_cons_ne hne]
      exact ih hrest hmem

/-- The entries are what look-ups find. -/
theorem lookup_eq_some_iff {key : String} {value : β} {es : List (String × β)} (hes : Sorted es) :
    es.lookup key = some value ↔ (key, value) ∈ es :=
  ⟨mem_of_lookup, lookup_of_mem hes⟩

theorem Sorted.nodup {es : List (String × β)} (hes : Sorted es) : es.Nodup := by
  unfold Sorted at hes
  apply hes.imp
  intro a b hlt heq
  subst b
  exact String.lt_irrefl a.1 hlt

/-- Lists that answer every look-up alike are the same. -/
theorem ext_lookup {es fs : List (String × β)} (hes : Sorted es) (hfs : Sorted fs)
    (h : ∀ key, es.lookup key = fs.lookup key) : es = fs := by
  have hmem : ∀ e, e ∈ es ↔ e ∈ fs := fun e => by
    rw [← lookup_eq_some_iff hes, ← lookup_eq_some_iff hfs, h]
  have hperm : es.Perm fs := (List.perm_ext_iff_of_nodup hes.nodup hfs.nodup).mpr hmem
  exact hperm.eq_of_pairwise (fun a b _ _ hab hba => absurd hba (String.lt_asymm hab)) hes hfs

/-! ## Entries that are put in -/

theorem mem_insert_self (key : String) (value : β) (es : List (String × β)) :
    (key, value) ∈ insert key value es :=
  mem_of_lookup (by rw [lookup_insert, if_pos rfl])

/-- What holds of every entry holds after one of which it holds is put in. -/
theorem forall_mem_insert {P : String × β → Prop} {key : String} {value : β}
    {es : List (String × β)} (hes : ∀ e ∈ es, P e) (hvalue : P (key, value)) :
    ∀ e ∈ insert key value es, P e := by
  intro e he
  rcases mem_insert he with rfl | he
  · exact hvalue
  · exact hes e he

/-- An entry behind all others is put at the end. -/
theorem insert_eq_append {key : String} {value : β} {es : List (String × β)}
    (h : ∀ e ∈ es, e.1 < key) : insert key value es = es ++ [(key, value)] := by
  induction es with
  | nil => rfl
  | cons e es ih =>
    obtain ⟨hfirst, hrest⟩ := List.forall_mem_cons.mp h
    rw [insert, if_neg (String.lt_asymm hfirst), if_pos hfirst, ih hrest, List.cons_append]

/-- Of two values that are put in under one key the second stays. -/
theorem insert_insert (key : String) (value value' : β) (es : List (String × β)) :
    insert key value' (insert key value es) = insert key value' es := by
  induction es with
  | nil => simp [insert]
  | cons e es ih =>
    obtain ⟨k, v⟩ := e
    simp only [insert]
    split
    · simp [insert]
    · split
      · rename_i hnot hlt
        rw [insert, if_neg hnot, if_pos hlt, ih]
      · simp [insert]

/-- Values that are put in under different keys may be put in in either order. -/
theorem insert_comm {es : List (String × β)} (hes : Sorted es) {key key' : String}
    (hne : key ≠ key') (value value' : β) :
    insert key value (insert key' value' es) = insert key' value' (insert key value es) := by
  refine ext_lookup (sorted_insert (sorted_insert hes)) (sorted_insert (sorted_insert hes)) fun k => ?_
  simp only [lookup_insert]
  by_cases hkey : k = key
  · subst hkey
    simp [hne]
  · simp [hkey]

/-- A value that is there can be put in again. -/
theorem insert_of_lookup {key : String} {value : β} {es : List (String × β)} (hes : Sorted es)
    (h : es.lookup key = some value) : insert key value es = es := by
  refine ext_lookup (sorted_insert hes) hes fun k => ?_
  rw [lookup_insert]
  by_cases hkey : k = key
  · rw [if_pos hkey, hkey, h]
  · rw [if_neg hkey]

/-- What does not count makes no difference to a search when it is put in. -/
theorem findSome?_insert {γ : Type} {f : String × β → Option γ} {key : String} {value : β}
    {es : List (String × β)} (habsent : es.lookup key = none) (hf : f (key, value) = none) :
    (insert key value es).findSome? f = es.findSome? f := by
  induction es with
  | nil => rw [insert, List.findSome?_cons, hf]
  | cons e es ih =>
    obtain ⟨k, v⟩ := e
    have hne : key ≠ k := by
      rintro rfl
      rw [List.lookup_cons_self] at habsent
      exact absurd habsent (by simp)
    rw [lookup_cons_ne hne] at habsent
    rw [insert]
    split
    · rw [List.findSome?_cons, hf]
    · split
      · rw [List.findSome?_cons, List.findSome?_cons, ih habsent]
      · rename_i hnot hnot'
        exact absurd (String.le_antisymm (String.not_lt.mp hnot') (String.not_lt.mp hnot)) hne

/-! ## Entries with other values -/

/-- The entries with `f` applied to each value. -/
def mapValues {γ : Type} (f : β → γ) (es : List (String × β)) : List (String × γ) :=
  es.map fun e => (e.1, f e.2)

section MapValues

variable {γ : Type} (f : β → γ)

theorem lookup_mapValues (es : List (String × β)) (key : String) :
    (mapValues f es).lookup key = (es.lookup key).map f := by
  induction es with
  | nil => rfl
  | cons e es ih =>
    obtain ⟨k, v⟩ := e
    show List.lookup key ((k, f v) :: mapValues f es) = _
    by_cases hkey : key = k
    · rw [hkey, List.lookup_cons_self, List.lookup_cons_self, Option.map_some]
    · rw [lookup_cons_ne hkey, lookup_cons_ne hkey, ih]

theorem mapValues_insert (key : String) (value : β) (es : List (String × β)) :
    mapValues f (insert key value es) = insert key (f value) (mapValues f es) := by
  induction es with
  | nil => rfl
  | cons e es ih =>
    obtain ⟨k, v⟩ := e
    show mapValues f (insert key value ((k, v) :: es)) =
      insert key (f value) ((k, f v) :: mapValues f es)
    rw [insert, insert]
    split
    · rfl
    · split
      · rw [← ih]
        rfl
      · rfl

theorem sorted_mapValues {es : List (String × β)} : Sorted (mapValues f es) ↔ Sorted es :=
  List.pairwise_map

end MapValues

end AlertRules.Entries

namespace AlertRules.KeyMap

variable {β : Type}

theorem ext_get? {m n : KeyMap β} (h : ∀ key, m.get? key = n.get? key) : m = n :=
  ext_entries (Entries.ext_lookup m.sorted n.sorted h)

theorem insert_insert (m : KeyMap β) (key : String) (value value' : β) :
    (m.insert key value).insert key value' = m.insert key value' :=
  ext_entries (Entries.insert_insert key value value' m.entries)

theorem insert_of_get? {m : KeyMap β} {key : String} {value : β} (h : m.get? key = some value) :
    m.insert key value = m :=
  ext_entries (Entries.insert_of_lookup m.sorted h)

theorem get?_eq_some_iff {m : KeyMap β} {key : String} {value : β} :
    m.get? key = some value ↔ (key, value) ∈ m.entries :=
  Entries.lookup_eq_some_iff m.sorted

end AlertRules.KeyMap
