import AlertRules.Proofs.RulesFile.Scopes

/-!
# AlertRules.Proofs.RulesFile.Overwriting — one list after another

Two changes put two lists into a value.  At the end of one path the second list takes the place of the
first (`withListAt_withListAt`).  At the ends of two paths neither of which leads on from the other
(`Apart`), each list is found as if the other change had not been made (`listAt?_withListAt_of_apart`),
and the order does not show (`withListAt_comm`).  The paths of two kinds, or of two scopes, are apart
(`Scope.apart_paths`).
-/

namespace AlertRules.RulesFile

variable {p q : List String} {j : Json} {rules : List Json}

/-! ## Paths that part -/

/-- Neither path leads on from the other. -/
def Apart (p q : List String) : Prop :=
  ¬ p <+: q ∧ ¬ q <+: p

theorem Apart.symm (h : Apart p q) : Apart q p :=
  ⟨h.2, h.1⟩

theorem apart_cons_iff {key key' : String} :
    Apart (key :: p) (key' :: q) ↔ key ≠ key' ∨ Apart p q := by
  rw [Apart, Apart, List.cons_prefix_cons, List.cons_prefix_cons]
  by_cases hkey : key = key'
  · subst hkey
    simp
  · simp [hkey, Ne.symm hkey]

theorem Apart.ne_nil (h : Apart p q) : p ≠ [] := by
  rintro rfl
  exact h.1 List.nil_prefix

/-- Whichever of two parting paths leads on, a level that is missing counts as the same. -/
theorem Apart.absent_eq (h : Apart p q) : absent p = absent q := by
  cases p with
  | nil => exact absurd rfl h.ne_nil
  | cons key p =>
    cases q with
    | nil => exact absurd rfl h.symm.ne_nil
    | cons key' q => rfl

theorem Scope.apart_paths {s t : Scope} {k l : Kind} (h : ¬ (s = t ∧ k = l)) :
    Apart (s.path k) (t.path l) := by
  have hkinds (way : List String) (hkl : k ≠ l) : Apart (way ++ [k.text]) (way ++ [l.text]) := by
    induction way with
    | nil => exact apart_cons_iff.mpr (.inl fun htext => hkl (Kind.text_injective htext))
    | cons key way ih => exact apart_cons_iff.mpr (.inr ih)
  cases s with
  | global =>
    cases t with
    | global => exact hkinds ["global"] fun hkl => h ⟨rfl, hkl⟩
    | device name => exact apart_cons_iff.mpr (.inl (by decide))
  | device name =>
    cases t with
    | global => exact apart_cons_iff.mpr (.inl (by decide))
    | device name' =>
      refine apart_cons_iff.mpr (.inr (apart_cons_iff.mpr ?_))
      by_cases hname : name = name'
      · exact .inr (hkinds [] fun hkl => h ⟨congrArg _ hname, hkl⟩)
      · exact .inl hname

/-! ## Two lists -/

theorem listAt?_withListAt_cons (rules' : List Json) (key : String) (path : List String)
    (members : List (String × Json)) (k : String) (q : List String) :
    listAt? (k :: q) (withListAt rules' (key :: path) (.obj members)) =
      if k = key then
        listAt? q (withListAt rules' path ((members.lookup key).getD (absent path)))
      else listAt? (k :: q) (.obj members) := by
  rw [withListAt_obj, listAt?, Entries.lookup_insert]
  by_cases hk : k = key
  · rw [if_pos hk, if_pos hk, Option.getD_some]
  · rw [if_neg hk, if_neg hk, listAt?]

/-- The list that has been put in is found. -/
theorem listAt?_withListAt (hrules : listAt? p j = some rules) (rules' : List Json) :
    listAt? p (withListAt rules' p j) = some rules' := by
  induction p generalizing j with
  | nil => rfl
  | cons key p ih =>
    obtain ⟨members, rfl, hinner⟩ := listAt?_cons_eq_some_iff.mp hrules
    rw [listAt?_withListAt_cons, if_pos rfl]
    exact ih hinner

/-- Elsewhere what is found does not change. -/
theorem listAt?_withListAt_of_apart (hrules : listAt? p j = some rules) (h : Apart p q)
    (rules' : List Json) : listAt? q (withListAt rules' p j) = listAt? q j := by
  induction p generalizing j q with
  | nil => exact absurd rfl h.ne_nil
  | cons key p ih =>
    obtain ⟨members, rfl, hinner⟩ := listAt?_cons_eq_some_iff.mp hrules
    cases q with
    | nil => exact absurd rfl h.symm.ne_nil
    | cons k q =>
      rw [listAt?_withListAt_cons]
      by_cases hk : k = key
      · subst hk
        have htail : Apart p q := (apart_cons_iff.mp h).resolve_left (absurd rfl)
        rw [if_pos rfl, ih hinner htail, listAt?, htail.absent_eq]
      · rw [if_neg hk]

/-- At one place the second list takes the place of the first. -/
theorem withListAt_withListAt (hrules : listAt? p j = some rules) (rules' rules'' : List Json) :
    withListAt rules'' p (withListAt rules' p j) = withListAt rules'' p j := by
  induction p generalizing j with
  | nil => rfl
  | cons key p ih =>
    obtain ⟨members, rfl, hinner⟩ := listAt?_cons_eq_some_iff.mp hrules
    rw [withListAt_obj, withListAt_obj, Entries.lookup_insert, if_pos rfl, Option.getD_some,
      ih hinner, Entries.insert_insert, withListAt_obj]

/-- At two places the lists can be put in in either order. -/
theorem withListAt_comm {others : List Json} (hj : j.Canonical) (h : Apart p q)
    (hrules : listAt? p j = some rules) (hothers : listAt? q j = some others)
    (rules' others' : List Json) :
    withListAt rules' p (withListAt others' q j) = withListAt others' q (withListAt rules' p j) := by
  induction p generalizing j q with
  | nil => exact absurd rfl h.ne_nil
  | cons key p ih =>
    obtain ⟨members, rfl, hinner⟩ := listAt?_cons_eq_some_iff.mp hrules
    cases q with
    | nil => exact absurd rfl h.symm.ne_nil
    | cons k q =>
      have hothers' : listAt? q ((members.lookup k).getD (absent q)) = some others := hothers
      simp only [withListAt_obj, Entries.lookup_insert]
      by_cases hk : k = key
      · subst hk
        have htail : Apart p q := (apart_cons_iff.mp h).resolve_left (absurd rfl)
        have hcanonical := canonical_getD_lookup hj k p
        rw [← htail.absent_eq] at hothers' ⊢
        rw [if_pos rfl, if_pos rfl, Option.getD_some, Option.getD_some, Entries.insert_insert,
          Entries.insert_insert, ih hcanonical htail hinner hothers']
      · rw [if_neg hk, if_neg (Ne.symm hk), Entries.insert_comm hj.1 (Ne.symm hk)]

end AlertRules.RulesFile
