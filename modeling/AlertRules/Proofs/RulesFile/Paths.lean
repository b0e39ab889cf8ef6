import AlertRules.Proofs.Json.Reread
import AlertRules.RulesFile

/-!
# AlertRules.Proofs.RulesFile.Paths — the list at the end of a path

The rules of a kind within a scope stand in a list, which is reached from the value in the file by a
**path** of keys: two for the rules for all devices, three for those of one device.  A level that is
missing counts as empty.

A change (`editRoot`) reads the list at the end of the path, and puts the new one there
(`edits_editRoot`).  Every level of the way is the same step, a member of an object, so that
whatever is said of a path is said by induction on its keys.
-/

namespace AlertRules.RulesFile

open Json

/-! ## Paths -/

/-- The keys that lead to the rules of the kind within the scope. -/
def Scope.path : Scope → Kind → List String
  | .global, kind => ["global", kind.text]
  | .device name, kind => ["device", name, kind.text]

/-- What a missing level counts as, with that path from there on. -/
def absent : List String → Json
  | [] => .arr []
  | _ :: _ => .obj []

/-- The list at the end of the path, if the levels on the way are objects. -/
def listAt? : List String → Json → Option (List Json)
  | [], .arr rules => some rules
  | key :: path, .obj members => listAt? path ((members.lookup key).getD (absent path))
  | _, _ => none

/-- The value with that list at the end of the path. -/
def withListAt (rules : List Json) : List String → Json → Json
  | [], _ => .arr rules
  | key :: path, .obj members =>
    .obj (Entries.insert key
      (withListAt rules path ((members.lookup key).getD (absent path))) members)
  | _ :: _, j => j

theorem listAt?_nil_eq_some_iff {j : Json} {rules : List Json} :
    listAt? [] j = some rules ↔ j = .arr rules := by
  cases j <;> simp [listAt?]

theorem listAt?_cons_eq_some_iff {key : String} {path : List String} {j : Json}
    {rules : List Json} :
    listAt? (key :: path) j = some rules ↔
      ∃ members, j = .obj members ∧
        listAt? path ((members.lookup key).getD (absent path)) = some rules := by
  cases j <;> simp [listAt?]

@[simp]
theorem withListAt_obj (rules : List Json) (key : String) (path : List String)
    (members : List (String × Json)) :
    withListAt rules (key :: path) (.obj members) =
      .obj (Entries.insert key
        (withListAt rules path ((members.lookup key).getD (absent path))) members) :=
  rfl

/-! ## Changes -/

/-- **`Edits g path f`** — `g` changes the list at the end of the path as `f` does, and is refused when
there is no list or `f` is refused. -/
def Edits (g : Json → Except Fault Json) (path : List String) (f : Edit) : Prop :=
  ∀ j j', g j = .ok j' ↔
    ∃ rules rules', listAt? path j = some rules ∧ f rules = .ok rules' ∧
      j' = withListAt rules' path j

theorem edits_editList (scope : String) (kind : Kind) (f : Edit) :
    Edits (editList scope kind f) [] f := by
  intro j j'
  cases j with
  | arr rules =>
    rw [editList]
    cases hf : f rules with
    | error e => simp [Except.map, listAt?, hf]
    | ok rules' => simp [Except.map, listAt?, withListAt, hf, eq_comm]
  | _ => simp [editList, listAt?]

theorem map_eq_ok_iff {ε α β : Type} {g : α → β} {x : Except ε α} {b : β} :
    x.map g = .ok b ↔ ∃ a, x = .ok a ∧ g a = b := by
  cases x <;> simp [Except.map]

/-- A change of a member is a change one key further up. -/
theorem Edits.member {g h : Json → Except Fault Json} {key : String} {path : List String} {f : Edit}
    (hg : Edits g path f)
    (hobj : ∀ members, h (.obj members) = editMember key (absent path) g members)
    (hother : ∀ j, (∀ members, j ≠ .obj members) → ∃ fault, h j = .error fault) :
    Edits h (key :: path) f := by
  intro j j'
  by_cases hj : ∃ members, j = .obj members
  · obtain ⟨members, rfl⟩ := hj
    rw [hobj, editMember, map_eq_ok_iff]
    constructor
    · rintro ⟨inner, hinner, rfl⟩
      obtain ⟨rules, rules', hrules, hf, rfl⟩ := (hg _ _).mp hinner
      exact ⟨rules, rules', hrules, hf, rfl⟩
    · rintro ⟨rules, rules', hrules, hf, rfl⟩
      exact ⟨_, (hg _ _).mpr ⟨rules, rules', hrules, hf, rfl⟩, rfl⟩
  · obtain ⟨fault, hfault⟩ := hother j fun members heq => hj ⟨members, heq⟩
    constructor
    · intro hok
      exact absurd (hfault.symm.trans hok) (by simp)
    · rintro ⟨rules, -, hrules, -⟩
      obtain ⟨members, heq, -⟩ := listAt?_cons_eq_some_iff.mp hrules
      exact absurd ⟨members, heq⟩ hj

theorem edits_editKind (scope : String) (kind : Kind) (f : Edit) :
    Edits (editKind scope kind f) [kind.text] f :=
  (edits_editList scope kind f).member (fun _ => rfl) fun j hj => by
    cases j with
    | obj members => exact absurd rfl (hj members)
    | _ => exact ⟨_, rfl⟩

theorem edits_editDevice (scope device : String) (kind : Kind) (f : Edit) :
    Edits (editDevice scope device kind f) [device, kind.text] f :=
  (edits_editKind scope kind f).member (fun _ => rfl) fun j hj => by
    cases j with
    | obj members => exact absurd rfl (hj members)
    | _ => exact ⟨_, rfl⟩

/-- A change of the rules of a kind within a scope is a change of the list at the end of their path. -/
theorem edits_editRoot {scope : String} {s : Scope} (hscope : Scope.ofString? scope = some s)
    (kind : Kind) (f : Edit) : Edits (editRoot scope kind f) (s.path kind) f := by
  have hother : ∀ j, (∀ members, j ≠ .obj members) →
      ∃ fault, editRoot scope kind f j = .error fault := by
    intro j hj
    cases j with
    | obj members => exact absurd rfl (hj members)
    | _ => exact ⟨_, rfl⟩
  cases s with
  | global =>
    refine (edits_editKind scope kind f).member (fun members => ?_) hother
    rw [editRoot, hscope]
    rfl
  | device name =>
    refine (edits_editDevice scope name kind f).member (fun members => ?_) hother
    rw [editRoot, hscope]
    rfl

/-! ## The value with another list -/

theorem canonical_absent (path : List String) : (absent path).Canonical := by
  cases path with
  | nil => trivial
  | cons key path => exact ⟨List.Pairwise.nil, trivial⟩

theorem depth_absent (path : List String) : (absent path).depth = 1 := by
  cases path <;> rfl

theorem sound_absent (path : List String) : (absent path).Sound := by
  cases path with
  | nil => exact sound_nil_arr
  | cons key path => exact sound_nil_obj

theorem reread_absent (path : List String) : (absent path).reread = absent path := by
  cases path <;> rfl

theorem canonical_getD_lookup {members : List (String × Json)} (h : (Json.obj members).Canonical)
    (key : String) (path : List String) :
    ((members.lookup key).getD (absent path)).Canonical := by
  cases hlookup : members.lookup key with
  | none => exact canonical_absent path
  | some j => exact membersCanonical_iff.mp h.2 _ (Entries.mem_of_lookup hlookup)

theorem sound_getD_lookup {members : List (String × Json)} (h : (Json.obj members).Sound)
    (key : String) (path : List String) : ((members.lookup key).getD (absent path)).Sound := by
  cases hlookup : members.lookup key with
  | none => exact sound_absent path
  | some j => exact h.of_lookup hlookup

theorem depth_getD_lookup_le {members : List (String × Json)} {d : Nat}
    (h : (Json.obj members).depth ≤ d + 1) (hd : 1 ≤ d) (key : String) (path : List String) :
    ((members.lookup key).getD (absent path)).depth ≤ d := by
  cases hlookup : members.lookup key with
  | none => exact (depth_absent path).symm ▸ hd
  | some j => exact depth_obj_le_iff.mp h _ (Entries.mem_of_lookup hlookup)

section Levels

variable {rules : List Json} (rules' : List Json) {path : List String} {j : Json}

theorem canonical_listAt (hj : j.Canonical) (hrules : listAt? path j = some rules) :
    (Json.arr rules).Canonical := by
  induction path generalizing j with
  | nil => exact listAt?_nil_eq_some_iff.mp hrules ▸ hj
  | cons key path ih =>
    obtain ⟨members, rfl, hinner⟩ := listAt?_cons_eq_some_iff.mp hrules
    exact ih (canonical_getD_lookup hj key path) hinner

theorem canonical_withListAt (hj : j.Canonical) (hrules : listAt? path j = some rules)
    (hrules' : (Json.arr rules').Canonical) : (withListAt rules' path j).Canonical := by
  induction path generalizing j with
  | nil => exact hrules'
  | cons key path ih =>
    obtain ⟨members, rfl, hinner⟩ := listAt?_cons_eq_some_iff.mp hrules
    refine ⟨Entries.sorted_insert hj.1, membersCanonical_iff.mpr ?_⟩
    exact Entries.forall_mem_insert (membersCanonical_iff.mp hj.2)
      (ih (canonical_getD_lookup hj key path) hinner)

theorem sound_listAt (hj : j.Sound) (hrules : listAt? path j = some rules) :
    (Json.arr rules).Sound := by
  induction path generalizing j with
  | nil => exact listAt?_nil_eq_some_iff.mp hrules ▸ hj
  | cons key path ih =>
    obtain ⟨members, rfl, hinner⟩ := listAt?_cons_eq_some_iff.mp hrules
    exact ih (sound_getD_lookup hj key path) hinner

theorem sound_withListAt (hj : j.Sound) (hrules : listAt? path j = some rules)
    (hrules' : (Json.arr rules').Sound) : (withListAt rules' path j).Sound := by
  induction path generalizing j with
  | nil => exact hrules'
  | cons key path ih =>
    obtain ⟨members, rfl, hinner⟩ := listAt?_cons_eq_some_iff.mp hrules
    exact hj.insert key (ih (sound_getD_lookup hj key path) hinner)

/-- The list lies as deep in the value as the path is long. -/
theorem depth_listAt {d : Nat} (hj : j.depth ≤ d + path.length) (hd : 1 ≤ d)
    (hrules : listAt? path j = some rules) : (Json.arr rules).depth ≤ d := by
  induction path generalizing j with
  | nil => exact listAt?_nil_eq_some_iff.mp hrules ▸ hj
  | cons key path ih =>
    obtain ⟨members, rfl, hinner⟩ := listAt?_cons_eq_some_iff.mp hrules
    rw [List.length_cons, ← Nat.add_assoc] at hj
    exact ih (depth_getD_lookup_le hj (by omega) key path) hinner

/-- How deep the value is with another list depends on that list only. -/
theorem depth_withListAt_le_iff {d : Nat} (hj : j.depth ≤ d + path.length) (hd : 1 ≤ d)
    (hrules : listAt? path j = some rules) :
    (withListAt rules' path j).depth ≤ d + path.length ↔ (Json.arr rules').depth ≤ d := by
  induction path generalizing j with
  | nil => exact Iff.rfl
  | cons key path ih =>
    obtain ⟨members, rfl, hinner⟩ := listAt?_cons_eq_some_iff.mp hrules
    rw [List.length_cons, ← Nat.add_assoc] at hj ⊢
    rw [← ih (depth_getD_lookup_le hj (by omega) key path) hinner, withListAt_obj]
    constructor
    · intro h
      exact depth_obj_le_iff.mp h _ (Entries.mem_insert_self _ _ _)
    · intro h
      exact depth_insert_le hj key h

/-! ### Numbers read again -/

theorem getD_lookup_reread (members : List (String × Json)) (key : String) (path : List String) :
    ((Entries.mapValues reread members).lookup key).getD (absent path) =
      ((members.lookup key).getD (absent path)).reread := by
  rw [Entries.lookup_mapValues]
  cases members.lookup key with
  | none => exact (reread_absent path).symm
  | some j => rfl

theorem listAt?_reread (path : List String) (j : Json) :
    listAt? path j.reread = (listAt? path j).map (List.map reread) := by
  induction path generalizing j with
  | nil => cases j <;> simp [listAt?, Json.reread, rereadItems_eq_map]
  | cons key path ih =>
    cases j with
    | obj members => rw [reread_obj, listAt?, listAt?, getD_lookup_reread, ih]
    | _ => simp [listAt?, Json.reread]

theorem reread_withListAt (rules : List Json) (path : List String) (j : Json) :
    (withListAt rules path j).reread = withListAt (rules.map reread) path j.reread := by
  induction path generalizing j with
  | nil => rw [withListAt, reread_arr, withListAt]
  | cons key path ih =>
    cases j with
    | obj members =>
      rw [withListAt_obj, reread_obj, reread_obj, withListAt_obj, Entries.mapValues_insert, ih,
        getD_lookup_reread]
    | _ => simp [withListAt, Json.reread, rereadItems_eq_map]

end Levels

end AlertRules.RulesFile
