import AlertRules.Proofs.Event

/-!
# AlertRules.Proofs.Event.Paths — keys that spell a path

A path is a row of member names, and a key spells it with a dot between each two of them.  A name may
be empty, but it holds no dot, so that the parts of the key are the names again
(`dotted_intercalate`).

From a value, a path either `Reaches` another one, name by name, or it `Stops`: a name is missing, or
it is looked for in something that is no object.  A key that spells a path finds what the path
reaches.  The sender is found too where `user_id` stops, but only if that is the whole path
(`at?_intercalate`).
-/

namespace AlertRules

namespace Text

/-- The parts of names with dots between them are the names. -/
theorem dotted_intercalate {path : List String} (hne : path ≠ [])
    (hplain : ∀ name ∈ path, '.' ∉ name.toList) : dotted (".".intercalate path) = path := by
  induction path with
  | nil => exact absurd rfl hne
  | cons name path ih =>
    rw [List.forall_mem_cons] at hplain
    cases path with
    | nil => rw [String.intercalate_singleton, dotted_of_notMem hplain.1]
    | cons next path =>
      rw [String.intercalate_cons_cons, dotted_append hplain.1,
        ih (List.cons_ne_nil _ _) hplain.2]

end Text

namespace Event

open Text (dotted dotted_of_notMem dotted_intercalate)

/-! ## Paths -/

/-- **`Reaches j path v`** — from `j`, one member after the other leads to `v`. -/
inductive Reaches : Json → List String → Json → Prop
  | here {v} : Reaches v [] v
  | member {members name path k v} (found : members.lookup name = some k) (rest : Reaches k path v) :
      Reaches (.obj members) (name :: path) v

/-- **`Stops j path`** — from `j`, the path leads nowhere: a member is missing on the way, or what has
been reached is no object and has no members. -/
inductive Stops : Json → List String → Prop
  | missing {members name path} (absent : members.lookup name = none) :
      Stops (.obj members) (name :: path)
  | memberless {j name path} (noObject : ∀ members, j ≠ .obj members) : Stops j (name :: path)
  | member {members name path k} (found : members.lookup name = some k) (rest : Stops k path) :
      Stops (.obj members) (name :: path)

theorem follow_of_reaches {j v : Json} {path : List String} (h : Reaches j path v) :
    follow path j = some v := by
  induction h with
  | here => rfl
  | @member members name path k v found rest ih =>
    show (members.lookup name).bind (follow path) = some v
    rw [found, Option.bind_some, ih]

theorem field?_of_memberless {j : Json} (h : ∀ members, j ≠ .obj members) (name : String) :
    j.field? name = none := by
  cases j with
  | obj members => exact absurd rfl (h members)
  | null | bool | num | str | arr => rfl

theorem follow_of_stops {j : Json} {path : List String} (h : Stops j path) :
    follow path j = none := by
  induction h with
  | @missing members name path absent =>
    show (members.lookup name).bind (follow path) = none
    rw [absent, Option.bind_none]
  | @memberless j name path noObject =>
    rw [follow, field?_of_memberless noObject, Option.bind_none]
  | @member members name path k found rest ih =>
    show (members.lookup name).bind (follow path) = none
    rw [found, Option.bind_some, ih]

/-- Every path leads somewhere or stops. -/
theorem reaches_or_stops (path : List String) (j : Json) :
    (∃ v, Reaches j path v) ∨ Stops j path := by
  induction path generalizing j with
  | nil => exact Or.inl ⟨j, .here⟩
  | cons name path ih =>
    cases j with
    | obj members =>
      cases hfound : members.lookup name with
      | none => exact Or.inr (.missing hfound)
      | some k =>
        rcases ih k with ⟨v, hv⟩ | hstops
        · exact Or.inl ⟨v, .member hfound hv⟩
        · exact Or.inr (.member hfound hstops)
    | null | bool | num | str | arr => exact Or.inr (.memberless fun _ h => Json.noConfusion h)

theorem follow_eq_some_iff {j v : Json} {path : List String} :
    follow path j = some v ↔ Reaches j path v := by
  constructor
  · intro h
    rcases reaches_or_stops path j with ⟨w, hw⟩ | hstops
    · rw [follow_of_reaches hw] at h
      exact Option.some.inj h ▸ hw
    · rw [follow_of_stops hstops] at h
      exact absurd h (by simp)
  · exact follow_of_reaches

theorem follow_eq_none_iff {j : Json} {path : List String} :
    follow path j = none ↔ Stops j path := by
  constructor
  · intro h
    rcases reaches_or_stops path j with ⟨v, hv⟩ | hstops
    · rw [follow_of_reaches hv] at h
      exact absurd h (by simp)
    · exact hstops
  · exact follow_of_stops

/-! ## Keys -/

/-- The key `user_id` finds what its path reaches, or else what the path of the sender reaches. -/
theorem at?_userId_eq (e : Event) :
    e.at? "user_id" = (follow ["user_id"] e.raw).or (follow ["sender"] e.raw) := by
  have hsender : follow ["sender"] e.raw = e.raw.field? "sender" := by
    show (e.raw.field? "sender").bind some = _
    rw [Option.bind_fun_some]
  rw [at?, if_neg (by decide), dotted_of_notMem (by decide), if_pos rfl, hsender]
  cases follow ["user_id"] e.raw with
  | none => rfl
  | some j => rfl

/-- A key that spells a path finds the value that the path reaches, and none if it stops.  Where
`user_id` is the whole path and stops, the sender is found. -/
theorem at?_intercalate (e : Event) {path : List String} (hne : path ≠ [])
    (hplain : ∀ name ∈ path, '.' ∉ name.toList) (hnamed : path ≠ [""]) :
    (∀ v, e.at? (".".intercalate path) = some v ↔
      Reaches e.raw path v ∨
        path = ["user_id"] ∧ Stops e.raw ["user_id"] ∧ Reaches e.raw ["sender"] v) ∧
    (e.at? (".".intercalate path) = none ↔
      Stops e.raw path ∧ (path = ["user_id"] → Stops e.raw ["sender"])) := by
  have hparts := dotted_intercalate hne hplain
  by_cases huser : path = ["user_id"]
  · subst huser
    rw [String.intercalate_singleton, at?_userId_eq]
    simp only [Option.or_eq_some_iff, Option.or_eq_none_iff, follow_eq_some_iff,
      follow_eq_none_iff, true_and, true_imp_iff, implies_true, and_self]
  · have hempty : ".".intercalate path ≠ "" := by
      intro hkey
      rw [hkey, dotted_of_notMem (by decide)] at hparts
      exact hnamed hparts.symm
    have hother : ".".intercalate path ≠ "user_id" := by
      intro hkey
      rw [hkey, dotted_of_notMem (by decide)] at hparts
      exact huser hparts.symm
    rw [e.at?_eq_follow hempty hother, hparts]
    simp only [follow_eq_some_iff, follow_eq_none_iff, huser, false_and, or_false,
      false_imp_iff, and_true, implies_true, and_self]

/-- Behind an empty name, `user_id` is missing, and the sender does not stand in for it. -/
theorem at?_intercalate_nested :
    (∀ name ∈ ["content", "", "user_id"], '.' ∉ name.toList) ∧
      (Event.mk (.obj [("content", .obj [("", .obj [])]), ("sender", .str "@u:x")])).at?
        (".".intercalate ["content", "", "user_id"]) = none := by
  have hplain : ∀ name ∈ ["content", "", "user_id"], '.' ∉ name.toList := by decide
  refine ⟨hplain, (at?_intercalate _ (by simp) hplain (by simp)).2.mpr ⟨?_, fun h => ?_⟩⟩
  · exact .member rfl (.member rfl (.missing rfl))
  · exact absurd h (by decide)

end Event

end AlertRules
