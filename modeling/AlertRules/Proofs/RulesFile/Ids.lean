import AlertRules.Proofs.RulesFile.Reading
import AlertRules.RulesFile

/-!
# AlertRules.Proofs.RulesFile.Ids — the rules of an id

What a change does to a list is said by its entries: which of them bear an id (`Bears`), what is left
when those are dropped (`Drops`), and that a body is put in with the id in it (`Named`).

A change finds the entries of a list by the id that stands in them (`hasId`), and reading a rule gives
it that id (`id_of_hasId`).  A rule whose entry is a list of its fields, though, has an id that no
change finds: such a rule is **fixed**.  `without` takes away the rules of an id but for the fixed ones
(`mem_of_mem_without`) and no others (`mem_without`).
-/

namespace AlertRules

open Json

/-! ## Reading a rule -/

namespace Rule

/-- The names of the fields. -/
def names : List String :=
  ["rule_id", "conditions", "actions", "pattern", "enabled", "default"]

theorem names_record : record.names = names :=
  rfl

/-- A rule is read from its parts, of which only the id may not be missing. -/
theorem read_eq_ok_iff {j : Json} (hj : j.Keyed) {r : Rule} :
    read j = .ok r ↔
      j.hasForm names.length = true ∧
      j.part? names "rule_id" = some (.str r.id) ∧
      Record.valueOr none (Read.option (Read.list fun j => .ok (Condition.ofJson j)))
        (j.part? names "conditions") = .ok r.conditions ∧
      Record.valueOr [] (Read.list fun j => .ok (Action.ofJson j)) (j.part? names "actions") =
        .ok r.actions ∧
      Record.valueOr none (Read.option Read.text) (j.part? names "pattern") = .ok r.pattern ∧
      Record.valueOr true Read.flag (j.part? names "enabled") = .ok r.enabled ∧
      Record.valueOr false Read.flag (j.part? names "default") = .ok r.isDefault := by
  refine Record.read_eq_ok_iff hj fun lookup hfinds => ?_
  rw [names_record] at hfinds
  rw [record]
  simp only [Record.optional, Record.build_seq_eq_ok_iff, Record.build_map_eq_ok_iff,
    hfinds.build_required_eq_ok_iff, hfinds.build_withDefault, Read.text_eq_ok_iff]
  constructor
  · rintro ⟨_, isDefault, ⟨_, enabled, ⟨_, pattern, ⟨_, actions, ⟨_, conditions, ⟨id, ⟨_, hid, rfl⟩,
      rfl⟩, hconditions, rfl⟩, hactions, rfl⟩, hpattern, rfl⟩, henabled, rfl⟩, hdefault, rfl⟩
    exact ⟨hid, hconditions, hactions, hpattern, henabled, hdefault⟩
  · rintro ⟨hid, hconditions, hactions, hpattern, henabled, hdefault⟩
    exact ⟨_, _, ⟨_, _, ⟨_, _, ⟨_, _, ⟨_, _, ⟨_, ⟨_, hid, rfl⟩, rfl⟩, hconditions, rfl⟩, hactions,
      rfl⟩, hpattern, rfl⟩, henabled, rfl⟩, hdefault, rfl⟩

theorem read_obj_eq_ok_iff {members : List (String × Json)} (h : Entries.Sorted members)
    {r : Rule} :
    read (.obj members) = .ok r ↔
      members.lookup "rule_id" = some (.str r.id) ∧
      Record.valueOr none (Read.option (Read.list fun j => .ok (Condition.ofJson j)))
        (members.lookup "conditions") = .ok r.conditions ∧
      Record.valueOr [] (Read.list fun j => .ok (Action.ofJson j)) (members.lookup "actions") =
        .ok r.actions ∧
      Record.valueOr none (Read.option Read.text) (members.lookup "pattern") = .ok r.pattern ∧
      Record.valueOr true Read.flag (members.lookup "enabled") = .ok r.enabled ∧
      Record.valueOr false Read.flag (members.lookup "default") = .ok r.isDefault := by
  have hj : (Json.obj members).Keyed := h
  rw [read_eq_ok_iff hj]
  exact and_iff_right rfl

end Rule

namespace RulesFile

/-! ## Entries and their ids -/

/-- An entry bears an id if it is an object whose member `rule_id` is that text. -/
def Bears (id : String) (j : Json) : Prop :=
  ∃ members, j = .obj members ∧ members.lookup "rule_id" = some (.str id)

theorem hasId_iff {id : String} {j : Json} : hasId id j = true ↔ Bears id j := by
  rw [hasId, beq_iff_eq, Option.bind_eq_some_iff, Bears]
  constructor
  · rintro ⟨d, hd, htext⟩
    cases j with
    | obj members =>
      cases d with
      | str s =>
        obtain rfl := Option.some.inj htext
        exact ⟨members, rfl, hd⟩
      | _ => exact absurd htext (by simp [text?])
    | _ => exact absurd hd (by simp [field?])
  · rintro ⟨members, rfl, hd⟩
    exact ⟨_, hd, rfl⟩

/-- The rule that is read from an entry has the id that stands there. -/
theorem id_of_hasId {id : String} {j : Json} {r : Rule} (hj : j.Canonical)
    (hid : hasId id j = true) (hread : Rule.read j = .ok r) : r.id = id := by
  obtain ⟨members, rfl, hlookup⟩ := hasId_iff.mp hid
  have hrule := ((Rule.read_obj_eq_ok_iff hj.1).mp hread).1
  rw [hlookup] at hrule
  exact (Json.str.inj (Option.some.inj hrule)).symm

instance decidableBears (id : String) (j : Json) : Decidable (Bears id j) :=
  decidable_of_iff _ hasId_iff

theorem without_eq_filter (id : String) (rules : List Json) :
    without id rules = rules.filter fun e => ¬ Bears id e := by
  rw [without]
  congr 1
  funext e
  rw [Bool.eq_iff_iff, Bool.not_eq_true', ← Bool.not_eq_true, hasId_iff, decide_eq_true_iff]

/-- **`Drops id rules kept`** — `kept` is the list without the entries that bear the id, in its order. -/
inductive Drops (id : String) : List Json → List Json → Prop
  | nil : Drops id [] []
  | drop {j : Json} {rules kept : List Json} (bears : Bears id j) (rest : Drops id rules kept) :
    Drops id (j :: rules) kept
  | keep {j : Json} {rules kept : List Json} (other : ¬ Bears id j) (rest : Drops id rules kept) :
    Drops id (j :: rules) (j :: kept)

theorem drops_iff {id : String} {rules kept : List Json} :
    Drops id rules kept ↔ kept = without id rules := by
  constructor
  · intro h
    induction h with
    | nil => rfl
    | drop bears _ ih => rw [without, List.filter_cons, hasId_iff.mpr bears]; exact ih
    | keep other _ ih =>
      rw [← hasId_iff, Bool.not_eq_true] at other
      rw [without, List.filter_cons, other, ih]
      rfl
  · rintro rfl
    induction rules with
    | nil => exact .nil
    | cons j rules ih =>
      by_cases hj : Bears id j
      · rw [without, List.filter_cons, hasId_iff.mpr hj]
        exact .drop hj ih
      · have hother : hasId id j = false := by rwa [← Bool.not_eq_true, hasId_iff]
        rw [without, List.filter_cons, hother]
        exact .keep hj ih

/-- **`Named id members rule`** — the rule is the object of these members with the id as its member
`rule_id`, whatever stood there. -/
structure Named (id : String) (members : List (String × Json)) (rule : Json) : Prop where
  value_eq : rule = withId id members
  rule_id : rule.field? "rule_id" = some (.str id)
  others : ∀ key, key ≠ "rule_id" → rule.field? key = members.lookup key

theorem named_withId (id : String) (members : List (String × Json)) :
    Named id members (withId id members) where
  value_eq := rfl
  rule_id := by
    show (Entries.insert "rule_id" (.str id) members).lookup "rule_id" = _
    rw [Entries.lookup_insert, if_pos rfl]
  others key hkey := by
    show (Entries.insert "rule_id" (.str id) members).lookup key = _
    rw [Entries.lookup_insert, if_neg hkey]

theorem Named.bears_iff {id id' : String} {members : List (String × Json)} {rule : Json}
    (h : Named id members rule) : Bears id' rule ↔ id = id' := by
  obtain ⟨members', hrule⟩ : ∃ members', rule = .obj members' := ⟨_, h.value_eq⟩
  have hlookup : (Json.obj members').field? "rule_id" = some (.str id) := hrule ▸ h.rule_id
  constructor
  · rintro ⟨_, heq, hother⟩
    obtain rfl := Json.obj.inj (hrule.symm.trans heq)
    exact Json.str.inj (Option.some.inj (hlookup.symm.trans hother))
  · rintro rfl
    exact ⟨members', hrule, hlookup⟩

theorem hasId_withId (id : String) (members : List (String × Json)) :
    hasId id (withId id members) = true :=
  hasId_iff.mpr ((named_withId id members).bears_iff.mpr rfl)

theorem canonical_withId (id : String) {members : List (String × Json)}
    (h : (Json.obj members).Canonical) : (withId id members).Canonical := by
  refine ⟨Entries.sorted_insert h.1, membersCanonical_iff.mpr ?_⟩
  exact Entries.forall_mem_insert (membersCanonical_iff.mp h.2) trivial

/-- The rule comes from an entry of the list in which its id cannot be found. -/
def Fixed (rules : List Json) (r : Rule) : Prop :=
  ∃ j ∈ rules, Rule.read j = .ok r ∧ hasId r.id j = false

theorem mem_without_iff {id : String} {rules : List Json} {j : Json} :
    j ∈ without id rules ↔ j ∈ rules ∧ hasId id j = false := by
  rw [without, List.mem_filter, Bool.not_eq_true']

/-- Rules of another id stay. -/
theorem mem_without {id : String} {rules : List Json} {r : Rule} (hrules : (Json.arr rules).Canonical)
    (hr : r ∈ KindSet.wellFormed rules) (hne : r.id ≠ id) :
    r ∈ KindSet.wellFormed (without id rules) := by
  obtain ⟨j, hj, hread⟩ := KindSet.mem_wellFormed.mp hr
  refine KindSet.mem_wellFormed.mpr ⟨j, mem_without_iff.mpr ⟨hj, ?_⟩, hread⟩
  rw [Bool.eq_false_iff]
  intro hid
  exact hne (id_of_hasId (allCanonical_iff.mp hrules j hj) hid hread)

/-- What is left was there before, and of the rules of the id only fixed ones are left. -/
theorem mem_of_mem_without {id : String} {rules : List Json} {r : Rule}
    (hr : r ∈ KindSet.wellFormed (without id rules)) :
    r ∈ KindSet.wellFormed rules ∧ (r.id = id → Fixed rules r) := by
  obtain ⟨j, hleft, hread⟩ := KindSet.mem_wellFormed.mp hr
  obtain ⟨hj, hid⟩ := mem_without_iff.mp hleft
  refine ⟨KindSet.mem_wellFormed.mpr ⟨j, hj, hread⟩, ?_⟩
  intro hrule
  exact ⟨j, hj, hread, hrule ▸ hid⟩

theorem Fixed.of_without {id : String} {rules : List Json} {r : Rule}
    (h : Fixed (without id rules) r) : Fixed rules r := by
  obtain ⟨j, hj, hread, hid⟩ := h
  exact ⟨j, (mem_without_iff.mp hj).1, hread, hid⟩

/-- A rule that is put into a list is not fixed. -/
theorem Fixed.of_append_withId {id : String} {members : List (String × Json)} {rules : List Json}
    {r : Rule} (hmembers : (Json.obj members).Canonical)
    (h : Fixed (rules ++ [withId id members]) r) : Fixed rules r := by
  obtain ⟨j, hj, hread, hid⟩ := h
  rcases List.mem_append.mp hj with hj | hj
  · exact ⟨j, hj, hread, hid⟩
  · obtain rfl := List.mem_singleton.mp hj
    have hrule := id_of_hasId (canonical_withId id hmembers) (hasId_withId id members) hread
    rw [hrule, hasId_withId] at hid
    exact absurd hid (by simp)

/-! ## Canonical and sound lists -/

theorem canonical_without {id : String} {rules : List Json} (h : (Json.arr rules).Canonical) :
    (Json.arr (without id rules)).Canonical :=
  allCanonical_iff.mpr fun j hj => allCanonical_iff.mp h j (mem_without_iff.mp hj).1

theorem canonical_append_withId {id : String} {members : List (String × Json)} {rules : List Json}
    (hrules : (Json.arr rules).Canonical) (hmembers : (Json.obj members).Canonical) :
    (Json.arr (rules ++ [withId id members])).Canonical := by
  apply allCanonical_iff.mpr
  intro j hj
  rcases List.mem_append.mp hj with hj | hj
  · exact allCanonical_iff.mp hrules j hj
  · obtain rfl := List.mem_singleton.mp hj
    exact canonical_withId id hmembers

theorem sound_without {id : String} {rules : List Json} (h : (Json.arr rules).Sound) :
    (Json.arr (without id rules)).Sound :=
  sound_arr_iff.mpr fun j hj => sound_arr_iff.mp h j (mem_without_iff.mp hj).1

theorem depth_without_le {id : String} {rules : List Json} {d : Nat}
    (h : (Json.arr rules).depth ≤ d + 1) : (Json.arr (without id rules)).depth ≤ d + 1 :=
  depth_arr_le_iff.mpr fun j hj => depth_arr_le_iff.mp h j (mem_without_iff.mp hj).1

theorem sound_append_withId {id : String} {members : List (String × Json)} {rules : List Json}
    (hrules : (Json.arr rules).Sound) (hmembers : (Json.obj members).Sound) :
    (Json.arr (rules ++ [withId id members])).Sound := by
  apply sound_arr_iff.mpr
  intro j hj
  rcases List.mem_append.mp hj with hj | hj
  · exact sound_arr_iff.mp hrules j hj
  · obtain rfl := List.mem_singleton.mp hj
    exact hmembers.insert "rule_id" (sound_str id)

theorem depth_append_le_iff {rules : List Json} {j : Json} {d : Nat}
    (h : (Json.arr rules).depth ≤ d + 1) :
    (Json.arr (rules ++ [j])).depth ≤ d + 1 ↔ j.depth ≤ d := by
  rw [depth_arr_le_iff, List.forall_mem_append, List.forall_mem_singleton]
  exact and_iff_right (depth_arr_le_iff.mp h)

end RulesFile

end AlertRules
