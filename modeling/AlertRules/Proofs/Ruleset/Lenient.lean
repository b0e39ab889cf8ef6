import AlertRules.Proofs.Json.Parts
import AlertRules.Proofs.RulesFile.Ids
import AlertRules.Proofs.RulesFile.Scopes

/-!
# AlertRules.Proofs.Ruleset.Lenient — lists of rules are read leniently

Whether a value describes a rule is told by the types of its parts (`Rule.exists_read_iff`), and the items
of its two lists are never looked at: each is read as some condition, some action
(`Rule.read_put_conditions`, `Rule.read_put_actions`).  A list of rules is read as the rules that its
well-formed entries describe, in their order (`KindSet.forall₂_wellFormed`).

A rule set, in whatever form it is given, reads what stands in the place of a kind as a list of rules and
nothing else of it (`Ruleset.through_steps`).  So an ill-formed entry is as if it were not there: neither
a rule nor a refusal anywhere in the rule set depends on it.
-/

namespace AlertRules

open Json
open RulesFile (Scope)

/-! ## What readers take -/

namespace Json

/-- The value is null. -/
def isNull : Json → Bool
  | .null => true
  | _ => false

/-- The value is a text. -/
def isText : Json → Bool
  | .str _ => true
  | _ => false

/-- The value is a truth value. -/
def isFlag : Json → Bool
  | .bool _ => true
  | _ => false

/-- The value is a list. -/
def isList : Json → Bool
  | .arr _ => true
  | _ => false

/-- The reader takes the values that are `ok` and refuses the others. -/
def Takes {α : Type} (read : Json → Except Refusal α) (ok : Json → Bool) : Prop :=
  ∀ j, (∃ a, read j = .ok a) ↔ ok j = true

theorem takes_text : Takes Read.text isText := by
  intro j
  cases j <;> simp [Read.text, Read.textAs, Source.view, view, isText]

theorem takes_flag : Takes Read.flag isFlag := by
  intro j
  cases j <;> simp [Read.flag, Source.view, view, isFlag]

/-- A list whose items are read without fail is taken whatever they are. -/
theorem takes_list {α : Type} (f : Json → α) : Takes (Read.list fun j => .ok (f j)) isList := by
  intro j
  cases j with
  | arr items => exact iff_of_true ⟨_, Read.list_arr f items⟩ rfl
  | _ => simp [Read.list, Source.view, view, isList]

section Takes

variable {α : Type} {read : Json → Except Refusal α} {ok : Json → Bool}

theorem Takes.option (h : Takes read ok) :
    Takes (Read.option read) fun j => j.isNull || ok j := by
  intro j
  have hmap : (∃ a?, (read j).map some = .ok a?) ↔ ∃ a, read j = .ok a := by
    cases read j with
    | error refusal => simp [Except.map]
    | ok a => simp [Except.map]
  cases j with
  | null => exact iff_of_true ⟨none, rfl⟩ rfl
  | _ => exact hmap.trans (h _)

/-- A field that may be absent is taken when its value is, if there is one. -/
theorem Takes.valueOr (h : Takes read ok) (value : α) (d? : Option Json) :
    (∃ a, Record.valueOr value read d? = .ok a) ↔ d?.all ok = true := by
  cases d? with
  | none => exact iff_of_true ⟨value, rfl⟩ rfl
  | some d => exact h d

end Takes

end Json

/-! ## Well-formed rules -/

namespace Rule

/-- The parts are what a rule has for its fields, where all but the id may be absent. -/
def shaped (part : String → Option Json) : Bool :=
  (part "rule_id").any isText
    && (part "conditions").all (fun j => j.isNull || j.isList)
    && (part "actions").all isList
    && (part "pattern").all (fun j => j.isNull || j.isText)
    && (part "enabled").all isFlag
    && (part "default").all isFlag

/-- The value is an object with members of the right types, or a list of one to six items of the right
types in the order of the fields. -/
def wellFormed : Json → Bool
  | .obj members => shaped fun name => members.lookup name
  | .arr items =>
    decide (1 ≤ items.length ∧ items.length ≤ 6) && shaped fun name => items[names.idxOf name]?
  | _ => false

theorem wellFormed_eq (j : Json) :
    wellFormed j = (j.hasForm names.length && shaped (j.part? names)) := by
  cases j with
  | obj members => exact (Bool.true_and _).symm
  | arr items =>
    cases items with
    | nil => rfl
    | cons id items =>
      have hlength : 1 ≤ (id :: items).length := Nat.le_add_left ..
      show (decide (1 ≤ (id :: items).length ∧ (id :: items).length ≤ 6) && _) =
        (decide ((id :: items).length ≤ 6) && _)
      rw [decide_eq_decide.mpr (and_iff_right hlength)]
      rfl
  | _ => rfl

/-- A value describes a rule iff it is well formed. -/
theorem exists_read_iff {j : Json} (hj : j.Keyed) :
    (∃ r, Rule.read j = .ok r) ↔ wellFormed j = true := by
  have hid : (∃ id, j.part? names "rule_id" = some (.str id)) ↔
      (j.part? names "rule_id").any isText = true := by
    cases j.part? names "rule_id" with
    | none => simp
    | some d => cases d <;> simp [isText]
  have hconditions := (takes_list Condition.ofJson).option.valueOr none (j.part? names "conditions")
  have hactions := (takes_list Action.ofJson).valueOr [] (j.part? names "actions")
  have hpattern := takes_text.option.valueOr none (j.part? names "pattern")
  have henabled := takes_flag.valueOr true (j.part? names "enabled")
  have hdefault := takes_flag.valueOr false (j.part? names "default")
  rw [wellFormed_eq, shaped]
  simp only [Bool.and_eq_true, and_assoc]
  rw [← hid, ← hconditions, ← hactions, ← hpattern, ← henabled, ← hdefault]
  constructor
  · rintro ⟨r, hr⟩
    obtain ⟨hform, hid, hconditions, hactions, hpattern, henabled, hdefault⟩ :=
      (read_eq_ok_iff hj).mp hr
    exact ⟨hform, ⟨_, hid⟩, ⟨_, hconditions⟩, ⟨_, hactions⟩, ⟨_, hpattern⟩, ⟨_, henabled⟩,
      ⟨_, hdefault⟩⟩
  · rintro ⟨hform, ⟨id, hid⟩, ⟨conditions, hconditions⟩, ⟨actions, hactions⟩, ⟨pattern, hpattern⟩,
      ⟨enabled, henabled⟩, ⟨isDefault, hdefault⟩⟩
    exact ⟨⟨id, conditions, actions, pattern, enabled, isDefault⟩, (read_eq_ok_iff hj).mpr
      ⟨hform, hid, hconditions, hactions, hpattern, henabled, hdefault⟩⟩

/-! ### Conditions and actions -/

section Elements

variable {j : Json} {r : Rule} {items : List Json}

/-- The conditions are those that the items of the list describe, each of which describes one. -/
theorem conditions_of_read (hj : j.Keyed) (hread : Rule.read j = .ok r)
    (hpart : j.part? names "conditions" = some (.arr items)) :
    r.conditions = some (items.map Condition.ofJson) := by
  obtain ⟨-, -, hconditions, -⟩ := (read_eq_ok_iff hj).mp hread
  have hlist : Record.valueOr none (Read.option (Read.list fun j => .ok (Condition.ofJson j)))
      (j.part? names "conditions") = .ok (some (items.map Condition.ofJson)) := by
    rw [hpart]
    exact congrArg (Except.map some) (Read.list_arr Condition.ofJson items)
  exact Except.ok.inj (hconditions.symm.trans hlist)

theorem actions_of_read (hj : j.Keyed) (hread : Rule.read j = .ok r)
    (hpart : j.part? names "actions" = some (.arr items)) :
    r.actions = items.map Action.ofJson := by
  obtain ⟨-, -, -, hactions, -⟩ := (read_eq_ok_iff hj).mp hread
  rw [hpart] at hactions
  exact Except.ok.inj (hactions.symm.trans (Read.list_arr Action.ofJson items))

/-- With any other items for its conditions the value still describes a rule, the same but for the
conditions. -/
theorem read_put_conditions (hj : j.Keyed) (hread : Rule.read j = .ok r)
    (hpart : j.part? names "conditions" = some (.arr items)) (items' : List Json) :
    Rule.read ((Step.field names "conditions").put (.arr items') j) =
      .ok { r with conditions := some (items'.map Condition.ofJson) } := by
  obtain ⟨hform, hid, -, hactions, hpattern, henabled, hdefault⟩ := (read_eq_ok_iff hj).mp hread
  rw [read_eq_ok_iff (Step.keyed_put hj _), Step.hasForm_put]
  simp only [Step.part?_put (by decide : "conditions" ∈ names) (Step.fits_of_get? hpart)]
  exact ⟨hform, hid, congrArg (Except.map some) (Read.list_arr Condition.ofJson items'), hactions,
    hpattern, henabled, hdefault⟩

theorem read_put_actions (hj : j.Keyed) (hread : Rule.read j = .ok r)
    (hpart : j.part? names "actions" = some (.arr items)) (items' : List Json) :
    Rule.read ((Step.field names "actions").put (.arr items') j) =
      .ok { r with actions := items'.map Action.ofJson } := by
  obtain ⟨hform, hid, hconditions, -, hpattern, henabled, hdefault⟩ := (read_eq_ok_iff hj).mp hread
  rw [read_eq_ok_iff (Step.keyed_put hj _), Step.hasForm_put]
  simp only [Step.part?_put (by decide : "actions" ∈ names) (Step.fits_of_get? hpart)]
  exact ⟨hform, hid, hconditions, Read.list_arr Action.ofJson items', hpattern, henabled, hdefault⟩

end Elements

end Rule

/-! ## Lists of rules -/

namespace KindSet

theorem wellFormed_of_ill {e : Json} (he : e.Keyed) (hill : Rule.wellFormed e = false) :
    wellFormed [e] = [] := by
  cases hread : Rule.read e with
  | error refusal =>
    rw [wellFormed, List.filterMap_cons, hread]
    rfl
  | ok r =>
    rw [(Rule.exists_read_iff he).mp ⟨r, hread⟩] at hill
    exact absurd hill (by simp)

/-- An ill-formed entry is as if it were not there. -/
theorem wellFormed_insert_ill {e : Json} (he : e.Keyed) (hill : Rule.wellFormed e = false)
    (front back : List Json) : wellFormed (front ++ e :: back) = wellFormed (front ++ back) := by
  rw [wellFormed_append, ← List.singleton_append, wellFormed_append, wellFormed_of_ill he hill,
    List.nil_append, wellFormed_append]

/-- The rules of a list are those that its well-formed entries describe, in their order. -/
theorem forall₂_wellFormed {js : List Json} (hjs : ∀ e ∈ js, e.Keyed) :
    List.Forall₂ (fun e r => Rule.read e = .ok r) (js.filter Rule.wellFormed) (wellFormed js) := by
  induction js with
  | nil => exact .nil
  | cons e js ih =>
    obtain ⟨he, hrest⟩ := List.forall_mem_cons.mp hjs
    rw [← List.singleton_append, wellFormed_append, List.singleton_append]
    cases hwell : Rule.wellFormed e with
    | false =>
      rw [List.filter_cons_of_neg (by simp [hwell]), wellFormed_of_ill he hwell]
      exact ih hrest
    | true =>
      obtain ⟨r, hread⟩ := (Rule.exists_read_iff he).mpr hwell
      rw [List.filter_cons_of_pos hwell, wellFormed_singleton hread]
      exact .cons hread (ih hrest)

/-- A list of rules is the only thing that is read in the place of a kind. -/
theorem sees_rules (kind : Kind) : record.Sees kind.text readRules := by
  have hfield : ∀ k : Kind, (Json.Record.withDefault k.text [] readRules).Sees kind.text readRules :=
    fun k => Json.Record.sees_withDefault fun _ _ _ hrules => hrules
  exact (((((hfield .override).map KindSet.mk).seq (hfield .content)).seq (hfield .room)).seq
    (hfield .sender)).seq (hfield .underride)

end KindSet

/-! ## Rule sets -/

namespace Ruleset

/-- The way through a rule set to the place of the kind within the scope. -/
def steps : Scope → Kind → List Step
  | .global, kind => [.field names "global", .field KindSet.names kind.text]
  | .device name, kind =>
    [.field names "device", .member name, .field KindSet.names kind.text]

theorem sees_global : record.Sees "global" KindSet.read := by
  have hglobal : (Record.withDefault "global" .empty KindSet.read).Sees "global" KindSet.read :=
    Record.sees_withDefault fun _ _ _ hset => hset
  have hdevice : (Record.withDefault "device" .empty (Read.map KindSet.read)).Sees "global"
      KindSet.read :=
    Record.sees_withDefault fun heq => absurd heq (by decide)
  exact (hglobal.map Ruleset.mk).seq hdevice

theorem sees_device : record.Sees "device" (Read.map KindSet.read) := by
  have hglobal : (Record.withDefault "global" .empty KindSet.read).Sees "device"
      (Read.map KindSet.read) :=
    Record.sees_withDefault fun heq => absurd heq (by decide)
  have hdevice : (Record.withDefault "device" .empty (Read.map KindSet.read)).Sees "device"
      (Read.map KindSet.read) :=
    Record.sees_withDefault fun _ _ _ hsets => hsets
  exact (hglobal.map Ruleset.mk).seq hdevice

/-- Of what stands in the place of a kind a rule set reads a list of rules only. -/
theorem through_steps (s : Scope) (kind : Kind) :
    Through (steps s kind) Ruleset.read KindSet.readRules := by
  have hkind : Through [.field KindSet.names kind.text] KindSet.read KindSet.readRules :=
    (KindSet.sees_rules kind).through (KindSet.text_mem_names kind) "KindSet"
  cases s with
  | global =>
    have hglobal : Through [.field names "global"] Ruleset.read KindSet.read :=
      sees_global.through (by decide) "Ruleset"
    exact hglobal.cons hkind
  | device name =>
    have hdevice : Through [.field names "device"] Ruleset.read (Read.map KindSet.read) :=
      sees_device.through (by decide) "Ruleset"
    exact hdevice.cons ((Read.through_map KindSet.read name).cons hkind)

/-! ### The rules of a scope -/

section Behind

variable {j : Json} {r : Ruleset} {s : Scope} {kind : Kind} {rules : List Json}

/-- The value on the way from which the rules of the scope are read, and what the rule set is with other
rules there. -/
theorem exists_group_behind (hj : j.Canonical) (hread : Ruleset.read j = .ok r)
    (hrules : behind? (steps s kind) j = some (.arr rules)) :
    ∃ g : Json, g.Canonical ∧ KindSet.read g = .ok (r.groupIn s) ∧
      g.part? KindSet.names kind.text = some (.arr rules) ∧
      ∀ rules' set,
        KindSet.read ((Step.field KindSet.names kind.text).put (.arr rules') g) = .ok set →
        Ruleset.read (putBehind (.arr rules') (steps s kind) j) = .ok
          (match s with
            | .global => { r with global := set }
            | .device name => { r with device := r.device.insert name set }) := by
  obtain ⟨-, hglobal, hdevice⟩ := (read_eq_ok_iff hj.keyed).mp hread
  cases s with
  | global =>
    obtain ⟨g, hg, hkind⟩ := behind?_cons_eq_some_iff.mp hrules
    have hpart : j.part? names "global" = some g := hg
    rw [behind?_singleton] at hkind
    rw [hpart] at hglobal
    refine ⟨g, Step.canonical_get? hj hg, hglobal, hkind, fun rules' set hset => ?_⟩
    show Ruleset.read (putBehind _ [.field names "global", .field KindSet.names kind.text] j) = _
    rw [putBehind_cons hg, putBehind_cons hkind]
    exact read_put_global hj.keyed hread (Step.fits_of_get? hg) hset
  | device name =>
    obtain ⟨d, hd, hbehind⟩ := behind?_cons_eq_some_iff.mp hrules
    obtain ⟨g, hg, hkind⟩ := behind?_cons_eq_some_iff.mp hbehind
    have hpart : j.part? names "device" = some d := hd
    have hcanonical := Step.canonical_get? hj hd
    rw [behind?_singleton] at hkind
    rw [hpart] at hdevice
    cases d with
    | obj devices =>
      have hlookup : devices.lookup name = some g := hg
      have hgroup := read_group_of_entry hcanonical.1 hdevice name
      rw [hlookup] at hgroup
      refine ⟨g, Step.canonical_get? hcanonical hg, hgroup, hkind, fun rules' set hset => ?_⟩
      show Ruleset.read (putBehind _ [.field names "device", .member name,
        .field KindSet.names kind.text] j) = _
      rw [putBehind_cons hd, putBehind_cons hg, putBehind_cons hkind]
      exact read_put_device hj.keyed hread (Step.fits_of_get? hd)
        (read_insert_group hcanonical.1 hdevice hset)
    | _ => cases hg

theorem rulesIn_of_behind (hj : j.Canonical) (hread : Ruleset.read j = .ok r)
    (hrules : behind? (steps s kind) j = some (.arr rules)) :
    r.rulesIn s kind = KindSet.wellFormed rules := by
  obtain ⟨g, hg, hgroup, hpart, -⟩ := exists_group_behind hj hread hrules
  exact KindSet.rules_of_part hg.keyed hgroup (congrArg (Option.getD · _) hpart)

/-- With any other list in the place of the kind the rule set is read as before, but for the rules
there. -/
theorem read_putBehind (hj : j.Canonical) (hread : Ruleset.read j = .ok r)
    (hrules : behind? (steps s kind) j = some (.arr rules)) (rules' : List Json) :
    Ruleset.read (putBehind (.arr rules') (steps s kind) j) =
      .ok (r.withRulesIn s kind (KindSet.wellFormed rules')) := by
  obtain ⟨g, hg, hgroup, hpart, hput⟩ := exists_group_behind hj hread hrules
  rw [hput rules' _ (KindSet.read_put_rules hg.keyed hgroup (Step.fits_of_get? hpart) rules')]
  cases s <;> rfl

/-- A rule set reads lists with the same rules in the place of the kind alike, or refuses them alike. -/
theorem read_putBehind_congr (hj : j.Canonical)
    (hrules : behind? (steps s kind) j = some (.arr rules)) {rules' : List Json}
    (h : KindSet.wellFormed rules' = KindSet.wellFormed rules) :
    Ruleset.read (putBehind (.arr rules') (steps s kind) j) = Ruleset.read j := by
  apply through_steps s kind j (.arr rules) (.arr rules') hj hrules
  rw [KindSet.readRules_arr, KindSet.readRules_arr, h]

end Behind

/-- **`lists_read_leniently`** — a value describes a rule iff it is an object with an id and members of
the right types, or a list of one to six items like that in the order of the fields, and no item of its
conditions or actions is too strange for it: each stands for a condition or an action of its own.  The
rules of a kind are those that the well-formed entries of its list describe, in their order, whatever
list it is; and an ill-formed entry may be put in or taken out anywhere, and the whole rule set is read,
or refused, as before. -/
theorem lists_read_leniently :
    (∀ e : Json, e.Canonical → ((∃ rule, Rule.read e = .ok rule) ↔ Rule.wellFormed e = true)) ∧
    (∀ (e : Json) (rule : Rule) (items : List Json), e.Canonical → Rule.read e = .ok rule →
      (e.part? Rule.names "conditions" = some (.arr items) →
        rule.conditions = some (items.map Condition.ofJson) ∧
        ∀ items', Rule.read ((Step.field Rule.names "conditions").put (.arr items') e) =
          .ok { rule with conditions := some (items'.map Condition.ofJson) }) ∧
      (e.part? Rule.names "actions" = some (.arr items) →
        rule.actions = items.map Action.ofJson ∧
        ∀ items', Rule.read ((Step.field Rule.names "actions").put (.arr items') e) =
          .ok { rule with actions := items'.map Action.ofJson })) ∧
    (∀ (j : Json) (s : Scope) (kind : Kind) (js : List Json), j.Canonical →
      behind? (steps s kind) j = some (.arr js) →
      (∀ r, Ruleset.read j = .ok r →
        List.Forall₂ (fun e rule => Rule.read e = .ok rule) (js.filter Rule.wellFormed)
          (r.rulesIn s kind) ∧
        ∀ js', Ruleset.read (putBehind (.arr js') (steps s kind) j) =
          .ok (r.withRulesIn s kind (KindSet.wellFormed js'))) ∧
      (∀ (front back : List Json) (e : Json), e.Canonical → Rule.wellFormed e = false →
        (js = front ++ back →
          Ruleset.read (putBehind (.arr (front ++ e :: back)) (steps s kind) j) = Ruleset.read j) ∧
        (js = front ++ e :: back →
          Ruleset.read (putBehind (.arr (front ++ back)) (steps s kind) j) = Ruleset.read j))) := by
  refine ⟨fun e he => Rule.exists_read_iff he.keyed, fun e rule items he hread => ⟨?_, ?_⟩,
    fun j s kind js hj hlist => ⟨?_, ?_⟩⟩
  · intro hpart
    exact ⟨Rule.conditions_of_read he.keyed hread hpart,
      Rule.read_put_conditions he.keyed hread hpart⟩
  · intro hpart
    exact ⟨Rule.actions_of_read he.keyed hread hpart, Rule.read_put_actions he.keyed hread hpart⟩
  · intro r hread
    have hjs : ∀ e ∈ js, e.Keyed := fun e he =>
      (allCanonical_iff.mp (canonical_behind? hj hlist) e he).keyed
    refine ⟨?_, read_putBehind hj hread hlist⟩
    rw [rulesIn_of_behind hj hread hlist]
    exact KindSet.forall₂_wellFormed hjs
  · intro front back e he hill
    have hsame := KindSet.wellFormed_insert_ill he.keyed hill front back
    constructor
    · intro hjs
      exact read_putBehind_congr hj hlist (hjs ▸ hsame)
    · intro hjs
      exact read_putBehind_congr hj hlist (hjs ▸ hsame.symm)

/-- A rule set with these entries, given by lists where it could be given by objects. -/
def crowded (entries : List Json) : Json :=
  .arr [.obj [], .obj [("phone", .arr [.null, .arr entries])]]

/-- A rule as a list of its fields, with actions that are none. -/
def lunchEntry : Json :=
  .arr [.str "lunch", .null, .arr [.bool false, .obj []], .str "lunch"]

/-- No rule, as it does not say whether it is enabled. -/
def unsaidEntry : Json :=
  .obj [("enabled", .null), ("rule_id", .str "dinner")]

/-- **`lists_read_leniently_crowded`** — an entry that is no rule does not hide its neighbour. -/
theorem lists_read_leniently_crowded :
    Rule.wellFormed lunchEntry = true ∧ Rule.wellFormed unsaidEntry = false ∧
      (∃ rule, Rule.read lunchEntry = .ok rule) ∧
      Ruleset.read (crowded [unsaidEntry, lunchEntry]) = Ruleset.read (crowded [lunchEntry]) ∧
      ∃ r, Ruleset.read (crowded [lunchEntry]) = .ok r ∧
        (r.rulesIn (.device "phone") .content).map Rule.id = ["lunch"] := by
  obtain ⟨hentry, -, hlists⟩ := lists_read_leniently
  have hcanonical : (crowded [lunchEntry]).Canonical := by
    simp [crowded, lunchEntry, Canonical, AllCanonical, MembersCanonical, Entries.Sorted]
  have hunsaid : unsaidEntry.Canonical := by
    have hsorted : Entries.Sorted [("enabled", Json.null), ("rule_id", Json.str "dinner")] :=
      List.pairwise_pair.mpr (by decide)
    exact ⟨hsorted, trivial, trivial, trivial⟩
  obtain ⟨-, hill⟩ := hlists (crowded [lunchEntry]) (.device "phone") .content [lunchEntry]
    hcanonical rfl
  refine ⟨rfl, rfl, (hentry lunchEntry ?_).mpr rfl, ?_, _, rfl, rfl⟩
  · simp [lunchEntry, Canonical, AllCanonical, MembersCanonical, Entries.Sorted]
  · exact (hill [] [lunchEntry] unsaidEntry hunsaid rfl).1 rfl

end Ruleset

end AlertRules
