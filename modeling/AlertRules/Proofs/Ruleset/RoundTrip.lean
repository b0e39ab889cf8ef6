import AlertRules.Matching
import AlertRules.Proofs.Json.RoundTrip
import AlertRules.Proofs.RulesFile.Ids
import AlertRules.Proofs.RulesFile.Rereading

/-!
# AlertRules.Proofs.Ruleset.RoundTrip — rules that are written and read again

Reading is lenient and writing is not its inverse: lists and objects are both read as rules and only
objects are written, a malformed action is kept as a word and written as a text, and what a rule does
not say is filled in.  But what has been read is a **fixed point**: written as JSON and read again it is
the same (`Ruleset.written_and_reread`).

A condition or an action is **restored** if reading gives it back, and a rule if all its conditions and
actions are.  A rule is read back iff it is restored, and whatever is read is restored.
-/

namespace AlertRules

open Json

/-! ## Members that are written -/

/-- What is found in an object that is written is the last member of the name. -/
theorem Entries.lookup_ofList {β : Type} (ps : List (String × β)) (key : String) :
    (ofList ps).lookup key = ps.reverse.lookup key := by
  have hfold : ∀ es : List (String × β),
      (ps.foldl (fun es p => insert p.1 p.2 es) es).lookup key =
        (ps.reverse.lookup key).or (es.lookup key) := by
    induction ps with
    | nil => exact fun es => rfl
    | cons p ps ih =>
      intro es
      rw [List.foldl_cons, ih, lookup_insert, List.reverse_cons, List.lookup_append, Option.or_assoc]
      congr 1
      by_cases hkey : key = p.1
      · rw [if_pos hkey, hkey, List.lookup_cons_self]
        rfl
      · rw [if_neg hkey, lookup_cons_ne hkey]
        rfl
  rw [ofList, hfold []]
  exact Option.or_none

theorem Json.field?_ofMembers (ms : List (String × Json)) (name : String) :
    (ofMembers ms).field? name = ms.reverse.lookup name :=
  Entries.lookup_ofList ms name

/-! ## Conditions -/

namespace Condition

/-- The condition is read back as it was written. -/
def Restored (c : Condition) : Prop :=
  ofJson c.toJson = c

theorem restored_eventMatch (key pattern : Option String) : (eventMatch key pattern).Restored := by
  unfold Restored ofJson ofKind? textOrAbsent? toJson tagged
  simp only [field?_ofMembers]
  cases key <;> cases pattern <;> rfl

theorem restored_device (profileTag : Option String) : (device profileTag).Restored := by
  unfold Restored ofJson ofKind? textOrAbsent? toJson tagged
  simp only [field?_ofMembers]
  cases profileTag <;> rfl

theorem restored_containsDisplayName : containsDisplayName.Restored :=
  rfl

theorem restored_memberCount (comparison : Option String) : (memberCount comparison).Restored := by
  unfold Restored ofJson ofKind? textOrAbsent? toJson tagged
  simp only [field?_ofMembers]
  cases comparison <;> rfl

/-- A condition of a known kind is restored, whatever its fields. -/
theorem restored_of_ofKind? {kind : String} {raw : Json} {c : Condition}
    (h : ofKind? kind raw = some (some c)) : c.Restored := by
  unfold ofKind? at h
  split at h
  · split at h
    · obtain rfl := Option.some.inj (Option.some.inj h)
      exact restored_eventMatch _ _
    · exact absurd (Option.some.inj h) (by simp)
  split at h
  · obtain ⟨tag, -, rfl⟩ := Option.map_eq_some_iff.mp (Option.some.inj h)
    exact restored_device tag
  split at h
  · obtain rfl := Option.some.inj (Option.some.inj h)
    exact restored_containsDisplayName
  split at h
  · obtain ⟨comparison, -, rfl⟩ := Option.map_eq_some_iff.mp (Option.some.inj h)
    exact restored_memberCount comparison
  · exact absurd h (by simp)

/-- Every condition that is read is restored: of a known kind it is written in full, and otherwise as
the value that it was read from. -/
theorem restored_ofJson (raw : Json) : (ofJson raw).Restored := by
  have hread : ∀ c, ofJson raw = c → c.Restored := by
    intro c hc
    unfold ofJson at hc
    split at hc
    · rename_i hkind
      obtain rfl := hc
      show ofJson raw = _
      rw [ofJson, hkind]
    · rename_i kind hkind
      split at hc
      · rename_i hknown
        obtain rfl := hc
        show ofJson raw = _
        rw [ofJson, hkind]
        dsimp only
        rw [hknown]
      · rename_i hknown
        obtain rfl := hc
        show ofJson raw = _
        rw [ofJson, hkind]
        dsimp only
        rw [hknown]
      · rename_i hknown
        obtain rfl := hc
        exact restored_of_ofKind? hknown
  exact hread _ rfl

end Condition

/-! ## Actions -/

namespace Action

/-- The action is read back as it was written. -/
def Restored (a : Action) : Prop :=
  ofJson a.toJson = a

theorem restored_ofWord (w : String) : (ofWord w).Restored := by
  unfold ofWord
  split
  · rfl
  split
  · rfl
  split
  · rfl
  · rename_i hnotify hdont hcoalesce
    show ofWord w = _
    rw [ofWord, if_neg hnotify, if_neg hdont, if_neg hcoalesce]

theorem present?_idem (v : Option Json) : present? (present? v) = present? v := by
  match v with
  | none => rfl
  | some j => cases j <;> rfl

/-- A tweak is read back with its value, of which null counts as none. -/
theorem ofJson_toJson_setTweak (name : String) (v : Option Json) :
    ofJson (toJson (setTweak name v)) = setTweak name (present? v) := by
  have hname : (toJson (setTweak name v)).field? "set_tweak" = some (.str name) := by
    rw [toJson, field?_ofMembers]
    cases v <;> rfl
  have hvalue : (toJson (setTweak name v)).field? "value" = v := by
    rw [toJson, field?_ofMembers]
    cases v <;> rfl
  unfold ofJson
  split
  · rename_i heq
    exact absurd heq (by simp [toJson, ofMembers])
  · rw [hname, hvalue]
    rfl

/-- A tweak is restored unless its value is null. -/
theorem restored_setTweak (name : String) (v : Option Json) : (setTweak name (present? v)).Restored := by
  rw [Restored, ofJson_toJson_setTweak, present?_idem]

/-- The text of a value is a JSON text, and the known words are not. -/
theorem restored_other_compact (raw : Json) : (other raw.compact).Restored := by
  have hne : ∀ w, Document.read? w = none → raw.compact ≠ w := by
    rintro w hw rfl
    rw [compact, Document.read?_render] at hw
    exact absurd hw (by simp)
  show ofWord raw.compact = _
  rw [ofWord, if_neg (hne "notify" rfl), if_neg (hne "dont_notify" rfl),
    if_neg (hne "coalesce" rfl)]

theorem restored_ofJson (raw : Json) : (ofJson raw).Restored := by
  cases raw with
  | str w => exact restored_ofWord w
  | obj members =>
    simp only [ofJson]
    split
    · exact restored_setTweak _ _
    · exact restored_other_compact _
  | _ => exact restored_other_compact _

end Action

/-! ## What a reading yields -/

namespace Json

variable {α β : Type}

/-- Whatever the record is put together from, the result has the property. -/
def Record.Yields (P : α → Prop) (r : Record Json α) : Prop :=
  ∀ lookup a, r.build lookup = .ok a → P a

theorem Record.Yields.read {P : α → Prop} {r : Record Json α} (h : r.Yields P) {name : String}
    {j : Json} {a : α} (hread : r.read name j = .ok a) : P a := by
  cases j with
  | obj members => exact h _ a (ofMembers_eq_ok_iff.mp hread)
  | arr items => exact h _ a (ofItems_eq_ok_iff.mp hread).1
  | _ => exact absurd hread (by simp [Record.read, Source.view, view])

theorem Record.yields_withDefault {P : α → Prop} {name : String} {value : α}
    {read : Json → Except Refusal α} (hvalue : P value) (hread : ∀ j a, read j = .ok a → P a) :
    (withDefault name value read).Yields P := by
  intro lookup a ha
  unfold withDefault at ha
  dsimp only at ha
  split at ha
  · exact absurd ha (by simp)
  · obtain rfl := Except.ok.inj ha
    exact hvalue
  · exact hread _ a ha

theorem Read.eq_ok_of_option {read : Json → Except Refusal α} {j : Json} {a : α}
    (h : Read.option read j = .ok (some a)) : read j = .ok a := by
  have hsome : (read j).map some = .ok (some a) := by
    cases j with
    | null => exact absurd (Except.ok.inj h) (by simp)
    | _ => exact h
  cases hread : read j with
  | error refusal =>
    rw [hread] at hsome
    exact absurd hsome (by simp [Except.map])
  | ok b =>
    rw [hread] at hsome
    obtain rfl := Option.some.inj (Except.ok.inj hsome)
    rfl

theorem Read.exists_of_list {f : Json → α} {j : Json} {as : List α}
    (h : Read.list (fun j => .ok (f j)) j = .ok as) : ∃ js : List Json, js.map f = as := by
  cases j with
  | arr js =>
    rw [Read.list_arr] at h
    exact ⟨js, Except.ok.inj h⟩
  | _ => exact absurd h (by simp [Read.list, Source.view, view])

/-- What is read from a map is read from its members. -/
theorem Read.forall_mem_map {P : α → Prop} {read : Json → Except Refusal α}
    (hread : ∀ j a, read j = .ok a → P a) {j : Json} {m : KeyMap α} (h : Read.map read j = .ok m) :
    ∀ e ∈ m.entries, P e.2 := by
  have hentries : ∀ (members : List (String × Json)) (m₁ : KeyMap α), (∀ e ∈ m₁.entries, P e.2) →
      Read.entries read m₁ members = .ok m → ∀ e ∈ m.entries, P e.2 := by
    intro members
    induction members with
    | nil =>
      intro m₁ hm₁ heq
      obtain rfl := Except.ok.inj heq
      exact hm₁
    | cons e members ih =>
      intro m₁ hm₁ heq
      obtain ⟨key, d⟩ := e
      rw [Read.entries] at heq
      split at heq
      · exact absurd heq (by simp)
      · rename_i a ha
        exact ih _ (Entries.forall_mem_insert hm₁ (hread d a ha)) heq
  cases j with
  | obj members => exact hentries members .empty (fun e he => absurd he List.not_mem_nil) h
  | _ => exact absurd h (by simp [Read.map, Source.view, view])

end Json

/-! ## Rules -/

namespace Rule

/-- The conditions and the actions of the rule are restored. -/
structure Restored (r : Rule) : Prop where
  conditions : ∀ cs, r.conditions = some cs → ∀ c ∈ cs, c.Restored
  actions : ∀ a ∈ r.actions, a.Restored

/-- Every rule that is read, from an object or from a list, is restored. -/
theorem restored_of_read {j : Json} {r : Rule} (h : Rule.read j = .ok r) : r.Restored := by
  have hconditions : (Record.optional "conditions"
      (Read.list fun j => .ok (Condition.ofJson j))).Yields fun o =>
        ∀ cs, o = some cs → ∀ c ∈ cs, c.Restored := by
    refine Record.yields_withDefault (fun cs hcs => absurd hcs (by simp)) ?_
    rintro j _ hread cs rfl c hc
    obtain ⟨js, rfl⟩ := Read.exists_of_list (Read.eq_ok_of_option hread)
    obtain ⟨raw, -, rfl⟩ := List.mem_map.mp hc
    exact Condition.restored_ofJson raw
  have hactions : (Record.withDefault "actions" []
      (Read.list fun j => .ok (Action.ofJson j))).Yields fun as => ∀ a ∈ as, a.Restored := by
    refine Record.yields_withDefault (fun a ha => absurd ha List.not_mem_nil) ?_
    intro j _ hread a ha
    obtain ⟨js, rfl⟩ := Read.exists_of_list hread
    obtain ⟨raw, -, rfl⟩ := List.mem_map.mp ha
    exact Action.restored_ofJson raw
  have hyields : record.Yields Restored := by
    intro lookup r hbuild
    rw [record] at hbuild
    simp only [Record.build_seq_eq_ok_iff, Record.build_map_eq_ok_iff] at hbuild
    obtain ⟨_, _, ⟨_, _, ⟨_, _, ⟨_, as, ⟨_, cs, ⟨_, -, rfl⟩, hcs, rfl⟩, has, rfl⟩, -, rfl⟩, -, rfl⟩,
      -, rfl⟩ := hbuild
    exact ⟨hconditions lookup cs hcs, hactions lookup as has⟩
  exact hyields.read h

/-- What is read back one by one is read back as a list. -/
theorem read_list_map {α : Type} {ofJson : Json → α} {toJson : α → Json} {as : List α}
    (h : ∀ a ∈ as, ofJson (toJson a) = a) :
    Read.list (fun j => .ok (ofJson j)) (.arr (as.map toJson)) = .ok as := by
  rw [Read.list_arr, List.map_map]
  exact congrArg Except.ok ((List.map_congr_left h).trans (List.map_id as))

/-- A restored rule is read back as it was written. -/
theorem Restored.read_toJson {r : Rule} (h : r.Restored) : Rule.read r.toJson = .ok r := by
  have hactions := read_list_map h.actions
  obtain ⟨id, conditions, actions, pattern, enabled, isDefault⟩ := r
  rw [toJson, ofMembers, read_obj_eq_ok_iff (Entries.sorted_ofList _)]
  simp only [Entries.lookup_ofList]
  cases conditions with
  | none =>
    cases pattern with
    | none => exact ⟨rfl, rfl, hactions, rfl, rfl, rfl⟩
    | some p => exact ⟨rfl, rfl, hactions, rfl, rfl, rfl⟩
  | some cs =>
    have hconditions : Read.option (Read.list fun j => .ok (Condition.ofJson j))
        (.arr (cs.map Condition.toJson)) = .ok (some cs) :=
      congrArg (Except.map some) (read_list_map (h.conditions cs rfl))
    cases pattern with
    | none => exact ⟨rfl, hconditions, hactions, rfl, rfl, rfl⟩
    | some p => exact ⟨rfl, hconditions, hactions, rfl, rfl, rfl⟩

end Rule

/-! ## Rule sets -/

namespace KindSet

/-- All rules of the set are restored. -/
def Restored (s : KindSet) : Prop :=
  ∀ k, ∀ r ∈ s.rules k, r.Restored

theorem restored_of_readRules {j : Json} {rs : List Rule} (h : readRules j = .ok rs) :
    ∀ r ∈ rs, r.Restored := by
  intro r hr
  unfold readRules at h
  cases hlist : Read.option (Read.list .ok) j with
  | error refusal =>
    rw [hlist] at h
    exact absurd h (by simp [Except.map])
  | ok js =>
    rw [hlist] at h
    obtain rfl := Except.ok.inj h
    obtain ⟨raw, -, hread⟩ := mem_wellFormed.mp hr
    exact Rule.restored_of_read hread

theorem restored_of_read {j : Json} {s : KindSet} (h : KindSet.read j = .ok s) : s.Restored := by
  have hkind (name : String) :
      (Record.withDefault name [] readRules).Yields fun rs => ∀ r ∈ rs, r.Restored :=
    Record.yields_withDefault (fun r hr => absurd hr List.not_mem_nil) fun _ _ =>
      restored_of_readRules
  have hyields : record.Yields Restored := by
    intro lookup s hbuild
    rw [record] at hbuild
    simp only [Record.build_seq_eq_ok_iff, Record.build_map_eq_ok_iff] at hbuild
    obtain ⟨_, _, ⟨_, _, ⟨_, _, ⟨_, _, ⟨_, hoverride, rfl⟩, hcontent, rfl⟩, hroom, rfl⟩, hsender,
      rfl⟩, hunderride, rfl⟩ := hbuild
    intro k
    cases k with
    | override => exact hkind _ _ _ hoverride
    | content => exact hkind _ _ _ hcontent
    | room => exact hkind _ _ _ hroom
    | sender => exact hkind _ _ _ hsender
    | underride => exact hkind _ _ _ hunderride
  exact hyields.read h

theorem wellFormed_map_toJson {rs : List Rule} (h : ∀ r ∈ rs, r.Restored) :
    wellFormed (rs.map Rule.toJson) = rs := by
  induction rs with
  | nil => rfl
  | cons r rs ih =>
    obtain ⟨hr, hrs⟩ := List.forall_mem_cons.mp h
    rw [List.map_cons, ← List.singleton_append, wellFormed_append, ih hrs,
      wellFormed_singleton hr.read_toJson, List.singleton_append]

theorem Restored.read_toJson {s : KindSet} (h : s.Restored) : KindSet.read s.toJson = .ok s := by
  rw [toJson, ofMembers, read_obj_eq_ok_iff (Entries.sorted_ofList _)]
  intro k
  have hmember : (Entries.ofList (Kind.precedence.map fun k =>
      (k.text, Json.arr ((s.rules k).map Rule.toJson)))).lookup k.text =
        some (.arr ((s.rules k).map Rule.toJson)) := by
    rw [Entries.lookup_ofList]
    cases k <;> rfl
  rw [hmember, Option.getD_some, readRules_arr, wellFormed_map_toJson (h k)]

end KindSet

namespace Ruleset

/-- All rules, those for all devices and those of each device, are restored. -/
structure Restored (R : Ruleset) : Prop where
  global : R.global.Restored
  device : ∀ e ∈ R.device.entries, e.2.Restored

theorem restored_of_read {j : Json} {R : Ruleset} (h : Ruleset.read j = .ok R) : R.Restored := by
  have hglobal : (Record.withDefault "global" .empty KindSet.read).Yields KindSet.Restored := by
    refine Record.yields_withDefault ?_ fun _ _ => KindSet.restored_of_read
    intro k r hr
    cases k <;> exact absurd hr List.not_mem_nil
  have hdevice : (Record.withDefault "device" .empty (Read.map KindSet.read)).Yields fun m =>
      ∀ e ∈ m.entries, e.2.Restored :=
    Record.yields_withDefault (fun e he => absurd he List.not_mem_nil) fun _ _ =>
      Read.forall_mem_map fun _ _ => KindSet.restored_of_read
  have hyields : record.Yields Restored := by
    intro lookup R hbuild
    rw [record] at hbuild
    simp only [Record.build_seq_eq_ok_iff, Record.build_map_eq_ok_iff] at hbuild
    obtain ⟨_, device, ⟨global, hscope, rfl⟩, hdevices, rfl⟩ := hbuild
    exact ⟨hglobal lookup global hscope, hdevice lookup device hdevices⟩
  exact hyields.read h

theorem Restored.read_toJson {R : Ruleset} (h : R.Restored) : Ruleset.read R.toJson = .ok R := by
  have hdevice : Read.map KindSet.read (.ofMap R.device KindSet.toJson) = .ok R.device := by
    refine (Read.map_obj_eq_ok_iff (Entries.sorted_mapValues _ |>.mpr R.device.sorted)).mpr ?_
    intro key
    rw [Entries.lookup_mapValues]
    cases hget : R.device.entries.lookup key with
    | none => exact hget
    | some s =>
      exact ⟨s, (h.device _ (Entries.mem_of_lookup hget)).read_toJson, hget⟩
  rw [toJson, ofMembers, read_obj_eq_ok_iff (Entries.sorted_ofList _)]
  simp only [Entries.lookup_ofList]
  exact ⟨h.global.read_toJson, hdevice⟩

/-- **`written_and_reread`** — conditions, actions, rules and rule sets that were read from whatever
value are, written as JSON, read as the same again.  So a rule set that is written and loaded again
finds the same rule for every event, with the same decision. -/
theorem written_and_reread :
    (∀ raw, Condition.ofJson (Condition.ofJson raw).toJson = Condition.ofJson raw) ∧
    (∀ raw, Action.ofJson (Action.ofJson raw).toJson = Action.ofJson raw) ∧
    (∀ j r, Rule.read j = .ok r → Rule.read r.toJson = .ok r) ∧
    (∀ j R, Ruleset.read j = .ok R →
      Ruleset.read R.toJson = .ok R ∧
      ∀ s e, (Ruleset.read R.toJson).map (fun R' => (R'.match? s e).map fun found =>
          (found, found.decision)) =
        .ok ((R.match? s e).map fun found => (found, found.decision))) := by
  refine ⟨Condition.restored_ofJson, Action.restored_ofJson, fun j r h => ?_, fun j R h => ?_⟩
  · exact (Rule.restored_of_read h).read_toJson
  · have hread := (restored_of_read h).read_toJson
    refine ⟨hread, fun s e => ?_⟩
    rw [hread]
    rfl

/-- A rule set in many forms: lists in place of objects, null in place of a list, an entry that is no
rule, conditions that are malformed or of an unknown kind, and actions that are none. -/
def patchwork : Json :=
  .obj [
    ("device", .obj [("phone", .arr [.null, .arr [.arr [.str "lunch", .null,
      .arr [.str "notify", .null, .obj [("set_tweak", .str "sound"), ("value", .null)]],
      .str "lunch"]]])]),
    ("global", .obj [("override", .arr [.obj [("actions", .arr [.obj [("x", .bool true)]]),
      ("conditions", .arr [.obj [("key", .null), ("kind", .str "event_match")],
        .obj [("kind", .str "later")], .str "always"]), ("rule_id", .str "a")], .str "none"])])]

/-- The rules that are read from it. -/
def patchworkRules : Ruleset where
  global := { KindSet.empty with
    override := [.conditional "a"
      [.eventMatch none none, .unknown (.obj [("kind", .str "later")]), .malformed (.str "always")]
      [.other (Json.obj [("x", .bool true)]).compact]] }
  device := ⟨[("phone", { KindSet.empty with
    content := [.forPattern "lunch" "lunch"
      [.notify, .other Json.null.compact, .setTweak "sound" none]] })], List.pairwise_singleton ..⟩

/-- **`written_and_reread_patchwork`** — what was read from many forms is read again from one. -/
theorem written_and_reread_patchwork :
    Ruleset.read patchwork = .ok patchworkRules ∧
      Ruleset.read patchworkRules.toJson = .ok patchworkRules := by
  have hread : Ruleset.read patchwork = .ok patchworkRules := rfl
  obtain ⟨-, -, -, hset⟩ := written_and_reread
  exact ⟨hread, (hset patchwork patchworkRules hread).1⟩

end Ruleset

end AlertRules
