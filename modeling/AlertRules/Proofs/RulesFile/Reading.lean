import AlertRules.Proofs.Json.Records
import AlertRules.Ruleset

/-!
# AlertRules.Proofs.RulesFile.Reading — reading a rule set from its parts

A rule set is read from its two parts, and the rules of a scope from the lists of the kinds; whatever is
missing counts as empty (`Ruleset.read_eq_ok_iff`, `KindSet.read_eq_ok_iff`).  From a list the rules
among its items are read (`KindSet.readRules_arr`).
-/

namespace AlertRules

theorem Kind.text_injective {k l : Kind} (h : k.text = l.text) : k = l := by
  revert h
  cases k <;> cases l <;> decide

namespace KindSet

/-- The rules `f k` of each kind `k`. -/
def ofRules (f : Kind → List Rule) : KindSet :=
  ⟨f .override, f .content, f .room, f .sender, f .underride⟩

theorem rules_ofRules (f : Kind → List Rule) (k : Kind) : (ofRules f).rules k = f k := by
  cases k <;> rfl

theorem wellFormed_append (js js' : List Json) :
    wellFormed (js ++ js') = wellFormed js ++ wellFormed js' :=
  List.filterMap_append

theorem mem_wellFormed {js : List Json} {r : Rule} :
    r ∈ wellFormed js ↔ ∃ j ∈ js, Rule.read j = .ok r := by
  rw [wellFormed, List.mem_filterMap]
  refine exists_congr fun j => and_congr_right fun _ => ?_
  cases Rule.read j with
  | error e => simp [Except.toOption]
  | ok r' => simp [Except.toOption]

theorem wellFormed_singleton {j : Json} {r : Rule} (h : Rule.read j = .ok r) :
    wellFormed [j] = [r] := by
  rw [wellFormed, List.filterMap_cons, h]
  rfl

/-- From a list the rules among its items are read. -/
theorem readRules_arr (js : List Json) : readRules (.arr js) = .ok (wellFormed js) := by
  have hitems : Json.Read.list .ok (.arr js) = .ok js :=
    (Json.Read.list_arr id js).trans (congrArg Except.ok (List.map_id js))
  show ((Json.Read.list .ok (.arr js)).map some).map (fun js => wellFormed (js.getD [])) = _
  rw [hitems]
  rfl

theorem valueOr_readRules (o : Option Json) :
    Json.Record.valueOr [] readRules o = readRules (o.getD (.arr [])) := by
  cases o <;> rfl

/-- The names of the fields. -/
def names : List String :=
  Kind.precedence.map Kind.text

theorem names_record : record.names = names :=
  rfl

/-- The rules of each kind are read from the list of the kind, which may be missing. -/
theorem read_eq_ok_iff {j : Json} (hj : j.Keyed) {s : KindSet} :
    read j = .ok s ↔
      j.hasForm names.length = true ∧
        ∀ k : Kind, readRules ((j.part? names k.text).getD (.arr [])) = .ok (s.rules k) := by
  refine Json.Record.read_eq_ok_iff hj fun lookup hfinds => ?_
  rw [names_record] at hfinds
  rw [record]
  simp only [Json.Record.build_seq_eq_ok_iff, Json.Record.build_map_eq_ok_iff,
    hfinds.build_withDefault, valueOr_readRules]
  constructor
  · rintro ⟨_, underride, ⟨_, sender, ⟨_, room, ⟨_, content, ⟨override, hoverride, rfl⟩, hcontent,
      rfl⟩, hroom, rfl⟩, hsender, rfl⟩, hunderride, rfl⟩ k
    cases k with
    | override => exact hoverride
    | content => exact hcontent
    | room => exact hroom
    | sender => exact hsender
    | underride => exact hunderride
  · intro hall
    exact ⟨_, _, ⟨_, _, ⟨_, _, ⟨_, _, ⟨_, hall .override, rfl⟩, hall .content, rfl⟩, hall .room, rfl⟩,
      hall .sender, rfl⟩, hall .underride, rfl⟩

theorem read_obj_eq_ok_iff {members : List (String × Json)} (h : Entries.Sorted members)
    {s : KindSet} :
    read (.obj members) = .ok s ↔
      ∀ k : Kind, readRules ((members.lookup k.text).getD (.arr [])) = .ok (s.rules k) := by
  have hj : (Json.obj members).Keyed := h
  rw [read_eq_ok_iff hj]
  exact and_iff_right rfl

end KindSet

namespace Ruleset

theorem valueOr_read (o : Option Json) :
    Json.Record.valueOr .empty KindSet.read o = KindSet.read (o.getD (.obj [])) := by
  cases o <;> rfl

/-- The names of the fields. -/
def names : List String :=
  ["global", "device"]

theorem names_record : record.names = names :=
  rfl

/-- A rule set is read from its two parts, which may be missing. -/
theorem read_eq_ok_iff {j : Json} (hj : j.Keyed) {r : Ruleset} :
    read j = .ok r ↔
      j.hasForm names.length = true ∧
        KindSet.read ((j.part? names "global").getD (.obj [])) = .ok r.global ∧
        Json.Record.valueOr .empty (Json.Read.map KindSet.read) (j.part? names "device") =
          .ok r.device := by
  refine Json.Record.read_eq_ok_iff hj fun lookup hfinds => ?_
  rw [names_record] at hfinds
  rw [record]
  simp only [Json.Record.build_seq_eq_ok_iff, Json.Record.build_map_eq_ok_iff,
    hfinds.build_withDefault, valueOr_read]
  constructor
  · rintro ⟨_, device, ⟨scope, hscope, rfl⟩, hdevice, rfl⟩
    exact ⟨hscope, hdevice⟩
  · rintro ⟨hscope, hdevice⟩
    exact ⟨_, _, ⟨_, hscope, rfl⟩, hdevice, rfl⟩

theorem read_obj_eq_ok_iff {members : List (String × Json)} (h : Entries.Sorted members)
    {r : Ruleset} :
    read (.obj members) = .ok r ↔
      KindSet.read ((members.lookup "global").getD (.obj [])) = .ok r.global ∧
        Json.Record.valueOr .empty (Json.Read.map KindSet.read) (members.lookup "device") =
          .ok r.device := by
  have hj : (Json.obj members).Keyed := h
  rw [read_eq_ok_iff hj]
  exact and_iff_right rfl

end Ruleset

end AlertRules
