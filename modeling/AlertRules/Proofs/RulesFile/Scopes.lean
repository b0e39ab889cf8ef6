import AlertRules.Proofs.Json.Parts
import AlertRules.Proofs.RulesFile.Paths
import AlertRules.Proofs.RulesFile.Reading

/-!
# AlertRules.Proofs.RulesFile.Scopes — the rules that are read from a list

The rules of a kind within a scope are those that are well formed in the list at the end of their path
(`rulesIn_of_listAt`).  With another list there, they are those that are well formed in it, and every
other rule is read as before (`read_withListAt`).
-/

namespace AlertRules

open Json (Step)
open RulesFile (Scope listAt? withListAt)

/-! ## The rules of a kind -/

/-- The rules of each kind, with those for the kind. -/
def KindSet.withRules (s : KindSet) (kind : Kind) (rules : List Rule) : KindSet :=
  .ofRules fun k => if k = kind then rules else s.rules k

theorem KindSet.rules_withRules (s : KindSet) (kind k : Kind) (rules : List Rule) :
    (s.withRules kind rules).rules k = if k = kind then rules else s.rules k :=
  rules_ofRules _ k

namespace KindSet

variable {j : Json} {set : KindSet} {kind : Kind} {rules : List Json}

theorem text_mem_names (kind : Kind) : kind.text ∈ names := by
  cases kind <;> decide

theorem rules_of_part (hj : j.Keyed) (hread : KindSet.read j = .ok set)
    (hpart : (j.part? names kind.text).getD (.arr []) = .arr rules) :
    set.rules kind = wellFormed rules := by
  have hkind := ((read_eq_ok_iff hj).mp hread).2 kind
  rw [hpart, readRules_arr] at hkind
  exact (Except.ok.inj hkind).symm

/-- With another list in the place of a kind the value is read as before, but for the rules of the
kind. -/
theorem read_put_rules (hj : j.Keyed) (hread : KindSet.read j = .ok set)
    (hfits : (Step.field names kind.text).Fits j) (rules' : List Json) :
    KindSet.read ((Step.field names kind.text).put (.arr rules') j) =
      .ok (set.withRules kind (wellFormed rules')) := by
  obtain ⟨hform, hrules⟩ := (read_eq_ok_iff hj).mp hread
  rw [read_eq_ok_iff (Step.keyed_put hj _), Step.hasForm_put]
  refine ⟨hform, fun k => ?_⟩
  rw [Step.part?_put (text_mem_names kind) hfits, rules_withRules]
  by_cases hk : k = kind
  · rw [if_pos (congrArg Kind.text hk), if_pos hk]
    exact readRules_arr rules'
  · rw [if_neg fun htext => hk (Kind.text_injective htext), if_neg hk]
    exact hrules k

theorem rules_of_listAt (hj : j.Canonical) (hread : KindSet.read j = .ok set)
    (hrules : listAt? [kind.text] j = some rules) : set.rules kind = wellFormed rules := by
  obtain ⟨members, rfl, hlist⟩ := RulesFile.listAt?_cons_eq_some_iff.mp hrules
  exact rules_of_part hj.keyed hread (RulesFile.listAt?_nil_eq_some_iff.mp hlist)

theorem read_withListAt (hj : j.Canonical) (hread : KindSet.read j = .ok set)
    (hrules : listAt? [kind.text] j = some rules) (rules' : List Json) :
    KindSet.read (withListAt rules' [kind.text] j) =
      .ok (set.withRules kind (wellFormed rules')) := by
  obtain ⟨members, rfl, -⟩ := RulesFile.listAt?_cons_eq_some_iff.mp hrules
  exact read_put_rules hj.keyed hread trivial rules'

end KindSet

/-! ## The rules of a scope -/

namespace Ruleset

/-- The rules of the scope; a device without rules of its own has none. -/
def groupIn (r : Ruleset) : Scope → KindSet
  | .global => r.global
  | .device name => (r.device.get? name).getD .empty

/-- The rules of the kind within the scope. -/
def rulesIn (r : Ruleset) (s : Scope) (kind : Kind) : List Rule :=
  (r.groupIn s).rules kind

/-- The rule set with those rules of the kind within the scope. -/
def withRulesIn (r : Ruleset) (s : Scope) (kind : Kind) (rules : List Rule) : Ruleset :=
  match s with
  | .global => { r with global := r.global.withRules kind rules }
  | .device name =>
    { r with device := r.device.insert name ((r.groupIn (.device name)).withRules kind rules) }

/-- In the scope those are the rules of the kind, and everything else is as before. -/
theorem rulesIn_withRulesIn (r : Ruleset) (s t : Scope) (kind k : Kind) (rules : List Rule) :
    (r.withRulesIn s kind rules).rulesIn t k =
      if t = s ∧ k = kind then rules else r.rulesIn t k := by
  cases s with
  | global =>
    cases t with
    | global => simp [rulesIn, groupIn, withRulesIn, KindSet.rules_withRules]
    | device name => simp [rulesIn, groupIn, withRulesIn]
  | device name =>
    cases t with
    | global => simp [rulesIn, groupIn, withRulesIn]
    | device other =>
      simp only [rulesIn, groupIn, withRulesIn, KeyMap.get?_insert, Scope.device.injEq]
      by_cases hother : other = name
      · rw [if_pos hother, Option.getD_some, KindSet.rules_withRules, hother]
        simp
      · rw [if_neg hother, if_neg fun h => hother h.1]

variable {j : Json} {r : Ruleset}

theorem read_put_global {g : Json} {set : KindSet} (hj : j.Keyed) (hread : Ruleset.read j = .ok r)
    (hfits : (Step.field names "global").Fits j) (hset : KindSet.read g = .ok set) :
    Ruleset.read ((Step.field names "global").put g j) = .ok { r with global := set } := by
  obtain ⟨hform, -, hdevice⟩ := (read_eq_ok_iff hj).mp hread
  rw [read_eq_ok_iff (Step.keyed_put hj _), Step.hasForm_put]
  simp only [Step.part?_put (by decide : "global" ∈ names) hfits]
  exact ⟨hform, hset, hdevice⟩

theorem read_put_device {d : Json} {m : KeyMap KindSet} (hj : j.Keyed)
    (hread : Ruleset.read j = .ok r) (hfits : (Step.field names "device").Fits j)
    (hsets : Json.Read.map KindSet.read d = .ok m) :
    Ruleset.read ((Step.field names "device").put d j) = .ok { r with device := m } := by
  obtain ⟨hform, hglobal, -⟩ := (read_eq_ok_iff hj).mp hread
  rw [read_eq_ok_iff (Step.keyed_put hj _), Step.hasForm_put]
  simp only [Step.part?_put (by decide : "device" ∈ names) hfits]
  exact ⟨hform, hglobal, hsets⟩

theorem valueOr_readDevices (o : Option Json) :
    Json.Record.valueOr .empty (Json.Read.map KindSet.read) o =
      Json.Read.map KindSet.read (o.getD (.obj [])) := by
  cases o <;> rfl

/-- The rules of a device are read from the member of its name. -/
theorem read_group_of_entry {devices : List (String × Json)} {m : KeyMap KindSet}
    (hdevices : Entries.Sorted devices)
    (hread : Json.Read.map KindSet.read (.obj devices) = .ok m) (name : String) :
    KindSet.read ((devices.lookup name).getD (.obj [])) = .ok ((m.get? name).getD .empty) := by
  have hentry := (Json.Read.map_obj_eq_ok_iff hdevices).mp hread name
  cases hlookup : devices.lookup name with
  | none =>
    rw [hlookup] at hentry
    rw [show m.get? name = none from hentry]
    rfl
  | some d =>
    rw [hlookup] at hentry
    obtain ⟨set, hset, hget⟩ := hentry
    rw [hget]
    exact hset

/-- With other rules of a device the map is read as before, but for that device. -/
theorem read_insert_group {devices : List (String × Json)} {m : KeyMap KindSet}
    (hdevices : Entries.Sorted devices)
    (hread : Json.Read.map KindSet.read (.obj devices) = .ok m) {name : String} {d : Json}
    {set : KindSet} (hset : KindSet.read d = .ok set) :
    Json.Read.map KindSet.read (.obj (Entries.insert name d devices)) = .ok (m.insert name set) := by
  rw [Json.Read.map_obj_eq_ok_iff (Entries.sorted_insert hdevices)]
  intro key
  rw [Entries.lookup_insert, KeyMap.get?_insert]
  by_cases hkey : key = name
  · rw [if_pos hkey, if_pos hkey]
    exact ⟨set, hset, rfl⟩
  · rw [if_neg hkey, if_neg hkey]
    exact (Json.Read.map_obj_eq_ok_iff hdevices).mp hread key

end Ruleset

/-! ## Reading a value with another list -/

namespace RulesFile

variable {j : Json} {r : Ruleset} {s : Scope} {kind : Kind} {rules : List Json}

/-- The value from which the rules of the scope are read. -/
theorem exists_group (hj : j.Canonical) (hread : Ruleset.read j = .ok r)
    (hrules : listAt? (s.path kind) j = some rules) :
    ∃ g : Json, g.Canonical ∧ KindSet.read g = .ok (r.groupIn s) ∧
      listAt? [kind.text] g = some rules ∧
      ∀ rules' set, KindSet.read (withListAt rules' [kind.text] g) = .ok set →
        Ruleset.read (withListAt rules' (s.path kind) j) = .ok
          (match s with
            | .global => { r with global := set }
            | .device name => { r with device := r.device.insert name set }) := by
  cases s with
  | global =>
    obtain ⟨members, rfl, hlist⟩ := listAt?_cons_eq_some_iff.mp hrules
    obtain ⟨hglobal, -⟩ := (Ruleset.read_obj_eq_ok_iff hj.1).mp hread
    refine ⟨_, canonical_getD_lookup hj "global" [kind.text], hglobal, hlist, ?_⟩
    intro rules' set hset
    exact Ruleset.read_put_global hj.keyed hread trivial hset
  | device name =>
    obtain ⟨members, rfl, hdevices⟩ := listAt?_cons_eq_some_iff.mp hrules
    obtain ⟨devices, hobj, hlist⟩ := listAt?_cons_eq_some_iff.mp hdevices
    obtain ⟨-, hdevice⟩ := (Ruleset.read_obj_eq_ok_iff hj.1).mp hread
    have hcanonical := canonical_getD_lookup hj "device" [name, kind.text]
    rw [hobj] at hcanonical
    have hmap : Json.Read.map KindSet.read (.obj devices) = .ok r.device := by
      rw [Ruleset.valueOr_readDevices] at hdevice
      exact hobj ▸ hdevice
    refine ⟨_, canonical_getD_lookup hcanonical name [kind.text],
      Ruleset.read_group_of_entry hcanonical.1 hmap name, hlist, ?_⟩
    intro rules' set hset
    show Ruleset.read (withListAt rules' ["device", name, kind.text] (.obj members)) = _
    rw [withListAt_obj, hobj, withListAt_obj]
    exact Ruleset.read_put_device hj.keyed hread trivial
      (Ruleset.read_insert_group hcanonical.1 hmap hset)

theorem rulesIn_of_listAt (hj : j.Canonical) (hread : Ruleset.read j = .ok r)
    (hrules : listAt? (s.path kind) j = some rules) :
    r.rulesIn s kind = KindSet.wellFormed rules := by
  obtain ⟨g, hg, hgroup, hlist, -⟩ := exists_group hj hread hrules
  exact KindSet.rules_of_listAt hg hgroup hlist

theorem read_withListAt (hj : j.Canonical) (hread : Ruleset.read j = .ok r)
    (hrules : listAt? (s.path kind) j = some rules) (rules' : List Json) :
    Ruleset.read (withListAt rules' (s.path kind) j) =
      .ok (r.withRulesIn s kind (KindSet.wellFormed rules')) := by
  obtain ⟨g, hg, hgroup, hlist, hwith⟩ := exists_group hj hread hrules
  rw [hwith rules' _ (KindSet.read_withListAt hg hgroup hlist rules')]
  cases s <;> rfl

end RulesFile

end AlertRules
