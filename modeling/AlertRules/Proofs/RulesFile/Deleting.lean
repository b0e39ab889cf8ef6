import Mathlib.Data.List.Basic
import AlertRules.Proofs.RulesFile.Rewriting

/-!
# AlertRules.Proofs.RulesFile.Deleting — deleting rules from a file that can be read

A rule is shown by what is read from an entry of a list, and deleted by the id that stands in the entry.
The two agree on entries that are objects (`hasId_eq_of_read`).  Reading takes a list for a rule as well,
and for the rules of a scope, and a device may have no name; none of these is reached by a deletion.
-/

namespace AlertRules.RulesFile

open Json (reread)

/-! ## Entries and the rules read from them -/

/-- The value is an object. -/
def isObject : Json → Bool
  | .obj _ => true
  | _ => false

/-- The rules of a list, each with the entry from which it is read. -/
def shown (entries : List Json) : List (Json × Rule) :=
  entries.filterMap fun e => (Rule.read e).toOption.map fun r => (e, r)

section Deleting

variable {id : String} {entries : List Json} {e : Json} {r : Rule}

theorem wellFormed_eq_shown (entries : List Json) :
    KindSet.wellFormed entries = (shown entries).map Prod.snd := by
  rw [KindSet.wellFormed, shown, List.map_filterMap]
  congr 1
  funext e
  cases Rule.read e <;> rfl

theorem mem_shown_iff : (e, r) ∈ shown entries ↔ e ∈ entries ∧ Rule.read e = .ok r := by
  rw [shown, List.mem_filterMap]
  constructor
  · rintro ⟨e', he', hread⟩
    obtain ⟨r', hr', heq⟩ := Option.map_eq_some_iff.mp hread
    obtain ⟨rfl, rfl⟩ := Prod.mk.inj heq
    cases hok : Rule.read e' with
    | error refusal =>
      rw [hok] at hr'
      exact absurd hr' (by simp [Except.toOption])
    | ok r'' =>
      rw [hok] at hr'
      exact ⟨he', congrArg Except.ok (Option.some.inj hr')⟩
  · rintro ⟨he, hread⟩
    exact ⟨e, he, by rw [hread]; rfl⟩

/-- A deletion finds a rule by its id, if its entry is an object. -/
theorem hasId_eq_of_read (he : e.Canonical) (hread : Rule.read e = .ok r) (id : String) :
    hasId id e = (isObject e && r.id == id) := by
  cases e with
  | obj members =>
    have hid := ((Rule.read_obj_eq_ok_iff he.1).mp hread).1
    show ((members.lookup "rule_id").bind Json.text? == some id) = (true && r.id == id)
    rw [hid, Bool.true_and]
    rfl
  | _ => rfl

theorem shown_without (hentries : (Json.arr entries).Canonical) (id : String) :
    shown (without id entries) =
      (shown entries).filter fun p => !(isObject p.1 && p.2.id == id) := by
  rw [shown, shown, without, List.filterMap_filter, List.filter_filterMap]
  refine List.filterMap_congr fun e he => ?_
  cases hread : Rule.read e with
  | error refusal => simp [Except.toOption]
  | ok r =>
    rw [hasId_eq_of_read (Json.allCanonical_iff.mp hentries e he) hread id]
    show _ = Option.filter _ (some (e, r))
    rw [Option.filter_some]
    cases isObject e && r.id == id <;> rfl

theorem hasId_reread (id : String) (e : Json) : hasId id e.reread = hasId id e := by
  rw [hasId, hasId, Json.field?_reread]
  cases e.field? "rule_id" with
  | none => rfl
  | some d =>
    rw [Option.map_some, Option.bind_some, Option.bind_some, Json.text?_reread]

theorem without_reread (id : String) (entries : List Json) :
    (without id entries).map reread = without id (entries.map reread) := by
  rw [without, without, List.filter_map]
  congr 2
  funext e
  exact congrArg not (hasId_reread id e).symm

end Deleting

/-! ## Deleting rules -/

section Deletion

variable {path scope : String} {s : Scope} {kind : Kind} {c : File.Content} {r : Ruleset}

theorem delete_fst (scope : String) (kind : Kind) (id : String) (c : File.Content) :
    (delete scope kind id c).1 = failureOf scope kind id (modify scope kind (removing id) c).1 :=
  rfl

theorem delete_snd (scope : String) (kind : Kind) (id : String) (c : File.Content) :
    (delete scope kind id c).2 = (modify scope kind (removing id) c).2 :=
  rfl

theorem delete_fst_eq_ok_iff (hscope : Scope.ofString? scope = some s) {id : String} :
    (delete scope kind id c).1 = .ok () ↔
      c ≠ .void ∧ ∃ j entries, root c = .ok j ∧ listAt? (s.path kind) j = some entries ∧
        ∃ e ∈ entries, hasId id e = true := by
  rw [delete_fst, failureOf_eq_ok_iff, modify_eq_ok_iff hscope]
  constructor
  · rintro ⟨hvoid, j, entries, rules', hroot, hentries, hremoved⟩
    exact ⟨hvoid, j, entries, hroot, hentries, (removing_eq_ok_iff.mp hremoved).1⟩
  · rintro ⟨hvoid, j, entries, hroot, hentries, hfound⟩
    exact ⟨hvoid, j, entries, _, hroot, hentries, removing_eq_ok_iff.mpr ⟨hfound, rfl⟩⟩

/-- The empty device holds no rule that could be deleted. -/
theorem ne_void_of_mem {j : Json} {entries : List Json} {e : Json} (hroot : root c = .ok j)
    (hentries : listAt? (s.path kind) j = some entries) (he : e ∈ entries) : c ≠ .void := by
  rintro rfl
  obtain rfl := Except.ok.inj hroot
  have hnone : listAt? (s.path kind) (.obj []) = some [] := by
    cases s <;> rfl
  rw [hnone] at hentries
  obtain rfl := Option.some.inj hentries
  exact absurd he List.not_mem_nil

/-- What is read after a deletion: the rules that were shown, less those that are gone. -/
theorem fetch_delete (hscope : Scope.ofString? scope = some s) {id : String} {j : Json}
    {entries : List Json} (hvoid : c ≠ .void) (hroot : root c = .ok j)
    (hread : Ruleset.read j = .ok r) (hentries : listAt? (s.path kind) j = some entries)
    (hfound : ∃ e ∈ entries, hasId id e = true) :
    ∃ r₀, Ruleset.read j.reread = .ok r₀ ∧
      r₀.rulesIn s kind = (shown (entries.map reread)).map Prod.snd ∧
      fetch path (delete scope kind id c).2 = .ok (r₀.withRulesIn s kind
        (((shown (entries.map reread)).filter
          fun p => !(isObject p.1 && p.2.id == id)).map Prod.snd)) := by
  obtain ⟨hcanonical, hlimit⟩ := canonical_of_root hroot
  have hlist : (Json.arr entries).Canonical := canonical_listAt hcanonical hentries
  have hdepth : (Json.arr (without id entries)).depth ≤ s.depthLimit kind := by
    obtain ⟨d, hd⟩ := Nat.exists_eq_add_of_le' (s.one_le_depthLimit kind)
    rw [← s.depthLimit_add kind] at hlimit
    have hwhole := depth_listAt hlimit (s.one_le_depthLimit kind) hentries
    rw [hd] at hwhole ⊢
    exact depth_without_le hwhole
  have hfile : (delete scope kind id c).2 =
      holding (withListAt (without id entries) (s.path kind) j) :=
    modify_snd hscope hvoid hroot hentries (removing_eq_ok_iff.mpr ⟨hfound, rfl⟩)
  obtain ⟨r₀, hread₀, hrules₀, hfetch₀⟩ :=
    fetch_written path hcanonical hlimit hread hentries (canonical_without hlist) hdepth
  refine ⟨r₀, hread₀, ?_, ?_⟩
  · rw [hrules₀, wellFormed_eq_shown]
  · have hlist₀ : (Json.arr (entries.map reread)).Canonical :=
      canonical_listAt hcanonical.reread
        (by rw [listAt?_reread, hentries, Option.map_some] : listAt? (s.path kind) j.reread = _)
    rw [hfile, hfetch₀, without_reread, wellFormed_eq_shown, shown_without hlist₀]

/-- **`delete_removes`** — rules of an id can be deleted from a file exactly when the list of the kind
is reached through objects and an object of that id stands in it.  In the list of a file that can be
read, the rules with objects of that id are the rules of that id whose entry is an object.  After the
deletion all rules but these are read again, in the same order, and every number is what its text is
read as; if the numbers in the file are stable, it is the number it was. -/
theorem delete_removes (hscope : Scope.ofString? scope = some s) (hfetch : fetch path c = .ok r)
    (kind : Kind) (id : String) :
    ∃ j, root c = .ok j ∧
      ((delete scope kind id c).1 = .ok () ↔
        ∃ entries, listAt? (s.path kind) j = some entries ∧ ∃ e ∈ entries, hasId id e = true) ∧
      (∀ entries, listAt? (s.path kind) j = some entries →
        r.rulesIn s kind = (shown entries).map Prod.snd ∧
        ∀ p ∈ shown entries, hasId id p.1 = (isObject p.1 && p.2.id == id)) ∧
      ((delete scope kind id c).1 = .ok () →
        ∃ r₀ entries, Ruleset.read j.reread = .ok r₀ ∧
          listAt? (s.path kind) j.reread = some entries ∧
          r₀.rulesIn s kind = (shown entries).map Prod.snd ∧
          fetch path (delete scope kind id c).2 = .ok (r₀.withRulesIn s kind
            (((shown entries).filter fun p => !(isObject p.1 && p.2.id == id)).map Prod.snd))) ∧
      (j.Stable → Ruleset.read j.reread = .ok r) := by
  obtain ⟨j, hroot, hread⟩ := fetch_eq_ok_iff.mp hfetch
  obtain ⟨hcanonical, -⟩ := canonical_of_root hroot
  refine ⟨j, hroot, ?_, ?_, ?_, ?_⟩
  · rw [delete_fst_eq_ok_iff hscope]
    constructor
    · rintro ⟨-, i, entries, hi, hentries, hfound⟩
      obtain rfl := Except.ok.inj (hroot.symm.trans hi)
      exact ⟨entries, hentries, hfound⟩
    · rintro ⟨entries, hentries, e, he, hid⟩
      exact ⟨ne_void_of_mem hroot hentries he, j, entries, hroot, hentries, e, he, hid⟩
  · intro entries hentries
    refine ⟨?_, ?_⟩
    · rw [rulesIn_of_listAt hcanonical hread hentries, wellFormed_eq_shown]
    · intro p hp
      obtain ⟨hmem, hrule⟩ := mem_shown_iff.mp hp
      exact hasId_eq_of_read (Json.allCanonical_iff.mp (canonical_listAt hcanonical hentries) _ hmem)
        hrule id
  · intro hok
    obtain ⟨hvoid, i, entries, hi, hentries, hfound⟩ := (delete_fst_eq_ok_iff hscope).mp hok
    obtain rfl := Except.ok.inj (hroot.symm.trans hi)
    obtain ⟨r₀, hread₀, hrules₀, hfetch₀⟩ :=
      fetch_delete hscope hvoid hroot hread hentries hfound
    have hentries₀ : listAt? (s.path kind) j.reread = some (entries.map reread) := by
      rw [listAt?_reread, hentries, Option.map_some]
    exact ⟨r₀, entries.map reread, hread₀, hentries₀, hrules₀, hfetch₀⟩
  · intro hstable
    rw [Json.Stable.reread_eq hstable]
    exact hread

/-! ### A rule set with two rules of one id -/

/-- A rule set with two content rules of one id, and with one of another. -/
def duplicated : Json :=
  .obj [("global", .obj [("content",
    .arr [.obj [("rule_id", .str "a")], .obj [("rule_id", .str "b")],
      .obj [("enabled", .bool false), ("rule_id", .str "a")]])])]

theorem root_duplicated : root (holding duplicated) = .ok duplicated :=
  root_holding (j := duplicated) (by decide) (by decide)

/-- Both rules of the id go, and the other stays. -/
theorem delete_removes_duplicates :
    Scope.ofString? "global" = some .global ∧
      ∃ r, fetch "rules.json" (holding duplicated) = .ok r ∧
        (r.rulesIn .global .content).map Rule.id = ["a", "b", "a"] ∧
        (delete "global" .content "a" (holding duplicated)).1 = .ok () ∧
        ∃ r', fetch "rules.json" (delete "global" .content "a" (holding duplicated)).2 = .ok r' ∧
          (r'.rulesIn .global .content).map Rule.id = ["b"] := by
  have hscope : Scope.ofString? "global" = some .global := rfl
  have hfetch : ∃ r, fetch "rules.json" (holding duplicated) = .ok r ∧
      (r.rulesIn .global .content).map Rule.id = ["a", "b", "a"] :=
    ⟨_, fetch_eq_ok_iff.mpr ⟨_, root_duplicated, rfl⟩, rfl⟩
  obtain ⟨r, hr, hids⟩ := hfetch
  obtain ⟨j, hroot, hiff, -, hafter, -⟩ := delete_removes hscope hr .content "a"
  obtain rfl := Except.ok.inj (root_duplicated.symm.trans hroot)
  have hok := hiff.mpr ⟨_, rfl, .obj [("rule_id", .str "a")], by simp, rfl⟩
  obtain ⟨r₀, entries, -, hentries, -, hfetch'⟩ := hafter hok
  refine ⟨hscope, r, hr, hids, hok, _, hfetch', ?_⟩
  obtain rfl := Option.some.inj hentries
  rw [Ruleset.rulesIn_withRulesIn]
  rfl

/-! ### Rules that are shown and cannot be deleted -/

/-- From a file with the value a content rule with the id `a` is read in the scope, but none can be
deleted there. -/
def Stuck (scope : String) (s : Scope) (j : Json) : Prop :=
  ∃ r, fetch "rules.json" (holding j) = .ok r ∧ (∃ rule ∈ r.rulesIn s .content, rule.id = "a") ∧
    (delete scope .content "a" (holding j)).1 ≠ .ok ()

theorem stuck_of_editRoot {j : Json} {rule : Rule} {fault : Fault} (hj : root (holding j) = .ok j)
    (hread : Ruleset.read j = .ok r) (hrule : rule ∈ r.rulesIn s .content) (hid : rule.id = "a")
    (hedit : editRoot scope .content (removing "a") j = .error fault) : Stuck scope s j := by
  refine ⟨r, fetch_eq_ok_iff.mpr ⟨j, hj, hread⟩, ⟨rule, hrule, hid⟩, ?_⟩
  rw [delete_fst, Ne, failureOf_eq_ok_iff, modify_eq_error hj hedit]
  simp

/-- A rule with the id `a`. -/
def entryA : Json :=
  .obj [("rule_id", .str "a")]

/-- A rule set in which the rules for all devices are a list of lists. -/
def listedGroup : Json :=
  .obj [("global", .arr [.arr [], .arr [entryA]])]

/-- A rule set with the rules of a device without a name. -/
def nameless : Json :=
  .obj [("device", .obj [("", .obj [("content", .arr [entryA])])])]

/-- A rule set with a rule that is a list. -/
def listedRule : Json :=
  .obj [("global", .obj [("content", .arr [.arr [.str "a"]])])]

theorem stuck_listedGroup : Stuck "global" .global listedGroup :=
  stuck_of_editRoot (root_holding (j := listedGroup) (by decide) (by decide)) rfl
    (List.mem_singleton_self _) rfl rfl

theorem stuck_nameless : Stuck "device/" (.device "") nameless :=
  stuck_of_editRoot (root_holding (j := nameless) (by decide) (by decide)) rfl
    (List.mem_singleton_self _) rfl rfl

theorem stuck_listedRule : Stuck "global" .global listedRule :=
  stuck_of_editRoot (root_holding (j := listedRule) (by decide) (by decide)) rfl
    (List.mem_singleton_self _) rfl rfl

/-! ### Numbers that change -/

/-- The first of three neighbouring doubles each of which is read from the text of the one before. -/
def drifting : Json.Number :=
  .double { bits := 4262707295203537014 }

theorem reread_drifting : drifting.reread.reread ≠ drifting.reread := by
  decide +kernel

/-- A content rule whose action has the number, and those rules of rooms. -/
def tweaked (n : Json.Number) (rooms : List Json) : Json :=
  .obj [("global", .obj [
    ("content", .arr [.obj [
      ("actions", .arr [.obj [("set_tweak", .str "scale"), ("value", .num n)]]),
      ("rule_id", .str "b")]]),
    ("room", .arr rooms)])]

theorem exists_read_tweaked (n : Json.Number) {rooms : List Json}
    (hrooms : rooms = [entryA] ∨ rooms = []) :
    ∃ r, Ruleset.read (tweaked n rooms) = .ok r ∧
      r.rulesIn .global .content =
        [.template "b" [.setTweak "scale" (some (.num n))]] := by
  obtain rfl | rfl := hrooms
  · refine ⟨_, rfl, ?_⟩
    rfl
  · refine ⟨_, rfl, ?_⟩
    rfl

/-- Deleting the rule of a room changes a content rule. -/
theorem number_changes :
    ∃ r r', fetch "rules.json" (holding (tweaked drifting [entryA])) = .ok r ∧
      (delete "global" .room "a" (holding (tweaked drifting [entryA]))).1 = .ok () ∧
      fetch "rules.json" (delete "global" .room "a" (holding (tweaked drifting [entryA]))).2 =
        .ok r' ∧
      r'.rulesIn .global .content ≠ r.rulesIn .global .content := by
  have hroot : root (holding (tweaked drifting [entryA])) = .ok (tweaked drifting.reread [entryA]) :=
    root_holding (j := tweaked drifting [entryA]) (by decide) (by decide)
  have hroot' : root (holding (tweaked drifting.reread [])) =
      .ok (tweaked drifting.reread.reread []) :=
    root_holding (j := tweaked drifting.reread []) (by decide) (by decide)
  have hscope : Scope.ofString? "global" = some .global := rfl
  have hvoid : holding (tweaked drifting [entryA]) ≠ .void := by simp [holding]
  have hentries : listAt? (Scope.path .global .room) (tweaked drifting.reread [entryA]) =
      some [entryA] := rfl
  have hremoved : removing "a" [entryA] = .ok [] := rfl
  have hok : (delete "global" .room "a" (holding (tweaked drifting [entryA]))).1 = .ok () :=
    (delete_fst_eq_ok_iff hscope).mpr
      ⟨hvoid, _, _, hroot, hentries, entryA, List.mem_singleton_self _, rfl⟩
  have hfile : (delete "global" .room "a" (holding (tweaked drifting [entryA]))).2 =
      holding (tweaked drifting.reread []) := by
    have hwith : withListAt [] (Scope.path .global .room) (tweaked drifting.reread [entryA]) =
        tweaked drifting.reread [] := rfl
    rw [delete_snd, ← hwith]
    exact modify_snd hscope hvoid hroot hentries hremoved
  obtain ⟨r, hr, hrules⟩ := exists_read_tweaked drifting.reread (.inl rfl)
  obtain ⟨r', hr', hrules'⟩ := exists_read_tweaked drifting.reread.reread (.inr rfl)
  refine ⟨r, r', fetch_eq_ok_iff.mpr ⟨_, hroot, hr⟩, hok, ?_, ?_⟩
  · rw [hfile]
    exact fetch_eq_ok_iff.mpr ⟨_, hroot', hr'⟩
  · rw [hrules, hrules']
    intro heq
    have hrule := (List.cons.inj heq).1
    simp only [Rule.template, Rule.mk.injEq, List.cons.injEq, Action.setTweak.injEq,
      Option.some.injEq, Json.num.injEq, true_and, and_true] at hrule
    exact reread_drifting hrule

/-- Not every rule that is shown can be deleted, and a deletion does not leave every other rule as it
was. -/
theorem shown_and_not_deleted :
    Stuck "global" .global listedGroup ∧ Stuck "device/" (.device "") nameless ∧
      Stuck "global" .global listedRule ∧
      ∃ r r', fetch "rules.json" (holding (tweaked drifting [entryA])) = .ok r ∧
        (delete "global" .room "a" (holding (tweaked drifting [entryA]))).1 = .ok () ∧
        fetch "rules.json" (delete "global" .room "a" (holding (tweaked drifting [entryA]))).2 =
          .ok r' ∧
        r'.rulesIn .global .content ≠ r.rulesIn .global .content :=
  ⟨stuck_listedGroup, stuck_nameless, stuck_listedRule, number_changes⟩

end Deletion

end AlertRules.RulesFile
