import AlertRules.Proofs.RulesFile.Rewriting

/-!
# AlertRules.Proofs.RulesFile.Adding — adding a rule to a file that can be read

A rule can be put into a file from which rules are read when the levels on the way to its list are
objects and the list is one.  Reading allows more: null for a list, and a list for an object.
-/

namespace AlertRules.RulesFile

variable {path : String} {members : List (String × Json)} {c : File.Content} {r : Ruleset}

theorem add_obj_fst (scope : String) (kind : Kind) (id : String) :
    (add scope kind id (.obj members) c).1 =
      failureOf scope kind id (modify scope kind (placing id members) c).1 :=
  rfl

theorem add_obj_snd (scope : String) (kind : Kind) (id : String) :
    (add scope kind id (.obj members) c).2 = (modify scope kind (placing id members) c).2 :=
  rfl

theorem add_fst_eq_ok_iff {kind : Kind} {id : String} :
    (add "global" kind id (.obj members) c).1 = .ok () ↔
      c ≠ .void ∧ ∃ j rules, root c = .ok j ∧ listAt? ["global", kind.text] j = some rules := by
  rw [add_obj_fst, failureOf_eq_ok_iff, modify_eq_ok_iff (s := .global) rfl]
  constructor
  · rintro ⟨hvoid, j, rules, -, hroot, hrules, -⟩
    exact ⟨hvoid, j, rules, hroot, hrules⟩
  · rintro ⟨hvoid, j, rules, hroot, hrules⟩
    exact ⟨hvoid, j, rules, _, hroot, hrules, rfl⟩

/-- **`add_readable`** — a rule can be put into a file from which rules are read exactly when the file
can be replaced and, of the file, the rules for all devices and the list of the kind, those that are
there are an object, an object and a list.  Unless the rule is nested too deep, rules are then read
from the file again. -/
theorem add_readable (hfetch : fetch path c = .ok r) (hbody : (Json.obj members).Canonical)
    (kind : Kind) (id : String) :
    ((add "global" kind id (.obj members) c).1 = .ok () ↔
      c ≠ .void ∧ ∃ j rules, root c = .ok j ∧ listAt? ["global", kind.text] j = some rules) ∧
    ((add "global" kind id (.obj members) c).1 = .ok () → (Json.obj members).depth ≤ 124 →
      ∃ r', fetch path (add "global" kind id (.obj members) c).2 = .ok r') := by
  refine ⟨add_fst_eq_ok_iff, fun hok hdepth => ?_⟩
  obtain ⟨hvoid, j, rules, hroot, hrules⟩ := add_fst_eq_ok_iff.mp hok
  obtain ⟨i, hi, hread⟩ := fetch_eq_ok_iff.mp hfetch
  obtain rfl := Except.ok.inj (hroot.symm.trans hi)
  obtain ⟨hcanonical, hlimit⟩ := canonical_of_root hroot
  have hplaced : (Json.arr (without id rules ++ [withId id members])).Canonical :=
    canonical_append_withId (canonical_without (canonical_listAt hcanonical hrules)) hbody
  have hplacedDepth : (Json.arr (without id rules ++ [withId id members])).depth ≤ 124 + 1 := by
    have hlist : (Json.arr rules).depth ≤ 124 + 1 := depth_listAt hlimit (by decide) hrules
    refine (depth_append_le_iff (depth_without_le hlist)).mpr ?_
    exact Json.depth_insert_le (d := 123) hdepth "rule_id" (Nat.zero_le _)
  have hscope : Scope.ofString? "global" = some .global := rfl
  have hfile := modify_snd (f := placing id members) hscope hvoid hroot hrules rfl
  obtain ⟨r₀, -, -, hfetch'⟩ :=
    fetch_written path (s := .global) hcanonical hlimit hread hrules hplaced hplacedDepth
  rw [add_obj_snd, hfile]
  exact ⟨_, hfetch'⟩

/-- A rule set with two content rules of one id, and with an entry that is no rule. -/
def listedTwice : Json :=
  .obj [("global", .obj [("content",
    .arr [.obj [("rule_id", .str "a")], .null, .obj [("rule_id", .str "b")],
      .obj [("enabled", .bool false), ("rule_id", .str "a")]])])]

theorem root_listedTwice : root (holding listedTwice) = .ok listedTwice :=
  root_holding (j := listedTwice) (by decide) (by decide)

theorem exists_fetch_listedTwice : ∃ r, fetch "rules.json" (holding listedTwice) = .ok r :=
  ⟨_, fetch_eq_ok_iff.mpr ⟨_, root_listedTwice, rfl⟩⟩

/-- A rule about the pattern `foo`. -/
def fooMembers : List (String × Json) :=
  [("actions", .arr [.str "notify"]), ("pattern", .str "foo")]

/-- A rule takes the place of two of its id. -/
theorem add_readable_listedTwice :
    ∃ r, fetch "rules.json" (holding listedTwice) = .ok r ∧ (Json.obj fooMembers).Canonical ∧
      (add "global" .content "a" (.obj fooMembers) (holding listedTwice)).1 = .ok () ∧
      (Json.obj fooMembers).depth ≤ 124 ∧
      ∃ r', fetch "rules.json"
        (add "global" .content "a" (.obj fooMembers) (holding listedTwice)).2 = .ok r' := by
  obtain ⟨r, hfetch⟩ := exists_fetch_listedTwice
  have hbody : (Json.obj fooMembers).Canonical := by decide
  have hdepth : (Json.obj fooMembers).depth ≤ 124 := by decide
  obtain ⟨hiff, hreadable⟩ := add_readable hfetch hbody .content "a"
  have hok := hiff.mpr ⟨by simp [holding], _, _, root_listedTwice, rfl⟩
  exact ⟨r, hfetch, hbody, hok, hdepth, hreadable hok hdepth⟩

/-! ### Rules that cannot be added, or not be read afterwards -/

/-- From a file with the value rules are read, but no content rule can be added. -/
def Refused (j : Json) : Prop :=
  (∃ r, fetch "rules.json" (holding j) = .ok r) ∧
    (add "global" .content "a" (.obj []) (holding j)).1 ≠ .ok ()

theorem refused_of_editRoot {j : Json} {fault : Fault} (hj : root (holding j) = .ok j)
    (hread : Ruleset.read j = .ok r)
    (hedit : editRoot "global" .content (placing "a" []) j = .error fault) : Refused j := by
  refine ⟨⟨r, fetch_eq_ok_iff.mpr ⟨j, hj, hread⟩⟩, ?_⟩
  rw [add_obj_fst, Ne, failureOf_eq_ok_iff, modify_eq_error hj hedit]
  simp

/-- A rule set in which null stands for the list of content rules. -/
def nullList : Json :=
  .obj [("global", .obj [("content", .null)])]

/-- A rule set in which the rules for all devices are a list of lists. -/
def listedKinds : Json :=
  .obj [("global", .arr [.arr [], .arr []])]

theorem refused_nullList : Refused nullList :=
  refused_of_editRoot (root_holding (j := nullList) (by decide) (by decide)) rfl rfl

theorem refused_listedKinds : Refused listedKinds :=
  refused_of_editRoot (root_holding (j := listedKinds) (by decide) (by decide)) rfl rfl

/-- A rule set may be a list itself. -/
theorem refused_list : Refused (.arr []) :=
  refused_of_editRoot (root_holding (j := .arr []) (by decide) (by decide)) rfl rfl

/-- Null in so many lists. -/
def nested : Nat → Json
  | 0 => .null
  | n + 1 => .arr [nested n]

theorem canonical_nested (n : Nat) : (nested n).Canonical := by
  induction n with
  | zero => trivial
  | succ n ih => exact ⟨ih, trivial⟩

theorem depth_nested (n : Nat) : (nested n).depth = n := by
  induction n with
  | zero => rfl
  | succ n ih =>
    rw [nested, Json.depth, Json.depthOfItems, Json.depthOfItems, ih]
    omega

/-- A rule that is nested 125 deep. -/
def tooDeep : List (String × Json) :=
  [("x", nested 124)]

/-- A rule set with it. -/
def holdingTooDeep : Json :=
  .obj [("global", .obj [("content", .arr [.obj [("rule_id", .str "a"), ("x", nested 124)]])])]

theorem canonical_holdingTooDeep : holdingTooDeep.Canonical := by
  have hrule : (Json.obj [("rule_id", .str "a"), ("x", nested 124)]).Canonical :=
    ⟨by decide, trivial, canonical_nested 124, trivial⟩
  exact ⟨by decide, ⟨by decide, ⟨hrule, trivial⟩, trivial⟩, trivial⟩

theorem depth_holdingTooDeep : holdingTooDeep.depth = Json.depthLimit + 1 := by
  simp [holdingTooDeep, Json.depth, Json.depthOfMembers, Json.depthOfItems, depth_nested,
    Json.depthLimit]

/-- A rule that is nested 125 deep is added, and then no rule can be read. -/
theorem unreadable_of_tooDeep :
    (add "global" .content "a" (.obj tooDeep) .missing).1 = .ok () ∧
      ∀ r, fetch "rules.json" (add "global" .content "a" (.obj tooDeep) .missing).2 ≠ .ok r := by
  have hroot : root .missing = .ok (.obj []) := rfl
  have hrules : listAt? (Scope.path .global .content) (.obj []) = some [] := rfl
  refine ⟨add_fst_eq_ok_iff.mpr ⟨by simp, _, _, hroot, hrules⟩, fun r hfetch => ?_⟩
  have hscope : Scope.ofString? "global" = some .global := rfl
  have hfile := modify_snd (f := placing "a" tooDeep) hscope (by simp) hroot hrules rfl
  have hvalue : withListAt (without "a" [] ++ [withId "a" tooDeep]) (Scope.path .global .content)
      (.obj []) = holdingTooDeep := rfl
  rw [add_obj_snd, hfile, hvalue] at hfetch
  obtain ⟨j, hj, -⟩ := fetch_eq_ok_iff.mp hfetch
  rw [holding, root_present_pretty canonical_holdingTooDeep, depth_holdingTooDeep,
    if_neg (Nat.not_succ_le_self _)] at hj
  exact absurd hj (by simp)

/-- Not every file that can be read can be changed, and not every change leaves a file that can be
read. -/
theorem readable_and_not_addable :
    Refused nullList ∧ Refused listedKinds ∧ Refused (.arr []) ∧
      (add "global" .content "a" (.obj tooDeep) .missing).1 = .ok () ∧
      ∀ r, fetch "rules.json" (add "global" .content "a" (.obj tooDeep) .missing).2 ≠ .ok r :=
  ⟨refused_nullList, refused_listedKinds, refused_list, unreadable_of_tooDeep⟩

end AlertRules.RulesFile
