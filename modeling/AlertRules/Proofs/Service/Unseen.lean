import AlertRules.Proofs.RuleId
import AlertRules.Proofs.RulesFile.Changes
import AlertRules.Proofs.RulesFile.Ids
import AlertRules.Proofs.RulesFile.Overwriting
import AlertRules.Proofs.Service.Runs

/-!
# AlertRules.Proofs.Service.Unseen — rules that the cache does not know

The id of a rule about a pattern is chosen among the rules in the cache, current or not.  The cache
does not know the rules that have been added since they were fetched last: their ids are the
**unseen** ones.

The invariant (`Held`) says that every content rule in the file has an id that is in the cache or
unseen, and that every unseen id is the id of a rule in the file.  Rules that no change can delete are
in the cache as soon as anything is.
-/

namespace AlertRules.Service

open RulesFile

/-! ## Unseen ids -/

/-- The actions that the operation writes are sound values. -/
def Op.Sound : Op → Prop
  | .addContent _ actions => (actionsJson actions).Sound
  | .addRoom _ actions => (actionsJson actions).Sound
  | .addSender _ actions => (actionsJson actions).Sound
  | _ => True

/-- The ids that are unseen after the operation, if those were before: fetching the rules leaves none,
adding a content rule makes its id one, and deleting it ends that. -/
def unseenAfter (s : Service) (unseen : List String) : Op → List String
  | .get | .find _ =>
    match s.getRules.1 with
    | .ok _ => []
    | .error _ => unseen
  | .addContent pattern actions =>
    match (s.addContent pattern actions).1 with
    | .ok id => id :: unseen
    | .error _ => unseen
  | .deleteContent id =>
    match (s.delete .content id).1 with
    | .ok _ => unseen.filter (· ≠ id)
    | .error _ => unseen
  | _ => unseen

/-- The unseen ids after the operations. -/
def unseen (s : Service) (ids : List String) : List Op → List String
  | [] => ids
  | op :: ops => (s.step op).unseen (s.unseenAfter ids op) ops

/-! ## What is known about the rules in the file -/

/-- The ids of the content rules in the cache, among which an id is chosen. -/
def knownIds (s : Service) : List String :=
  s.cache.rulesNow.global.content.map Rule.id

theorem knownIds_of_latest {s : Service} {fetched : Fetched}
    (h : s.cache.latest = some fetched) :
    s.knownIds = fetched.rules.global.content.map Rule.id := by
  rw [knownIds, FetchCache.rulesNow, h]
  rfl

theorem knownIds_congr {s s' : Service} (h : s'.cache.latest = s.cache.latest) :
    s'.knownIds = s.knownIds := by
  rw [knownIds, knownIds, FetchCache.rulesNow, FetchCache.rulesNow, h]

theorem freshId_notMem (s : Service) (pattern : String) : s.freshId pattern ∉ s.knownIds :=
  RuleId.fresh_notMem pattern s.knownIds

/-- **`Tracked known unseen j r`** — the value `j` is read as the rules `r`; each of its content rules
has a known or an unseen id, each unseen id is the id of one, and what cannot be deleted is known. -/
structure Tracked (known unseen : List String) (j : Json) (r : Ruleset) : Prop where
  read : Ruleset.read j = .ok r
  covered : ∀ rule ∈ r.global.content, rule.id ∈ known ∨ rule.id ∈ unseen
  shown : ∀ id ∈ unseen, ∃ rule ∈ r.global.content, rule.id = id
  fixed : ∀ rules, listAt? (Scope.path .global .content) j = some rules → ∀ rule, Fixed rules rule → rule.id ∈ known

/-- Rules that have just been fetched are known. -/
theorem tracked_self {j : Json} {r : Ruleset} (hj : j.Canonical) (hread : Ruleset.read j = .ok r) :
    Tracked (r.global.content.map Rule.id) [] j r where
  read := hread
  covered rule hrule := Or.inl (List.mem_map_of_mem hrule)
  shown id hid := absurd hid List.not_mem_nil
  fixed rules hrules rule hfixed := by
    obtain ⟨i, hi, hrule, -⟩ := hfixed
    have hcontent : r.global.content = KindSet.wellFormed rules := rulesIn_of_listAt (s := .global) hj hread hrules
    rw [hcontent]
    exact List.mem_map_of_mem (KindSet.mem_wellFormed.mpr ⟨i, hi, hrule⟩)

namespace Tracked

variable {known unseen : List String} {j : Json} {r : Ruleset}

/-- A change to rules of another kind changes nothing. -/
theorem other (h : Tracked known unseen j r) (hj : j.Canonical) {kind : Kind}
    (hkind : .content ≠ kind) {rules : List Json} (hrules : listAt? (Scope.path .global kind) j = some rules)
    (rules' : List Json) :
    Tracked known unseen (withListAt rules' (Scope.path .global kind) j)
      (r.withRulesIn .global kind (KindSet.wellFormed rules')) := by
  have hcontent : (r.withRulesIn .global kind (KindSet.wellFormed rules')).global.content =
      r.global.content := by
    have hrules :=
      Ruleset.rulesIn_withRulesIn r .global .global kind .content (KindSet.wellFormed rules')
    rw [if_neg fun h => hkind h.2] at hrules
    exact hrules
  refine ⟨read_withListAt (s := .global) hj h.read hrules rules', ?_, ?_, ?_⟩
  · rw [hcontent]
    exact h.covered
  · rw [hcontent]
    exact h.shown
  · intro list hlist
    rw [listAt?_withListAt_of_apart hrules (Scope.apart_paths fun h => hkind h.2.symm)] at hlist
    exact h.fixed list hlist

theorem content_withRulesIn (r : Ruleset) (rules : List Rule) :
    (r.withRulesIn .global .content rules).global.content = rules := by
  have hrules := Ruleset.rulesIn_withRulesIn r .global .global .content .content rules
  rw [if_pos ⟨rfl, rfl⟩] at hrules
  exact hrules

/-- A content rule that is put into the file is unseen. -/
theorem placed (h : Tracked known unseen j r) (hj : j.Canonical) {rules : List Json}
    (hrules : listAt? (Scope.path .global .content) j = some rules) {id : String} {members : List (String × Json)}
    (hmembers : (Json.obj members).Canonical) (hlist : (Json.arr rules).Canonical) {new : Rule}
    (hnew : Rule.read (withId id members) = .ok new) :
    Tracked known (id :: unseen)
      (withListAt (without id rules ++ [withId id members]) (Scope.path .global .content) j)
      (r.withRulesIn .global .content
        (KindSet.wellFormed (without id rules ++ [withId id members]))) := by
  have hwithId : (withId id members).Canonical := canonical_withId id hmembers
  have hid : new.id = id := id_of_hasId hwithId (hasId_withId id members) hnew
  have hcontent : r.global.content = KindSet.wellFormed rules :=
    rulesIn_of_listAt (s := .global) hj h.read hrules
  have hmem : ∀ rule, rule ∈ KindSet.wellFormed (without id rules ++ [withId id members]) ↔
      rule ∈ KindSet.wellFormed (without id rules) ∨ rule = new := by
    intro rule
    rw [KindSet.wellFormed_append, List.mem_append, KindSet.wellFormed_singleton hnew,
      List.mem_singleton]
  refine ⟨read_withListAt (s := .global) hj h.read hrules _, ?_, ?_, ?_⟩
  · rw [content_withRulesIn]
    intro rule hrule
    rcases (hmem rule).mp hrule with hold | rfl
    · have hbefore := (mem_of_mem_without hold).1
      rw [← hcontent] at hbefore
      exact (h.covered rule hbefore).imp_right (List.mem_cons_of_mem id)
    · exact Or.inr (hid ▸ List.mem_cons_self)
  · rw [content_withRulesIn]
    intro i hi
    by_cases hi' : i = id
    · exact ⟨new, (hmem new).mpr (Or.inr rfl), hid.trans hi'.symm⟩
    · obtain ⟨rule, hrule, hruleId⟩ := h.shown i (List.mem_of_ne_of_mem hi' hi)
      rw [hcontent] at hrule
      have hstays := mem_without hlist hrule (hruleId ▸ hi')
      exact ⟨rule, (hmem rule).mpr (Or.inl hstays), hruleId⟩
  · intro list hlisted rule hfixed
    rw [listAt?_withListAt hrules] at hlisted
    obtain rfl := Option.some.inj hlisted
    exact h.fixed rules hrules rule (hfixed.of_append_withId hmembers).of_without

/-- A content rule that is taken out of the file is not unseen any more. -/
theorem removed (h : Tracked known unseen j r) (hj : j.Canonical) {rules : List Json}
    (hrules : listAt? (Scope.path .global .content) j = some rules) (hlist : (Json.arr rules).Canonical) (id : String) :
    Tracked known (unseen.filter (· ≠ id))
      (withListAt (without id rules) (Scope.path .global .content) j)
      (r.withRulesIn .global .content (KindSet.wellFormed (without id rules))) := by
  have hcontent : r.global.content = KindSet.wellFormed rules :=
    rulesIn_of_listAt (s := .global) hj h.read hrules
  refine ⟨read_withListAt (s := .global) hj h.read hrules _, ?_, ?_, ?_⟩
  · rw [content_withRulesIn]
    intro rule hrule
    obtain ⟨hbefore, hfixed⟩ := mem_of_mem_without hrule
    by_cases hid : rule.id = id
    · exact Or.inl (h.fixed rules hrules rule (hfixed hid))
    · rw [← hcontent] at hbefore
      apply (h.covered rule hbefore).imp_right
      intro hunseen
      exact List.mem_filter.mpr ⟨hunseen, by simpa using hid⟩
  · rw [content_withRulesIn]
    intro i hi
    obtain ⟨hunseen, hne⟩ := List.mem_filter.mp hi
    obtain ⟨rule, hrule, rfl⟩ := h.shown i hunseen
    rw [hcontent] at hrule
    exact ⟨rule, mem_without hlist hrule (by simpa using hne), rfl⟩
  · intro list hlisted rule hfixed
    rw [listAt?_withListAt hrules] at hlisted
    obtain rfl := Option.some.inj hlisted
    exact h.fixed rules hrules rule hfixed.of_without

end Tracked

/-! ## The rule that is added -/

/-- The members of a rule about a pattern, but for its id. -/
def patternMembers (pattern : String) (actions : List Action) : List (String × Json) :=
  [("actions", actionsJson actions), ("pattern", .str pattern)]

theorem actions_lt_pattern : "actions" < "pattern" := by
  decide

theorem ofMembers_pattern (pattern : String) (actions : List Action) :
    Json.ofMembers [("pattern", .str pattern), ("actions", actionsJson actions)] =
      .obj (patternMembers pattern actions) := by
  rw [Json.ofMembers, Entries.ofList, List.foldl_cons, List.foldl_cons, List.foldl_nil,
    Entries.insert, Entries.insert, if_pos actions_lt_pattern, patternMembers]

theorem sorted_patternMembers (pattern : String) (actions : List Action) :
    Entries.Sorted (patternMembers pattern actions) :=
  List.pairwise_pair.mpr actions_lt_pattern

theorem sound_patternMembers (pattern : String) {actions : List Action}
    (h : (actionsJson actions).Sound) : (Json.obj (patternMembers pattern actions)).Sound := by
  refine Json.sound_obj_iff.mpr ⟨sorted_patternMembers pattern actions, ?_⟩
  intro m hm
  rcases List.mem_cons.mp hm with rfl | hm
  · exact h
  · obtain rfl := List.mem_singleton.mp hm
    exact Json.sound_str pattern

/-- The id stands behind the other members. -/
theorem withId_patternMembers (id pattern : String) (actions : List Action) :
    withId id (patternMembers pattern actions) =
      .obj (patternMembers pattern actions ++ [("rule_id", .str id)]) := by
  have hlast : ∀ m ∈ patternMembers pattern actions, m.1 < "rule_id" := by
    intro m hm
    rcases List.mem_cons.mp hm with rfl | hm
    · show "actions" < "rule_id"
      decide
    · obtain rfl := List.mem_singleton.mp hm
      show "pattern" < "rule_id"
      decide
  rw [withId, Entries.insert_eq_append hlast]

theorem depth_withId_pattern_le_iff {id pattern : String} {actions : List Action} {d : Nat} :
    (withId id (patternMembers pattern actions)).depth ≤ d + 1 ↔ (actionsJson actions).depth ≤ d := by
  rw [withId_patternMembers, Json.depth_obj_le_iff, List.forall_mem_append, patternMembers,
    List.forall_mem_cons, List.forall_mem_singleton, List.forall_mem_singleton]
  constructor
  · intro h
    exact h.1.1
  · intro h
    exact ⟨⟨h, Nat.zero_le d⟩, Nat.zero_le d⟩

/-- The entry is read as a template about the pattern. -/
theorem read_withId_pattern (id pattern : String) (actions : List Action) :
    Rule.read (withId id (patternMembers pattern actions)) =
      .ok (.forPattern id pattern (actions.map fun a => Action.ofJson a.toJson)) := by
  have hsorted : Entries.Sorted (patternMembers pattern actions ++ [("rule_id", .str id)]) := by
    have hinsert : Entries.Sorted
        (Entries.insert "rule_id" (.str id) (patternMembers pattern actions)) :=
      Entries.sorted_insert (sorted_patternMembers pattern actions)
    have heq := Json.obj.inj (withId_patternMembers id pattern actions)
    exact heq ▸ hinsert
  rw [withId_patternMembers, Rule.read_obj_eq_ok_iff hsorted]
  refine ⟨rfl, rfl, ?_, rfl, rfl, rfl⟩
  show Json.Read.list (fun j => .ok (Action.ofJson j)) (.arr (actions.map Action.toJson)) = _
  rw [Json.Read.list_arr, List.map_map]
  rfl

/-! ## The invariant -/

/-- **`s.Held ids`** — the value in the file is sound, and once rules have been fetched, the rules in
the file are tracked by the known ids and the unseen ids `ids`; before that no id is unseen. -/
structure Held (s : Service) (ids : List String) : Prop where
  sound : ∀ j, root s.file = .ok j → j.Sound
  unfetched : s.cache.hasRules = false → ids = []
  tracked : s.cache.hasRules = true → ∀ j, root s.file = .ok j → ∃ r, Tracked s.knownIds ids j r

theorem held_start (path : String) (file : File.Content) (setting : Setting)
    (hfile : ∀ j, root file = .ok j → j.Stable) : (start path file setting).Held [] where
  sound j hj := ⟨(canonical_of_root hj).1, hfile j hj⟩
  unfetched _ := rfl
  tracked h := absurd h (by simp [start, FetchCache.empty, FetchCache.hasRules])

namespace Held

variable {s s' : Service} {ids ids' : List String}

/-- The rules in the cache stay the same when they are invalidated, and so does what is known. -/
theorem of_root_eq (h : s.Held ids) (hroot : root s'.file = root s.file)
    (hlatest : s'.cache.latest = s.cache.latest) : s'.Held ids := by
  have hknown := knownIds_congr hlatest
  have hrules : s'.cache.hasRules = s.cache.hasRules := by
    rw [FetchCache.hasRules, FetchCache.hasRules, hlatest]
  refine ⟨?_, ?_, ?_⟩
  · rw [hroot]
    exact h.sound
  · rw [hrules]
    exact h.unfetched
  · rw [hroot, hrules, hknown]
    exact h.tracked

theorem of_sameRules (h : s.Held ids) (hsame : SameRules s s') : s'.Held ids :=
  h.of_root_eq (by rw [hsame.file_eq]) (by rw [hsame.cache_eq])

/-- After the rules have been fetched none are unseen. -/
theorem getRules (h : s.Held ids) (hs : s.Settled) :
    s.getRules.2.Held (s.unseenAfter ids .get) := by
  cases hs.answered with
  | loaded fetched hanswer hfetch hlatest =>
    have hids : s.unseenAfter ids .get = [] := by
      rw [unseenAfter, hanswer]
    rw [hids]
    refine ⟨h.sound, fun _ => rfl, fun _ j hj => ⟨fetched.rules, ?_⟩⟩
    obtain ⟨i, hi, hread⟩ := fetch_eq_ok_iff.mp hfetch
    obtain rfl : i = j := Except.ok.inj (hi.symm.trans hj)
    rw [knownIds_of_latest hlatest]
    exact tracked_self (canonical_of_root hj).1 hread
  | failed failure hanswer hfetch hlatest =>
    have hids : s.unseenAfter ids .get = ids := by
      rw [unseenAfter, hanswer]
    rw [hids]
    exact h.of_root_eq rfl hlatest

/-- A list that has been replaced keeps the invariant, if what is known tracks the rules then. -/
theorem rewritten (h : s.Held ids) {kind : Kind} {j : Json} {rules rules' : List Json}
    (hrewritten : Rewritten kind j rules rules' s.file s'.file)
    (hlatest : s'.cache.latest = s.cache.latest) (hrules' : (Json.arr rules').Sound)
    (hids : s.cache.hasRules = false → ids' = [])
    (htracked : ∀ r, Tracked s.knownIds ids j r →
      ∃ r', Tracked s.knownIds ids' (withListAt rules' (Scope.path .global kind) j) r') : s'.Held ids' := by
  have hj := h.sound j hrewritten.root_eq
  have hknown := knownIds_congr hlatest
  have hrules : s'.cache.hasRules = s.cache.hasRules := by
    rw [FetchCache.hasRules, FetchCache.hasRules, hlatest]
  have hroot := hrewritten.root_after hj hrules'
  -- the file may have become unreadable; if it has not, it holds the changed value
  have hvalue : ∀ i, root s'.file = .ok i → i = withListAt rules' (Scope.path .global kind) j := by
    intro i hi
    rw [hroot] at hi
    split at hi
    · exact (Except.ok.inj hi).symm
    · exact absurd hi (by simp)
  refine ⟨?_, ?_, ?_⟩
  · intro i hi
    rw [hvalue i hi]
    exact sound_withListAt _ hj hrewritten.listed hrules'
  · rw [hrules]
    exact hids
  · rw [hrules, hknown]
    intro hhas i hi
    rw [hvalue i hi]
    obtain ⟨r, hr⟩ := h.tracked hhas j hrewritten.root_eq
    exact htracked r hr

/-- A rule of another kind that is put into the file, or not, is no content rule. -/
theorem addOther (h : s.Held ids) {kind : Kind} (hkind : .content ≠ kind) (id : String)
    {members : List (String × Json)} (hbody : (Json.obj members).Sound) :
    (s.add kind id (.obj members)).2.Held ids := by
  by_cases hok : (RulesFile.add "global" kind id (.obj members) s.file).1 = .ok ()
  · obtain ⟨j, rules, hrewritten⟩ := rewritten_of_add hok
    have hj := h.sound j hrewritten.root_eq
    have hrules := sound_listAt hj hrewritten.listed
    exact h.rewritten hrewritten rfl (sound_append_withId (sound_without hrules) hbody)
      h.unfetched fun r hr => ⟨_, hr.other hj.canonical hkind hrewritten.listed _⟩
  · exact h.of_root_eq (root_add_of_ne_ok hok) rfl

theorem addTemplate (h : s.Held ids) {kind : Kind} (hkind : .content ≠ kind) (id : String)
    {actions : List Action} (hactions : (actionsJson actions).Sound) :
    (s.addTemplate kind id actions).2.Held ids :=
  h.addOther hkind id <| Json.sound_obj_iff.mpr
    ⟨List.pairwise_singleton _ _, List.forall_mem_singleton.mpr hactions⟩

/-- Rules of another kind that are taken out of the file, or not, are no content rules. -/
theorem deleteOther (h : s.Held ids) {kind : Kind} (hkind : .content ≠ kind) (id : String) :
    (s.delete kind id).2.Held ids := by
  by_cases hok : (RulesFile.delete "global" kind id s.file).1 = .ok ()
  · obtain ⟨j, rules, hrewritten⟩ := rewritten_of_delete hok
    have hj := h.sound j hrewritten.root_eq
    have hrules := sound_listAt hj hrewritten.listed
    exact h.rewritten hrewritten rfl (sound_without hrules) h.unfetched
      fun r hr => ⟨_, hr.other hj.canonical hkind hrewritten.listed _⟩
  · exact h.of_root_eq (root_delete_of_ne_ok hok) rfl

/-- Content rules that are taken out of the file are not unseen any more. -/
theorem deleteContent (h : s.Held ids) (id : String) :
    (s.delete .content id).2.Held (s.unseenAfter ids (.deleteContent id)) := by
  by_cases hok : (s.delete .content id).1 = .ok ()
  · have hids : s.unseenAfter ids (.deleteContent id) = ids.filter (· ≠ id) := by
      rw [unseenAfter, hok]
    obtain ⟨j, rules, hrewritten⟩ := rewritten_of_delete hok
    have hj := h.sound j hrewritten.root_eq
    have hrules := sound_listAt hj hrewritten.listed
    rw [hids]
    refine h.rewritten hrewritten rfl (sound_without hrules) (fun hhas => ?_) fun r hr =>
      ⟨_, hr.removed hj.canonical hrewritten.listed hrules.canonical id⟩
    rw [h.unfetched hhas, List.filter_nil]
  · have hids : s.unseenAfter ids (.deleteContent id) = ids := by
      rw [unseenAfter]
      split
      · rename_i heq
        exact absurd heq hok
      · rfl
    rw [hids]
    exact h.of_root_eq (root_delete_of_ne_ok hok) rfl

/-- A content rule that is put into the file is unseen. -/
theorem addFor (h : s.Held ids) (hhas : s.cache.hasRules = true) (pattern : String)
    {actions : List Action} (hactions : (actionsJson actions).Sound) :
    (s.addFor pattern actions).2.Held
      (match (s.addFor pattern actions).1 with
        | .ok id => id :: ids
        | .error _ => ids) := by
  rw [addFor_eq, ofMembers_pattern]
  by_cases hok : (RulesFile.add "global" .content (s.freshId pattern)
      (.obj (patternMembers pattern actions)) s.file).1 = .ok ()
  · obtain ⟨j, rules, hrewritten⟩ := rewritten_of_add hok
    have hj := h.sound j hrewritten.root_eq
    have hrules := sound_listAt hj hrewritten.listed
    have hbody := sound_patternMembers pattern hactions
    have hadd : (s.add .content (s.freshId pattern) (.obj (patternMembers pattern actions))).1 =
        .ok () := hok
    rw [hadd]
    exact h.rewritten hrewritten rfl (sound_append_withId (sound_without hrules) hbody)
      (fun hnone => absurd (hhas.symm.trans hnone) (by simp)) fun r hr =>
        ⟨_, hr.placed hj.canonical hrewritten.listed hbody.canonical hrules.canonical
          (read_withId_pattern _ pattern actions)⟩
  · have hroot := root_add_of_ne_ok hok
    cases hadd : (s.add .content (s.freshId pattern) (.obj (patternMembers pattern actions))).1 with
    | ok u => exact absurd hadd hok
    | error failure => exact h.of_root_eq hroot rfl

theorem hasRules_getRules (hs : s.Settled) {fetched : Fetched}
    (hget : s.getRules.1 = .ok fetched) : s.getRules.2.cache.hasRules = true := by
  cases hs.answered with
  | loaded fetched' hanswer hfetch hlatest =>
    rw [FetchCache.hasRules, hlatest]
    rfl
  | failed failure hanswer hfetch hlatest => exact absurd (hanswer.symm.trans hget) (by simp)

theorem addContent (h : s.Held ids) (hs : s.Settled) (pattern : String) {actions : List Action}
    (hactions : (actionsJson actions).Sound) :
    (s.addContent pattern actions).2.Held (s.unseenAfter ids (.addContent pattern actions)) := by
  rw [unseenAfter]
  cases hrules : s.cache.hasRules with
  | true =>
    rw [addContent_of_hasRules hrules]
    exact h.addFor hrules pattern hactions
  | false =>
    have hgot := h.getRules hs
    rw [unseenAfter] at hgot
    obtain rfl := h.unfetched hrules
    cases hget : s.getRules.1 with
    | error failure =>
      rw [hget] at hgot
      rw [addContent_of_failed hrules hget]
      exact hgot
    | ok fetched =>
      rw [hget] at hgot
      rw [addContent_of_loaded hrules hget]
      exact hgot.addFor (hasRules_getRules hs hget) pattern hactions

/-- Every operation keeps the invariant. -/
theorem step (h : s.Held ids) (hs : s.Settled) {op : Op} (hop : op.Sound) :
    (s.step op).Held (s.unseenAfter ids op) := by
  cases op with
  | clear => exact h.of_root_eq rfl rfl
  | get => exact h.getRules hs
  | find e => exact (h.getRules hs).of_sameRules (sameRules_match? s e)
  | findNow e => exact h.of_sameRules (sameRules_matchWith s e _)
  | findAmong e rules => exact h.of_sameRules (sameRules_matchWith s e rules)
  | highlight e => exact h.of_sameRules (sameRules_matchWith s e _)
  | addContent pattern actions => exact h.addContent hs pattern hop
  | addRoom id actions => exact h.addTemplate (by simp) id hop
  | addSender id actions => exact h.addTemplate (by simp) id hop
  | deleteContent id => exact h.deleteContent id
  | deleteRoom id => exact h.deleteOther (by simp) id
  | deleteSender id => exact h.deleteOther (by simp) id

/-- Every run keeps the invariant. -/
theorem run (h : s.Held ids) (hs : s.Settled) {ops : List Op} (hops : ∀ op ∈ ops, op.Sound) :
    (s.run ops).Held (s.unseen ids ops) := by
  induction ops generalizing s ids with
  | nil => exact h
  | cons op ops ih =>
    obtain ⟨hop, hops⟩ := List.forall_mem_cons.mp hops
    exact ih (h.step hs hop) (hs.step op) hops

end Held

end AlertRules.Service
