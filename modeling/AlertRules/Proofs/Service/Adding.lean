import AlertRules.Proofs.Service.Unseen

/-!
# AlertRules.Proofs.Service.Adding — when an added rule spares the others

A rule about a pattern is put into the file instead of any rule of the id that was chosen for it.
Adding it harms another rule exactly when that id is unseen, or when its actions are nested so deep
that the file cannot be read any more (`spares_iff`).  So of two patterns that differ in special
characters only, the second takes the place of the first unless the rules have been fetched in
between (`not_spares_usedOnce`).
-/

namespace AlertRules.Service

open RulesFile

/-! ## Visible rules -/

/-- The content rules of a rule set, each with the devices that it is for. -/
def contentRules (r : Ruleset) : List (Scope × Rule) :=
  r.global.content.map (fun rule => (.global, rule)) ++
    r.device.entries.flatMap fun e => e.2.content.map fun rule => (.device e.1, rule)

/-- The content rules that fetching the file shows. -/
def visible (s : Service) : List (Scope × Rule) :=
  match s.fetch with
  | .ok r => contentRules r
  | .error _ => []

/-- No content rule for all devices had the id in `s`, and every content rule that was visible in `s` is
visible in `s'`, as it was. -/
def Spares (s s' : Service) (id : String) : Prop :=
  (∀ rule, (.global, rule) ∈ s.visible → rule.id ≠ id) ∧ ∀ e ∈ s.visible, e ∈ s'.visible

theorem mem_contentRules_global {r : Ruleset} {rule : Rule} :
    (.global, rule) ∈ contentRules r ↔ rule ∈ r.global.content := by
  rw [contentRules, List.mem_append, List.mem_map, List.mem_flatMap]
  constructor
  · rintro (⟨rule', hrule, heq⟩ | ⟨e, -, he⟩)
    · obtain rfl := (Prod.mk.inj heq).2
      exact hrule
    · obtain ⟨rule', -, heq⟩ := List.mem_map.mp he
      exact absurd (Prod.mk.inj heq).1 (by simp)
  · intro hrule
    exact Or.inl ⟨rule, hrule, rfl⟩

theorem mem_contentRules_device {r : Ruleset} {name : String} {rule : Rule} :
    (.device name, rule) ∈ contentRules r ↔ ∃ s, (name, s) ∈ r.device.entries ∧ rule ∈ s.content := by
  rw [contentRules, List.mem_append, List.mem_map, List.mem_flatMap]
  constructor
  · rintro (⟨rule', -, heq⟩ | ⟨e, he, hrule⟩)
    · exact absurd (Prod.mk.inj heq).1 (by simp)
    · obtain ⟨rule', hrule', heq⟩ := List.mem_map.mp hrule
      obtain ⟨hname, rfl⟩ := Prod.mk.inj heq
      obtain rfl := Scope.device.inj hname
      exact ⟨e.2, he, hrule'⟩
  · rintro ⟨s, hs, hrule⟩
    exact Or.inr ⟨(name, s), hs, List.mem_map.mpr ⟨rule, hrule, rfl⟩⟩

theorem visible_of_fetch {s : Service} {r : Ruleset} (h : s.fetch = .ok r) :
    s.visible = contentRules r := by
  rw [visible, h]

theorem visible_of_failed {s : Service} {failure : Failure} (h : s.fetch = .error failure) :
    s.visible = [] := by
  rw [visible, h]

/-! ## Adding a rule -/

/-- No rule has the id that was chosen unless the id is unseen. -/
theorem forall_visible_ne_iff {s : Service} {ids : List String} {j : Json} {r : Ruleset}
    (h : Tracked s.knownIds ids j r) (hfetch : s.fetch = .ok r) {id : String}
    (hid : id ∉ s.knownIds) :
    (∀ rule, (.global, rule) ∈ s.visible → rule.id ≠ id) ↔ id ∉ ids := by
  rw [visible_of_fetch hfetch]
  constructor
  · intro hne hunseen
    obtain ⟨rule, hrule, hruleId⟩ := h.shown id hunseen
    exact hne rule (mem_contentRules_global.mpr hrule) hruleId
  · rintro hunseen rule hrule rfl
    rcases h.covered rule (mem_contentRules_global.mp hrule) with hknown | hin
    · exact hid hknown
    · exact hunseen hin

/-- What is read with the entry of the rule at the end of the list shows every rule of another id. -/
theorem mem_contentRules_placed {r : Ruleset} {rules : List Json} {id : String}
    {members : List (String × Json)} (hlist : (Json.arr rules).Canonical)
    (hcontent : r.global.content = KindSet.wellFormed rules)
    (hne : ∀ rule ∈ r.global.content, rule.id ≠ id) {e : Scope × Rule} (he : e ∈ contentRules r) :
    e ∈ contentRules (r.withRulesIn .global .content
      (KindSet.wellFormed (without id rules ++ [withId id members]))) := by
  obtain ⟨scope, rule⟩ := e
  cases scope with
  | global =>
    have hrule := mem_contentRules_global.mp he
    have hother := hne rule hrule
    rw [hcontent] at hrule
    rw [mem_contentRules_global, Tracked.content_withRulesIn, KindSet.wellFormed_append]
    exact List.mem_append_left _ (mem_without hlist hrule hother)
  | device name =>
    rw [mem_contentRules_device] at he ⊢
    exact he

/-- A rule about a pattern is put into the file under the id that is fresh then. -/
theorem addFor_eq_ok {s s' : Service} {pattern id : String} {actions : List Action}
    (hok : s.addFor pattern actions = (.ok id, s')) :
    id = s.freshId pattern ∧ s'.path = s.path ∧
      ∃ j rules, Rewritten .content j rules
        (without id rules ++ [withId id (patternMembers pattern actions)]) s.file s'.file := by
  rw [addFor_eq, ofMembers_pattern] at hok
  obtain ⟨hresult, rfl⟩ := Prod.mk.inj hok
  cases hadd : (s.add .content (s.freshId pattern) (.obj (patternMembers pattern actions))).1 with
  | error failure =>
    rw [hadd] at hresult
    exact absurd hresult (by simp [Except.map])
  | ok u =>
    rw [hadd] at hresult
    obtain rfl := Except.ok.inj hresult
    exact ⟨rfl, rfl, rewritten_of_add hadd⟩

theorem spares_addFor_iff {s s' : Service} {ids : List String} (h : s.Held ids)
    (hhas : s.cache.hasRules = true) {pattern id : String} {actions : List Action}
    (hactions : (actionsJson actions).Sound) (hok : s.addFor pattern actions = (.ok id, s')) :
    Spares s s' id ↔ id ∉ ids ∧ ((actionsJson actions).depth ≤ 123 ∨ s.visible = []) := by
  obtain ⟨hid, hpath, j, rules, hrewritten⟩ := addFor_eq_ok hok
  have hj := h.sound j hrewritten.root_eq
  have hrules := sound_listAt hj hrewritten.listed
  have hrules' : (Json.arr
      (without id rules ++ [withId id (patternMembers pattern actions)])).Sound :=
    sound_append_withId (sound_without hrules) (sound_patternMembers pattern hactions)
  have hdepth : (Json.arr (without id rules ++
      [withId id (patternMembers pattern actions)])).depth ≤ 125 ↔
        (actionsJson actions).depth ≤ 123 := by
    have hlimit := (canonical_of_root hrewritten.root_eq).2
    have hlisted := depth_listAt (d := 125) hlimit (by decide) hrewritten.listed
    rw [depth_append_le_iff (depth_without_le hlisted), depth_withId_pattern_le_iff]
  obtain ⟨r, hr⟩ := h.tracked hhas j hrewritten.root_eq
  have hfetch : s.fetch = .ok r := fetch_eq_ok_iff.mpr ⟨j, hrewritten.root_eq, hr.read⟩
  have hne := forall_visible_ne_iff hr hfetch (hid ▸ freshId_notMem s pattern)
  by_cases hshallow : (actionsJson actions).depth ≤ 123
  · have hfetch' := hrewritten.fetch_eq hj hrules' (hdepth.mpr hshallow) hfetch
    rw [Spares, hne]
    refine and_congr_right fun hunseen => iff_of_true (fun e he => ?_) (Or.inl hshallow)
    rw [visible_of_fetch hfetch] at he hne
    have hvisible : s'.visible = _ := visible_of_fetch (hpath ▸ hfetch')
    rw [hvisible]
    refine mem_contentRules_placed hrules.canonical
      (rulesIn_of_listAt (s := .global) hj.canonical hr.read hrewritten.listed)
      (fun rule hrule => ?_) he
    exact hne.mpr hunseen rule (mem_contentRules_global.mpr hrule)
  · have hroot := hrewritten.root_eq_error hj hrules' fun hle => hshallow (hdepth.mp hle)
    have hfailed : s'.fetch = .error (.parse "ruleset file" RootFault.notJson.message) := by
      rw [fetch, RulesFile.fetch, hroot]
    rw [Spares, hne, visible_of_failed hfailed]
    apply and_congr_right
    intro _
    rw [or_iff_right hshallow, List.eq_nil_iff_forall_not_mem]
    simp

/-- In every run of a service over a file that nobody else writes, adding a rule about a pattern spares
the other content rules exactly when its id is not unseen, and its actions are not nested so deep that
the file cannot be read afterwards. -/
theorem spares_iff (path : String) (file : File.Content) (setting : Setting)
    (hfile : ∀ j, root file = .ok j → j.Stable) {ops : List Op} (hops : ∀ op ∈ ops, op.Sound)
    {pattern id : String} {actions : List Action} (hactions : (actionsJson actions).Sound)
    {s' : Service}
    (hadd : ((start path file setting).run ops).addContent pattern actions = (.ok id, s')) :
    Spares ((start path file setting).run ops) s' id ↔
      id ∉ (start path file setting).unseen [] ops ∧
        ((actionsJson actions).depth ≤ 123 ∨ ((start path file setting).run ops).visible = []) := by
  have hs := (settled_start path file setting).run ops
  have h := (held_start path file setting hfile).run (settled_start path file setting) hops
  -- from here on only the invariant counts, not how the service was reached
  generalize (start path file setting).run ops = s at hadd hs h ⊢
  generalize (start path file setting).unseen [] ops = ids at h ⊢
  cases hrules : s.cache.hasRules with
  | true =>
    rw [addContent_of_hasRules hrules] at hadd
    exact spares_addFor_iff h hrules hactions hadd
  | false =>
    cases hget : s.getRules.1 with
    | error failure =>
      rw [addContent_of_failed hrules hget] at hadd
      exact absurd (Prod.mk.inj hadd).1 (by simp)
    | ok fetched =>
      have hgot := h.getRules hs
      rw [unseenAfter, hget] at hgot
      rw [addContent_of_loaded hrules hget] at hadd
      obtain rfl := h.unfetched hrules
      exact spares_addFor_iff hgot (Held.hasRules_getRules hs hget) hactions hadd

/-! ### A second rule -/

theorem sound_notify : (actionsJson [.notify]).Sound :=
  Json.sound_arr_iff.mpr (List.forall_mem_singleton.mpr (Json.sound_str "notify"))

/-- A rule about a pattern can be put into a file in which the list of content rules can be reached. -/
theorem exists_addFor_eq {s : Service} {bytes : ByteArray} {j : Json} {rules : List Json}
    (hfile : s.file = .present bytes) (hroot : root s.file = .ok j)
    (hrules : listAt? (Scope.path .global .content) j = some rules) (pattern : String)
    (actions : List Action) : ∃ s', s.addFor pattern actions = (.ok (s.freshId pattern), s') := by
  have hadd : (s.add .content (s.freshId pattern) (.obj (patternMembers pattern actions))).1 =
      .ok () := by
    rw [hfile] at hroot
    rw [add_fst, hfile]
    exact add_eq_ok_of_listed hroot hrules
  rw [addFor_eq, ofMembers_pattern, hadd]
  exact ⟨_, rfl⟩

/-- A service that has not fetched anything fetches its rules for the first rule that is added. -/
theorem exists_addContent_eq {s : Service} (hs : s.Settled) (hnone : s.cache.hasRules = false)
    {r : Ruleset} (hfetch : s.fetch = .ok r) {bytes : ByteArray} {j : Json} {rules : List Json}
    (hfile : s.file = .present bytes) (hroot : root s.file = .ok j)
    (hrules : listAt? (Scope.path .global .content) j = some rules) (pattern : String)
    (actions : List Action) :
    ∃ id s', id = RuleId.fresh pattern (r.global.content.map Rule.id) ∧
      s.addContent pattern actions = (.ok id, s') ∧
      s'.knownIds = r.global.content.map Rule.id ∧ s'.cache.hasRules = true ∧ s'.path = s.path ∧
      Rewritten .content j rules (without id rules ++ [withId id (patternMembers pattern actions)])
        s.file s'.file := by
  cases hs.answered with
  | failed failure answer fetch_eq latest =>
    exact absurd (hfetch.symm.trans fetch_eq) (by simp)
  | loaded fetched answer fetch_eq latest =>
    obtain rfl := Except.ok.inj (hfetch.symm.trans fetch_eq)
    have hknown := knownIds_of_latest latest
    obtain ⟨s', hadd⟩ := exists_addFor_eq (s := s.getRules.2) hfile hroot hrules pattern actions
    have hlatest : s'.cache.latest = s.getRules.2.cache.latest := by
      rw [addFor_eq] at hadd
      obtain ⟨-, rfl⟩ := Prod.mk.inj hadd
      rfl
    obtain ⟨-, hpath, i, list, hrewritten⟩ := addFor_eq_ok hadd
    obtain rfl := Except.ok.inj (hroot.symm.trans hrewritten.root_eq)
    obtain rfl := Option.some.inj (hrules.symm.trans hrewritten.listed)
    refine ⟨_, s', ?_, (addContent_of_loaded hnone answer pattern actions).trans hadd,
      (knownIds_congr hlatest).trans hknown, ?_, hpath, hrewritten⟩
    · rw [← hknown]
      rfl
    · rw [FetchCache.hasRules, hlatest, latest]
      rfl

/-- The entry of a rule about `foo` without actions. -/
def fooBare : Json :=
  .obj [("pattern", .str "foo"), ("rule_id", .str "foo")]

/-- A value with that entry for all devices, and once more for a phone. -/
def fooTwice : Json :=
  .obj [("device", .obj [("phone", .obj [("content", .arr [fooBare])])]),
    ("global", .obj [("content", .arr [fooBare])])]

/-- The rules that are read from it. -/
def fooTwiceRules : Ruleset :=
  let content := { KindSet.empty with content := [.forPattern "foo" "foo" []] }
  ⟨content, KeyMap.empty.insert "phone" content⟩

/-- A service over a file with these rules. -/
def sharing : Service :=
  start "rules.json" (holding fooTwice) ⟨Directory.empty.view, none, .strict⟩

theorem root_sharing : root sharing.file = .ok fooTwice :=
  root_holding (j := fooTwice) (by decide) (by decide)

theorem fetch_sharing : sharing.fetch = .ok fooTwiceRules :=
  fetch_eq_ok_iff.mpr ⟨_, root_sharing, rfl⟩

theorem sound_fooTwice : fooTwice.Sound :=
  ⟨by decide, by simp [fooTwice, fooBare, Json.Stable, Json.MembersStable, Json.AllStable]⟩

/-- The entries for all devices once there is a rule about `bar` as well. -/
def fooAndBar : List Json :=
  without "bar" [fooBare] ++ [withId "bar" (patternMembers "bar" [.notify])]

theorem sound_fooAndBar : (Json.arr fooAndBar).Sound := by
  have hlisted : listAt? (Scope.path .global .content) fooTwice = some [fooBare] := rfl
  exact sound_append_withId (sound_without (sound_listAt sound_fooTwice hlisted))
    (sound_patternMembers "bar" sound_notify)

theorem wellFormed_fooAndBar :
    KindSet.wellFormed fooAndBar =
      [.forPattern "foo" "foo" [], .forPattern "bar" "bar" [.notify]] := by
  rw [fooAndBar, KindSet.wellFormed_append,
    KindSet.wellFormed_singleton (read_withId_pattern "bar" "bar" [.notify])]
  rfl

theorem exists_addBar_sharing :
    ∃ s, sharing.addContent "bar" [.notify] = (.ok "bar", s) ∧ s.knownIds = ["foo"] ∧
      s.cache.hasRules = true ∧ s.path = sharing.path ∧
      Rewritten .content fooTwice [fooBare] fooAndBar sharing.file s.file := by
  have hlisted : listAt? (Scope.path .global .content) fooTwice = some [fooBare] := rfl
  have hid : RuleId.fresh "bar" (fooTwiceRules.global.content.map Rule.id) = "bar" := by decide
  obtain ⟨id, s, hfresh, hbar⟩ :=
    exists_addContent_eq (settled_start _ _ _) rfl fetch_sharing rfl root_sharing hlisted "bar"
      [.notify]
  obtain rfl := hfresh.trans hid
  exact ⟨s, hbar⟩

/-- The rule `foo` can be seen for all devices and for the phone, and `bar` was added a moment ago.  A
third rule, for which `foo` is taken, spares all three. -/
theorem spares_iff_sharing :
    ∃ s', (sharing.run [.addContent "bar" [.notify]]).addContent "foo*" [.notify] =
        (.ok "foo2", s') ∧
      (sharing.run [.addContent "bar" [.notify]]).visible =
        [(.global, .forPattern "foo" "foo" []), (.global, .forPattern "bar" "bar" [.notify]),
          (.device "phone", .forPattern "foo" "foo" [])] ∧
      Spares (sharing.run [.addContent "bar" [.notify]]) s' "foo2" := by
  obtain ⟨s, hbar, hknown, hhas, hpath, hrewritten⟩ := exists_addBar_sharing
  have hrun : sharing.run [.addContent "bar" [.notify]] = s := by
    rw [run, List.foldl_cons, List.foldl_nil, step, hbar]
  have hunseen : sharing.unseen [] [.addContent "bar" [.notify]] = ["bar"] := by
    rw [unseen, unseen, unseenAfter, hbar]
  have hdepth : (Json.arr fooAndBar).depth ≤ 125 := by decide
  have hroot := hrewritten.root_eq_ok sound_fooTwice sound_fooAndBar hdepth
  have hfetch : s.fetch =
      .ok (fooTwiceRules.withRulesIn .global .content (KindSet.wellFormed fooAndBar)) := by
    rw [fetch, hpath]
    exact hrewritten.fetch_eq sound_fooTwice sound_fooAndBar hdepth fetch_sharing
  obtain ⟨s', hfoo⟩ := exists_addFor_eq hrewritten.file_eq hroot
    (listAt?_withListAt hrewritten.listed _) "foo*" [.notify]
  have hid : s.freshId "foo*" = "foo2" := by
    rw [freshId, show s.cache.rulesNow.global.content.map Rule.id = _ from hknown]
    rfl
  rw [hid, ← addContent_of_hasRules hhas, ← hrun] at hfoo
  refine ⟨s', hfoo, ?_, ?_⟩
  · rw [hrun, visible_of_fetch hfetch, wellFormed_fooAndBar]
    rfl
  · refine (spares_iff "rules.json" (holding fooTwice) ⟨Directory.empty.view, none, .strict⟩ ?_
      ?_ sound_notify hfoo).mpr ⟨?_, .inl (by decide)⟩
    · intro j hj
      obtain rfl := Except.ok.inj (root_sharing.symm.trans hj)
      exact sound_fooTwice.stable
    · intro op hop
      rw [List.mem_singleton.mp hop]
      exact sound_notify
    · show "foo2" ∉ sharing.unseen [] [.addContent "bar" [.notify]]
      rw [hunseen]
      decide

/-! ### Two patterns in a row -/

/-- A service over a file that is missing. -/
def unused : Service :=
  start "rules.json" .missing ⟨Directory.empty.view, none, .strict⟩

/-- The entry of a rule about the pattern under the id `foo`. -/
def fooEntry (pattern : String) : Json :=
  withId "foo" (patternMembers pattern [.notify])

/-- The rule that is read from it. -/
def fooRule (pattern : String) : Rule :=
  .forPattern "foo" pattern [.notify]

theorem wellFormed_fooEntry (pattern : String) :
    KindSet.wellFormed [fooEntry pattern] = [fooRule pattern] :=
  KindSet.wellFormed_singleton (read_withId_pattern "foo" pattern [.notify])

theorem sound_fooEntry (pattern : String) : (Json.arr [fooEntry pattern]).Sound := by
  have hentry : (Json.arr ([] ++ [fooEntry pattern])).Sound :=
    sound_append_withId Json.sound_nil_arr (sound_patternMembers pattern sound_notify)
  exact hentry

theorem depth_fooEntry_le (pattern : String) : (Json.arr [fooEntry pattern]).depth ≤ 125 :=
  Json.depth_arr_le_iff.mpr <| List.forall_mem_singleton.mpr <|
    depth_withId_pattern_le_iff.mpr (by decide)

/-- The service after a rule about `foo` has been added. -/
def usedOnce : Service :=
  unused.run [.addContent "foo" [.notify]]

theorem rewritten_usedOnce :
    Rewritten .content (.obj []) [] [fooEntry "foo"] unused.file usedOnce.file :=
  ⟨rfl, rfl, rfl⟩

theorem root_usedOnce :
    root usedOnce.file = .ok (withListAt [fooEntry "foo"] (Scope.path .global .content) (.obj [])) :=
  rewritten_usedOnce.root_eq_ok Json.sound_nil_obj (sound_fooEntry "foo")
    (depth_fooEntry_le "foo")

theorem fetch_usedOnce :
    usedOnce.fetch = .ok (Ruleset.empty.withRulesIn .global .content [fooRule "foo"]) := by
  rw [← wellFormed_fooEntry]
  exact rewritten_usedOnce.fetch_eq Json.sound_nil_obj (sound_fooEntry "foo")
    (depth_fooEntry_le "foo") rfl

theorem addFor_usedOnce :
    ∃ s', usedOnce.addFor "foo*" [.notify] = (.ok "foo", s') := by
  have hfile : usedOnce.file = .present
      (withListAt [fooEntry "foo"] (Scope.path .global .content) (.obj [])).pretty.toUTF8 := rfl
  exact exists_addFor_eq hfile root_usedOnce rfl "foo*" [.notify]

/-- A second rule whose pattern differs in special characters only gets the id of the first, which is
visible, and takes its place. -/
theorem not_spares_usedOnce :
    ∃ s', usedOnce.addContent "foo*" [.notify] = (.ok "foo", s') ∧
      ∃ rule, (.global, rule) ∈ usedOnce.visible ∧ rule.id = "foo" ∧
        (.global, rule) ∉ s'.visible := by
  obtain ⟨s', hadd⟩ := addFor_usedOnce
  refine ⟨s', (addContent_of_hasRules rfl "foo*" [.notify]).trans hadd, fooRule "foo", ?_, rfl, ?_⟩
  · rw [visible_of_fetch fetch_usedOnce, mem_contentRules_global, Tracked.content_withRulesIn]
    exact List.mem_singleton_self _
  · obtain ⟨-, hpath, j, rules, hrewritten⟩ := addFor_eq_ok hadd
    obtain rfl := Except.ok.inj (root_usedOnce.symm.trans hrewritten.root_eq)
    obtain rfl : [fooEntry "foo"] = rules := Option.some.inj hrewritten.listed
    have hlisted : listAt? (Scope.path .global .content) (.obj []) = some [] := rfl
    have hsound := sound_withListAt _ Json.sound_nil_obj hlisted (sound_fooEntry "foo")
    have hfetch := hrewritten.fetch_eq hsound (sound_fooEntry "foo*") (depth_fooEntry_le "foo*")
      fetch_usedOnce
    have hvisible : s'.visible = _ := visible_of_fetch (hpath ▸ hfetch)
    rw [hvisible, mem_contentRules_global, Tracked.content_withRulesIn]
    have hlist : without "foo" [fooEntry "foo"] ++ [withId "foo" (patternMembers "foo*" [.notify])] =
        [fooEntry "foo*"] := rfl
    rw [hlist, wellFormed_fooEntry, List.mem_singleton]
    intro heq
    have hpattern := Option.some.inj (congrArg Rule.pattern heq)
    exact absurd hpattern (by decide)

end AlertRules.Service
