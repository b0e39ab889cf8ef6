import AlertRules.Proofs.CommandLine.Loading
import AlertRules.Proofs.FileTree.Opening
import AlertRules.Proofs.RulesFile.Placing
import AlertRules.Proofs.Ruleset.RoundTrip
import AlertRules.Proofs.Service.Adding
import AlertRules.Proofs.Service.Answers

/-!
# AlertRules.Proofs.CommandLine.Adding — rules added from the command line

Every run of the program is a new process: it fetches the rules, opens the file for the change, and looks
for the id among the rules it has just fetched.  So `rule-id` and `add-content` choose the same id, which
no content rule for all devices has, and `add-content` puts its rule behind those that were there
(`Ready.addsOne`).  What has been written can be read and opened by the next run (`Ready.on`), so this
holds after runs of any number (`runs_add_one`).
-/

namespace AlertRules.CommandLine

open RulesFile Service

/-! ## The actions of an added rule -/

section Actions

variable {sound : Option String} {highlight : Bool}

/-- **`Plain a`** — the action is restored, and its JSON is sound and nested once at most. -/
structure Plain (a : Action) : Prop where
  restored : a.Restored
  sound : a.toJson.Sound
  depth_le : a.toJson.depth ≤ 1

theorem plain_notify : Plain .notify :=
  ⟨rfl, Json.sound_str "notify", Nat.zero_le 1⟩

theorem toJson_setTweak (name : String) (v : Json) :
    (Action.setTweak name (some v)).toJson =
      .obj (Entries.insert "value" v (Entries.insert "set_tweak" (.str name) [])) := by
  rw [Action.toJson, Json.optional, Json.ofMembers, Entries.ofList, List.foldl_cons, List.foldl_cons,
    List.foldl_nil]

theorem plain_setTweak (name : String) (text : Option String) :
    Plain (.setTweak name (text.map .str)) := by
  have hname : (Json.obj (Entries.insert "set_tweak" (.str name) [])).Sound :=
    Json.sound_nil_obj.insert "set_tweak" (Json.sound_str name)
  have hdepth : (Json.obj (Entries.insert "set_tweak" (.str name) [])).depth ≤ 0 + 1 :=
    Json.depth_insert_le (by decide) "set_tweak" (Nat.le_refl 0)
  cases text with
  | none => exact ⟨Action.restored_setTweak name none, hname, hdepth⟩
  | some s =>
    refine ⟨Action.restored_setTweak name (some (.str s)), ?_, ?_⟩
    · rw [Option.map_some, toJson_setTweak]
      exact hname.insert "value" (Json.sound_str s)
    · rw [Option.map_some, toJson_setTweak]
      exact Json.depth_insert_le hdepth "value" (Nat.le_refl 0)

/-- The actions that an added rule is given: it notifies, with the sound that `--sound` names, and
highlights if `--highlight` is there. -/
inductive GivenActions : Option String → Bool → List Action → Prop
  | bare : GivenActions none false [.notify]
  | sound (name : String) :
    GivenActions (some name) false [.notify, .setTweak "sound" (some (.str name))]
  | highlight : GivenActions none true [.notify, .setTweak "highlight" none]
  | both (name : String) :
    GivenActions (some name) true
      [.notify, .setTweak "sound" (some (.str name)), .setTweak "highlight" none]

theorem givenActions_iff {actions : List Action} :
    GivenActions sound highlight actions ↔ actions = contentActions sound highlight := by
  constructor
  · intro h
    cases h <;> rfl
  · rintro rfl
    cases sound <;> cases highlight
    · exact .bare
    · exact .highlight
    · exact .sound _
    · exact .both _

theorem GivenActions.plain {actions : List Action} (h : GivenActions sound highlight actions) :
    ∀ a ∈ actions, Plain a := by
  have hsound (name : String) := plain_setTweak "sound" (some name)
  have hhighlight := plain_setTweak "highlight" none
  cases h with
  | bare => simpa using plain_notify
  | sound name => simpa using ⟨plain_notify, hsound name⟩
  | highlight => simpa using ⟨plain_notify, hhighlight⟩
  | both name => simpa using ⟨plain_notify, hsound name, hhighlight⟩

end Actions

section Placed

variable {path pattern id : String} {actions : List Action} {c c' : File.Content} {j : Json}
  {rules : List Json} {r : Ruleset}

/-- The rule set with the rule behind the content rules for all devices. -/
def withContent (r : Ruleset) (rule : Rule) : Ruleset :=
  { r with global := { r.global with content := r.global.content ++ [rule] } }

theorem withRulesIn_content (r : Ruleset) (rules : List Rule) :
    r.withRulesIn .global .content rules =
      { r with global := { r.global with content := rules } } :=
  rfl

/-- A rule about a pattern that has been put into the file under an id that no rule has is read behind
the rules that were there, and the numbers in the file are still stable. -/
theorem fetch_placed (hnumbers : ∀ j, root c = .ok j → j.Stable) (hactions : ∀ a ∈ actions, Plain a)
    (hfetch : fetch path c = .ok r) (hid : id ∉ r.global.content.map Rule.id)
    (h : Rewritten .content j rules
      (without id rules ++ [withId id (patternMembers pattern actions)]) c c') :
    fetch path c' = .ok (withContent r (.forPattern id pattern actions)) ∧
      ∀ j, root c' = .ok j → j.Stable := by
  have hj : j.Sound := ⟨(canonical_of_root h.root_eq).1, hnumbers j h.root_eq⟩
  have hlist := sound_listAt hj h.listed
  have hsound : (actionsJson actions).Sound :=
    Json.sound_arr_iff.mpr <| List.forall_mem_map.mpr fun a ha => (hactions a ha).sound
  have hshallow : (actionsJson actions).depth ≤ 1 + 1 :=
    Json.depth_arr_le_iff.mpr <| List.forall_mem_map.mpr fun a ha => (hactions a ha).depth_le
  have hplaced : (Json.arr
      (without id rules ++ [withId id (patternMembers pattern actions)])).Sound :=
    sound_append_withId (sound_without hlist) (sound_patternMembers pattern hsound)
  have hdepth : (Json.arr
      (without id rules ++ [withId id (patternMembers pattern actions)])).depth ≤ 125 := by
    have hrules := depth_listAt (d := 125) (canonical_of_root h.root_eq).2 (by decide) h.listed
    exact (depth_append_le_iff (depth_without_le hrules)).mpr
      (depth_withId_pattern_le_iff.mpr (Nat.le_trans hshallow (by decide)))
  obtain ⟨i, hi, hread⟩ := fetch_eq_ok_iff.mp hfetch
  obtain rfl := Except.ok.inj (h.root_eq.symm.trans hi)
  have hcontent : r.global.content = KindSet.wellFormed rules :=
    rulesIn_of_listAt (s := .global) hj.canonical hread h.listed
  have hfree : ∀ rule ∈ KindSet.wellFormed rules, rule.id ≠ id := by
    intro rule hrule heq
    rw [← hcontent] at hrule
    exact hid (heq ▸ List.mem_map_of_mem hrule)
  have hrestored : actions.map (fun a => Action.ofJson a.toJson) = actions :=
    (List.map_congr_left fun a ha => (hactions a ha).restored).trans (List.map_id actions)
  constructor
  · have hfetch' := h.fetch_eq hj hplaced hdepth hfetch
    rw [wellFormed_placed hlist.canonical hfree, read_withId_pattern, hrestored, ← hcontent,
      withRulesIn_content] at hfetch'
    exact hfetch'
  · intro i' hi'
    obtain rfl := Except.ok.inj ((h.root_eq_ok hj hplaced hdepth).symm.trans hi')
    exact (sound_withListAt _ hj h.listed hplaced).stable

end Placed

/-! ## One run -/

/-- A run of the program: its environment and its arguments. -/
structure Run where
  environment : Environment
  args : List String

/-- The outcome of the run on a tree, and the tree afterwards. -/
def Run.on (r : Run) (t : FileTree) : Outcome × FileTree :=
  runOn r.environment r.args t

/-- The run is `rule-id` for that file and that pattern. -/
def Run.Previews (r : Run) (path pattern : String) : Prop :=
  Command.read r.args = .ok (.ruleId path pattern)

/-- The run is `add-content` for that file and that pattern, and those are the actions that it is given.
-/
def Run.Adds (r : Run) (path pattern : String) (actions : List Action) : Prop :=
  ∃ common sound highlight,
    Command.read r.args = .ok (.addContent common pattern sound highlight) ∧
      common.rules = path ∧ GivenActions sound highlight actions

/-- The run is one of the two. -/
def Run.Concerns (r : Run) (path : String) : Prop :=
  (∃ pattern, r.Previews path pattern) ∨ ∃ pattern actions, r.Adds path pattern actions

/-- The tree after what the outcome does to the files. -/
def Outcome.applied (o : Outcome) (t : FileTree) : FileTree :=
  o.effects.foldl (fun t effect => effect.on t) t

section Runs

variable {r : Run} {path pattern : String} {actions : List Action} {t : FileTree}

theorem on_eq {command : Command} (h : Command.read r.args = .ok command) (t : FileTree) :
    r.on t =
      (((runCommand inMemory r.environment command).run t).1,
        ((runCommand inMemory r.environment command).run t).1.applied
          ((runCommand inMemory r.environment command).run t).2) := by
  rw [Run.on, runOn, run_eq_runCommand h]
  rfl

theorem effects_runRuleId (source : RulesSource) (pattern : String) :
    (runRuleId source pattern).effects = [] := by
  unfold runRuleId
  split <;> rfl

theorem printing_injective {s s' : String} (h : Outcome.printing s = .printing s') : s = s' :=
  congrArg Outcome.output h

theorem runRuleId_of_fetch {c : File.Content} {rules : Ruleset}
    (h : RulesFile.fetch path c = .ok rules) (pattern : String) :
    runRuleId ⟨path, c⟩ pattern =
      .printing (RuleId.fresh pattern (rules.global.content.map Rule.id) ++ "\n") := by
  rw [runRuleId]
  dsimp only
  rw [h]

/-- A preview reads the file and leaves it alone. -/
theorem on_of_previews (h : r.Previews path pattern) (t : FileTree) :
    r.on t = (runRuleId ⟨path, t.read path⟩ pattern, t) := by
  rw [on_eq h]
  show (runRuleId ⟨path, t.read path⟩ pattern,
    (runRuleId ⟨path, t.read path⟩ pattern).applied t) = _
  rw [Outcome.applied, effects_runRuleId]
  rfl

section AddContent

variable {environment : Environment} {common : Common} {sound : Option String} {highlight : Bool}
  {l : Loaded}

theorem addContent_of_unloaded {fault : File.Fault}
    (h : loadedFrom environment common t = .error fault) :
    (runCommand inMemory environment (.addContent common pattern sound highlight)).run t =
      (.failing fault.message, t) := by
  rw [runCommand, withLoaded_run, h]

theorem addContent_of_unread (h : loadedFrom environment common t = .ok l) {failure : Failure}
    (hget : l.service.getRules.1 = .error failure) :
    (runCommand inMemory environment (.addContent common pattern sound highlight)).run t =
      (.failing failure.message, t) := by
  rw [runCommand, withLoaded_run, h]
  dsimp only
  rw [show l.service.getRules = (.error failure, l.service.getRules.2) from Prod.ext hget rfl]
  rfl

theorem run_modifyGet {α : Type} (f : FileTree → α × FileTree) :
    (modifyGet f : StateM FileTree α).run t = f t :=
  rfl

theorem run_opened (path : String) : (inMemory.opened path).run t = t.opened path :=
  run_modifyGet fun t => t.opened path

theorem addContent_of_read (pattern : String) (sound : Option String) (highlight : Bool)
    (h : loadedFrom environment common t = .ok l) {fetched : Fetched}
    (hget : l.service.getRules.1 = .ok fetched) :
    ∃ s : Service, s.path = l.service.getRules.2.path ∧ s.cache = l.service.getRules.2.cache ∧
      s.file = (t.opened common.rules).1 ∧
        (runCommand inMemory environment (.addContent common pattern sound highlight)).run t =
          (runAddContent s pattern sound highlight, (t.opened common.rules).2) := by
  refine ⟨{ l.service.getRules.2 with file := (t.opened common.rules).1 }, rfl, rfl, ?_, ?_⟩
  · dsimp only
  · rw [runCommand, withLoaded_run, h]
    dsimp only
    rw [show l.service.getRules = (.ok fetched, l.service.getRules.2) from Prod.ext hget rfl]
    dsimp only
    rw [run_bind, run_opened]
    rfl

end AddContent

theorem changes_self (path : String) (c : File.Content) : changes path c c = [] :=
  if_pos rfl

/-- **`Adding path pattern actions t o t'`** — what `add-content` can do. -/
inductive Adding (path pattern : String) (actions : List Action) (t : FileTree) (o : Outcome)
    (t' : FileTree) : Prop
  /-- It fails, and leaves everything as it is, but for the path, which it may have opened. -/
  | failed (code : o.code = 1) (tree : t' = t ∨ t' = (t.opened path).2)
  /-- It puts a rule into the file, under the id that is fresh among the rules it has read. -/
  | added (rules : Ruleset) (id : String) (bytes bytes' : ByteArray) (j : Json) (list : List Json)
      (code : o.code = 0) (output : o.output = id ++ "\n")
      (effects : o.effects = changes path (.present bytes) (.present bytes'))
      (tree : t' = o.applied (t.opened path).2)
      (fetched : RulesFile.fetch path (t.read path) = .ok rules)
      (id_eq : id = RuleId.fresh pattern (rules.global.content.map Rule.id))
      (opened : (t.opened path).1 = .present bytes)
      (rewritten : Rewritten .content j list
        (without id list ++ [withId id (patternMembers pattern actions)])
        (.present bytes) (.present bytes'))

/-- A rule that is refused leaves the file as it was opened. -/
theorem file_of_addFor_error {s s' : Service} {failure : Failure}
    (h : s.addFor pattern actions = (.error failure, s')) (hfile : s.file ≠ .missing) :
    s'.file = s.file := by
  rw [addFor_eq, ofMembers_pattern] at h
  obtain ⟨hresult, rfl⟩ := Prod.mk.inj h
  have hne : (RulesFile.add "global" .content (s.freshId pattern)
      (.obj (patternMembers pattern actions)) s.file).1 ≠ .ok () := by
    intro hok
    rw [add_fst, hok] at hresult
    exact absurd hresult (by simp [Except.map])
  rcases add_snd_of_ne_ok hne with hsame | hopened
  · exact hsame
  · refine hopened.trans ?_
    cases hcontent : s.file with
    | missing => exact absurd hcontent hfile
    | _ => rfl

theorem file_ne_void_of_addFor {s s' : Service} {id : String}
    (h : s.addFor pattern actions = (.ok id, s')) : s.file ≠ .void := by
  rw [addFor_eq, ofMembers_pattern] at h
  have hresult := (Prod.mk.inj h).1
  cases hadd : (s.add .content (s.freshId pattern) (.obj (patternMembers pattern actions))).1 with
  | error failure =>
    rw [hadd] at hresult
    exact absurd hresult (by simp [Except.map])
  | ok u => exact (add_fst_eq_ok_iff.mp hadd).1

/-- What becomes of a rule when the rules have been fetched and the file has been opened. -/
theorem adding_runAddContent {s : Service} {fetched : Fetched} {sound : Option String}
    {highlight : Bool} (hpath : s.path = path) (hlatest : s.cache.latest = some fetched)
    (hfile : s.file = (t.opened path).1)
    (hfetched : RulesFile.fetch path (t.read path) = .ok fetched.rules) :
    Adding path pattern (contentActions sound highlight) t (runAddContent s pattern sound highlight)
      ((runAddContent s pattern sound highlight).applied (t.opened path).2) := by
  have hhas : s.cache.hasRules = true := by
    rw [FetchCache.hasRules, hlatest]
    rfl
  have hopened : s.file ≠ .missing := hfile ▸ FileTree.opened_ne_missing t path
  rw [runAddContent, addContent_of_hasRules hhas]
  cases hadd : s.addFor pattern (contentActions sound highlight) with
  | mk result s' =>
    cases result with
    | error failure =>
      refine .failed rfl (.inr ?_)
      rw [finished, file_of_addFor_error hadd hopened, Outcome.applied, changes_self]
      rfl
    | ok id =>
      obtain ⟨hid, hpath', j, list, hrewritten⟩ := addFor_eq_ok hadd
      obtain ⟨bytes, hbytes⟩ : ∃ bytes, s.file = .present bytes := by
        cases hcontent : s.file with
        | present bytes => exact ⟨bytes, rfl⟩
        | missing => exact absurd hcontent hopened
        | void => exact absurd hcontent (file_ne_void_of_addFor hadd)
        | blocked reason =>
          have hroot := hrewritten.root_eq
          rw [hcontent] at hroot
          exact absurd hroot (by simp [root])
      have hknown : s.freshId pattern =
          RuleId.fresh pattern (fetched.rules.global.content.map Rule.id) := by
        rw [freshId, FetchCache.rulesNow, hlatest]
        rfl
      have hbytes' := hrewritten.file_eq
      rw [hbytes, hbytes'] at hrewritten
      refine .added fetched.rules id bytes _ j list rfl rfl ?_ rfl hfetched (hid.trans hknown)
        (hfile ▸ hbytes) hrewritten
      rw [finished, hpath, hbytes, hbytes']
      rfl

theorem adding_of_adds (h : r.Adds path pattern actions) (t : FileTree) :
    Adding path pattern actions t (r.on t).1 (r.on t).2 := by
  obtain ⟨common, sound, highlight, hread, rfl, hgiven⟩ := h
  obtain rfl := givenActions_iff.mp hgiven
  rw [on_eq hread]
  cases hloaded : loadedFrom r.environment common t with
  | error fault =>
    rw [addContent_of_unloaded hloaded]
    exact .failed rfl (.inl rfl)
  | ok l =>
    have hsettled : l.service.Settled := settled_start _ _ _
    have hsource := source_of_loaded hloaded
    cases hsettled.answered with
    | failed failure answer =>
      rw [addContent_of_unread hloaded answer]
      exact .failed rfl (.inl rfl)
    | loaded fetched answer fetch_eq latest =>
      obtain ⟨s, hplace, hcache, hfile, hrun⟩ :=
        addContent_of_read pattern sound highlight hloaded answer
      have hservice : l.service.path = common.rules ∧ l.service.file = t.read common.rules := by
        rw [Loaded.service, Config.service, hsource]
        exact ⟨rfl, rfl⟩
      have hfetched : RulesFile.fetch common.rules (t.read common.rules) = .ok fetched.rules := by
        rw [Service.fetch, hservice.1, hservice.2] at fetch_eq
        exact fetch_eq
      have hpath : s.path = common.rules :=
        hplace.trans ((samePlace_getRules l.service).path_eq.trans hservice.1)
      rw [hrun]
      dsimp only
      exact adding_runAddContent hpath (hcache ▸ latest) hfile hfetched

/-! ## Runs one after the other -/

/-- **`Ready path t`** — the path leads to the rules file, if there is one, and the numbers in it are
stable. -/
structure Ready (path : String) (t : FileTree) : Prop where
  leads : t.Leads path
  stable : ∀ bytes j, (t.opened path).1 = .present bytes → root (.present bytes) = .ok j → j.Stable

theorem ready_of_read (hleads : t.Leads path) (hnumbers : ∀ j, root (t.read path) = .ok j → j.Stable) :
    Ready path t := by
  refine ⟨hleads, ?_⟩
  intro bytes j hopened hroot
  apply hnumbers
  rw [← root_opened, (hleads bytes hopened).1]
  exact hroot

theorem Ready.opened (h : Ready path t) : Ready path (t.opened path).2 := by
  refine ⟨h.leads.opened, ?_⟩
  intro bytes j hopened
  rw [FileTree.opened_opened] at hopened
  exact h.stable bytes j hopened

theorem ready_of_holds {bytes : ByteArray} (h : t.Holds path bytes)
    (hnumbers : ∀ j, root (.present bytes) = .ok j → j.Stable) : Ready path t :=
  ready_of_read h.leads (by rwa [h.read_eq])

/-- What has been put into the file is in it. -/
theorem holds_applied {o : Outcome} {bytes bytes' : ByteArray} (h : t.Holds path bytes)
    (heffects : o.effects = changes path (.present bytes) (.present bytes')) :
    (o.applied t).Holds path bytes' := by
  rw [Outcome.applied, heffects, changes]
  split
  · rename_i hsame
    obtain rfl := File.Content.present.inj hsame
    exact h
  · exact h.write bytes'

theorem fetch_congr {c c' : File.Content} (h : root c = root c') (path : String) :
    RulesFile.fetch path c = RulesFile.fetch path c' := by
  rw [RulesFile.fetch, RulesFile.fetch, h]

/-- What `add-content` has put into the file is there for the next run. -/
theorem Ready.added (h : Ready path t) (hactions : ∀ a ∈ actions, Plain a) {o : Outcome}
    {rules : Ruleset} {id : String} {bytes bytes' : ByteArray} {j : Json} {list : List Json}
    (effects : o.effects = changes path (.present bytes) (.present bytes'))
    (fetched : RulesFile.fetch path (t.read path) = .ok rules)
    (hid : id ∉ rules.global.content.map Rule.id)
    (opened : (t.opened path).1 = .present bytes)
    (rewritten : Rewritten .content j list
      (without id list ++ [withId id (patternMembers pattern actions)])
      (.present bytes) (.present bytes')) :
    Ready path (o.applied (t.opened path).2) ∧
      RulesFile.fetch path ((o.applied (t.opened path).2).read path) =
        .ok (withContent rules (.forPattern id pattern actions)) := by
  have hroot : root (.present bytes) = root (t.read path) := by
    rw [← (h.leads bytes opened).1, root_opened]
  have hfetched := (fetch_congr hroot path).trans fetched
  obtain ⟨hplaced, hstable⟩ := fetch_placed (h.stable bytes · opened) hactions hfetched hid rewritten
  have hholds := holds_applied (h.leads.holds_opened opened) effects
  refine ⟨ready_of_holds hholds hstable, ?_⟩
  rw [hholds.read_eq]
  exact hplaced

theorem Ready.adding (h : Ready path t) (hactions : ∀ a ∈ actions, Plain a) {o : Outcome}
    {t' : FileTree} (hadding : Adding path pattern actions t o t') : Ready path t' := by
  cases hadding with
  | failed code tree =>
    rcases tree with hsame | hopened
    · rw [hsame]
      exact h
    · rw [hopened]
      exact h.opened
  | added rules id bytes bytes' j list code output effects tree fetched id_eq opened rewritten =>
    have hid : id ∉ rules.global.content.map Rule.id := id_eq ▸ RuleId.fresh_notMem pattern _
    rw [tree]
    exact (h.added hactions effects fetched hid opened rewritten).1

/-- Every run leaves the file ready for the next. -/
theorem Ready.on (h : Ready path t) (hr : r.Concerns path) : Ready path (r.on t).2 := by
  rcases hr with ⟨pattern, hpreviews⟩ | ⟨pattern, actions, hadds⟩
  · rw [on_of_previews hpreviews]
    exact h
  · refine h.adding ?_ (adding_of_adds hadds t)
    obtain ⟨common, sound, highlight, -, -, hgiven⟩ := hadds
    exact hgiven.plain

/-- The tree after these runs, one after the other. -/
def after (t : FileTree) (runs : List Run) : FileTree :=
  runs.foldl (fun t r => (r.on t).2) t

/-- A preview does not show in what comes later. -/
theorem after_concat_of_previews (h : r.Previews path pattern) (t : FileTree) (before : List Run) :
    after t (before ++ [r]) = after t before := by
  rw [after, List.foldl_append, List.foldl_cons, List.foldl_nil, on_of_previews h, after]

theorem Ready.after (h : Ready path t) {runs : List Run} (hruns : ∀ r ∈ runs, r.Concerns path) :
    Ready path (after t runs) := by
  induction runs generalizing t with
  | nil => exact h
  | cons r runs ih =>
    obtain ⟨hr, hruns⟩ := List.forall_mem_cons.mp hruns
    exact ih (h.on hr) hruns

/-- What a run has printed is an id that no content rule for all devices in `t` had; in `t'` a rule of
that id stands behind them, with the pattern and the actions; and nothing else has changed. -/
def AddsOne (path pattern : String) (actions : List Action) (t : FileTree) (o : Outcome)
    (t' : FileTree) : Prop :=
  ∃ rules id, o.output = id ++ "\n" ∧ RulesFile.fetch path (t.read path) = .ok rules ∧
    (∀ rule ∈ rules.global.content, rule.id ≠ id) ∧
    RulesFile.fetch path (t'.read path) =
      .ok { rules with
        global := { rules.global with
          content := rules.global.content ++
            [{ id, conditions := none, actions, pattern := some pattern, enabled := true,
               isDefault := false }] } }

/-- A run that adds a rule and succeeds adds one under the id that a preview would have printed. -/
theorem Ready.addsOne (h : Ready path t) (hadds : r.Adds path pattern actions)
    (hcode : (r.on t).1.code = 0) :
    AddsOne path pattern actions t (r.on t).1 (r.on t).2 ∧
      runRuleId ⟨path, t.read path⟩ pattern = .printing (r.on t).1.output := by
  have hactions : ∀ a ∈ actions, Plain a := by
    obtain ⟨common, sound, highlight, -, -, hgiven⟩ := hadds
    exact hgiven.plain
  have hadding := adding_of_adds hadds t
  generalize (r.on t).1 = o, (r.on t).2 = t' at hadding hcode ⊢
  cases hadding with
  | failed code tree => exact absurd (code.symm.trans hcode) (by decide)
  | added rules id bytes bytes' j list code output effects tree fetched id_eq opened rewritten =>
    have hid : id ∉ rules.global.content.map Rule.id := id_eq ▸ RuleId.fresh_notMem pattern _
    refine ⟨⟨rules, id, output, fetched, ?_, ?_⟩, ?_⟩
    · rintro rule hrule rfl
      exact hid (List.mem_map_of_mem hrule)
    · rw [tree]
      exact (h.added hactions effects fetched hid opened rewritten).2
    · rw [runRuleId_of_fetch fetched, output, id_eq]

/-- **`runs_add_one`** — over a rules file that nobody else writes, after any runs of `rule-id` and
`add-content`: an `add-content` that succeeds adds exactly one rule, and a `rule-id` for its pattern just
before prints the same id. -/
theorem runs_add_one (hleads : t.Leads path)
    (hnumbers : ∀ j, root (t.read path) = .ok j → j.Stable) {before : List Run}
    (hbefore : ∀ r ∈ before, r.Concerns path) :
    (∀ (add : Run) pattern actions, add.Adds path pattern actions →
      (add.on (after t before)).1.code = 0 →
        AddsOne path pattern actions (after t before) (add.on (after t before)).1
          (add.on (after t before)).2) ∧
    ∀ (preview add : Run) pattern actions, preview.Previews path pattern →
      add.Adds path pattern actions → (add.on (after t (before ++ [preview]))).1.code = 0 →
        (preview.on (after t before)).1 =
          .printing (add.on (after t (before ++ [preview]))).1.output := by
  have hready := (ready_of_read hleads hnumbers).after hbefore
  constructor
  · intro add pattern actions hadds hcode
    exact (hready.addsOne hadds hcode).1
  · intro preview add pattern actions hpreviews hadds hcode
    rw [after_concat_of_previews hpreviews] at hcode ⊢
    rw [on_of_previews hpreviews]
    exact (hready.addsOne hadds hcode).2

end Runs

/-! ### One more rule -/

/-- A tree with a rules file in which `foo` is taken. -/
def shelf : FileTree :=
  ⟨[("rules.json", .file fooTwice.pretty.toUTF8)], []⟩

theorem holds_shelf : shelf.Holds "rules.json" fooTwice.pretty.toUTF8 :=
  ⟨rfl, ["rules.json"], rfl, rfl⟩

/-- `rule-id` for the pattern `foo*`. -/
def showFoo : Run :=
  ⟨⟨"", none, ⟨0, 0, 0⟩⟩, ["rule-id", "-r", "rules.json", "foo*"]⟩

/-- `add-content` for it, with a sound and highlighted. -/
def addFoo : Run :=
  ⟨⟨"", none, ⟨0, 0, 0⟩⟩,
    ["add-content", "-r", "rules.json", "foo*", "--sound", "ping", "--highlight"]⟩

/-- What it names: nothing but the rules file. -/
def fooCommon : Common :=
  ⟨"rules.json", none, none, none, false⟩

theorem read_addFoo :
    Command.read addFoo.args = .ok (.addContent fooCommon "foo*" (some "ping") true) :=
  rfl

theorem adds_addFoo :
    addFoo.Adds "rules.json" "foo*"
      [.notify, .setTweak "sound" (some (.str "ping")), .setTweak "highlight" none] :=
  ⟨fooCommon, some "ping", true, read_addFoo, rfl, .both "ping"⟩

/-- What the run loads. -/
def shelfLoaded : Loaded :=
  ⟨Config.default, .empty, ⟨"rules.json", holding fooTwice⟩⟩

theorem code_addFoo : (addFoo.on shelf).1.code = 0 := by
  have hloaded : loadedFrom addFoo.environment fooCommon shelf = .ok shelfLoaded := rfl
  have hlisted : listAt? (Scope.path .global .content) fooTwice = some _ := rfl
  have hsettled : shelfLoaded.service.Settled := settled_start _ _ _
  have hfetch : shelfLoaded.service.fetch = .ok fooTwiceRules := fetch_sharing
  cases hsettled.answered with
  | failed failure answer fetch_eq latest =>
    exact absurd (hfetch.symm.trans fetch_eq) (by simp)
  | loaded fetched answer fetch_eq latest =>
    obtain ⟨s, -, hcache, hfile, hrun⟩ := addContent_of_read "foo*" (some "ping") true hloaded answer
    have hcontent : s.file = holding fooTwice := by
      rw [hfile]
      exact congrArg Prod.fst holds_shelf.opened_eq
    have hhas : s.cache.hasRules = true := by
      rw [hcache]
      exact Held.hasRules_getRules hsettled answer
    obtain ⟨s', hadd⟩ := exists_addFor_eq hcontent (hcontent ▸ root_sharing) hlisted "foo*"
      (contentActions (some "ping") true)
    rw [on_eq read_addFoo, hrun]
    dsimp only
    rw [runAddContent, addContent_of_hasRules hhas, hadd]
    rfl

/-- A rule about `foo*` comes with its sound and its highlight behind the rule `foo`, under the id that
was shown before. -/
theorem runs_add_one_ringing :
    AddsOne "rules.json" "foo*"
        [.notify, .setTweak "sound" (some (.str "ping")), .setTweak "highlight" none] shelf
        (addFoo.on shelf).1 (addFoo.on shelf).2 ∧
      (showFoo.on shelf).1 = .printing (addFoo.on shelf).1.output ∧
      (addFoo.on shelf).1.output = "foo2\n" := by
  have hread := holds_shelf.read_eq
  have hnumbers : ∀ j, root (shelf.read "rules.json") = .ok j → j.Stable := by
    intro j hj
    rw [hread] at hj
    obtain rfl := Except.ok.inj (root_sharing.symm.trans hj)
    exact sound_fooTwice.stable
  have hpreviews : showFoo.Previews "rules.json" "foo*" := rfl
  have hsame : after shelf ([] ++ [showFoo]) = shelf := after_concat_of_previews hpreviews shelf []
  have hbefore : ∀ r ∈ [showFoo], r.Concerns "rules.json" :=
    List.forall_mem_singleton.mpr (.inl ⟨"foo*", hpreviews⟩)
  have hnothing : ∀ r ∈ ([] : List Run), r.Concerns "rules.json" :=
    fun r hr => absurd hr List.not_mem_nil
  obtain ⟨hone, -⟩ := runs_add_one holds_shelf.leads hnumbers hbefore
  obtain ⟨-, hprinted⟩ := runs_add_one holds_shelf.leads hnumbers hnothing
  have hadded := hone addFoo "foo*" _ adds_addFoo
  rw [← List.nil_append [showFoo], hsame] at hadded
  have hshown := hprinted showFoo addFoo "foo*" _ hpreviews adds_addFoo
  rw [hsame] at hshown
  have hshown' : (showFoo.on shelf).1 = .printing (addFoo.on shelf).1.output := hshown code_addFoo
  refine ⟨hadded code_addFoo, hshown', ?_⟩
  have hfetch : RulesFile.fetch "rules.json" (shelf.read "rules.json") = .ok fooTwiceRules := by
    rw [hread]
    exact fetch_sharing
  rw [on_of_previews hpreviews, runRuleId_of_fetch hfetch] at hshown'
  exact (printing_injective hshown').symm

end AlertRules.CommandLine
