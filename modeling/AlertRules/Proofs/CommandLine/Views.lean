import AlertRules.Proofs.CommandLine.Loading
import AlertRules.Proofs.Dispatcher.Deciding
import AlertRules.Proofs.Matching.Search
import AlertRules.Proofs.RulesFile.Changes
import AlertRules.Proofs.Ruleset.RoundTrip
import AlertRules.Proofs.Service.Globs
import AlertRules.Proofs.Text.Lines

/-!
# AlertRules.Proofs.CommandLine.Views — three views of one event

The three commands about an event come to its rule on ways of their own: `match` waits for the rules,
`highlight` looks into the cache once it has been filled, and `process` asks through the dispatcher.
Each of them sees what the file gives, matched without a cache (`Loaded.found`), so what they print goes
together (`Agree`).  The comparison is made on what is printed: `highlight` and `process` are read against
the JSON that `match` prints.
-/

namespace AlertRules.CommandLine

/-! ## What is printed -/

/-- The output is the JSON, in one layout or the other, on lines of its own. -/
def Prints (output : String) (j : Json) : Prop :=
  output = j.compact ++ "\n" ∨ output = j.pretty ++ "\n"

/-- The part of printed JSON that says whether there is to be an alert. -/
def notifyIn? (j : Json) : Option Json :=
  (j.field? "decision").bind fun decision => decision.field? "notify"

/-- The highlight tweak in printed JSON. -/
def highlightIn? (j : Json) : Option Json :=
  ((j.field? "decision").bind fun decision => decision.field? "tweaks").bind fun tweaks =>
    tweaks.field? "highlight"

/-- What `process` prints when there is no alert. -/
def suppressedText (reason : Suppression) : String :=
  "suppressed: " ++ reason.text ++ "\n"

/-- **`Highlights j output`** — the output says whether the printed rule asks for an alert with a truthy
highlight tweak. -/
structure Highlights (j : Json) (output : String) : Prop where
  answer : output = "true\n" ∨ output = "false\n"
  true_iff : output = "true\n" ↔
    notifyIn? j = some (.bool true) ∧ ∃ tweak, highlightIn? j = some tweak ∧ Decision.isTruthy tweak

/-- **`Processes j output`** — the output is about the printed rule: whether there is none, whether it
refuses an alert, and otherwise that there are no words, or an alert with its id. -/
structure Processes (j : Json) (output : String) : Prop where
  noMatchingRule_iff :
    output = suppressedText .noMatchingRule ↔ j.field? "rule_id" = some .null
  notifyDisabled_iff :
    output = suppressedText .notifyDisabled ↔ notifyIn? j = some (.bool false)
  otherwise : j.field? "rule_id" ≠ some .null → notifyIn? j ≠ some (.bool false) →
    output = suppressedText .noMessage ∨ ∃ request : Request,
      output = request.toJson.pretty ++ "\n" ∧
        request.toJson.field? "rule_id" = j.field? "rule_id"

/-- **`Agree matching highlight process`** — the three commands fail for one reason, or all succeed and
what they print goes together. -/
inductive Agree (matching highlight process : Outcome) : Prop
  | failing (message : String) (matching_eq : matching = .failing message)
      (highlight_eq : highlight = .failing message) (process_eq : process = .failing message)
  | printing (j : Json) (matching_code : matching.code = 0) (highlight_code : highlight.code = 0)
      (process_code : process.code = 0) (prints : Prints matching.output j)
      (highlights : Highlights j highlight.output) (processes : Processes j process.output)

/-! ## What the file gives -/

section Found

variable (l : Loaded) (e : Event)

/-- The rule that the event matches among those in the file. -/
def Loaded.found : Except Failure (Option MatchedRule) :=
  l.service.fetch.map fun rules => rules.match? l.service.setting e

theorem settled_service : l.service.Settled :=
  Service.settled_start _ _ _

theorem match?_service_fst : (l.service.match? e).1 = l.found e :=
  (settled_service l).answersByFile.find e

/-- The outcome of a command that prints what it has obtained. -/
def saying {α : Type} (text : α → String) : Except Failure α → Outcome
  | .error failure => .failing failure.message
  | .ok a => .printing (text a)

theorem runMatching_eq : runMatching l e = saying matchText (l.found e) := by
  rw [← match?_service_fst]
  unfold runMatching
  cases (l.service.match? e).1 with
  | error failure => rfl
  | ok found? => rfl

/-- What `highlight` prints. -/
def highlightText (b : Bool) : String :=
  if b then "true\n" else "false\n"

/-- The cache has just been filled, so that what it holds is what the file holds. -/
theorem runHighlight_eq : runHighlight l e =
    saying (fun found? => highlightText (found?.any MatchedRule.highlights)) (l.found e) := by
  unfold runHighlight Loaded.found
  cases (settled_service l).answered with
  | failed failure answer fetch_eq latest =>
    rw [fetch_eq, show l.service.getRules = (.error failure, l.service.getRules.2) from
      Prod.ext answer rfl]
    rfl
  | loaded fetched answer fetch_eq latest =>
    have hnow : l.service.getRules.2.cache.rulesNow = fetched.rules := by
      rw [FetchCache.rulesNow, latest]
      rfl
    have hsetting : l.service.getRules.2.setting = l.service.setting :=
      (Service.samePlace_getRules l.service).setting_eq
    have hhighlights := l.service.getRules.2.matchesAfresh.highlight e
    rw [hnow, hsetting] at hhighlights
    rw [fetch_eq, show l.service.getRules = (.ok fetched, l.service.getRules.2) from
      Prod.ext answer rfl]
    dsimp only [Except.map]
    rw [hhighlights]
    rfl

/-- What `process` prints. -/
def verdictText : Verdict → String
  | .suppressed reason => suppressedText reason
  | .alert _ _ request => request.toJson.pretty ++ "\n"

theorem decide_dispatcher (records : RecordFile) (dryRun : Bool) (h : l.config.muted = false) :
    ((l.dispatcher records false dryRun).decide e).1 =
      (l.found e).map fun found? => Dispatcher.verdict l.config l.rooms.view found? e := by
  have hattends : (l.dispatcher records false dryRun).Attends := ⟨h, rfl⟩
  rw [hattends.decide_fst]
  show ((l.service.match? e).1.map _) = _
  rw [match?_service_fst]
  rfl

theorem runProcess_of_failed {records : RecordFile} {dryRun active : Bool} {now : Timestamp}
    {failure : Failure} (h : ((l.dispatcher records active dryRun).decide e).1 = .error failure) :
    runProcess l records now e active dryRun = .failing failure.message := by
  have hdecide : (l.dispatcher records active dryRun).decide e =
      (.error failure, ((l.dispatcher records active dryRun).decide e).2) := Prod.ext h rfl
  unfold runProcess Dispatcher.process
  dsimp only
  rw [hdecide]

/-- Whatever becomes of the alert at the sinks, the command succeeds and prints the verdict. -/
theorem runProcess_of_decided {records : RecordFile} {dryRun active : Bool} (now : Timestamp)
    {v : Verdict} (h : ((l.dispatcher records active dryRun).decide e).1 = .ok v) :
    (runProcess l records now e active dryRun).code = 0 ∧
      (runProcess l records now e active dryRun).output = verdictText v := by
  have hdecide : (l.dispatcher records active dryRun).decide e =
      (.ok v, ((l.dispatcher records active dryRun).decide e).2) := Prod.ext h rfl
  unfold runProcess Dispatcher.process
  dsimp only
  rw [hdecide]
  cases v with
  | suppressed reason => exact ⟨rfl, rfl⟩
  | alert found decision request => exact ⟨rfl, rfl⟩

end Found

/-! ## What is printed about a rule -/

/-- The JSON that `match` prints. -/
def shownOf : Option MatchedRule → Json
  | none => .obj [("rule_id", .null)]
  | some found =>
    .ofMembers [("rule_id", .str found.rule.id), ("kind", .str found.kind.text),
      ("device", .strOrNull found.device),
      ("actions", .arr (found.rule.actions.map Action.toJson)),
      ("decision", found.decision.toJson)]

theorem prints_matchText (found? : Option MatchedRule) : Prints (matchText found?) (shownOf found?) := by
  cases found? with
  | none => exact .inl rfl
  | some found => exact .inr rfl

section Shown

variable (found : MatchedRule)

theorem id_shownOf : (shownOf (some found)).field? "rule_id" = some (.str found.rule.id) := by
  rw [shownOf, Json.field?_ofMembers]
  rfl

theorem decision_shownOf : (shownOf (some found)).field? "decision" = some found.decision.toJson := by
  rw [shownOf, Json.field?_ofMembers]
  rfl

theorem notifyIn?_shownOf : notifyIn? (shownOf (some found)) = some (.bool found.decision.notify) := by
  rw [notifyIn?, decision_shownOf, Option.bind_some, Decision.toJson, Json.field?_ofMembers]
  rfl

theorem highlightIn?_shownOf :
    highlightIn? (shownOf (some found)) = found.decision.tweaks.get? "highlight" := by
  have htweaks : found.decision.toJson.field? "tweaks" = some (.obj found.decision.tweaks.entries) := by
    rw [Decision.toJson, Json.field?_ofMembers, Json.ofMap]
    exact congrArg (some ∘ Json.obj) (List.map_id found.decision.tweaks.entries)
  rw [highlightIn?, decision_shownOf, Option.bind_some, htweaks]
  rfl

end Shown

theorem highlightText_eq_true_iff {b : Bool} : highlightText b = "true\n" ↔ b = true := by
  cases b <;> decide

/-- What `highlight` prints goes with what `match` prints. -/
theorem highlights_shownOf (found? : Option MatchedRule) :
    Highlights (shownOf found?) (highlightText (found?.any MatchedRule.highlights)) := by
  constructor
  · cases found?.any MatchedRule.highlights with
    | true => exact .inl rfl
    | false => exact .inr rfl
  · rw [highlightText_eq_true_iff]
    cases found? with
    | none =>
      have hnotify : notifyIn? (shownOf none) ≠ some (.bool true) := by
        rw [show notifyIn? (shownOf none) = none from rfl]
        simp
      exact iff_of_false (by simp) fun h => hnotify h.1
    | some found =>
      rw [notifyIn?_shownOf, highlightIn?_shownOf, Option.any_some, MatchedRule.highlights,
        Bool.and_eq_true_iff, Decision.highlight, Option.any_eq_true]
      simp

/-! ## What is printed about an event -/

theorem suppressedText_inj {reason reason' : Suppression} :
    suppressedText reason = suppressedText reason' ↔ reason = reason' := by
  cases reason <;> cases reason' <;> decide

/-- An alert is printed as an object, and no reason begins with a brace. -/
theorem pretty_ne_suppressedText (request : Request) (reason : Suppression) :
    request.toJson.pretty ++ "\n" ≠ suppressedText reason := by
  have hbrace : (request.toJson.pretty ++ "\n").toList.head? = some '\x7b' := by
    rw [String.toList_append, Json.pretty, String.toList_ofList]
    rfl
  have hword : (suppressedText reason).toList.head? = some 's' := by
    cases reason <;> decide
  intro h
  rw [h, hword] at hbrace
  exact absurd hbrace (by decide)

theorem id_request (request : Request) :
    request.toJson.field? "rule_id" = some (.str request.rule) := by
  unfold Request.toJson Json.field?
  cases request.icon <;> cases request.audio <;> rfl

theorem rule_of_request? {config : Config} {rooms : RoomView} {found : MatchedRule}
    {decision : Decision} {e : Event} {request : Request}
    (h : Dispatcher.request? config rooms found decision e = some request) :
    request.rule = found.rule.id := by
  obtain ⟨body, -, rfl⟩ := Option.map_eq_some_iff.mp h
  rfl

section Verdicts

variable (config : Config) (rooms : RoomView) (e : Event)

theorem verdict_of_refused {found : MatchedRule} (h : found.decision.notify = false) :
    Dispatcher.verdict config rooms (some found) e = .suppressed .notifyDisabled := by
  rw [Dispatcher.verdict]
  simp only [h, Bool.false_eq_true, if_false]

theorem verdict_of_wordless {found : MatchedRule} (h : found.decision.notify = true)
    (hrequest : Dispatcher.request? config rooms found found.decision e = none) :
    Dispatcher.verdict config rooms (some found) e = .suppressed .noMessage := by
  rw [Dispatcher.verdict]
  simp only [h, if_true, hrequest]

theorem verdict_of_request {found : MatchedRule} {request : Request}
    (h : found.decision.notify = true)
    (hrequest : Dispatcher.request? config rooms found found.decision e = some request) :
    Dispatcher.verdict config rooms (some found) e = .alert found found.decision request := by
  rw [Dispatcher.verdict]
  simp only [h, if_true, hrequest]

/-- What `process` prints goes with what `match` prints. -/
theorem processes_shownOf (found? : Option MatchedRule) :
    Processes (shownOf found?) (verdictText (Dispatcher.verdict config rooms found? e)) := by
  cases found? with
  | none =>
    have hid : (shownOf none).field? "rule_id" = some .null := rfl
    have hnotify : notifyIn? (shownOf none) ≠ some (.bool false) := by
      rw [show notifyIn? (shownOf none) = none from rfl]
      simp
    refine ⟨iff_of_true rfl hid, ?_, fun hne => absurd hid hne⟩
    exact suppressedText_inj.trans (iff_of_false (by decide) hnotify)
  | some found =>
    have hid : (shownOf (some found)).field? "rule_id" ≠ some .null := by
      rw [id_shownOf]
      simp
    cases hnotify : found.decision.notify with
    | false =>
      have hshown : notifyIn? (shownOf (some found)) = some (.bool false) := by
        rw [notifyIn?_shownOf, hnotify]
      rw [verdict_of_refused config rooms e hnotify]
      refine ⟨?_, iff_of_true rfl hshown, fun _ hne => absurd hshown hne⟩
      exact suppressedText_inj.trans (iff_of_false (by decide) hid)
    | true =>
      have hshown : notifyIn? (shownOf (some found)) ≠ some (.bool false) := by
        rw [notifyIn?_shownOf, hnotify]
        simp
      cases hrequest : Dispatcher.request? config rooms found found.decision e with
      | none =>
        rw [verdict_of_wordless config rooms e hnotify hrequest]
        refine ⟨?_, ?_, fun _ _ => .inl rfl⟩
        · exact suppressedText_inj.trans (iff_of_false (by decide) hid)
        · exact suppressedText_inj.trans (iff_of_false (by decide) hshown)
      | some request =>
        have hrule : request.toJson.field? "rule_id" = (shownOf (some found)).field? "rule_id" := by
          rw [id_request, id_shownOf, rule_of_request? hrequest]
        rw [verdict_of_request config rooms e hnotify hrequest]
        refine ⟨?_, ?_, fun _ _ => .inr ⟨request, rfl, hrule⟩⟩
        · exact iff_of_false (pretty_ne_suppressedText request .noMatchingRule) hid
        · exact iff_of_false (pretty_ne_suppressedText request .notifyDisabled) hshown

end Verdicts

/-! ## The commands -/

section Commands

variable {environment : Environment} {common : Common} {path : String} {dryRun : Bool} {t : FileTree}

/-- Once everything has been read, the commands agree. -/
theorem agree_of_loaded {l : Loaded} (h : l.config.muted = false) (e : Event) (records : RecordFile)
    (now : Timestamp) (dryRun : Bool) :
    Agree (runMatching l e) (runHighlight l e) (runProcess l records now e false dryRun) := by
  have hdecide := decide_dispatcher l e records dryRun h
  rw [runMatching_eq, runHighlight_eq]
  cases hfound : l.found e with
  | error failure =>
    rw [hfound] at hdecide
    exact .failing failure.message rfl rfl (runProcess_of_failed l e hdecide)
  | ok found? =>
    rw [hfound] at hdecide
    obtain ⟨hcode, houtput⟩ := runProcess_of_decided l e now hdecide
    refine .printing (shownOf found?) rfl rfl hcode (prints_matchText found?)
      (highlights_shownOf found?) ?_
    rw [houtput]
    exact processes_shownOf l.config l.rooms.view e found?

theorem runOn_fst {args : List String} {command : Command} (h : Command.read args = .ok command) :
    (runOn environment args t).1 = ((runCommand inMemory environment command).run t).1 := by
  rw [runOn, run_eq_runCommand h]
  rfl

theorem matching_fst {l : Loaded} {e : Event} (hevent : eventOf path (t.read path) = .ok e)
    (hloaded : loadedFrom environment common t = .ok l) :
    ((runCommand inMemory environment (.matching common path)).run t).1 = runMatching l e := by
  rw [runCommand, withEvent_run, hevent, hloaded]
  rfl

theorem highlight_fst {l : Loaded} {e : Event} (hevent : eventOf path (t.read path) = .ok e)
    (hloaded : loadedFrom environment common t = .ok l) :
    ((runCommand inMemory environment (.highlight common path)).run t).1 = runHighlight l e := by
  rw [runCommand, withEvent_run, hevent, hloaded]
  rfl

/-- The file of records is opened only for an alert that is to be recorded. -/
theorem process_fst (active dryRun : Bool) {l : Loaded} {e : Event}
    (hevent : eventOf path (t.read path) = .ok e)
    (hloaded : loadedFrom environment common t = .ok l) :
    ∃ records,
      ((runCommand inMemory environment (.process common path active dryRun)).run t).1 =
        runProcess l records environment.now e active dryRun := by
  rw [runCommand, withEvent_run, hevent, hloaded]
  dsimp only
  cases presented? l e active dryRun with
  | none => exact ⟨.none, rfl⟩
  | some request => exact ⟨_, rfl⟩

/-- **`views_agree`** — for settings that are not muted, whatever is in the files: `match`, `highlight` and
`process` without `--active`, with the same files and flags, all fail for the same reason, or what they
print goes together. -/
theorem views_agree {matching highlight process : List String}
    (hmatching : Command.read matching = .ok (.matching common path))
    (hhighlight : Command.read highlight = .ok (.highlight common path))
    (hprocess : Command.read process = .ok (.process common path false dryRun))
    (hunmuted : ∀ config, configFrom environment common t = .ok config → config.muted = false) :
    Agree (runOn environment matching t).1 (runOn environment highlight t).1
      (runOn environment process t).1 := by
  rw [runOn_fst hmatching, runOn_fst hhighlight, runOn_fst hprocess]
  cases hevent : eventOf path (t.read path) with
  | error fault =>
    rw [runCommand, runCommand, runCommand, withEvent_run, withEvent_run, withEvent_run, hevent]
    exact .failing fault.message rfl rfl rfl
  | ok e =>
    cases hloaded : loadedFrom environment common t with
    | error fault =>
      rw [runCommand, runCommand, runCommand, withEvent_run, withEvent_run, withEvent_run, hevent,
        hloaded]
      exact .failing fault.message rfl rfl rfl
    | ok l =>
      obtain ⟨records, hrecords⟩ := process_fst false dryRun hevent hloaded
      rw [hrecords, matching_fst hevent hloaded, highlight_fst hevent hloaded]
      have hl := hunmuted l.config (loaded_parts hloaded).1
      exact agree_of_loaded hl e records environment.now dryRun

end Commands

/-! ### A rule about a word -/

theorem eventOf_pretty {j : Json} (h : j.Canonical) (hdepth : j.depth ≤ Json.depthLimit)
    (path : String) : eventOf path (.present j.pretty.toUTF8) = .ok ⟨j.reread⟩ := by
  unfold eventOf File.load File.Content.text?
  dsimp only
  rw [Text.fromUTF8?_toUTF8]
  dsimp only
  rw [Json.read?_pretty h, if_pos hdepth]
  rfl

/-- A message with the word. -/
def pingEvent : Json :=
  .obj [("content", .obj [("body", .str "a ping")]), ("room_id", .str "!a:x"),
    ("type", .str "m.room.message"), ("user_id", .str "@b:x")]

/-- A rule about the word, which notifies and highlights. -/
def pingRule : Rule :=
  .forPattern "ping" "ping" [.notify, .setTweak "highlight" none]

/-- A value from which the rule is read. -/
def pingRules : Json :=
  .obj [("global", .obj [("content", .arr [.obj [("actions", .arr [.str "notify",
    .obj [("set_tweak", .str "highlight")]]), ("pattern", .str "ping"), ("rule_id", .str "ping")]])])]

/-- A tree with both. -/
def pinged : FileTree :=
  ⟨[("event.json", .file pingEvent.pretty.toUTF8), ("rules.json", .file pingRules.pretty.toUTF8)], []⟩

/-- What a command loads from it. -/
def pingedLoaded : Loaded :=
  ⟨Config.default, .empty, ⟨"rules.json", RulesFile.holding pingRules⟩⟩

theorem fetch_pinged : pingedLoaded.service.fetch =
    .ok ⟨{ KindSet.empty with content := [pingRule] }, .empty⟩ := by
  have hroot : RulesFile.root (RulesFile.holding pingRules) = .ok pingRules :=
    RulesFile.root_holding (j := pingRules) (by decide) (by decide)
  exact RulesFile.fetch_eq_ok_iff.mpr ⟨_, hroot, rfl⟩

theorem found_pinged :
    pingedLoaded.found ⟨pingEvent⟩ = .ok (some ⟨.content, none, pingRule⟩) := by
  have hholds : pingRule.holds ⟨Directory.empty.view, none, .strict⟩ .content ⟨pingEvent⟩ = true := by
    decide +kernel
  have hmatch : Ruleset.match? ⟨{ KindSet.empty with content := [pingRule] }, .empty⟩
      ⟨Directory.empty.view, none, .strict⟩ ⟨pingEvent⟩ = some ⟨.content, none, pingRule⟩ := by
    rw [Ruleset.match?_eq, KindSet.match?_eq]
    simp [Kind.precedence, KindSet.rules, KindSet.empty, KeyMap.empty, List.findSome?, List.find?,
      hholds]
  rw [Loaded.found, fetch_pinged]
  exact congrArg Except.ok hmatch

/-- What is given to a command about the event. -/
def askedAbout (command : String) : List String :=
  [command, "-r", "rules.json", "-e", "event.json"]

/-- The views agree on the message: it is highlighted, and there is an alert for the rule that `match`
prints. -/
theorem views_agree_pinged :
    Agree (runOn ⟨"", none, ⟨0, 0, 0⟩⟩ (askedAbout "match") pinged).1
        (runOn ⟨"", none, ⟨0, 0, 0⟩⟩ (askedAbout "highlight") pinged).1
        (runOn ⟨"", none, ⟨0, 0, 0⟩⟩ (askedAbout "process") pinged).1 ∧
      (runOn ⟨"", none, ⟨0, 0, 0⟩⟩ (askedAbout "match") pinged).1 =
        .printing (matchText (some ⟨.content, none, pingRule⟩)) ∧
      (runOn ⟨"", none, ⟨0, 0, 0⟩⟩ (askedAbout "highlight") pinged).1 = .printing "true\n" ∧
      ∃ request : Request, request.rule = "ping" ∧ request.body = "a ping" ∧
        (runOn ⟨"", none, ⟨0, 0, 0⟩⟩ (askedAbout "process") pinged).1.output =
          request.toJson.pretty ++ "\n" := by
  have hevent : eventOf "event.json" (pinged.read "event.json") = .ok ⟨pingEvent⟩ :=
    eventOf_pretty (j := pingEvent) (by decide) (by decide) "event.json"
  have hloaded : loadedFrom ⟨"", none, ⟨0, 0, 0⟩⟩ ⟨"rules.json", none, none, none, false⟩ pinged =
      .ok pingedLoaded := rfl
  have hmatching : Command.read (askedAbout "match") =
      .ok (.matching ⟨"rules.json", none, none, none, false⟩ "event.json") := rfl
  have hhighlight : Command.read (askedAbout "highlight") =
      .ok (.highlight ⟨"rules.json", none, none, none, false⟩ "event.json") := rfl
  have hprocess : Command.read (askedAbout "process") =
      .ok (.process ⟨"rules.json", none, none, none, false⟩ "event.json" false false) := rfl
  have hunmuted : ∀ config, configFrom ⟨"", none, ⟨0, 0, 0⟩⟩ ⟨"rules.json", none, none, none, false⟩
      pinged = .ok config → config.muted = false := by
    intro config hconfig
    obtain rfl : Config.default = config := Except.ok.inj hconfig
    rfl
  refine ⟨views_agree hmatching hhighlight hprocess hunmuted, ?_, ?_, ?_⟩
  · rw [runOn_fst hmatching, matching_fst hevent hloaded, runMatching_eq, found_pinged]
    rfl
  · rw [runOn_fst hhighlight, highlight_fst hevent hloaded, runHighlight_eq, found_pinged]
    rfl
  · obtain ⟨records, hrecords⟩ := process_fst false false hevent hloaded
    have hdecide := decide_dispatcher pingedLoaded ⟨pingEvent⟩ records false rfl
    rw [found_pinged] at hdecide
    rw [runOn_fst hprocess, hrecords, (runProcess_of_decided pingedLoaded _ _ hdecide).2]
    exact ⟨_, rfl, rfl, rfl⟩

end AlertRules.CommandLine
