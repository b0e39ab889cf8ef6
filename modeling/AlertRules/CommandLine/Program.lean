import AlertRules.CommandLine.Command
import AlertRules.Dispatcher
import AlertRules.Path

/-!
# AlertRules.CommandLine.Program — commands carried out

A command first reads the files that it needs: the event, the settings, the rooms and the rules, in
that order, and the first fault ends it.  A file that is to be changed is opened only then.  What the
command prints, and what becomes of the files, follows from their contents alone.  The program is
written over any way to read and open files (`Files`); it does not write any, but says in its outcome
what is to be done to them.
-/

namespace AlertRules.CommandLine

/-- A way to read files, and to open them for a change, which creates what is missing and tells what is
there then. -/
structure Files (m : Type → Type) where
  read : String → m File.Content
  opened : String → m File.Content

/-- The user's home, the settings file that the environment names, and the present moment. -/
structure Environment where
  home : String
  configPath : Option String
  now : Timestamp

/-- What a run does to the files. -/
inductive Effect where
  | write (path : String) (bytes : ByteArray)
  | remove (path : String)

/-- How a run of the program ends: its code, what it prints, its messages, and what it does to the
files. -/
structure Outcome where
  code : Nat
  output : String
  messages : List String
  effects : List Effect

namespace Outcome

/-- Success with some output. -/
def printing (output : String) : Outcome := ⟨0, output, [], []⟩

/-- A failure. -/
def failing (message : String) : Outcome := ⟨1, "", ["Error: " ++ message], []⟩

end Outcome

/-- What turns the one content into the other. -/
def changes (path : String) (before after : File.Content) : List Effect :=
  if before = after then []
  else
    match after with
    | .present bytes => [.write path bytes]
    | _ => [.remove path]

/-- The name and the version of the program. -/
def versionText : String := "pushrules 0.1.0\n"

/-- The outcome when no command is carried out. -/
def Stop.outcome : Stop → Outcome
  | .version => .printing versionText
  | .help => .printing ""
  | .usage => ⟨2, "", [], []⟩

/-! ## Reading -/

/-- What a command works with: the settings, the rooms and the rules. -/
structure Loaded where
  config : Config
  rooms : Directory
  source : RulesSource

/-- The service of the command. -/
def Loaded.service (l : Loaded) : Service :=
  l.config.service l.source l.rooms.view

/-- The event in a file. -/
def eventOf (path : String) (c : File.Content) : Except File.Fault Event :=
  (File.load "event" path Json.read? c).map Event.mk

/-- The rooms that a JSON text holds. -/
def roomsOfText? (s : String) : Option Directory :=
  (Json.Document.read? s).bind fun d => (Directory.read d).toOption

/-- The settings with what the command overrides. -/
def override (common : Common) (config : Config) : Config :=
  { config with
    user := common.user <|> config.user
    globs := if common.legacyGlobs then .legacy else config.globs }

section Loading

variable {m : Type → Type} [Monad m] (files : Files m) (environment : Environment)

/-- The settings for the command. -/
def loadConfig (common : Common) : m (Except File.Fault Config) := do
  match common.config with
  | some path =>
    let c ← files.read path
    pure ((Config.load path c).map (override common))
  | none =>
    let home ← files.read (Config.homePath environment.home)
    let named ← match environment.configPath with
      | some path => files.read path
      | none => pure .missing
    let content (path : String) : File.Content :=
      if path = Config.homePath environment.home then home else named
    pure ((Config.locate environment.configPath environment.home content).map (override common))

/-- The rooms for the command. -/
def loadRooms (common : Common) : m (Except File.Fault Directory) := do
  match common.rooms with
  | some path =>
    let c ← files.read path
    pure (File.load "rooms" path roomsOfText? c)
  | none => pure (.ok .empty)

/-- The event for the command. -/
def loadEvent (path : String) : m (Except File.Fault Event) := do
  let c ← files.read path
  pure (eventOf path c)

/-- The settings, the rooms and the rules for the command. -/
def load (common : Common) : m (Except File.Fault Loaded) := do
  match ← loadConfig files environment common with
  | .error fault => pure (.error fault)
  | .ok config =>
    match ← loadRooms files common with
    | .error fault => pure (.error fault)
    | .ok rooms =>
      let c ← files.read common.rules
      pure (.ok ⟨config, rooms, ⟨common.rules, c⟩⟩)

/-- The file of records that the settings name, opened for a record of the request.  The path beside it
is opened only if the file is to be written anew. -/
def openRecords (config : Config) (now : Timestamp) (request : Request) : m RecordFile := do
  match config.recordPath with
  | none => pure .none
  | some path =>
    let content ← files.opened path
    if RecordStore.overflows (RecordStore.extended content (.ofRequest now request)) then
      let draft ← files.opened (Path.draft path)
      pure ⟨content, draft⟩
    else pure ⟨content, .missing⟩

end Loading

/-! ## Carrying out -/

/-- What `match` prints. -/
def matchText : Option MatchedRule → String
  | none => (Json.obj [("rule_id", .null)]).compact ++ "\n"
  | some found =>
    (Json.ofMembers [("rule_id", .str found.rule.id), ("kind", .str found.kind.text),
      ("device", .strOrNull found.device),
      ("actions", .arr (found.rule.actions.map Action.toJson)),
      ("decision", found.decision.toJson)]).pretty ++ "\n"

/-- **`runMatching l e`** — `match`: the rule that the event matches. -/
def runMatching (l : Loaded) (e : Event) : Outcome :=
  match (l.service.match? e).1 with
  | .error failure => .failing failure.message
  | .ok found? => .printing (matchText found?)

/-- **`runHighlight l e`** — `highlight`: whether the event is to be highlighted. -/
def runHighlight (l : Loaded) (e : Event) : Outcome :=
  match l.service.getRules with
  | (.error failure, _) => .failing failure.message
  | (.ok _, s) => .printing (if (s.highlights e).1 then "true\n" else "false\n")

/-- What a dry run tells about every sink. -/
def dryRunMessages (d : Dispatcher) : List String :=
  if d.dryRun then d.sinks.map fun sink => "[DRY-RUN] Would present on sink: " ++ sink.name else []

/-- The dispatcher of `process`. -/
def Loaded.dispatcher (l : Loaded) (records : RecordFile) (active dryRun : Bool) : Dispatcher :=
  .start l.config l.service (!active) [.memory] dryRun records

/-- The alert that the event raises, unless this is a dry run.  Only with one is the file of records
touched. -/
def presented? (l : Loaded) (e : Event) (active dryRun : Bool) : Option Request :=
  match ((l.dispatcher .none active dryRun).decide e).1 with
  | .ok (.alert _ _ request) => if dryRun then none else some request
  | _ => none

/-- What presenting did to the file of records and to the one beside it. -/
def recordEffects (path : String) (before after : RecordFile) : List Effect :=
  (if Path.draft path = path then [] else changes (Path.draft path) before.draft after.draft)
    ++ changes path before.content after.content

/-- **`runProcess l records now e active dryRun`** — `process`: the event decided and presented. -/
def runProcess (l : Loaded) (records : RecordFile) (now : Timestamp) (e : Event)
    (active dryRun : Bool) : Outcome :=
  let d := l.dispatcher records active dryRun
  match d.process now e with
  | (.error failure, _) => .failing failure.message
  | (.ok (.suppressed reason, _), _) => .printing ("suppressed: " ++ reason.text ++ "\n")
  | (.ok (.alert _ _ request, results), after) =>
    { code := 0
      output := request.toJson.pretty ++ "\n"
      messages := dryRunMessages d
        ++ results.map fun (name, sending) => "  " ++ name ++ ": " ++ sending.text
      effects := recordEffects (l.config.recordPath.getD "") records after.shown.records }

/-- **`runRuleId source pattern`** — `rule-id`: the id that a rule about the pattern would get. -/
def runRuleId (source : RulesSource) (pattern : String) : Outcome :=
  match RulesFile.fetch source.path source.file with
  | .error failure => .failing failure.message
  | .ok rules => .printing (RuleId.fresh pattern (rules.global.content.map Rule.id) ++ "\n")

/-- The actions of a rule that `add-content` makes. -/
def contentActions (sound : Option String) (highlight : Bool) : List Action :=
  [.notify] ++ (sound.map fun s => Action.setTweak "sound" (some (.str s))).toList
    ++ (if highlight then [.setTweak "highlight" none] else [])

/-- The outcome of a change to the rules that gave an id or a failure. -/
def finished (before : Service) (r : Except Failure String × Service) : Outcome :=
  let effects := changes before.path before.file r.2.file
  match r.1 with
  | .error failure => { Outcome.failing failure.message with effects }
  | .ok output => { Outcome.printing (output ++ "\n") with effects }

/-- **`runAddContent s pattern sound highlight`** — `add-content`: a rule about the pattern, put into
the file that has been opened. -/
def runAddContent (s : Service) (pattern : String) (sound : Option String) (highlight : Bool) :
    Outcome :=
  finished s (s.addContent pattern (contentActions sound highlight))

/-- The kind of that name, if its rules can be deleted. -/
def deletable? (name : String) : Option Kind :=
  [Kind.content, .room, .sender].find? (·.text = name)

/-- The refusal of another kind. -/
def notDeletable (name : String) : Outcome :=
  .failing ("Unsupported rule kind '" ++ name ++ "' (expected content, room or sender)")

/-- **`runDelete s kind id`** — `delete`: the rules of that id taken out of the file that has been
opened. -/
def runDelete (s : Service) (kind : Kind) (id : String) : Outcome :=
  let (result, after) := s.delete kind id
  finished s (result.map fun () => "deleted " ++ kind.text ++ "/" ++ id, after)

section Running

variable {m : Type → Type} [Monad m] (files : Files m) (environment : Environment)

/-- The command carried out once everything has been read. -/
def withLoaded (common : Common) (run : Loaded → m Outcome) : m Outcome := do
  match ← load files environment common with
  | .error fault => pure (.failing fault.message)
  | .ok l => run l

/-- The same for a command about an event, which is read first. -/
def withEvent (common : Common) (path : String) (run : Loaded → Event → m Outcome) : m Outcome := do
  match ← loadEvent files path with
  | .error fault => pure (.failing fault.message)
  | .ok e => withLoaded files environment common fun l => run l e

/-- A command carried out. -/
def runCommand : Command → m Outcome
  | .matching common event =>
    withEvent files environment common event fun l e => pure (runMatching l e)
  | .highlight common event =>
    withEvent files environment common event fun l e => pure (runHighlight l e)
  | .process common event active dryRun =>
    withEvent files environment common event fun l e => do
      let records ← match presented? l e active dryRun with
        | some request => openRecords files l.config environment.now request
        | none => pure .none
      pure (runProcess l records environment.now e active dryRun)
  | .ruleId rules pattern => do
    let c ← files.read rules
    pure (runRuleId ⟨rules, c⟩ pattern)
  | .addContent common pattern sound highlight =>
    withLoaded files environment common fun l =>
      match l.service.getRules with
      | (.error failure, _) => pure (.failing failure.message)
      | (.ok _, s) => do
        let file ← files.opened common.rules
        pure (runAddContent { s with file } pattern sound highlight)
  | .delete common name id =>
    withLoaded files environment common fun l =>
      match deletable? name with
      | none => pure (notDeletable name)
      | some kind => do
        let file ← files.opened common.rules
        pure (runDelete { l.service with file } kind id)

/-- The program run with these arguments. -/
def run (args : List String) : m Outcome :=
  match Command.read args with
  | .error stop => pure stop.outcome
  | .ok command => runCommand files environment command

end Running

end AlertRules.CommandLine
