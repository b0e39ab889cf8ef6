import AlertRules.CommandLine.Arguments

/-!
# AlertRules.CommandLine.Command — the commands

Six commands: three look at an event (`match`, `highlight`, `process`), one shows which id a rule
would get (`rule-id`), and two change the rules (`add-content`, `delete`).
-/

namespace AlertRules.CommandLine

/-- What most commands have in common: the rules file, the room and settings files, and what overrides
the settings. -/
structure Common where
  rules : String
  rooms : Option String
  config : Option String
  user : Option String
  legacyGlobs : Bool

/-- A command with its arguments. -/
inductive Command where
  | matching (common : Common) (event : String)
  | highlight (common : Common) (event : String)
  | process (common : Common) (event : String) (active dryRun : Bool)
  | ruleId (rules pattern : String)
  | addContent (common : Common) (pattern : String) (sound : Option String) (highlight : Bool)
  | delete (common : Common) (kind ruleId : String)

namespace Command

/-- The rules file. -/
def rulesSwitch : Switch := ⟨"rules", some 'r', .path⟩

/-- The file with the event. -/
def eventSwitch : Switch := ⟨"event", some 'e', .path⟩

/-- The switches that most commands have. -/
def commonSwitches : List Switch :=
  [rulesSwitch, ⟨"rooms", none, .path⟩, ⟨"config", none, .path⟩, ⟨"user-id", none, .text⟩,
    ⟨"legacy-glob", none, .nothing⟩]

/-- What was given of the common switches. -/
def commonOf (g : Given) : Except Stop Common :=
  (g.required "rules").map fun rules =>
    { rules
      rooms := g.value? "rooms"
      config := g.value? "config"
      user := g.value? "user-id"
      legacyGlobs := g.has "legacy-glob" }

/-- The only positional argument. -/
def onePositional (g : Given) : Except Stop String :=
  match g.positionals with
  | [arg] => .ok arg
  | _ => .error .usage

/-- A command about an event. -/
def aboutEvent (make : Common → String → Command) (g : Given) : Except Stop Command := do
  let common ← commonOf g
  let event ← g.required "event"
  .ok (make common event)

/-- The arguments of `match`. -/
def readMatching (args : List String) : Except Stop Command := do
  aboutEvent .matching (← Given.read ⟨eventSwitch :: commonSwitches, 0⟩ args)

/-- The arguments of `highlight`. -/
def readHighlight (args : List String) : Except Stop Command := do
  aboutEvent .highlight (← Given.read ⟨eventSwitch :: commonSwitches, 0⟩ args)

/-- The arguments of `process`. -/
def readProcess (args : List String) : Except Stop Command := do
  let own : List Switch := [eventSwitch, ⟨"active", none, .nothing⟩, ⟨"dry-run", none, .nothing⟩]
  let g ← Given.read ⟨own ++ commonSwitches, 0⟩ args
  aboutEvent (fun common event => .process common event (g.has "active") (g.has "dry-run")) g

/-- The arguments of `rule-id`. -/
def readRuleId (args : List String) : Except Stop Command := do
  let g ← Given.read ⟨[rulesSwitch], 1⟩ args
  let pattern ← onePositional g
  let rules ← g.required "rules"
  .ok (.ruleId rules pattern)

/-- The arguments of `add-content`. -/
def readAddContent (args : List String) : Except Stop Command := do
  let own : List Switch := [⟨"sound", none, .text⟩, ⟨"highlight", none, .nothing⟩]
  let g ← Given.read ⟨own ++ commonSwitches, 1⟩ args
  let pattern ← onePositional g
  let common ← commonOf g
  .ok (.addContent common pattern (g.value? "sound") (g.has "highlight"))

/-- The arguments of `delete`. -/
def readDelete (args : List String) : Except Stop Command := do
  let g ← Given.read ⟨⟨"kind", some 'k', .text⟩ :: commonSwitches, 1⟩ args
  let ruleId ← onePositional g
  let common ← commonOf g
  let kind ← g.required "kind"
  .ok (.delete common kind ruleId)

/-- The commands by their names. -/
def readers : List (String × (List String → Except Stop Command)) :=
  [("match", readMatching), ("highlight", readHighlight), ("process", readProcess),
    ("rule-id", readRuleId), ("add-content", readAddContent), ("delete", readDelete)]

/-- The arguments of `help`: the name of a command, if any. -/
def readHelp (args : List String) : Stop :=
  match args with
  | [] => .help
  | [name] => if name = "help" ∨ (readers.lookup name).isSome then .help else .usage
  | _ => .usage

/-- An argument in front of any command. -/
def readTop (arg : String) : Stop :=
  if arg = "--version" then .version
  else if arg = "--help" then .help
  else
    match arg.toList with
    | '-' :: 'V' :: _ => .version
    | '-' :: 'h' :: _ => .help
    | _ => .usage

/-- The command that the arguments spell. -/
def read (args : List String) : Except Stop Command :=
  match args with
  | [] => .error .usage
  | name :: args =>
    match readers.lookup name with
    | some reader => reader args
    | none => .error (if name = "help" then readHelp args else readTop name)

end Command

end AlertRules.CommandLine
