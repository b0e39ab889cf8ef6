import AlertRules.Config
import AlertRules.Message
import AlertRules.RecordStore
import AlertRules.Service

/-!
# AlertRules.Dispatcher — from events to alerts

For every event the dispatcher decides whether to alert, and hands the alert to its sinks.

The decision passes through gates in a fixed order: nothing is looked up for a muted user or one who
is active; without a matching rule, without its consent, or without words for the event there is no
alert.  In a dry run the sinks are passed over.

There are three kinds of sinks: one collects the requests, one records them in a file, and the others
give the same reply to every request.
-/

namespace AlertRules

/-! ## Sinks -/

/-- What became of a request at a sink. -/
inductive Sending where
  | sent
  | skipped (reason : String)
  | failed (reason : String)
  deriving DecidableEq

/-- The outcome in words. -/
def Sending.text : Sending → String
  | .sent => "Sent"
  | .skipped reason => "Skipped(" ++ Text.quoted reason ++ ")"
  | .failed reason => "Failed(" ++ Text.quoted reason ++ ")"

/-- Where alerts are presented. -/
inductive Sink where
  | memory
  | recorder
  | replying (name : String) (reply : Except Failure Sending)

/-- The name of the sink. -/
def Sink.name : Sink → String
  | .memory => "memory"
  | .recorder => "local_file"
  | .replying name _ => name

/-- The requests that were collected, and the file of records. -/
structure Shown where
  collected : List Request
  records : RecordFile

/-- The request presented on the sink at that moment. -/
def Shown.present (s : Shown) (moment : Timestamp) (sink : Sink) (request : Request) :
    Sending × Shown :=
  match sink with
  | .memory => (.sent, { s with collected := s.collected ++ [request] })
  | .recorder =>
    match s.records.append (.ofRequest moment request) with
    | (.ok (), records) => (.sent, { s with records })
    | (.error reason, records) => (.failed reason, { s with records })
  | .replying _ (.ok sending) => (sending, s)
  | .replying _ (.error failure) => (.failed failure.message, s)

/-- The request presented on one sink after the other, with the outcome under the name of each. -/
def Shown.presentAll (s : Shown) (moment : Timestamp) (sinks : List Sink) (request : Request) :
    List (String × Sending) × Shown :=
  match sinks with
  | [] => ([], s)
  | sink :: sinks =>
    let (sending, s) := s.present moment sink request
    let (rest, s) := s.presentAll moment sinks request
    ((sink.name, sending) :: rest, s)

/-! ## Decisions -/

/-- Why there is no alert. -/
inductive Suppression where
  | muted
  | userActive
  | noMatchingRule
  | notifyDisabled
  | noMessage
  deriving DecidableEq

/-- The reason in a word. -/
def Suppression.text : Suppression → String
  | .muted => "muted"
  | .userActive => "user_active"
  | .noMatchingRule => "no_matching_rule"
  | .notifyDisabled => "notify_disabled"
  | .noMessage => "no_message"

/-- An alert with the rule that asks for it, or no alert. -/
inductive Verdict where
  | alert (found : MatchedRule) (decision : Decision) (request : Request)
  | suppressed (reason : Suppression)

/-! ## Building -/

/-- A rules file: its path and what it holds. -/
structure RulesSource where
  path : String
  file : File.Content

/-- Why there can be no dispatcher. -/
inductive BuildFault where
  | noSource
  deriving DecidableEq

/-- The fault in words. -/
def BuildFault.message : BuildFault → String
  | .noSource => "No push rule source configured"

/-- A source that is given counts more than a file that is named, and one of them must be there. -/
def RulesSource.choose (given named : Option RulesSource) : Except BuildFault RulesSource :=
  match given, named with
  | some source, _ => .ok source
  | none, some source => .ok source
  | none, none => .error .noSource

/-- A service for the user of the settings. -/
def Config.service (c : Config) (source : RulesSource) (rooms : RoomView) : Service :=
  .start source.path source.file ⟨rooms, c.user, c.globs⟩

/-- The rules, the settings, whether the user is idle or away, the sinks in the order in which they were
registered, whether this is a dry run, and what has been shown. -/
structure Dispatcher where
  service : Service
  config : Config
  idle : Bool
  sinks : List Sink
  dryRun : Bool
  shown : Shown

namespace Dispatcher

/-- A dispatcher that has shown nothing.  If the settings name a file of records, the recorder comes
before all other sinks. -/
def start (config : Config) (service : Service) (idle : Bool) (sinks : List Sink) (dryRun : Bool)
    (records : RecordFile) : Dispatcher where
  service := service
  config := config
  idle := idle
  sinks := (if config.recordPath.isSome then [.recorder] else []) ++ sinks
  dryRun := dryRun
  shown := ⟨[], records⟩

/-- The dispatcher with one more sink. -/
def register (d : Dispatcher) (sink : Sink) : Dispatcher :=
  { d with sinks := d.sinks ++ [sink] }

/-- What is known of rooms. -/
def rooms (d : Dispatcher) : RoomView :=
  d.service.setting.rooms

/-! ## Deciding -/

/-- The sound of an alert: that of the tweak if it is a text, or the default one, if the user wants
sounds at all and the rule has that tweak. -/
def audio? (config : Config) (decision : Decision) : Option String :=
  if config.audio then
    decision.sound?.map fun
      | .str s => if s = "" then "default" else s
      | _ => "default"
  else none

/-- The alert about an event, if there are words for it. -/
def request? (config : Config) (rooms : RoomView) (found : MatchedRule) (decision : Decision)
    (e : Event) : Option Request :=
  (Message.text? rooms config.user e).map fun body =>
    let room := e.roomId?.getD ""
    { title := Message.title rooms e
      body
      icon := e.userId?.bind (rooms.avatar room)
      clickTarget := "room/" ++ room
      tag := config.tag
      audio := audio? config decision
      dismissAfter := config.dismissAfter
      room
      rule := found.rule.id }

/-- The verdict on an event when it is known which rule it matches. -/
def verdict (config : Config) (rooms : RoomView) (found? : Option MatchedRule) (e : Event) :
    Verdict :=
  match found? with
  | none => .suppressed .noMatchingRule
  | some found =>
    if found.decision.notify then
      match request? config rooms found found.decision e with
      | some request => .alert found found.decision request
      | none => .suppressed .noMessage
    else .suppressed .notifyDisabled

/-- The verdict on an event. -/
def decide (d : Dispatcher) (e : Event) : Except Failure Verdict × Dispatcher :=
  if d.config.muted then (.ok (.suppressed .muted), d)
  else if !d.idle then (.ok (.suppressed .userActive), d)
  else
    match d.service.match? e with
    | (.error failure, service) => (.error failure, { d with service })
    | (.ok found?, service) => (.ok (verdict d.config d.rooms found? e), { d with service })

/-! ## Presenting -/

/-- The request handed to every sink, unless this is a dry run. -/
def present (d : Dispatcher) (moment : Timestamp) (request : Request) :
    List (String × Sending) × Dispatcher :=
  if d.dryRun then (d.sinks.map fun sink => (sink.name, .skipped "dry-run"), d)
  else
    let (results, shown) := d.shown.presentAll moment d.sinks request
    (results, { d with shown })

/-- The verdict on an event, and what became of the alert. -/
def process (d : Dispatcher) (moment : Timestamp) (e : Event) :
    Except Failure (Verdict × List (String × Sending)) × Dispatcher :=
  match d.decide e with
  | (.error failure, d) => (.error failure, d)
  | (.ok (.suppressed reason), d) => (.ok (.suppressed reason, []), d)
  | (.ok (.alert found decision request), d) =>
    let (results, d) := d.present moment request
    (.ok (.alert found decision request, results), d)

end Dispatcher

end AlertRules
