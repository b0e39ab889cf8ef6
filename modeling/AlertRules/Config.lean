import AlertRules.File
import AlertRules.Glob.Basic
import AlertRules.Json.Decode

/-!
# AlertRules.Config — the user's settings

The settings are a JSON object, of which every member may be absent.  They are looked for in the file
that the environment names, then in the user's home, and without either they are the default ones.
-/

namespace AlertRules

/-- The settings. -/
structure Config where
  /-- The own user, for invitations and for the display name that is looked for. -/
  user : Option String
  muted : Bool
  audio : Bool
  globs : Glob.Mode
  /-- After how many seconds an alert goes away. -/
  dismissAfter : UInt64
  /-- What replaces what: an alert replaces an older one of its tag. -/
  tag : String
  /-- The file in which alerts are recorded. -/
  recordPath : Option String
  deriving DecidableEq

namespace Config

/-- The settings when none are given. -/
def default : Config where
  user := none
  muted := false
  audio := false
  globs := .strict
  dismissAfter := 5
  tag := "matrix"
  recordPath := none

section Reading

open Json

variable {δ : Type} [Source δ]

/-- The form of the settings. -/
def record : Record δ Config :=
  Config.mk <$> Record.optional "user_id" Read.text
    <*> Record.withDefault "mute_notifications" default.muted Read.flag
    <*> Record.withDefault "audio_notifications" default.audio Read.flag
    <*> Record.withDefault "glob_mode" default.globs (Read.choice Glob.Mode.names)
    <*> Record.withDefault "dismiss_after_secs" default.dismissAfter Read.word
    <*> Record.withDefault "default_tag" default.tag Read.text
    <*> Record.optional "record_path" (Read.textAs "path string")

/-- The settings. -/
def read (d : δ) : Except Refusal Config :=
  record.read "NotifierConfig" d

end Reading

/-- The settings as JSON. -/
def toJson (c : Config) : Json :=
  .ofMembers [("user_id", .strOrNull c.user), ("mute_notifications", .bool c.muted),
    ("audio_notifications", .bool c.audio), ("glob_mode", .str c.globs.text),
    ("dismiss_after_secs", .num (.ofUInt64 c.dismissAfter)), ("default_tag", .str c.tag),
    ("record_path", .strOrNull c.recordPath)]

/-- The settings that a JSON text holds. -/
def ofText? (s : String) : Option Config :=
  (Json.Document.read? s).bind fun d => (read d).toOption

/-- The settings from a file. -/
def load (path : String) (c : File.Content) : Except File.Fault Config :=
  File.load "config" path ofText? c

/-- Where the settings lie in the user's home. -/
def homePath (home : String) : String :=
  home ++ "/.config/push-rules/config.json"

/-- The settings from the file that the environment names, unless it names none; else from the user's
home; else the default ones.  A file that is named has to be there. -/
def locate (environment : Option String) (home : String) (files : String → File.Content) :
    Except File.Fault Config :=
  match environment.filter (· ≠ "") with
  | some path => load path (files path)
  | none =>
    match files (homePath home) with
    | .missing => .ok default
    | c => load (homePath home) c

end Config

end AlertRules
