import AlertRules.FetchCache
import AlertRules.Matching
import AlertRules.RuleId
import AlertRules.RulesFile

/-!
# AlertRules.Service — rules at work

The service keeps the rules of a file in a cache, matches events against them, and changes the file.
After every change, whether it succeeded or not, the rules are fetched anew when they are needed next.
Every operation gives its result and the service afterwards.
-/

namespace AlertRules

/-- The path of the rules file and what the file holds, the setting of matches, the fetched rules, and
the compiled globs. -/
structure Service where
  path : String
  file : File.Content
  setting : Setting
  cache : FetchCache
  globs : Glob.Cache

namespace Service

/-- A service that has not fetched anything. -/
def start (path : String) (file : File.Content) (setting : Setting) : Service :=
  ⟨path, file, setting, .empty, .empty⟩

/-! ## Rules and matches -/

/-- The rules in the file, past the cache. -/
def fetch (s : Service) : Except Failure Ruleset :=
  RulesFile.fetch s.path s.file

/-- The rules, fetched if those in the cache are not current. -/
def getRules (s : Service) : FetchCache.Answer × Service :=
  let (answer, cache) := s.cache.get s.fetch
  (answer, { s with cache })

/-- The rules in the cache are not current any more. -/
def clear (s : Service) : Service :=
  { s with cache := s.cache.invalidate }

/-- The rule among the given ones that the event matches. -/
def matchWith (s : Service) (e : Event) (rules : Ruleset) : Option MatchedRule × Service :=
  let (found, globs) := (rules.matchCached? s.setting e).run s.globs
  (found, { s with globs })

/-- The rule that the event matches. -/
def match? (s : Service) (e : Event) : Except Failure (Option MatchedRule) × Service :=
  match s.getRules with
  | (.error failure, s) => (.error failure, s)
  | (.ok fetched, s) =>
    let (found, s) := s.matchWith e fetched.rules
    (.ok found, s)

/-- The rule that the event matches among those in the cache, current or not. -/
def matchNow? (s : Service) (e : Event) : Option MatchedRule × Service :=
  s.matchWith e s.cache.rulesNow

/-- The event is to be highlighted by the rules in the cache. -/
def highlights (s : Service) (e : Event) : Bool × Service :=
  let (found, s) := s.matchNow? e
  (found.any MatchedRule.highlights, s)

/-! ## Changes -/

/-- The outcome of a change to the file, whatever becomes of it. -/
def changed (s : Service) (change : File.Content → Except Failure Unit × File.Content) :
    Except Failure Unit × Service :=
  let (result, file) := change s.file
  (result, { s with file, cache := s.cache.invalidate })

/-- A rule for all devices put into the file. -/
def add (s : Service) (kind : Kind) (id : String) (body : Json) : Except Failure Unit × Service :=
  s.changed (RulesFile.add "global" kind id body)

/-- A rule for all devices taken out of the file. -/
def delete (s : Service) (kind : Kind) (id : String) : Except Failure Unit × Service :=
  s.changed (RulesFile.delete "global" kind id)

/-- Actions as JSON. -/
def actionsJson (actions : List Action) : Json :=
  .arr (actions.map Action.toJson)

/-- A template put into the file, about the room or the sender of that id. -/
def addTemplate (s : Service) (kind : Kind) (id : String) (actions : List Action) :
    Except Failure Unit × Service :=
  s.add kind id (.ofMembers [("actions", actionsJson actions)])

/-- An id for a rule about the pattern that no content rule in the cache has. -/
def freshId (s : Service) (pattern : String) : String :=
  RuleId.fresh pattern (s.cache.rulesNow.global.content.map Rule.id)

/-- A rule about the pattern put into the file under the id that is fresh then. -/
def addFor (s : Service) (pattern : String) (actions : List Action) :
    Except Failure String × Service :=
  let id := s.freshId pattern
  let body := .ofMembers [("pattern", .str pattern), ("actions", actionsJson actions)]
  match s.add .content id body with
  | (.ok (), s) => (.ok id, s)
  | (.error failure, s) => (.error failure, s)

/-- A rule about the pattern put into the file, and its id.  Rules are fetched before if there have not
been any. -/
def addContent (s : Service) (pattern : String) (actions : List Action) :
    Except Failure String × Service :=
  if s.cache.hasRules then s.addFor pattern actions
  else
    match s.getRules with
    | (.error failure, s) => (.error failure, s)
    | (.ok _, s) => s.addFor pattern actions

end Service

end AlertRules
