import AlertRules.Action
import AlertRules.CodePoint.Blank
import AlertRules.CodePoint.Bounds
import AlertRules.CodePoint.CaseFold
import AlertRules.CodePoint.Printable
import AlertRules.CodePoint.Word
import AlertRules.CommandLine.Arguments
import AlertRules.CommandLine.Command
import AlertRules.CommandLine.InMemory
import AlertRules.CommandLine.Program
import AlertRules.Condition
import AlertRules.Config
import AlertRules.Decision
import AlertRules.Dispatcher
import AlertRules.Event
import AlertRules.Failure
import AlertRules.FetchCache
import AlertRules.File
import AlertRules.FileTree
import AlertRules.Glob.Atom
import AlertRules.Glob.Basic
import AlertRules.Glob.Cache
import AlertRules.Glob.CharClass
import AlertRules.Glob.Matcher
import AlertRules.Json.Decode
import AlertRules.Json.Document
import AlertRules.Json.Number
import AlertRules.Json.Printer
import AlertRules.Json.Shortest
import AlertRules.Json.Token
import AlertRules.Json.Value
import AlertRules.KeyMap
import AlertRules.Main
import AlertRules.Matching
import AlertRules.MemberCount
import AlertRules.Message
import AlertRules.Path
import AlertRules.Proofs.CodePoint.CaseFold
import AlertRules.Proofs.CodePoint.Word
import AlertRules.Proofs.CommandLine.Adding
import AlertRules.Proofs.CommandLine.Loading
import AlertRules.Proofs.CommandLine.Views
import AlertRules.Proofs.Decision.Folding
import AlertRules.Proofs.Decision.Rereading
import AlertRules.Proofs.Dispatcher.Deciding
import AlertRules.Proofs.Dispatcher.Presenting
import AlertRules.Proofs.Dispatcher.Runs
import AlertRules.Proofs.Event
import AlertRules.Proofs.Event.Paths
import AlertRules.Proofs.FetchCache.Alone
import AlertRules.Proofs.FetchCache.Crashes
import AlertRules.Proofs.FetchCache.Currency
import AlertRules.Proofs.FetchCache.Freshness
import AlertRules.Proofs.FetchCache.LastGood
import AlertRules.Proofs.FetchCache.Leaving
import AlertRules.Proofs.FetchCache.Runs
import AlertRules.Proofs.FetchCache.Sharing
import AlertRules.Proofs.FileTree.Opening
import AlertRules.Proofs.Float.Bits
import AlertRules.Proofs.Float.Near
import AlertRules.Proofs.Float.Range
import AlertRules.Proofs.Float.Rounding
import AlertRules.Proofs.Glob.Cache
import AlertRules.Proofs.Glob.Classes
import AlertRules.Proofs.Glob.Expression
import AlertRules.Proofs.Glob.Flaws
import AlertRules.Proofs.Glob.Folding
import AlertRules.Proofs.Glob.Language
import AlertRules.Proofs.Glob.Literal
import AlertRules.Proofs.Glob.Matching
import AlertRules.Proofs.Glob.Modes
import AlertRules.Proofs.Glob.Reading
import AlertRules.Proofs.Glob.Wildcards
import AlertRules.Proofs.Json.DoubleText
import AlertRules.Proofs.Json.Glued
import AlertRules.Proofs.Json.Numerals
import AlertRules.Proofs.Json.OneLine
import AlertRules.Proofs.Json.Parts
import AlertRules.Proofs.Json.Records
import AlertRules.Proofs.Json.Reread
import AlertRules.Proofs.Json.RoundTrip
import AlertRules.Proofs.Json.Scaling
import AlertRules.Proofs.Json.Scanning
import AlertRules.Proofs.Json.Shortest
import AlertRules.Proofs.Json.Values
import AlertRules.Proofs.KeyMap
import AlertRules.Proofs.Matching.Cached
import AlertRules.Proofs.Matching.First
import AlertRules.Proofs.Matching.Patterns
import AlertRules.Proofs.Matching.Search
import AlertRules.Proofs.Matching.Templates
import AlertRules.Proofs.MemberCount
import AlertRules.Proofs.RecordStore.Reading
import AlertRules.Proofs.RecordStore.Retention
import AlertRules.Proofs.RecordStore.Torn
import AlertRules.Proofs.Rooms
import AlertRules.Proofs.RuleId
import AlertRules.Proofs.RulesFile.Adding
import AlertRules.Proofs.RulesFile.Changes
import AlertRules.Proofs.RulesFile.Deleting
import AlertRules.Proofs.RulesFile.Ids
import AlertRules.Proofs.RulesFile.Overwriting
import AlertRules.Proofs.RulesFile.Paths
import AlertRules.Proofs.RulesFile.Placing
import AlertRules.Proofs.RulesFile.Queueing
import AlertRules.Proofs.RulesFile.Reading
import AlertRules.Proofs.RulesFile.Rereading
import AlertRules.Proofs.RulesFile.Rewriting
import AlertRules.Proofs.RulesFile.Scopes
import AlertRules.Proofs.RulesFile.Undoing
import AlertRules.Proofs.RulesFile.Untouched
import AlertRules.Proofs.Ruleset.Lenient
import AlertRules.Proofs.Ruleset.RoundTrip
import AlertRules.Proofs.Service.Adding
import AlertRules.Proofs.Service.Answers
import AlertRules.Proofs.Service.Globs
import AlertRules.Proofs.Service.Runs
import AlertRules.Proofs.Service.Unseen
import AlertRules.Proofs.Text.ByteOrder
import AlertRules.Proofs.Text.Lines
import AlertRules.Proofs.Text.WholeWord
import AlertRules.Proofs.Timestamp.Calendar
import AlertRules.Proofs.Timestamp.RoundTrip
import AlertRules.Record
import AlertRules.RecordStore
import AlertRules.Request
import AlertRules.Rooms
import AlertRules.Rule
import AlertRules.RuleId
import AlertRules.RulesFile
import AlertRules.Ruleset
import AlertRules.Service
import AlertRules.Text.Pieces
import AlertRules.Text.Quoted
import AlertRules.Text.WholeWord
import AlertRules.Timestamp
