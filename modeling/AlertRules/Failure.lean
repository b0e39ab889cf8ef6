/-!
# AlertRules.Failure — operations that fail

What can go wrong while rules are obtained or changed and alerts are shown, with the words for it.
-/

namespace AlertRules

/-- Why an operation failed. -/
inductive Failure where
  | fetch (reason : String)
  | mutation (scope kind ruleId reason : String)
  | sink (reason : String)
  | config (reason : String)
  | parse (what reason : String)
  deriving DecidableEq

/-- The failure in words. -/
def Failure.message : Failure → String
  | .fetch reason => "failed to fetch push rules: " ++ reason
  | .mutation scope kind ruleId reason =>
    "failed to mutate push rule " ++ scope ++ "/" ++ kind ++ "/" ++ ruleId ++ ": " ++ reason
  | .sink reason => "presentation sink failed: " ++ reason
  | .config reason => "invalid configuration: " ++ reason
  | .parse what reason => "failed to parse " ++ what ++ ": " ++ reason

end AlertRules
