import AlertRules.CommandLine.Program
import AlertRules.FileTree

/-!
# AlertRules.CommandLine.InMemory — the program on files in memory

The program run on a tree of files instead of those of the system.  A run gives its outcome and the
tree afterwards, so that runs can follow each other.
-/

namespace AlertRules.CommandLine

/-- Reading and opening the files of a tree. -/
def inMemory : Files (StateM FileTree) where
  read path := modifyGet fun t => (t.read path, t)
  opened path := modifyGet fun t => t.opened path

/-- The tree after an effect. -/
def Effect.on (effect : Effect) (t : FileTree) : FileTree :=
  match effect with
  | .write path bytes => t.write path bytes
  | .remove path => t.remove path

/-- The program run on the tree, and the tree afterwards. -/
def runOn (environment : Environment) (args : List String) (t : FileTree) : Outcome × FileTree :=
  let (outcome, t) := (run inMemory environment args).run t
  (outcome, outcome.effects.foldl (fun t effect => effect.on t) t)

end AlertRules.CommandLine
