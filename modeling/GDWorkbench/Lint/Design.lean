import GDWorkbench.Lint.Config
import GDWorkbench.Outline

/-!
Checks of size: public methods of a class, returns and arguments of a function.
-/

namespace GDWorkbench.Lint

def isPublic (name : Text) : Bool :=
  !Text.startsWith name ['_']

namespace Design

def publicMethods (limit : Except Fault Limit) (c : Outline.Class) :
    Except Fault (Option Problem) := do
  let limit ← limit
  let methods := c.functions.filter fun f => isPublic f.name
  if !limit.isExceeded methods.length then return none
  return some (← Problem.ofTree .maxPublicMethods
    ("\"Class ".toList ++ c.name ++ "\" has more than ".toList ++ limit.text
      ++ " public methods (functions)".toList) c.tree)

def returns (limit : Except Fault Limit) (f : Outline.Function) : Except Fault (Option Problem) := do
  let limit ← limit
  let found := f.statements.filter (·.isKind .returnStmt)
  if !limit.isExceeded found.length then return none
  match found.getLast? with
  | none => .error .missingPart
  | some last =>
    return some (← Problem.ofTree .maxReturns
      ("Function \"".toList ++ f.name ++ "\" has more than ".toList ++ limit.text
        ++ " return statements".toList) last.tree)

def arguments (limit : Except Fault Limit) (f : Outline.Function) :
    Except Fault (Option Problem) := do
  let limit ← limit
  if !limit.isExceeded f.parameters.length then return none
  return some (← Problem.ofTree .functionArgumentsNumber
    ("Function \"".toList ++ f.name ++ "\" has more than ".toList ++ limit.text
      ++ " arguments".toList) f.statement.tree)

def check (config : Config) (file : Outline.Class) : Problems := do
  let methods ← config.run .maxPublicMethods
    ((Outline.classes file).filterMapM (publicMethods config.maxPublicMethods))
  let returns ← config.run .maxReturns
    (file.allFunctions.filterMapM (returns config.maxReturns))
  let arguments ← config.run .functionArgumentsNumber
    (file.allFunctions.filterMapM (arguments config.maxArguments))
  return methods ++ returns ++ arguments

end Design

end GDWorkbench.Lint
