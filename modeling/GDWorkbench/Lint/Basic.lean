import GDWorkbench.Format.Expr
import GDWorkbench.Lint.Config

/-!
Checks of single statements and expressions: needless ones, resources that are loaded twice,
arguments that are not used, values compared with themselves.
-/

namespace GDWorkbench.Lint

/-- Statements that fill a block. Loops with a typed variable and definitions are not among them. -/
def isPlainStatement : Kind → Bool
  | .singleClassStmt | .staticClassVarStmt | .compoundClassStmt | .passStmt | .enumStmt | .signalStmt
  | .extendsStmt | .classnameStmt | .classnameExtendsStmt | .classVarStmt | .constStmt | .docstrStmt
  | .singleFuncStmt | .compoundFuncStmt | .returnStmt | .funcVarStmt | .breakStmt | .breakpointStmt
  | .continueStmt | .exprStmt | .ifStmt | .whileStmt | .forStmt | .matchStmt => true
  | _ => false

namespace Basic

/-- Every `pass` among children of which some statement is none. -/
def needlessPasses (t : Tree) : List Tree :=
  let passes := t.children.filter (·.isKind .passStmt)
  let statements := t.children.filter fun s => s.kind?.any isPlainStatement
  if passes.length < statements.length then passes else []

def unnecessaryPass (t : Tree) : Problems :=
  (t.subtrees.flatMap needlessPasses).mapM
    (Problem.ofTree .unnecessaryPass "\"pass\" statement not necessary".toList)

def isEffective (t : Tree) : Bool :=
  t.isKind .assnmntExpr || t.isKind .awaitExpr || t.isKind .standaloneCall
    || t.isKind .getattrCall || t.isKind .string || t.isKind .lambda

def notAssigned (t : Tree) : Except Fault (Option Problem) := do
  let e := Format.unwrap (← (← t.part 0).part 0)
  if isEffective e then return none
  return some (← Problem.ofTree .expressionNotAssigned
    "expression is not asigned, and hence it can be removed".toList e)

def expressionNotAssigned (t : Tree) : Problems :=
  (t.subtreesOf .exprStmt).filterMapM notAssigned

/-! ## Loading -/

def lineOf (t : Tree) : Nat :=
  (t.span?.bind Span.line).getD 0

def insertByLine (t : Tree) : List Tree → List Tree
  | [] => [t]
  | u :: us => if lineOf t ≤ lineOf u then t :: u :: us else u :: insertByLine t us

def loadedString (call : Tree) : Except Fault (Option Tree) := do
  let callee ← call.word 0
  let isLoad := callee = "load".toList || callee = "preload".toList
  return match call.children with
    | _ :: second :: _ => if isLoad && second.isKind .string then some second else none
    | _ => none

def loadedAgain : List Text → List Tree → Problems
  | _, [] => .ok []
  | seen, string :: rest => do
    let text ← string.word 0
    if seen.contains text then
      let p ← Problem.ofTree .duplicatedLoad ("duplicated loading of ".toList ++ text) string
      return p :: (← loadedAgain seen rest)
    loadedAgain (text :: seen) rest

def duplicatedLoad (t : Tree) : Problems := do
  let calls := (t.subtreesOf .standaloneCall).foldr insertByLine []
  loadedAgain [] (← calls.filterMapM loadedString)

/-! ## Arguments -/

def argumentName (t : Tree) : Except Fault Token := do
  match ← t.kind with
  | .funcArgVariadic => (← t.part 0).nameToken
  | _ => t.nameToken

def distinctNames (names : List Text) : List Text :=
  names.foldl (fun found name => if found.contains name then found else found ++ [name]) []

/-- A name that occurs only where it is declared as an argument. -/
def unusedName (arguments : List Token) (occurrences : List Text) (name : Text) :
    Except Fault (Option Problem) :=
  let declared := arguments.filter (·.content = name)
  let count := occurrences.count name
  if count = 0 then .error .unknownName
  else if declared.length = count && !Text.startsWith name ['_'] then
    .ok (declared.getLast?.map fun token =>
      ⟨.unusedArgument, "unused function argument '".toList ++ name ++ ['\''],
        token.span.line, token.span.column⟩)
  else .ok none

def unusedIn (t : Tree) : Problems := do
  let header ← t.part 0
  let _ ← header.kind
  match header.children with
  | _ :: .node .funcArgs _ children :: _ =>
    let arguments ← (children.filter fun c => !c.isTrailingComma).mapM argumentName
    let occurrences := (t.tokens.filter (·.terminal = .identifier)).map Token.content
    (distinctNames (arguments.map Token.content)).filterMapM (unusedName arguments occurrences)
  | _ => return []

def unusedArgument (t : Tree) : Problems := do
  return (← (t.subtreesOf .funcDef).mapM unusedIn).flatten

/-! ## Comparisons -/

def comparedWithItself (t : Tree) : Except Fault (Option Problem) :=
  match t.children with
  | [left, _, right] =>
    if left.same right then
      (Problem.ofTree .comparisonWithItself "Redundant comparison".toList t).map some
    else .ok none
  | _ => .error .unmet

def comparisonWithItself (t : Tree) : Problems :=
  (t.subtreesOf .comparison).filterMapM comparedWithItself

def check (config : Config) (t : Tree) : Problems := do
  let passes ← config.run .unnecessaryPass (unnecessaryPass t)
  let values ← config.run .expressionNotAssigned (expressionNotAssigned t)
  let loads ← config.run .duplicatedLoad (duplicatedLoad t)
  let arguments ← config.run .unusedArgument (unusedArgument t)
  let comparisons ← config.run .comparisonWithItself (comparisonWithItself t)
  return passes ++ values ++ loads ++ arguments ++ comparisons

end Basic

end GDWorkbench.Lint
