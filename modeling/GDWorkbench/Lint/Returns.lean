import GDWorkbench.Lint.Config

/-!
Needless branches: an `elif` or `else` behind branches that all return.
-/

namespace GDWorkbench.Lint

namespace Returns

def hasWildcard : List Tree → Except Fault Bool
  | [] => .ok false
  | branch :: rest => do
    let pattern ← (← branch.part 0).part 0
    if pattern.isKind .wildcardPattern then return true
    hasWildcard rest

def hasElse (branches : List Tree) : Bool :=
  branches.any (·.isKind .elseBranch)

mutual

/-- Whether a branch never comes to its end: a return is among its statements, or a statement all of
whose branches return. -/
def alwaysReturns : Tree → Except Fault Bool
  | .token _ => .error .wrongPart
  | .node _ _ children => do
    if children.any (·.isKind .returnStmt) then return true
    if ← someIfReturns children then return true
    someMatchReturns children

def someIfReturns : List Tree → Except Fault Bool
  | [] => .ok false
  | .token _ :: rest => someIfReturns rest
  | .node kind _ branches :: rest => do
    if kind = .ifStmt && hasElse branches then
      if ← allReturn branches then return true
    someIfReturns rest

def someMatchReturns : List Tree → Except Fault Bool
  | [] => .ok false
  | .node .matchStmt _ (_ :: branches) :: rest => do
    if ← hasWildcard branches then
      if ← allReturn branches then return true
    someMatchReturns rest
  | _ :: rest => someMatchReturns rest

def allReturn : List Tree → Except Fault Bool
  | [] => .ok true
  | t :: ts => do
    if ← alwaysReturns t then allReturn ts else return false

end

def isElse (t : Tree) : Bool :=
  t.isKind .elseBranch

def needlessElifs : List Tree → Except Fault (List Tree)
  | branch :: next :: rest => do
    if !(← alwaysReturns branch) then return []
    return next :: (← needlessElifs (next :: rest))
  | _ => .ok []

def noElifReturn (t : Tree) : Problems := do
  let found ← (t.subtreesOf .ifStmt).mapM fun s => needlessElifs (s.children.filter (!isElse ·))
  found.flatten.mapM (Problem.ofTree .noElifReturn "Unnecessary \"elif\" after \"return\"".toList)

/-- The names of the variables that are declared among the children. -/
def variableNames (t : Tree) : Except Fault (List Text) :=
  (t.children.filter (·.isKind .funcVarStmt)).mapM fun s => do (← s.part 0).word 0

/-- The `else` of a statement, unless it declares a variable again that is declared around it. -/
def needlessElse (outer : List Text) (s : Tree) : Except Fault (Option Tree) := do
  match s.children.find? isElse with
  | none => return none
  | some branch =>
    if !(← allReturn (s.children.filter (!isElse ·))) then return none
    let inner ← variableNames branch
    return if inner.any outer.contains then none else some branch

def needlessElsesIn (t : Tree) : Except Fault (List Tree) := do
  let statements := t.children.filter (·.isKind .ifStmt)
  if statements.isEmpty then return []
  let outer ← variableNames t
  statements.filterMapM (needlessElse outer)

def noElseReturn (t : Tree) : Problems := do
  let found ← t.subtrees.mapM needlessElsesIn
  found.flatten.mapM (Problem.ofTree .noElseReturn "Unnecessary \"else\" after \"return\"".toList)

def check (config : Config) (t : Tree) : Problems := do
  let elifs ← config.run .noElifReturn (noElifReturn t)
  let elses ← config.run .noElseReturn (noElseReturn t)
  return elifs ++ elses

end Returns

end GDWorkbench.Lint
