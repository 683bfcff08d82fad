import GDWorkbench.Lint.Design

/-!
The order of declarations in a class. Every statement belongs to a section, and a section must not
come before one of lower rank.
-/

namespace GDWorkbench.Lint

namespace Order

def visibility (s : Outline.Statement) : Except Fault String := do
  let name ← (← s.tree.part 0).nameToken
  return if isPublic name.content then "pub" else "prv"

def variableSection (s : Outline.Statement) : Except Fault Text := do
  if s.annotations.any fun a => Text.startsWith a "export".toList then
    return "exports".toList
  let isOnReady := s.annotations.any fun a => a = "onready".toList
  let shown ← visibility s
  return ((if isOnReady then "onready" else "") ++ shown ++ "vars").toList

def isIrrelevant (s : Outline.Statement) : Bool :=
  s.isKind .passStmt || s.isKind .classDef
    || (s.isKind .annot && !Annotations.isNamed "tool" s.tree)

def sectionOf (s : Outline.Statement) : Except Fault Text := do
  match ← s.tree.kind with
  | .classVarStmt => variableSection s
  | .signalStmt => return "signals".toList
  | .extendsStmt | .classnameExtendsStmt => return "extends".toList
  | .enumStmt => return "enums".toList
  | .classnameStmt => return "classnames".toList
  | .constStmt => return "consts".toList
  | .annot => return "tools".toList
  | .funcDef | .staticFuncDef | .abstractFuncDef => return "others".toList
  | .docstrStmt => return "docstrings".toList
  | .staticClassVarStmt => return "staticvars".toList
  | _ => .error .unsupported

def outOfOrder (c : Outline.Class) : Text :=
  "Definition out of order in ".toList ++ c.name

def unlisted (current found : Text) : Text :=
  "Definition order not specified for '".toList ++ current ++ "' or '".toList ++ found
    ++ "', please fix/re-generate your gdlintrc file".toList

/-- Goes through the statements behind a section that has been reached, which has a rank. -/
def checkFrom (order : SectionOrder) (c : Outline.Class) :
    Text → Nat → List Outline.Statement → Problems
  | _, _, [] => .ok []
  | current, reached, s :: rest =>
    if isIrrelevant s then checkFrom order c current reached rest
    else do
      let found ← sectionOf s
      match order.rank found with
      | some rank =>
        if reached ≤ rank then checkFrom order c found rank rest
        else
          let p ← Problem.ofTree .classDefinitionsOrder (outOfOrder c) s.tree
          return p :: (← checkFrom order c current reached rest)
      | none =>
        let p ← Problem.ofTree .classDefinitionsOrder (unlisted current found) s.tree
        return p :: (← checkFrom order c current reached rest)

def checkClass (order : Except Fault SectionOrder) (c : Outline.Class) : Problems := do
  let order ← order
  checkFrom order c order.first 0 c.statements

def check (config : Config) (file : Outline.Class) : Problems :=
  config.run .classDefinitionsOrder do
    return (← (Outline.classes file).mapM (checkClass config.order)).flatten

end Order

end GDWorkbench.Lint
