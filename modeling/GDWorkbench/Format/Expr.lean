import GDWorkbench.Format.Context
import GDWorkbench.Print

/-!
Expressions to be laid out: trees, and groupings of trees that only matter while lines are broken.
A grouping has the lines of the source that its place in the layout gives it.
-/

namespace GDWorkbench.Format

inductive Expr where
  | tree (tree : Tree)
  /-- A list between brackets. -/
  | listed (items : List Tree) (first last : Option Int)
  /-- The same list on lines of its own. -/
  | items (items : List Tree) (first last : Option Int)
  /-- Operands and operators in turn, on lines of their own. -/
  | operations (parts : List Expr) (first last : Option Int)
  /-- Links of a chain that stay on one line. -/
  | joined (parts : List Expr) (first last : Option Int)
  /-- A link of a chain that is called. -/
  | call (callee : Expr) (arguments : List Tree) (first last : Option Int)
  /-- A link of a chain with a subscript. -/
  | subscript (base : Expr) (index : Tree) (first last : Option Int)
  deriving Inhabited

namespace Expr

def first : Expr → Except Fault (Option Int)
  | .tree t => firstLine t
  | .listed _ n _ | .items _ n _ | .operations _ n _ | .joined _ n _ | .call _ _ n _
  | .subscript _ _ n _ => .ok n

def last : Expr → Except Fault (Option Int)
  | .tree t => lastLine t
  | .listed _ _ n | .items _ _ n | .operations _ _ n | .joined _ _ n | .call _ _ _ n
  | .subscript _ _ _ n => .ok n

/-! ## One line -/

mutual

def line : Expr → Except Fault Text
  | .tree t => t.line
  | .listed ts _ _ | .items ts _ _ => Print.arguments (Tree.printAll ts)
  | .operations ps _ _ => chainLine ps
  | .joined ps _ _ => joinedLine ps
  | .call callee arguments _ _ => do
    let text ← line callee
    return text ++ Print.enclosed "(" (← Print.arguments (Tree.printAll arguments)) ")"
  | .subscript base index _ _ => do
    let text ← line base
    return text ++ Print.enclosed "[" (← index.bareLine) "]"

def chainLine : List Expr → Except Fault Text
  | [] => .error .missingPart
  | p :: ps => do
    let later ← operationsLine ps
    return (← line p) ++ later

def operationsLine : List Expr → Except Fault Text
  | sign :: operand :: rest => do
    let sign ← line sign
    let gap : Text := if Text.startsWith sign ['.'] then [] else [' ']
    let text ← line operand
    return gap ++ sign ++ gap ++ text ++ (← operationsLine rest)
  | _ => .ok []

def joinedLine : List Expr → Except Fault Text
  | [] => .ok []
  | p :: ps => do
    let text ← line p
    return text ++ (← joinedLine ps)

end

end Expr

/-! ## What has to take more than one line -/

def isLongText : Tree → Bool
  | .node .string _ (.token t :: _) =>
    t.terminal = .longString && 1 < (Text.lines t.content).length
  | _ => false

/-- A lambda whose body does not fit on the line of its header. -/
def isBlockLambda : Tree → Bool
  | .node .lambda _ [_, .node k _ _] =>
    k = .ifStmt || k = .whileStmt || k = .forStmt || k = .forStmtTyped || k = .matchStmt
  | .node .lambda _ (_ :: _ :: _ :: _) => true
  | _ => false

def hasComment (standalone : List (Option Text)) (first last : Option Int) : Bool :=
  (between standalone first last).any Option.isSome

def spanHasComment (standalone : List (Option Text)) : Option Span → Bool
  | some span => hasComment standalone (span.line.map Int.ofNat) (span.endLine.map Int.ofNat)
  | none => false

mutual

/-- Trees that may not be put on one line: a comma at the end of a list asks for one item per line,
and comments, long strings and bodies of several statements need lines of their own. -/
def forcesLines (standalone : List (Option Text)) : Tree → Bool
  | .token _ => false
  | .node k span cs =>
    Tree.endsWithComma cs || isLongText (.node k span cs) || spanHasComment standalone span
      || isBlockLambda (.node k span cs) || anyForcesLines standalone cs

def anyForcesLines (standalone : List (Option Text)) : List Tree → Bool
  | [] => false
  | t :: ts => forcesLines standalone t || anyForcesLines standalone ts

end

mutual

def holdsLambda : Tree → Bool
  | .token _ => false
  | .node k _ cs => k = .lambda || anyHoldsLambda cs

def anyHoldsLambda : List Tree → Bool
  | [] => false
  | t :: ts => holdsLambda t || anyHoldsLambda ts

end

def isFoldable (t : Tree) : Bool :=
  isLongText t || match t with
    | .token _ => false
    | .node k _ _ => match k with
      | .string | .rawString | .getNode | .nodePath | .stringName | .uniqueNodePath
      | .signalArgTyped | .signalArgRegular | .varCapturePattern | .etcPattern
      | .wildcardPattern => false
      | _ => true

namespace Expr

mutual

def forcesLines (standalone : List (Option Text)) : Expr → Bool
  | .tree t => Format.forcesLines standalone t
  | .listed ts first last | .items ts first last =>
    Tree.endsWithComma ts || hasComment standalone first last || anyForcesLines standalone ts
  | .operations ps first last | .joined ps first last =>
    hasComment standalone first last || anyPartForcesLines standalone ps
  | .call callee ts first last =>
    Tree.endsWithComma ts || hasComment standalone first last || forcesLines standalone callee
      || anyForcesLines standalone ts
  | .subscript base index first last =>
    hasComment standalone first last || forcesLines standalone base
      || Format.forcesLines standalone index

def anyPartForcesLines (standalone : List (Option Text)) : List Expr → Bool
  | [] => false
  | p :: ps => forcesLines standalone p || anyPartForcesLines standalone ps

end

mutual

def holdsLambda : Expr → Bool
  | .tree t => Format.holdsLambda t
  | .listed ts _ _ | .items ts _ _ => anyHoldsLambda ts
  | .operations ps _ _ | .joined ps _ _ => anyPartHoldsLambda ps
  | .call callee ts _ _ => holdsLambda callee || anyHoldsLambda ts
  | .subscript base index _ _ => holdsLambda base || Format.holdsLambda index

def anyPartHoldsLambda : List Expr → Bool
  | [] => false
  | p :: ps => holdsLambda p || anyPartHoldsLambda ps

end

def isFoldable : Expr → Bool
  | .tree t => Format.isFoldable t
  | .joined _ _ _ => false
  | _ => true

end Expr

def unwrap : Tree → Tree
  | .node .parExpr _ (t :: _) => unwrap t
  | t => t

/-! ## Chains of dots -/

/-- The links of attribute accesses, calls and subscripts that follow each other, from the innermost
expression on, with the dots between them. -/
def links : Tree → List Expr
  | .node .getattr _ (base :: rest) => links base ++ rest.map .tree
  | .node .getattrCall span ((.node .getattr _ (base :: rest)) :: arguments) =>
    let last := span.bind fun s => s.endLine.map Int.ofNat
    match rest.getLast? with
    | some attr =>
      let first := attr.span?.bind fun s => s.line.map Int.ofNat
      links base ++ rest.dropLast.map .tree ++ [.call (.tree attr) arguments first last]
    | none => links base
  | .node .subscrExpr span (base :: index :: _) =>
    let chain := links base
    match chain.getLast? with
    | some link =>
      let first := link.first.toOption.getD none
      let last := span.bind fun s => s.endLine.map Int.ofNat
      chain.dropLast ++ [.subscript link index first last]
    | none => chain
  | t => [.tree t]

end GDWorkbench.Format
