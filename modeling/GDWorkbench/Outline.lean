import GDWorkbench.Annotations

/-!
The outline of a file: its classes, what they declare, and the statements of their functions. The
file itself is the outermost class.
-/

namespace GDWorkbench.Outline

inductive Statement where
  | mk (tree : Tree) (annotations : List Text) (inner : List Statement)
  deriving Inhabited

namespace Statement

def tree : Statement → Tree
  | .mk t _ _ => t

def annotations : Statement → List Text
  | .mk _ as _ => as

def inner : Statement → List Statement
  | .mk _ _ ss => ss

def isKind (k : Kind) (s : Statement) : Bool :=
  s.tree.isKind k

def listing (s : Statement) : Text :=
  let kind := (s.tree.kind?.map Kind.name).getD ""
  let shown (n : Option Nat) : Text := (n.map Text.ofNat).getD "None".toList
  let line := s.tree.span?.bind Span.line
  let column := s.tree.span?.bind Span.column
  "Statement(".toList ++ kind.toList ++ ':' :: shown line ++ ':' :: shown column ++ [')']

mutual

/-- The statements inside at any depth, in the order of the text. -/
def nested : Statement → List Statement
  | .mk _ _ ss => withNested ss

def withNested : List Statement → List Statement
  | [] => []
  | s :: ss => s :: nested s ++ withNested ss

end

mutual

def ofTree : Tree → Except Fault Statement
  | .token _ => .error .wrongPart
  | .node kind span children => do
    let inner ← match kind with
      | .propertyBodyDef => .error .unsupported
      | .funcDef | .staticFuncDef | .whileStmt => ofTrees 1 children
      | .forStmt => ofTrees 2 children
      | .forStmtTyped => ofTrees 3 children
      | .ifStmt | .matchStmt => ofBranches children
      | _ => .ok []
    return .mk (.node kind span children) [] inner

def ofTrees : Nat → List Tree → Except Fault (List Statement)
  | _, [] => .ok []
  | skip + 1, _ :: ts => ofTrees skip ts
  | 0, t :: ts => do
    let s ← ofTree t
    return s :: (← ofTrees 0 ts)

def ofBranches : List Tree → Except Fault (List Statement)
  | [] => .ok []
  | t :: ts => do
    let ss ← ofBranch t
    return ss ++ (← ofBranches ts)

/-- The statements of a branch come behind its condition or pattern. -/
def ofBranch : Tree → Except Fault (List Statement)
  | .token _ => .error .wrongPart
  | .node kind _ children => ofTrees (if kind = .elseBranch then 0 else 1) children

end

end Statement

/-! ## Functions -/

structure Parameter where
  name : Text
  /-- Whether it takes all arguments that are left. -/
  isVariadic : Bool

structure Function where
  statement : Statement
  name : Text
  parameters : List Parameter

namespace Function

def statements (f : Function) : List Statement :=
  f.statement :: f.statement.nested

def parameter (t : Tree) : Except Fault Parameter := do
  match ← t.kind with
  | .funcArgVariadic => return ⟨← (← t.part 0).word 0, true⟩
  | _ => return ⟨← t.word 0, false⟩

def parametersOf : List Tree → Except Fault (List Parameter)
  | [] => .ok []
  | t :: ts => do
    match ← t.kind with
    | .trailingComma => parametersOf ts
    | _ =>
      let p ← parameter t
      return p :: (← parametersOf ts)

def ofStatement (s : Statement) : Except Fault Function := do
  let header ← s.tree.part 0
  let name ← header.nameToken
  match header.children.find? (·.isKind .funcArgs) with
  | none => .error .wrongPart
  | some arguments => return ⟨s, name.content, ← parametersOf arguments.children⟩

end Function

/-! ## Classes -/

mutual

inductive Class where
  | mk (tree : Tree) (name : Text) (members : List Member)

inductive Member where
  | statement (statement : Statement)
  | function (function : Function)
  | innerClass (statement : Statement) (definition : Class)

end

namespace Member

def asStatement : Member → Statement
  | .statement s => s
  | .function f => f.statement
  | .innerClass s _ => s

def function? : Member → Option Function
  | .function f => some f
  | _ => none

def innerClass? : Member → Option Class
  | .innerClass _ c => some c
  | _ => none

end Member

namespace Class

def tree : Class → Tree
  | .mk t _ _ => t

def name : Class → Text
  | .mk _ n _ => n

def members : Class → List Member
  | .mk _ _ ms => ms

def statements (c : Class) : List Statement :=
  c.members.map Member.asStatement

/-- The functions of the class itself. Static ones are not among them. -/
def functions (c : Class) : List Function :=
  c.members.filterMap Member.function?

def inner (c : Class) : List Class :=
  c.members.filterMap Member.innerClass?

mutual

def nested : Class → List Class
  | .mk _ _ ms => nestedIn ms

def nestedIn : List Member → List Class
  | [] => []
  | .innerClass _ c :: ms => c :: nested c ++ nestedIn ms
  | .statement _ :: ms => nestedIn ms
  | .function _ :: ms => nestedIn ms

end

mutual

/-- The functions of the class and of the classes inside, in the order of the text. -/
def allFunctions : Class → List Function
  | .mk _ _ ms => functionsIn ms

def functionsIn : List Member → List Function
  | [] => []
  | .innerClass _ c :: ms => allFunctions c ++ functionsIn ms
  | .statement _ :: ms => functionsIn ms
  | .function f :: ms => f :: functionsIn ms

end

def fileName : Text := "global scope".toList

mutual

def ofTree : Tree → Except Fault Class
  | .token _ => .error .wrongPart
  | .node kind span children => do
    let t : Tree := .node kind span children
    match kind with
    | .start => return .mk t fileName (← membersOf 0 [] children)
    | .classDef =>
      let name ← t.nameToken
      return .mk t name.content (← membersOf 1 [] children)
    | _ => .error .noClass

/-- Leaves out the first `skip` trees. `pending` are the annotations in front of the next
statement. -/
def membersOf : Nat → List Text → List Tree → Except Fault (List Member)
  | _, _, [] => .ok []
  | skip + 1, pending, _ :: ts => membersOf skip pending ts
  | 0, pending, t :: ts => do
    if ← Annotations.belongsToNext t then
      return ← membersOf 0 (pending ++ [← Annotations.name t]) ts
    match ← t.kind with
    | .propertyBodyDef => membersOf 0 pending ts
    | kind =>
      let s ← Statement.ofTree t
      let s : Statement := .mk t pending s.inner
      let member ← match kind with
        | .classDef => pure (.innerClass s (← ofTree t))
        | .funcDef | .abstractFuncDef => pure (.function (← Function.ofStatement s))
        | _ => pure (.statement s)
      return member :: (← membersOf 0 [] ts)

end

end Class

def classes (file : Class) : List Class :=
  file :: file.nested

end GDWorkbench.Outline
