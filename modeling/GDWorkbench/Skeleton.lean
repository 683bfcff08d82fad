import GDWorkbench.Parse

/-!
The skeleton of a file in Python: classes, functions, branches and loops nested as they are, with
every expression replaced by `1`. What has no counterpart becomes `pass` or is left out. A match
becomes a chain of branches.
-/

namespace GDWorkbench

namespace Skeleton

/-- The line above a block. -/
inductive Header where
  | className (name : Text)
  | function (name : Text)
  | ifOne
  | elifOne
  | elseOnly
  | whileOne
  | forIn (name : Text)
  deriving DecidableEq, Repr

namespace Header

def text : Header → Text
  | .className name => "class ".toList ++ name ++ [':']
  | .function name => "def ".toList ++ name ++ "():".toList
  | .ifOne => "if 1:".toList
  | .elifOne => "elif 1:".toList
  | .elseOnly => "else:".toList
  | .whileOne => "while 1:".toList
  | .forIn name => "for ".toList ++ name ++ " in 1:".toList

end Header

inductive Item where
  | word (text : String)
  | assignment (name : Text) (value : String)
  | block (header : Header) (body : List Item)
  | stub (name : Text)
  deriving Repr, Inhabited

namespace Item

def margin (depth : Nat) : Text :=
  List.replicate depth '\t'

def stubBody : Text :=
  "    raise NotImplementedError('Abstract method not implemented')".toList

mutual

def lines (depth : Nat) : Item → List Text
  | .word text => [margin depth ++ text.toList]
  | .assignment name value => [margin depth ++ name ++ " = ".toList ++ value.toList]
  | .block header body => (margin depth ++ header.text) :: linesOf (depth + 1) body
  | .stub name => [margin depth ++ (Header.function name).text, margin depth ++ stubBody]

def linesOf (depth : Nat) : List Item → List Text
  | [] => []
  | item :: rest => lines depth item ++ linesOf depth rest

end

end Item

/-! ## From trees -/

def noValue : String := "None"
def someValue : String := "1"

def innerName (t : Tree) : Except Fault Text := do
  (← t.part 0).word 0

def need (n : Nat) (children : List Tree) : Except Fault Unit :=
  if children.length < n then .error .missingPart else .ok ()

mutual

def statement : Tree → Except Fault (List Item)
  | .token _ => .error .wrongPart
  | .node kind span children =>
    let t : Tree := .node kind span children
    match kind with
    | .annot => .ok []
    | .passStmt | .extendsStmt | .enumStmt | .classnameStmt | .propertyBodyDef
    | .classnameExtendsStmt | .signalStmt | .docstrStmt => .ok [.word "pass"]
    | .classVarStmt | .staticClassVarStmt | .staticFuncDef | .funcVarStmt | .exprStmt =>
      firstStatement children
    | .classVarEmpty | .classVarTyped | .funcVarEmpty | .funcVarTyped => do
      return [.assignment (← t.word 0) noValue]
    | .classVarAssigned | .classVarTypedAssgnd | .classVarInf
    | .funcVarAssigned | .funcVarTypedAssgnd | .funcVarInf => do
      return [.assignment (← t.word 0) someValue]
    | .constStmt => do return [.assignment (← innerName t) someValue]
    | .classDef => do return [.block (.className (← t.word 0)) (← statements 1 children)]
    | .funcDef => do return [.block (.function (← innerName t)) (← statements 1 children)]
    | .abstractFuncDef => do return [.stub (← innerName t)]
    | .expr => do
      let _ ← t.part 0
      return [.word someValue]
    | .returnStmt => .ok [.word (if children.isEmpty then "return" else "return 1")]
    | .breakStmt => .ok [.word "break"]
    | .breakpointStmt => .ok [.word "breakpoint"]
    | .continueStmt => .ok [.word "continue"]
    | .ifStmt => statements 0 children
    | .ifBranch => do
      need 1 children
      return [.block .ifOne (← statements 1 children)]
    | .elifBranch | .matchBranch | .guardedMatchBranch => do
      need 1 children
      return [.block .elifOne (← statements 1 children)]
    | .elseBranch => do return [.block .elseOnly (← statements 0 children)]
    | .whileStmt => do
      need 1 children
      return [.block .whileOne (← statements 1 children)]
    | .forStmt => do
      need 2 children
      return [.block (.forIn (← t.word 0)) (← statements 2 children)]
    | .forStmtTyped => do
      need 3 children
      return [.block (.forIn (← t.word 0)) (← statements 3 children)]
    | .matchStmt => do
      let _ ← t.part 0
      return .block .ifOne [.word "pass"] :: (← statements 1 children)
    | kind => .error (.unknownKind kind)

def statements : Nat → List Tree → Except Fault (List Item)
  | _, [] => .ok []
  | skip + 1, _ :: ts => statements skip ts
  | 0, t :: ts => do
    let items ← statement t
    return items ++ (← statements 0 ts)

def firstStatement : List Tree → Except Fault (List Item)
  | [] => .error .missingPart
  | t :: _ => statement t

end

/-- A skeleton as a text that ends with a line feed unless it is empty. -/
def text (items : List Item) : Text :=
  Text.join ['\n'] (Item.linesOf 0 items ++ [[]])

end Skeleton

def skeleton (code : Text) : Except Failure (List Skeleton.Item) := do
  let t ← Failure.ofSyntax (parse code)
  Failure.ofFault (Skeleton.statements 0 t.children)

end GDWorkbench
