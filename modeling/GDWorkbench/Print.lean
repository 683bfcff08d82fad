import GDWorkbench.Print.StringLiteral
import GDWorkbench.Tree

/-!
Expressions, patterns and simple statements on one line.

Printing goes through a tree once and gives three texts per node: the text of the node, its text
without the round brackets around the whole, and its text as the only statement of a lambda. Each may
be missing: most kinds of node stand only in some of these places.
-/

namespace GDWorkbench

structure Printed where
  whole : Except Fault Text
  /-- Without enclosing round brackets. -/
  bare : Except Fault Text
  /-- As the only statement of a lambda. -/
  statement : Except Fault Text

namespace Printed

def ofToken (t : Token) : Printed :=
  let text := StringLiteral.normal t.terminal t.content
  ⟨.ok text, .ok text, .error .wrongPart⟩

end Printed

namespace Tree

def isTrailingComma (t : Tree) : Bool :=
  t.isKind .trailingComma

def isComma : Tree → Bool
  | .token t => t.terminal = .comma
  | .node k _ _ => k = .trailingComma

def isParenthesis : Tree → Bool
  | .token t => t.terminal = .leftParen || t.terminal = .rightParen
  | .node _ _ _ => false

def endsWithComma (ts : List Tree) : Bool :=
  ts.getLast?.any isTrailingComma

end Tree

/-- A node about to be printed: its children, each with its texts. -/
abbrev Parts := List (Tree × Printed)

namespace Parts

def at? (ps : Parts) (i : Nat) : Except Fault (Tree × Printed) :=
  match ps[i]? with
  | some p => .ok p
  | none => .error .missingPart

def whole (ps : Parts) (i : Nat) : Except Fault Text := do
  (← ps.at? i).2.whole

def bare (ps : Parts) (i : Nat) : Except Fault Text := do
  (← ps.at? i).2.bare

def tokenText (ps : Parts) (i : Nat) : Except Fault Text := do
  (← ps.at? i).1.tokenText

def wholes : Parts → Except Fault (List Text)
  | [] => .ok []
  | p :: ps => do
    let text ← p.2.whole
    return text :: (← wholes ps)

def bares : Parts → Except Fault (List Text)
  | [] => .ok []
  | p :: ps => do
    let text ← p.2.bare
    return text :: (← bares ps)

end Parts

namespace Print

def comma : Text := ", ".toList

def enclosed (left : String) (text : Text) (right : String) : Text :=
  left.toList ++ text ++ right.toList

/-- Operators and operands in turn, after the first operand. A dot stands close. -/
def operations : Parts → Except Fault Text
  | (_, operator) :: (_, operand) :: rest => do
    let sign ← operator.whole
    let gap : Text := if Text.startsWith sign ['.'] then [] else [' ']
    let text ← operand.whole
    return gap ++ sign ++ gap ++ text ++ (← operations rest)
  | _ => .ok []

def chain (ps : Parts) : Except Fault Text := do
  let later ← operations ps.tail
  return (← ps.whole 0) ++ later

def arguments (ps : Parts) : Except Fault Text := do
  let shown := ps.filter fun p => !p.1.isParenthesis && !p.1.isComma
  return Text.join comma (← Parts.bares shown)

def call (ps : Parts) : Except Fault Text := do
  let callee ← ps.whole 0
  return callee ++ enclosed "(" (← arguments ps.tail) ")"

def subscript (ps : Parts) : Except Fault Text := do
  let base ← ps.whole 0
  return base ++ enclosed "[" (← ps.bare 1) "]"

/-- Elements in brackets, with the comma at the end if there is one. -/
def elements (left right : String) (ps : Parts) : Except Fault Text := do
  let texts ← Parts.bares (ps.filter fun p => !p.1.isComma)
  let last : Text := if Tree.endsWithComma (ps.map Prod.fst) then [','] else []
  return enclosed left (Text.join comma texts ++ last) right

/-- Entries in brackets. A comma at the end counts as an empty entry. -/
def entries (left right : String) (ps : Parts) : Except Fault Text := do
  return enclosed left (Text.join comma (← Parts.wholes ps)) right

/-- An operator in front of its operand: words stand apart from it, the sign `!` close to it. -/
def negation (ps : Parts) : Except Fault Text := do
  let sign ← ps.whole 0
  let gap : Text := if (← ps.tokenText 0) = ['!'] then [] else [' ']
  return sign ++ gap ++ (← ps.whole 1)

def awaited (ps : Parts) : Except Fault Text := do
  let words ← ps.dropLast.mapM fun p => p.1.tokenText
  let text ← ps.whole (ps.length - 1)
  return Text.join [' '] words ++ ' ' :: text

def optionalBare (introduction : String) (ps : Parts) (i : Nat) : Except Fault Text := do
  if i < ps.length then return introduction.toList ++ (← ps.bare i) else return []

def lambdaHeader (ps : Parts) : Except Fault Text := do
  let first ← ps.at? 0
  let named := !first.1.isNode
  let name : Text := if named then ' ' :: (first.1.tokenText.toOption.getD []) else []
  let place := if named then 1 else 0
  let list ← ps.whole place
  let hint ← if place + 1 < ps.length then do
      pure (" -> ".toList ++ (← ps.tokenText (place + 1)))
    else pure []
  return "func".toList ++ name ++ list ++ hint ++ [':']

def lambda (ps : Parts) : Except Fault Text := do
  match ps with
  | [header, body] =>
    let text ← header.2.whole
    return text ++ ' ' :: (← body.2.statement)
  | _ => .error .unmet

def everyOther : Parts → Parts
  | p :: _ :: rest => p :: everyOther rest
  | ps => ps

def whole (kind : Kind) (ps : Parts) : Except Fault Text :=
  match kind with
  | .expr => ps.bare 0
  | .assnmntExpr | .testExpr | .aslessTestExpr | .orTest | .aslessOrTest | .andTest | .aslessAndTest
  | .contentTest | .aslessContentTest | .comparison | .aslessComparison | .bitwOr | .aslessBitwOr
  | .bitwXor | .aslessBitwXor | .bitwAnd | .aslessBitwAnd | .shiftExpr | .aslessShiftExpr
  | .arithExpr | .aslessArithExpr | .mdrExpr | .aslessMdrExpr | .powExpr | .aslessPowExpr
  | .typeTest | .aslessTypeTest | .actualTypeCast
  | .testPattern | .orPattern | .andPattern | .compPattern | .bitwOrPattern | .bitwXorPattern
  | .bitwAndPattern | .shiftPattern | .arithPattern | .mdrPattern => chain ps
  | .aslessActualNotTest | .notPattern => negation ps
  | .notInOp => .ok "not in".toList
  | .aslessActualNegExpr | .negPattern => return '-' :: (← ps.whole 1)
  | .aslessActualBitwNot | .bitwNotPattern => return '~' :: (← ps.whole 1)
  | .awaitExpr => awaited ps
  | .standaloneCall | .getattrCall => call ps
  | .getattr | .uniqueNodePath => return (← Parts.wholes ps).flatten
  | .subscrExpr => subscript ps
  | .array | .arrayPattern => elements "[" "]" ps
  | .dict | .dictPattern => entries "\x7b" "\x7d" ps
  | .cDictElement => return (← ps.bare 0) ++ ": ".toList ++ (← ps.bare 1)
  | .eqDictElement => return (← ps.bare 0) ++ " = ".toList ++ (← ps.bare 1)
  | .string => ps.whole 0
  | .rawString => return 'r' :: (← ps.whole 0)
  | .getNode => return '$' :: (← ps.whole 0)
  | .path => return (← ps.mapM fun p => p.1.tokenText).flatten
  | .nodePath => return '^' :: (← ps.whole 0)
  | .stringName => return '&' :: (← ps.whole 0)
  | .lambda => lambda ps
  | .lambdaHeader => lambdaHeader ps
  | .funcArgs | .signalArgs => entries "(" ")" ps
  | .funcArgVariadic => return "...".toList ++ (← ps.whole 0)
  | .funcArgRegular => return (← ps.tokenText 0) ++ (← optionalBare " = " ps 1)
  | .funcArgInf => return (← ps.tokenText 0) ++ " := ".toList ++ (← ps.bare 1)
  | .funcArgTyped =>
    return (← ps.tokenText 0) ++ ": ".toList ++ (← ps.tokenText 1) ++ (← optionalBare " = " ps 2)
  | .enumBody => if ps.isEmpty then .ok "\x7b\x7d".toList else entries "\x7b " " \x7d" ps
  | .enumElement => return (← ps.bare 0) ++ (← optionalBare " = " ps 1)
  | .signalArgRegular => ps.tokenText 0
  | .signalArgTyped => return (← ps.tokenText 0) ++ ": ".toList ++ (← ps.tokenText 1)
  | .trailingComma => .ok []
  | .annot => do
    let name ← ps.whole 0
    return '@' :: name ++ (← if 1 < ps.length then ps.whole 1 else pure [])
  | .annotationArgs => elements "(" ")" ps
  | .propertyCustomGetterArgs => .ok "()".toList
  | .listPattern => entries "" "" ps
  | .attrPattern => return Text.join ['.'] (← Parts.wholes (everyOther ps))
  | .callPattern => return (← ps.whole 0) ++ enclosed "(" (← ps.whole 1) ")"
  | .parPattern => return enclosed "(" (← ps.whole 0) ")"
  | .varCapturePattern => return "var ".toList ++ (← ps.whole 0)
  | .etcPattern => .ok "..".toList
  | .wildcardPattern => .ok ['_']
  | .kvPairPattern => return (← ps.whole 0) ++ ": ".toList ++ (← ps.whole 1)
  | kind => .error (.unknownKind kind)

/-- A declaration: what introduces it, its name, its type if it has one, and its value. -/
def declaration (word : String) (ps : Parts) (sign : String) (value : Nat) : Except Fault Text := do
  let name ← ps.tokenText 0
  return word.toList ++ ' ' :: name ++ sign.toList ++ (← ps.bare value)

def typedDeclaration (word : String) (ps : Parts) : Except Fault Text := do
  let name ← ps.tokenText 0
  let type ← ps.tokenText 1
  return word.toList ++ ' ' :: name ++ ": ".toList ++ type ++ " = ".toList ++ (← ps.bare 2)

def statement (kind : Kind) (ps : Parts) : Except Fault Text :=
  match kind with
  | .passStmt => .ok "pass".toList
  | .breakpointStmt => .ok "breakpoint".toList
  | .funcVarStmt | .constStmt => do (← ps.at? 0).2.statement
  | .exprStmt => ps.whole 0
  | .returnStmt => return "return ".toList ++ (← ps.bare 0)
  | .funcVarEmpty => return "var ".toList ++ (← ps.tokenText 0)
  | .funcVarAssigned => declaration "var" ps " = " 1
  | .funcVarInf => declaration "var" ps " := " 1
  | .funcVarTyped => declaration "var" ps ": " 1
  | .funcVarTypedAssgnd => typedDeclaration "var" ps
  | .constAssigned => declaration "const" ps " = " 1
  | .constTypedAssigned => typedDeclaration "const" ps
  | .constInf => declaration "const" ps " := " 1
  | .breakStmt | .continueStmt | .ifStmt | .whileStmt | .forStmt | .forStmtTyped | .matchStmt | .annot
  | .matchBranch | .guardedMatchBranch => .error .unsupported
  | kind => .error (.unknownKind kind)

def node (kind : Kind) (ps : Parts) : Printed :=
  match kind with
  | .parExpr =>
    let bare := ps.bare 0
    ⟨bare.map (enclosed "(" · ")"), bare, .error (.unknownKind .parExpr)⟩
  | kind =>
    let text := whole kind ps
    ⟨text, text, statement kind ps⟩

end Print

namespace Tree

mutual

def print : Tree → Printed
  | .token t => Printed.ofToken t
  | .node k _ cs => Print.node k (printAll cs)

def printAll : List Tree → Parts
  | [] => []
  | t :: ts => (t, print t) :: printAll ts

end

def line (t : Tree) : Except Fault Text :=
  t.print.whole

/-- The tree on one line, without round brackets around the whole. -/
def bareLine (t : Tree) : Except Fault Text :=
  t.print.bare

end Tree

end GDWorkbench
