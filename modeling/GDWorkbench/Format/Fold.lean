import GDWorkbench.Format.Expr

/-!
Breaking expressions into lines. An expression stands on one line if it fits there and nothing forces
it to take more. Otherwise it is folded: lists open a bracket, put their items on deeper lines and
close the bracket; operators begin the lines of their right operands, in brackets that are added where
none are around; a chain of dots is first broken inside its last link.

An expression is laid out between affixes, the text in front of it and the text behind it on the same
lines. Folding calls itself only on parts, through `next`.
-/

namespace GDWorkbench.Format

/-- The text around an expression, and the lines of the source it belongs to. -/
structure Affixes where
  before : Text
  beforeLine : Option Int
  after : Text
  afterLine : Option Int

namespace Affixes

def append (a : Affixes) (text : Text) : Affixes :=
  { a with before := a.before ++ text }

def bracket (a : Affixes) (left right : Char) (last : Option Int) : Affixes :=
  ⟨a.before ++ [left], a.beforeLine, right :: a.after, last⟩

/-- Whether the expression already stands between brackets in which lines may be broken. -/
def areBrackets (a : Affixes) : Bool :=
  (Text.endsWith a.before ['('] && Text.startsWith a.after [')'])
    || (Text.endsWith a.before ['['] && Text.startsWith a.after [']'])

end Affixes

abbrev Lines := Except Fault (List Line)

abbrev Formatter := Expr → Affixes → Context → Lines

abbrev BodyFormatter := List Tree → Context → Lines

namespace Fold

def singleLine (e : Expr) (a : Affixes) (c : Context) : Lines := do
  let text ← e.line
  return [⟨a.beforeLine, c.margin ++ a.before ++ text ++ a.after⟩]

/-- One line if that is possible, else whatever `fold` makes of the expression. -/
def oneLineOr (fold : Formatter) : Formatter := fun e a c =>
  if !e.isFoldable then singleLine e a c
  else if e.forcesLines c.settings.standalone then fold e a c
  else do
    let lines ← singleLine e a c
    if lines.all fun l => c.fits l.text then return lines else fold e a c

/-! ## Lists -/

def listed (next : Formatter) (items : List Tree) (a : Affixes) (c : Context) : Lines :=
  next (.listed items a.beforeLine a.afterLine) a c

/-- A list whose brackets are the affixes: the brackets on lines of their own. -/
def listLines (next : Formatter) (items : List Tree) (a : Affixes) (c : Context) : Lines := do
  let inner ← if items.isEmpty then pure [] else
    next (.items items a.beforeLine a.afterLine) ⟨[], a.beforeLine, [], a.afterLine⟩
      (c.child a.beforeLine)
  return ⟨a.beforeLine, c.margin ++ a.before⟩ :: inner ++ [⟨a.afterLine, c.margin ++ a.after⟩]

/-- Items on lines of their own, with a comma behind each but perhaps the last. -/
def itemLines (next : Formatter) (c : Context) (commaAtEnd : Bool) : List Tree → Lines
  | [] => .ok []
  | item :: rest => do
    let suffix : Text := if rest.isEmpty && !commaAtEnd then [] else [',']
    let first ← firstLine item
    let last ← lastLine item
    let lines ← next (.tree (unwrap item)) ⟨[], first, suffix, last⟩ c
    return lines ++ (← itemLines next c commaAtEnd rest)

def items (next : Formatter) (ts : List Tree) (c : Context) : Lines :=
  itemLines next c (Tree.endsWithComma ts) (ts.filter fun t => !t.isComma)

/-! ## Operators -/

def operationLines (next : Formatter) (c : Context) : List Expr → Lines
  | sign :: operand :: rest => do
    let text ← sign.line
    let first ← operand.first
    let last ← operand.last
    let lines ← next operand ⟨text ++ [' '], first, [], last⟩ c
    return lines ++ (← operationLines next c rest)
  | _ => .ok []

/-- The first operand, then every operator in front of its right operand. -/
def operations (next : Formatter) (c : Context) : List Expr → Lines
  | [] => .error .missingPart
  | operand :: rest => do
    let first ← operand.first
    let last ← operand.last
    let lines ← next operand ⟨[], first, [], last⟩ c
    return lines ++ (← operationLines next c rest)

def lastOf (parts : List Expr) : Except Fault (Option Int) :=
  match parts.getLast? with
  | some part => part.last
  | none => .error .missingPart

/-- Operands and operators in brackets, which are added unless the affixes have them. -/
def chain (next : Formatter) (parts : List Expr) (a : Affixes) (c : Context) : Lines := do
  let bracketed := a.areBrackets
  let left : Text := if bracketed then [] else ['(']
  let right : Text := if bracketed then [] else [')']
  let inner ← next (.operations parts a.beforeLine a.afterLine)
    ⟨[], a.beforeLine, [], a.afterLine⟩ (c.child a.beforeLine)
  let last ← lastOf parts
  return ⟨a.beforeLine, c.margin ++ a.before ++ left⟩ :: inner
    ++ [⟨last, c.margin ++ right ++ a.after⟩]

/-- An operator in front of its operand, which is folded behind it. -/
def behind (next : Formatter) (text : Text) (t : Tree) (a : Affixes) (c : Context) : Lines :=
  next (.tree t) (a.append text) c

def assignment (next : Formatter) (t : Tree) (a : Affixes) (c : Context) : Lines := do
  let target ← (← t.part 0).line
  let sign ← (← t.part 1).line
  behind next (target ++ ' ' :: sign ++ [' ']) (← t.part 2) a c

def negation (next : Formatter) (t : Tree) (a : Affixes) (c : Context) : Lines := do
  let sign ← t.part 0
  let gap : Text := if (← sign.tokenText) = ['!'] then [] else [' ']
  behind next ((← sign.line) ++ gap) (← t.part 1) a c

def signed (next : Formatter) (t : Tree) (a : Affixes) (c : Context) : Lines := do
  behind next (← (← t.part 0).line) (← t.part 1) a c

def awaited (next : Formatter) (t : Tree) (a : Affixes) (c : Context) : Lines := do
  let words ← t.children.dropLast.mapM Tree.tokenText
  behind next (Text.join [' '] words ++ [' ']) (← t.lastPart) a c

/-! ## Calls, subscripts and chains of dots -/

def call (next : Formatter) (callee : Expr) (arguments : List Tree) (last : Option Int) (a : Affixes)
    (c : Context) : Lines := do
  let text ← callee.line
  if arguments.isEmpty then
    return [⟨a.beforeLine, c.margin ++ a.before ++ text ++ "()".toList ++ a.after⟩]
  let first ← callee.first
  listed next arguments ⟨a.before ++ text ++ ['('], first, ')' :: a.after, last⟩ c

/-- The subscript goes on behind the last line of what it belongs to. -/
def subscript (next : Formatter) (base : Expr) (index : Tree) (a : Affixes) (c : Context) : Lines := do
  let lines ← next base ⟨a.before, a.beforeLine, [], a.afterLine⟩ c
  match lines.getLast? with
  | none => .error .missingPart
  | some ⟨none, _⟩ => .error .unmet
  | some ⟨some n, text⟩ =>
    let rest ← next (.tree index) ⟨Text.trim text ++ ['['], some n, ']' :: a.after, a.afterLine⟩ c
    return lines.dropLast ++ rest

/-- Breaks a chain only inside its last link. A lambda in an earlier link of a call forbids that. -/
def insideLastLink (next : Formatter) (parts : List Expr) (a : Affixes) (c : Context) : Lines := do
  let inner := parts.dropLast
  let first ← match parts.head? with
    | some part => part.first
    | none => .error .missingPart
  match parts.getLast? with
  | some (.call callee arguments _ last) =>
    if inner.any Expr.holdsLambda then chain next parts a c
    else
      let joined := .joined (inner ++ [callee]) first (← callee.last)
      next (.call joined arguments first last) a c
  | some (.subscript base index _ last) =>
    let joined := .joined (inner ++ [base]) first (← base.last)
    next (.subscript joined index first last) a c
  | _ => chain next parts a c

def dots (next : Formatter) (parts : List Expr) (a : Affixes) (c : Context) : Lines := do
  if parts.any Expr.holdsLambda then insideLastLink next parts a c
  else
    let first ← match parts.head? with
      | some part => part.first
      | none => .error .missingPart
    let last ← lastOf parts
    if (Expr.operations parts first last).forcesLines c.settings.standalone then
      chain next parts a c
    else
      let lines ← insideLastLink next parts a c
      if lines.all fun l => c.fits l.text then return lines else chain next parts a c

def linked (next : Formatter) (t : Tree) (a : Affixes) (c : Context) : Lines :=
  match links t with
  | [.subscript base index _ _] => subscript next base index a c
  | parts => dots next parts a c

/-! ## Other expressions -/

/-- Key and value on lines of their own. The line of the value is looked up from the end of the
file, so that no comment is put beside it. -/
def pair (next : Formatter) (sign : String) (t : Tree) (a : Affixes) (c : Context) : Lines := do
  let key ← next (.tree (unwrap (← t.part 0))) ⟨a.before, a.beforeLine, sign.toList, a.afterLine⟩ c
  let value ← next (.tree (unwrap (← t.part 1))) ⟨[], some (-1), a.after, a.afterLine⟩ c
  return key ++ value

def longText (t : Tree) (a : Affixes) (c : Context) : Lines := do
  let lines := Text.lines (← (← t.part 0).tokenText)
  let n ← firstLine t
  match lines with
  | [] => .error .missingPart
  | first :: rest =>
    let last := (rest.getLast?).getD first
    return ⟨a.beforeLine, c.margin ++ a.before ++ first⟩ :: rest.dropLast.map (Line.mk n)
      ++ [⟨n, last ++ a.after⟩]

/-- An argument of a function with its default value. What stood in front of it is dropped. -/
def defaultValue (next : Formatter) (before : Text) (t : Tree) (a : Affixes) (c : Context) :
    Lines := do
  let value ← (← t.lastPart).part 0
  next (.tree (unwrap value)) { a with before := before } c

def argument (next : Formatter) (kind : Kind) (t : Tree) (a : Affixes) (c : Context) : Lines := do
  let name ← t.part 0
  match kind, t.children.length with
  | .funcArgRegular, 1 => next (.tree name) a c
  | .funcArgRegular, _ => defaultValue next ((← name.tokenText) ++ " = ".toList) t a c
  | .funcArgInf, _ => defaultValue next ((← name.tokenText) ++ " := ".toList) t a c
  | _, 2 => behind next ((← name.tokenText) ++ ": ".toList) (← t.part 1) a c
  | _, _ =>
    let type ← (← t.part 1).tokenText
    defaultValue next ((← name.tokenText) ++ ": ".toList ++ type ++ " = ".toList) t a c

def annotationLines (next : Formatter) (t : Tree) (c : Context) : Lines := do
  let name := '@' :: (← (← t.part 0).tokenText)
  let n ← firstLine t
  if t.children.length = 1 then return [⟨n, c.margin ++ name⟩]
  next (.tree (← t.lastPart)) ⟨name, n, [], some (-1)⟩ c

def lambdaHeader (next : Formatter) (t : Tree) (a : Affixes) (c : Context) : Lines := do
  let first ← t.part 0
  let named := !first.isNode
  let name : Text := if named then ' ' :: (first.tokenText.toOption.getD []) else []
  let place := if named then 1 else 0
  let hint ← if place + 1 < t.children.length then do
      pure (" -> ".toList ++ (← (← t.part (place + 1)).tokenText))
    else pure []
  next (.tree (← t.part place))
    { a with before := a.before ++ "func".toList ++ name, after := hint ++ ':' :: a.after } c

def lambda (next : Formatter) (body : BodyFormatter) (t : Tree) (a : Affixes) (c : Context) :
    Lines := do
  let header ← next (.tree (← t.part 0)) { a with after := [], afterLine := some (-1) } c
  let block ← body t.children.tail (c.child a.beforeLine)
  match block.getLast? with
  | some last => return header ++ block.dropLast ++ [{ last with text := last.text ++ a.after }]
  | none => .error .missingPart

def tree (next : Formatter) (body : BodyFormatter) (t : Tree) (a : Affixes) (c : Context) : Lines :=
  match t with
  | .token _ => .error .wrongPart
  | .node kind _ children =>
    match kind with
    | .assnmntExpr => assignment next t a c
    | .testExpr | .aslessTestExpr | .orTest | .aslessOrTest | .andTest | .aslessAndTest
    | .contentTest | .aslessContentTest | .comparison | .aslessComparison | .bitwOr | .aslessBitwOr
    | .bitwXor | .aslessBitwXor | .bitwAnd | .aslessBitwAnd | .shiftExpr | .aslessShiftExpr
    | .arithExpr | .aslessArithExpr | .mdrExpr | .aslessMdrExpr | .powExpr | .aslessPowExpr
    | .typeTest | .aslessTypeTest | .actualTypeCast
    | .testPattern | .orPattern | .andPattern | .compPattern | .bitwOrPattern | .bitwXorPattern
    | .bitwAndPattern | .shiftPattern | .arithPattern | .mdrPattern | .attrPattern =>
      chain next (children.map .tree) a c
    | .aslessActualNotTest => negation next t a c
    | .aslessActualNegExpr | .aslessActualBitwNot => signed next t a c
    | .awaitExpr => awaited next t a c
    | .standaloneCall | .callPattern => do
      call next (.tree (← t.part 0)) children.tail (← lastLine t) a c
    | .getattrCall | .getattr | .subscrExpr => linked next t a c
    | .parExpr | .parPattern => do
      next (.tree (unwrap (← t.part 0))) (a.bracket '(' ')' (← lastLine t)) c
    | .array | .arrayPattern => do
      listed next children (a.bracket '[' ']' (← lastLine t)) c
    | .dict | .enumBody | .dictPattern => do
      listed next children (a.bracket '\x7b' '\x7d' (← lastLine t)) c
    | .funcArgs | .signalArgs | .annotationArgs => do
      listed next children (a.bracket '(' ')' (← lastLine t)) c
    | .string => longText t a c
    | .cDictElement | .kvPairPattern => pair next ":" t a c
    | .eqDictElement => pair next " =" t a c
    | .lambda => lambda next body t a c
    | .lambdaHeader => lambdaHeader next t a c
    | .funcArgVariadic => do behind next "...".toList (← t.part 0) a c
    | .funcArgRegular | .funcArgInf | .funcArgTyped => argument next kind t a c
    | .annot => annotationLines next t c
    | .listPattern | .notPattern | .negPattern | .bitwNotPattern => singleLine (.tree t) a c
    | kind => .error (.unknownKind kind)

def step (next : Formatter) (body : BodyFormatter) : Formatter
  | .tree t, a, c => tree next body t a c
  | .listed ts _ _, a, c => listLines next ts a c
  | .items ts _ _, _, c => items next ts c
  | .operations parts _ _, _, c => operations next c parts
  | .joined _ _ _, _, _ => .error (.unknownKind .getattr)
  | .call callee arguments _ last, a, c => call next callee arguments last a c
  | .subscript base index _ _, a, c => subscript next base index a c

/-- Folds an expression whose parts are nested at most `depth` deep. -/
def upTo (body : BodyFormatter) : Nat → Formatter
  | 0 => fun _ _ _ => .error .tooDeep
  | depth + 1 => step (oneLineOr (upTo body depth)) body

/-- Folding goes at most this deep into a tree: one level of the tree takes a bracket, its list and
the items of the list. -/
def depthOf (t : Tree) : Nat :=
  8 * t.size + 8

end Fold

def concrete (body : BodyFormatter) (t : Tree) (a : Affixes) (c : Context) : Lines :=
  Fold.oneLineOr (Fold.upTo body (Fold.depthOf t)) (.tree t) a c

/-- Lays out an expression without the round brackets around it. -/
def expression (body : BodyFormatter) (t : Tree) (a : Affixes) (c : Context) : Lines := do
  concrete body (unwrap (← t.part 0)) a c

end GDWorkbench.Format
