import GDWorkbench.Format.Block

/-!
The statements of functions. A statement gets the block formatter as an argument, for the blocks
inside it: branches, loops, and the bodies of lambdas.
-/

namespace GDWorkbench.Format

namespace Statement

def simple (text : Text) (t : Tree) (c : Context) : Outcome := do
  let n ← firstLine t
  return ([⟨n, c.margin ++ text⟩], n)

/-- The bodies of lambdas are blocks of which only the lines count. -/
def body (block : BlockFormatter) : BodyFormatter := fun ts c => do
  return (← block ts c).1

/-- An expression behind a text. The comments of the whole statement up to `afterLine` belong to it. -/
def behind (block : BlockFormatter) (before : Text) (t e : Tree) (afterLine : Option Int)
    (c : Context) : Outcome := do
  let n ← firstLine t
  let lines ← expression (body block) e ⟨before, n, [], afterLine⟩ c
  return (lines, ← lastLine e)

def around (block : BlockFormatter) (before after : Text) (t inner : Tree) (c : Context) :
    Outcome := do
  let lines ← concrete (body block) inner ⟨before, ← firstLine t, after, ← lastLine t⟩ c
  return (lines, ← lastLine inner)

/-! ## Variables and constants -/

def assigned (block : BlockFormatter) (before : Text) (t e : Tree) (c : Context) : Outcome := do
  behind block before t e (← lastLine t) c

def declared (block : BlockFormatter) (modifier : Text) (statement : Tree) (c : Context) :
    Outcome := do
  let t ← statement.part 0
  let kind ← t.kind
  let head ← do pure (modifier ++ "var ".toList ++ (← t.word 0))
  match kind with
  | .classVarEmpty | .funcVarEmpty => simple head t c
  | .classVarTyped | .funcVarTyped => simple (head ++ ": ".toList ++ (← t.word 1)) t c
  | .classVarAssigned | .funcVarAssigned => assigned block (head ++ " = ".toList) t (← t.part 1) c
  | .classVarInf | .funcVarInf => assigned block (head ++ " := ".toList) t (← t.part 1) c
  | .classVarTypedAssgnd | .funcVarTypedAssgnd =>
    assigned block (head ++ ": ".toList ++ (← t.word 1) ++ " = ".toList) t (← t.part 2) c
  | kind => .error (.unknownKind kind)

def constant (block : BlockFormatter) (statement : Tree) (c : Context) : Outcome := do
  let t ← statement.part 0
  let kind ← t.kind
  let head ← do pure ("const ".toList ++ (← t.word 0))
  match kind with
  | .constAssigned => assigned block (head ++ " = ".toList) t (← t.lastPart) c
  | .constTypedAssigned =>
    assigned block (head ++ ": ".toList ++ (← t.word 1) ++ " = ".toList) t (← t.lastPart) c
  | .constInf => assigned block (head ++ " := ".toList) t (← t.lastPart) c
  | kind => .error (.unknownKind kind)

/-! ## Branches -/

def under (block : BlockFormatter) (header : List Line) (statements : List Tree)
    (previous : Option Int) (c : Context) : Outcome := do
  let (lines, last) ← block statements (c.child previous)
  return (header ++ lines, last)

/-- A block under an expression, which is the child at position `i`. -/
def branch (block : BlockFormatter) (before : Text) (i : Nat) (t : Tree) (c : Context) :
    Outcome := do
  let e ← t.part i
  let n ← firstLine t
  let header ← expression (body block) e ⟨before, n, [':'], n⟩ c
  under block header (t.children.drop (i + 1)) (← lastLine e) c

def ifBranch (block : BlockFormatter) (t : Tree) (c : Context) : Outcome := do
  match ← t.kind with
  | .ifBranch => branch block "if ".toList 0 t c
  | .elifBranch => branch block "elif ".toList 0 t c
  | .elseBranch =>
    let n ← firstLine t
    under block [⟨n, c.margin ++ "else:".toList⟩] t.children n c
  | kind => .error (.unknownKind kind)

/-- Branches one after the other with the comments and empty lines between them. -/
def moreBranches (block : BlockFormatter) (c : Context) : Option Int → List Tree → Outcome
  | previous, [] => .ok ([], previous)
  | previous, t :: ts => do
    let blanks ← blanksBetween c (← number previous) (← number (← firstLine t))
    let (lines, previous) ← ifBranch block t c
    let (rest, last) ← moreBranches block c previous ts
    return (Block.separators blanks ++ lines ++ rest, last)

def branches (block : BlockFormatter) (c : Context) : List Tree → Outcome
  | [] => .ok ([], none)
  | t :: ts => do
    let (lines, previous) ← ifBranch block t c
    let (rest, last) ← moreBranches block c previous ts
    return (lines ++ rest, last)

def forLoop (block : BlockFormatter) (t : Tree) (c : Context) : Outcome := do
  branch block ("for ".toList ++ (← t.word 0) ++ " in ".toList) 1 t c

def typedForLoop (block : BlockFormatter) (t : Tree) (c : Context) : Outcome := do
  branch block ("for ".toList ++ (← t.word 0) ++ ": ".toList ++ (← t.word 1) ++ " in ".toList) 2 t c

def guarded (block : BlockFormatter) (t : Tree) (c : Context) : Outcome := do
  let pattern ← (← (← t.part 0).part 0).line
  branch block (pattern ++ " when ".toList) 1 t c

def returned (block : BlockFormatter) (t : Tree) (c : Context) : Outcome :=
  match t.children with
  | [] => simple "return".toList t c
  | e :: _ => do behind block "return ".toList t e (← firstLine t) c

def format (block : BlockFormatter) : StatementFormatter := fun t c => do
  match ← t.kind with
  | .passStmt => simple "pass".toList t c
  | .funcVarStmt => declared block [] t c
  | .constStmt => constant block t c
  | .exprStmt => behind block [] t (← t.part 0) (← firstLine t) c
  | .returnStmt => returned block t c
  | .breakStmt => simple "break".toList t c
  | .breakpointStmt => simple "breakpoint".toList t c
  | .continueStmt => simple "continue".toList t c
  | .ifStmt => branches block c t.children
  | .whileStmt => branch block "while ".toList 0 t c
  | .forStmt => forLoop block t c
  | .forStmtTyped => typedForLoop block t c
  | .matchStmt => branch block "match ".toList 0 t c
  | .matchBranch => branch block [] 0 t c
  | .guardedMatchBranch => guarded block t c
  | .annot => Annotations.standaloneLines (body block) t c
  | kind => .error (.unknownKind kind)

end Statement

/-- Lays out the block of a function in which blocks are nested at most `depth` deep. -/
def functionBlock : Nat → BlockFormatter
  | 0 => fun _ _ => .error .tooDeep
  | depth + 1 =>
    block true (Statement.format (functionBlock depth)) (Statement.body (functionBlock depth))

end GDWorkbench.Format
