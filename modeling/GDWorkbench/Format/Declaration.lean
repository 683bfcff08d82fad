import GDWorkbench.Format.Property

/-!
The statements of classes. The blocks of functions and of inner classes come as arguments.
-/

namespace GDWorkbench.Format

namespace Declaration

open Statement (simple around under)

def enumeration (functions : BlockFormatter) (t : Tree) (c : Context) : Outcome := do
  let inner ← t.part 0
  let before ← if inner.children.length = 2 then do
      pure ("enum ".toList ++ (← inner.word 0) ++ [' '])
    else pure "enum ".toList
  around functions before [] t (← inner.lastPart) c

def signal (functions : BlockFormatter) (t : Tree) (c : Context) : Outcome := do
  let head ← do pure ("signal ".toList ++ (← t.word 0))
  let isBare ← if t.children.length = 1 then pure true else do
    pure (← t.part 1).children.isEmpty
  if isBare then simple head t c else around functions head [] t (← t.lastPart) c

def path (ts : List Tree) : Except Fault Text := do
  if ts.isEmpty then return []
  return '.' :: Text.join ['.'] (← ts.mapM Tree.line)

def extending (t : Tree) (c : Context) : Outcome := do
  let text ← (← t.part 0).line
  simple ("extends ".toList ++ text ++ (← path (t.children.drop 1))) t c

def named (t : Tree) (c : Context) : Outcome := do
  simple ("class_name ".toList ++ (← t.word 0)) t c

def namedExtending (t : Tree) (c : Context) : Outcome := do
  let name ← t.word 1
  let base ← (← t.part 3).line
  simple ("class_name ".toList ++ name ++ " extends ".toList ++ base
    ++ (← path (t.children.drop 4))) t c

def variableLines (functions : BlockFormatter) (modifier : String) (statement : Tree)
    (c : Context) : Outcome := do
  let (lines, last) ← Statement.declared functions modifier.toList statement c
  let t ← statement.part 0
  if !t.children.any (·.isKind .inlinePropertyBody) then return (lines, last)
  match lines.getLast? with
  | none => .error .missingPart
  | some line =>
    return (lines.dropLast ++ (← Property.afterLine functions (← t.lastPart) c line), last)

def docstring (functions : BlockFormatter) (t : Tree) (c : Context) : Outcome := do
  around functions [] [] t (← t.part 0) c

def functionHeader (functions : BlockFormatter) (modifier stop : String) (t : Tree) (c : Context) :
    Outcome := do
  let name ← t.word 0
  let result ← if 2 < t.children.length then do pure (" -> ".toList ++ (← t.word 2)) else pure []
  around functions (modifier.toList ++ "func ".toList ++ name) (result ++ stop.toList) t (← t.part 1) c

def function (functions : BlockFormatter) (modifier : String) (t : Tree) (c : Context) :
    Outcome := do
  let (header, previous) ← functionHeader functions modifier ":" (← t.part 0) c
  under functions header t.children.tail previous c

def innerClass (classes : BlockFormatter) (t : Tree) (c : Context) : Outcome := do
  let n ← firstLine t
  let header := c.margin ++ "class ".toList ++ (← t.word 0) ++ [':']
  under classes [⟨n, header⟩] t.children.tail n c

def format (functions classes : BlockFormatter) : StatementFormatter := fun t c => do
  match ← t.kind with
  | .passStmt => simple "pass".toList t c
  | .enumStmt => enumeration functions t c
  | .signalStmt => signal functions t c
  | .extendsStmt => extending t c
  | .classnameStmt => named t c
  | .classnameExtendsStmt => namedExtending t c
  | .classVarStmt => variableLines functions "" t c
  | .staticClassVarStmt => variableLines functions "static " (← t.part 0) c
  | .constStmt => Statement.constant functions t c
  | .docstrStmt => docstring functions t c
  | .classDef => innerClass classes t c
  | .funcDef => function functions "" t c
  | .staticFuncDef => function functions "static " (← t.part 0) c
  | .abstractFuncDef => functionHeader functions "" "" (← t.part 0) c
  | .annot => Annotations.standaloneLines (Statement.body functions) t c
  | .propertyBodyDef => Property.standalone functions t c
  | kind => .error (.unknownKind kind)

end Declaration

/-- Lays out the block of a class in which classes are nested at most `depth` deep. -/
def classBlock (functions : BlockFormatter) : Nat → BlockFormatter
  | 0 => fun _ _ => .error .tooDeep
  | depth + 1 =>
    block false (Declaration.format functions (classBlock functions depth))
      (Statement.body functions)

end GDWorkbench.Format
