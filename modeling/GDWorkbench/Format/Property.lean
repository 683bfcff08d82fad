import GDWorkbench.Format.Statement

/-!
The getters and setters of variables: delegates, which name a function, or blocks of their own.
-/

namespace GDWorkbench.Format

namespace Property

def setter (functions : BlockFormatter) (t : Tree) (c : Context) : Outcome := do
  let argument ← t.part 1
  if argument.isNode then .error .unmet
  let n ← firstLine t
  let header := c.margin ++ "set(".toList ++ (← argument.tokenText) ++ "):".toList
  Statement.under functions [⟨n, header⟩] (t.children.drop 2) n c

def getter (functions : BlockFormatter) (t : Tree) (c : Context) : Outcome := do
  let second ← t.part 1
  let hasArguments := (← second.kind) = .propertyCustomGetterArgs
  let arguments ← if hasArguments then second.line else pure []
  let n ← firstLine t
  let header := c.margin ++ "get".toList ++ arguments ++ [':']
  Statement.under functions [⟨n, header⟩] (t.children.drop (if hasArguments then 2 else 1)) n c

def delegate (t : Tree) (c : Context) : Outcome := do
  let n ← firstLine t
  let text ← do pure ((← t.word 0) ++ " = ".toList ++ (← t.word 2))
  return ([⟨n, c.margin ++ text⟩], n)

def format (functions : BlockFormatter) : StatementFormatter := fun t c => do
  match ← t.kind with
  | .propertyDelegateSet | .propertyDelegateGet => delegate t c
  | .propertyCustomGetter => getter functions t c
  | .propertyCustomSetter => setter functions t c
  | kind => .error (.unknownKind kind)

/-- A comma behind the first line that comes from the given line of the source. -/
def withComma (n : Option Int) : List Line → List Line
  | [] => []
  | line :: rest =>
    if line.number = n then { line with text := line.text ++ [','] } :: rest
    else line :: withComma n rest

def isDelegate (t : Tree) : Bool :=
  t.isKind .propertyDelegateSet || t.isKind .propertyDelegateGet

/-- The parts of a property as a block behind the line `previous`. Two delegates are divided by a
comma. -/
def bodyLines (functions : BlockFormatter) (parts : List Tree) (previous : Option Int)
    (c : Context) : Outcome := do
  let (lines, last) ← block false (format functions) (Statement.body functions) parts
    (c.child previous)
  match parts with
  | [] => .error .missingPart
  | [first] => do
    let _ ← first.kind
    return (lines, last)
  | first :: _ => do
    let _ ← first.kind
    if isDelegate first then return (withComma (← firstLine first) lines, last)
    return (lines, last)

def standalone (functions : BlockFormatter) : StatementFormatter := fun t c => do
  bodyLines functions t.children (← firstLine t) c

/-- A property that begins on the line of its variable is put below that line. -/
def afterLine (functions : BlockFormatter) (property : Tree) (c : Context) (line : Line) : Lines := do
  let header := { line with text := line.text ++ [':'] }
  match property.children with
  | [] => return [header]
  | first :: _ => return header :: (← bodyLines functions property.children (← firstLine first) c).1

end Property

end GDWorkbench.Format
