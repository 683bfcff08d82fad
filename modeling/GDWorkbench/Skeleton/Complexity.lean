import GDWorkbench.Skeleton
import GDWorkbench.Text.Normal

/-!
The cyclomatic complexity of functions and classes, measured on the skeleton of a file: one plus the
number of branches and loops of a function; for a class, what its methods have on average.
-/

namespace GDWorkbench.Skeleton

/-- A function or class with its place in the skeleton. Columns count from 0. -/
structure Measure where
  isClass : Bool
  line : Nat
  column : Nat
  name : Text
  complexity : Nat
  deriving DecidableEq, Repr

inductive Rank where
  | a | b | c | d | e | f
  deriving DecidableEq, Repr

namespace Rank

def ofComplexity (n : Nat) : Rank :=
  if n ≤ 5 then .a
  else if n ≤ 10 then .b
  else if n ≤ 20 then .c
  else if n ≤ 30 then .d
  else if n ≤ 40 then .e
  else .f

def letter : Rank → Char
  | .a => 'A'
  | .b => 'B'
  | .c => 'C'
  | .d => 'D'
  | .e => 'E'
  | .f => 'F'

end Rank

namespace Item

def height (item : Item) : Nat :=
  (item.lines 0).length

def heightOf (items : List Item) : Nat :=
  (linesOf 0 items).length

/-- Items with the number of the line each begins on, where the first one is on line `n`. -/
def numbered : Nat → List Item → List (Nat × Item)
  | _, [] => []
  | n, item :: rest => (n, item) :: numbered (n + item.height) rest

mutual

def decisions : Item → Nat
  | .block header body => headerDecisions header + decisionsOf body
  | _ => 0

def decisionsOf : List Item → Nat
  | [] => 0
  | item :: rest => decisions item + decisionsOf rest

def headerDecisions : Header → Nat
  | .ifOne | .elifOne | .whileOne | .forIn _ => 1
  | _ => 0

end

/-- The functions among items of some depth. Names are shown in normal form. -/
def functions (depth : Nat) (items : List (Nat × Item)) : List Measure :=
  items.filterMap fun (line, item) =>
    match item with
    | .block (.function name) body =>
      some ⟨false, line, depth, Text.normalized name, 1 + decisionsOf body⟩
    | .stub name => some ⟨false, line, depth, Text.normalized name, 1⟩
    | _ => none

def classComplexity (methods : List Measure) : Nat :=
  let total := methods.foldl (fun n m => n + m.complexity) 1
  match methods.length with
  | 0 => total
  | n => total / n + if 1 < n then 1 else 0

def classes (items : List (Nat × Item)) : List Measure :=
  items.flatMap fun (line, item) =>
    match item with
    | .block (.className name) body =>
      let methods := functions 1 (numbered (line + 1) body)
      ⟨true, line, 0, Text.normalized name, classComplexity methods⟩ :: methods
    | _ => []

end Item

/-- The outermost functions, then the outermost classes with their methods. -/
def measures (items : List Item) : List Measure :=
  let items := Item.numbered 1 items
  Item.functions 0 items ++ Item.classes items

/-! ## Flaws -/

/-- Where a name stands. -/
inductive NamePlace where
  | definition
  | assignment
  | loop
  deriving DecidableEq, Repr

/-- Why a skeleton is no Python. -/
inductive Flaw where
  | emptyBlock (header : Header) (line : Nat)
  | reservedName (name : Text) (place : NamePlace) (line : Nat)
  | tooDeep (line : Nat)
  | invalidCharacter (c : Char) (line : Nat)
  | nullCharacter
  deriving DecidableEq, Repr

def reservedWords : List String :=
  ["False", "None", "True", "and", "as", "assert", "async", "await", "break", "class", "continue",
   "def", "del", "elif", "else", "except", "finally", "for", "from", "global", "if", "import", "in",
   "is", "lambda", "nonlocal", "not", "or", "pass", "raise", "return", "try", "while", "with",
   "yield"]

def isReserved (name : Text) : Bool :=
  reservedWords.any fun word => word.toList = name

namespace Flaw

def ofName (name : Text) (place : NamePlace) (line : Nat) : Option Flaw :=
  if isReserved name then some (.reservedName name place line) else none

def ofHeader (line : Nat) : Header → Option Flaw
  | .className name | .function name => ofName name .definition line
  | .forIn name => ofName name .loop line
  | _ => none

def maxDepth : Nat := 100

def ofDepth (depth line : Nat) : Option Flaw :=
  if maxDepth ≤ depth + 1 then some (.tooDeep (line + 1)) else none

mutual

/-- The first flaw of an item that begins on a line, inside as many blocks as `depth` says. -/
def ofItem (depth line : Nat) : Item → Option Flaw
  | .word _ => none
  | .assignment name _ => ofName name .assignment line
  | .stub name => (ofName name .definition line).or (ofDepth depth line)
  | .block header body =>
    (ofHeader line header).or
      (if body.isEmpty then some (.emptyBlock header line)
      else (ofDepth depth line).or (ofItems (depth + 1) (line + 1) body))

def ofItems (depth line : Nat) : List Item → Option Flaw
  | [] => none
  | item :: rest => (ofItem depth line item).or (ofItems depth (line + item.height) rest)

end

/-! ### Characters -/

/-- The first character of a name that no identifier may have there. -/
def invalidIn? : Text → Option Char
  | [] => none
  | c :: rest => if Text.isStandardStart c then rest.find? (!Text.isStandardPart ·) else some c

def headerName? : Header → Option Text
  | .className name | .function name | .forIn name => some name
  | _ => none

mutual

/-- The names in an item that begins on a line, with the lines they stand on. -/
def namesIn (line : Nat) : Item → List (Text × Nat)
  | .word _ => []
  | .assignment name _ | .stub name => [(name, line)]
  | .block header body =>
    ((headerName? header).toList.map fun name => (name, line)) ++ namesInAll (line + 1) body

def namesInAll (line : Nat) : List Item → List (Text × Nat)
  | [] => []
  | item :: rest => namesIn line item ++ namesInAll (line + item.height) rest

end

def ofCharacters (items : List Item) : Option Flaw :=
  (namesInAll 1 items).findSome? fun (name, line) =>
    (invalidIn? name).map (.invalidCharacter · line)

def constructName : Header → Text
  | .className _ => "class definition".toList
  | .function _ => "function definition".toList
  | .ifOne => "'if' statement".toList
  | .elifOne => "'elif' statement".toList
  | .elseOnly => "'else' statement".toList
  | .whileOne => "'while' statement".toList
  | .forIn _ => "'for' statement".toList

def isConstant (name : Text) : Bool :=
  name = "None".toList || name = "True".toList || name = "False".toList

def reservedMessage (name : Text) (place : NamePlace) : Text :=
  if place ≠ .definition && isConstant name then "cannot assign to ".toList ++ name
  else if place = .assignment && name = "yield".toList then
    "assignment to yield expression not possible".toList
  else "invalid syntax".toList

def located (message : Text) (line : Nat) : Text :=
  message ++ " (<unknown>, line ".toList ++ Text.ofNat line ++ [')']

/-- The message for a flaw in a skeleton with the given number of lines. An empty block is noticed on
the next line, if there is one. -/
def message (height : Nat) : Flaw → Text
  | .emptyBlock header line =>
    located ("expected an indented block after ".toList ++ constructName header
      ++ " on line ".toList ++ Text.ofNat line) (min (line + 1) height)
  | .reservedName name place line => located (reservedMessage name place) line
  | .tooDeep line => located "too many levels of indentation".toList line
  | .invalidCharacter c line =>
    let code := "U+".toList ++ (Text.hexDigits 4 c.toNat).map Char.toUpper
    if Text.isPrintable c then
      located ("invalid character '".toList ++ c :: "' (".toList ++ code ++ [')']) line
    else located ("invalid non-printable character ".toList ++ code) line
  | .nullCharacter => "source code string cannot contain null bytes".toList

end Flaw

/-- The flaw that is noticed first. Characters are looked at before anything else. -/
def flaw? (items : List Item) : Option Flaw :=
  if (text items).any (· == '\x00') then some .nullCharacter
  else (Flaw.ofCharacters items).or (Flaw.ofItems 0 1 items)

end GDWorkbench.Skeleton
