import GDWorkbench.Configuration
import GDWorkbench.Configuration.Node
import GDWorkbench.Configuration.Token.Read
import GDWorkbench.Text.Integer

/-!
Reading and writing configuration files. A text without quotation marks may be a number, a truth value or
nothing, and the kind of a value may also be named in front of it. Entries are written sorted by name.
-/

namespace GDWorkbench.Configuration

/-! ## Numbers and words -/

def isWord (words : List String) (text : Text) : Bool :=
  words.any fun word => word.toList = text

def isTruth (text : Text) : Bool :=
  isWord ["yes", "true", "on", "no", "false", "off"] (text.map Char.toLower)
    && (text.tail.all Char.isLower || text.all Char.isUpper)

def isNull (text : Text) : Bool :=
  isWord ["", "~", "null", "Null", "NULL"] text

def sixtieths (text : Text) : List Text :=
  Text.splitAt ':' text

def isSixtieth : Text → Bool
  | [c] => c.isDigit
  | [c, d] => '0' ≤ c && c ≤ '5' && d.isDigit
  | _ => false

/-- Digits with low lines between them, the first of which is a digit other than 0. -/
def isLongForm : Text → Bool
  | c :: rest => '1' ≤ c && c ≤ '9' && rest.all fun d => d.isDigit || d = '_'
  | [] => false

def withoutSign : Text → Text
  | '+' :: rest => rest
  | '-' :: rest => rest
  | text => text

/-- Whether a text is a number: in hexadecimal, binary, octal or decimal notation, or in sixtieths
with colons between them. -/
def isNumber (text : Text) : Bool :=
  match withoutSign text with
  | '0' :: 'b' :: digits => !digits.isEmpty && digits.all fun c => c = '0' || c = '1' || c = '_'
  | '0' :: 'x' :: digits => !digits.isEmpty && digits.all fun c => (Scan.hexValue? c).isSome || c = '_'
  | ['0'] => true
  | '0' :: digits => digits.all fun c => ('0' ≤ c && c ≤ '7') || c = '_'
  | digits =>
    match sixtieths digits with
    | first :: rest => isLongForm first && rest.all isSixtieth
    | [] => false

def digitsIn (base : Nat) (digits : Text) : Option Nat := do
  if digits.isEmpty then none
  let values ← digits.mapM Scan.hexValue?
  if values.any (base ≤ ·) then none
  return values.foldl (fun n d => base * n + d) 0

def naturalOf : Text → Option Nat
  | ['0'] => some 0
  | '0' :: 'b' :: digits => digitsIn 2 digits
  | '0' :: 'x' :: digits => digitsIn 16 digits
  | '0' :: digits => digitsIn 8 digits
  | digits => do
    let parts ← (sixtieths digits).mapM Text.natural?
    return parts.foldl (fun n part => 60 * n + part) 0

def numberOf (text : Text) : Except Defect Value :=
  let digits := text.filter (· != '_')
  match naturalOf (withoutSign digits), digits.head? with
  | some n, some '-' => .ok (.number (-n))
  | some n, _ => .ok (.number n)
  | none, _ => .error .badNumber

def truthOf (text : Text) : Except Defect Value :=
  let text := text.map Char.toLower
  if isWord ["yes", "true", "on"] text then .ok (.bool true)
  else if isWord ["no", "false", "off"] text then .ok (.bool false)
  else .error .badTruth

def plainValue (text : Text) : Except Defect Value :=
  if isTruth text then truthOf text
  else if isNumber text then numberOf text
  else if isNull text then .ok .null
  else if isWord ["=", "<<"] text then .error .badKind
  else .ok (.text text)

/-! ## Kinds -/

inductive Kind where
  | null
  | truth
  | number
  | text
  | list
  | map
  | set
  deriving DecidableEq, Repr

def kinds : List (String × Kind) :=
  [("null", .null), ("bool", .truth), ("int", .number), ("str", .text), ("seq", .list),
   ("map", .map), ("set", .set)]

def kindOf (name : Option Text) : Except Defect (Option Kind) :=
  match name with
  | none => .ok none
  | some name =>
    if name = ['!'] then .ok none
    else
      match kinds.find? fun k => "tag:yaml.org,2002:".toList ++ k.1.toList = name with
      | some k => .ok (some k.2)
      | none => .error .badKind

def scalarValue (kind : Option Kind) (isOpen : Bool) (text : Text) : Except Defect Value :=
  match kind with
  | none => if isOpen then plainValue text else .ok (.text text)
  | some .null => .ok .null
  | some .truth => truthOf text
  | some .number => numberOf text
  | some .text => .ok (.text text)
  | some _ => .error .badKind

/-- A name that is given again keeps its place and takes the later value. -/
def put (name : Text) (v : Value) : Configuration → Configuration
  | [] => [(name, v)]
  | entry :: rest =>
    if entry.1 = name then (name, v) :: rest else entry :: put name v rest

namespace Node

def isMerge : Node → Bool
  | .scalar kind text isPlain => (isPlain && kind = none || kind = some ['!']) && text = "<<".toList
  | _ => false

mutual

/-- The entries of a map in front of which those stand that it takes over from others. -/
def mergedEntries : Nat → List (Node × Node) → Except Defect (List (Node × Node))
  | 0, _ => .error .badKind
  | bound + 1, entries => do
    let taken ← (entries.filter (isMerge ·.1)).mapM fun entry => takenOver bound entry.2
    return taken.flatten ++ entries.filter (!isMerge ·.1)

/-- The entries that a map takes over from a map or from a list of them, of which the first counts
most. -/
def takenOver : Nat → Node → Except Defect (List (Node × Node))
  | 0, _ => .error .badKind
  | bound + 1, node => do
    match node with
    | .map _ entries => mergedEntries bound entries
    | .list _ items =>
      let parts ← items.mapM fun
        | .map _ entries => mergedEntries bound entries
        | _ => .error .badKind
      return parts.reverse.flatten
    | .scalar _ _ _ => .error .badKind

end

def name (value : Except Defect Value) (node : Node) : Except Defect Text := do
  match node with
  | .scalar none ['='] true => return ['=']
  | _ =>
    let v ← value
    if v.isCompound then throw .badKind
    return v.shown

/-- The value of a node. Nodes are nested less than `bound` deep. -/
def valueUpTo : Nat → Node → Except Defect Value
  | 0, _ => .error .badKind
  | bound + 1, node => do
    match node with
    | .scalar kind text isPlain =>
      scalarValue (← kindOf kind) (isPlain || kind = some ['!']) text
    | .list kind items =>
      if ((← kindOf kind).getD .list) ≠ .list then throw .badKind
      return .list (← items.mapM (valueUpTo bound))
    | .map kind entries =>
      let kind := (← kindOf kind).getD .map
      let given ← (← mergedEntries bound entries).mapM fun entry => do
        return (← name (valueUpTo bound entry.1) entry.1, ← valueUpTo bound entry.2)
      let entries := given.foldl (fun c entry => put entry.1 entry.2 c) []
      match kind with
      | .map => return .map entries
      | .set => return .set (entries.map (·.1))
      | _ => throw .badKind

end Node

def read (text : Text) : Except Defect Value :=
  let tokens := Tokens.ofText text
  match Node.ofTokens tokens with
  | .error defect => .error defect
  | .ok none => .ok .null
  | .ok (some node) => node.valueUpTo (tokens.tokens.length + 3)

/-! ## Writing -/

/-- Whether a text would be read as something else without apostrophes around it. -/
def needsQuotes (text : Text) : Bool :=
  let reads := match plainValue text with
    | .ok (.text _) => false
    | _ => true
  reads || text.head?.any (fun c => "[]\x7b\x7d,#&*!|>'\"%@ -?:".toList.contains c)
    || Text.contains ": ".toList text || Text.contains " #".toList text
    || Text.endsWith text [':'] || Text.endsWith text [' ']

def textForm (text : Text) : Text :=
  if needsQuotes text then
    '\'' :: text.flatMap (fun c => if c = '\'' then ['\'', '\''] else [c]) ++ ['\'']
  else text

def wordForm : Value → Text
  | .null => "null".toList
  | .bool true => "true".toList
  | .bool false => "false".toList
  | .number n => Text.ofInt n
  | .text t => textForm t
  | .list _ => "[]".toList
  | .set _ => "!!set \x7b\x7d".toList
  | .map _ => "\x7b\x7d".toList

def entryLines (entry : Text × Value) : List Text :=
  let name := textForm entry.1
  match entry.2 with
  | .list (item :: rest) =>
    (name ++ [':']) :: (item :: rest).map fun v => "- ".toList ++ wordForm v
  | .set (n :: rest) =>
    (name ++ ": !!set".toList) :: (n :: rest).map fun n =>
      "  ".toList ++ textForm n ++ ": null".toList
  | v => [name ++ ": ".toList ++ wordForm v]

def insertEntry (entry : Text × Value) : List (Text × Value) → List (Text × Value)
  | [] => [entry]
  | e :: es => if decide (e.1 < entry.1) then e :: insertEntry entry es else entry :: e :: es

def write (c : Configuration) : Text :=
  ((c.foldr insertEntry []).flatMap entryLines).flatMap fun line => line ++ ['\n']

end GDWorkbench.Configuration
