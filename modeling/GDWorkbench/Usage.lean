import GDWorkbench.Pattern.Read
import GDWorkbench.Text.Quoted

/-!
Command lines: options with a short or a long name, and arguments. A usage lists the forms a command
line may take; one that fits none of them is refused with the usage.
-/

namespace GDWorkbench

namespace Usage

structure Spec where
  short : Option Text
  long : Option Text
  takesValue : Bool
  deriving DecidableEq, Repr

def Spec.name (s : Spec) : Text :=
  (s.long.orElse fun _ => s.short).getD []

/-- A part of a command line that has been read. -/
inductive Item where
  /-- An option that takes no value is given with none. -/
  | option (spec : Spec) (value : Option Text)
  | argument (text : Text)
  deriving DecidableEq, Repr

namespace Item

def optionalQuoted (t : Option Text) : Text :=
  match t with
  | some t => Text.quoted t
  | none => "None".toList

def listing : Item → Text
  | .option spec value =>
    let shown := match value with
      | some v => Text.quoted v
      | none => "True".toList
    "Option(".toList ++ optionalQuoted spec.short ++ ", ".toList ++ optionalQuoted spec.long
      ++ ", ".toList ++ (if spec.takesValue then ['1'] else ['0']) ++ ", ".toList ++ shown ++ [')']
  | .argument text => "Argument(None, ".toList ++ Text.quoted text ++ [')']

def isOption (name : Text) : Item → Bool
  | .option spec _ => spec.name = name
  | .argument _ => false

def argument? : Item → Option Text
  | .argument text => some text
  | .option _ _ => none

end Item

/-! ## Reading -/

abbrev Refusal := Text

/-- The options known so far, the items read and the words left. -/
structure Reading where
  known : List Spec
  items : List Item
  words : List Text

def numberPattern : Option Pattern :=
  (Pattern.read ("[+-]?(\\d+(_\\d+)*(\\.(\\d+(_\\d+)*)?)?|\\.\\d+(_\\d+)*)([eE][+-]?\\d+(_\\d+)*)?"
    ++ "|[+-]?(?ai:inf|infinity|nan)").toList).toOption

def isNumber (word : Text) : Bool :=
  numberPattern.any (·.holds word)

/-- The options a long name may mean: the one of that name, or else the only one that begins so. -/
def meant (known : List Spec) (name : Text) : Option Spec :=
  match known.find? fun s => s.long = some name with
  | some s => some s
  | none =>
    match known.filter fun s => s.long.any (Text.startsWith · name) with
    | [s] => some s
    | _ => none

def nextValue (name : Text) : List Text → Except Refusal (Text × List Text)
  | [] => .error (name ++ " requires argument".toList)
  | word :: words =>
    if word = "--".toList then .error (name ++ " requires argument".toList) else .ok (word, words)

def readLong (r : Reading) (word : Text) : Except Refusal Reading := do
  let name := word.takeWhile (· != '=')
  let hasSign := word.length ≠ name.length
  let value : Option Text := if hasSign then some (word.drop (name.length + 1)) else none
  match meant r.known name with
  | none =>
    let spec : Spec := ⟨none, some name, hasSign⟩
    return { r with known := r.known ++ [spec], items := r.items ++ [.option spec value] }
  | some spec =>
    let long := spec.long.getD []
    match spec.takesValue, value with
    | false, none => return { r with items := r.items ++ [.option spec none] }
    | false, some _ => .error (long ++ " must not have an argument".toList)
    | true, some v => return { r with items := r.items ++ [.option spec (some v)] }
    | true, none =>
      let (v, words) ← nextValue long r.words
      return { r with items := r.items ++ [.option spec (some v)], words }

/-- Short options in one word, the last of which may take a value. -/
def readShorts (r : Reading) : Text → Except Refusal Reading
  | [] => .ok r
  | c :: rest =>
    let short : Text := ['-', c]
    match r.known.find? fun s => s.short = some short with
    | none =>
      let spec : Spec := ⟨some short, none, false⟩
      readShorts { r with known := r.known ++ [spec], items := r.items ++ [.option spec none] } rest
    | some spec =>
      if !spec.takesValue then readShorts { r with items := r.items ++ [.option spec none] } rest
      else if !rest.isEmpty then .ok { r with items := r.items ++ [.option spec (some rest)] }
      else do
        let (v, words) ← nextValue short r.words
        return { r with items := r.items ++ [.option spec (some v)], words }

/-- Reads words until none are left; every turn takes at least one. Two dashes make arguments of
themselves and of all that follows. -/
def readUpTo : Nat → Reading → Except Refusal (List Item)
  | 0, r => .ok r.items
  | bound + 1, r =>
    match r.words with
    | [] => .ok r.items
    | word :: words =>
      if word = "--".toList then .ok (r.items ++ r.words.map .argument)
      else if Text.startsWith word "--".toList then do
        readUpTo bound (← readLong { r with words } word)
      else if Text.startsWith word ['-'] && word ≠ ['-'] && !isNumber word then do
        readUpTo bound (← readShorts { r with words } (word.dropWhile (· == '-')))
      else readUpTo bound { r with items := r.items ++ [.argument word], words }

def readItems (known : List Spec) (words : List Text) : Except Refusal (List Item) :=
  readUpTo (words.length + 1) ⟨known, [], words⟩

/-! ## Forms -/

inductive Arity where
  | zero
  | one
  | many
  deriving DecidableEq, Repr

/-- A form a command line may take. -/
structure Form where
  /-- The word that has to come first. -/
  command : Option Text
  /-- The options that have to be there. -/
  required : List Spec
  arguments : Arity
  /-- The options that may be there, each once. -/
  accepted : List Spec

def takeOption (spec : Spec) (left : List Item) : Option (Item × List Item) :=
  (left.find? (·.isOption spec.name)).map fun item => (item, left.erase item)

def takeArgument (left : List Item) : Option (Text × List Item) :=
  (left.findSome? Item.argument?).map fun text => (text, left.erase (.argument text))

/-- What a form has taken, and what is left. -/
structure Fit where
  arguments : List Text
  options : List Item
  left : List Item

def Fit.acceptAll (fit : Fit) (specs : List Spec) : Fit :=
  specs.foldl (fun fit spec =>
    match takeOption spec fit.left with
    | some (item, left) => { fit with options := fit.options ++ [item], left }
    | none => fit) fit

def Fit.requireAll (fit : Fit) (specs : List Spec) : Option Fit :=
  specs.foldlM (fun fit spec => do
    let (item, left) ← takeOption spec fit.left
    return { fit with options := fit.options ++ [item], left }) fit

def Fit.takeCommand (fit : Fit) : Option Text → Option Fit
  | none => some fit
  | some command => do
    let (word, left) ← takeArgument fit.left
    if word = command then some { fit with left } else none

def Fit.takeArguments (fit : Fit) : Arity → Option Fit
  | .zero => some fit
  | .one => do
    let (word, left) ← takeArgument fit.left
    return { fit with arguments := [word], left }
  | .many =>
    match fit.left.filterMap Item.argument? with
    | [] => none
    | words => some { fit with
        arguments := words
        left := fit.left.filter fun item => item.argument?.isNone }

def Form.fit (form : Form) (items : List Item) : Option Fit := do
  let fit ← Fit.takeCommand ⟨[], [], items⟩ form.command
  let fit ← fit.requireAll form.required
  let fit ← fit.takeArguments form.arguments
  return fit.acceptAll form.accepted

def best : List Fit → Option Fit
  | [] => none
  | fit :: rest =>
    match best rest with
    | none => some fit
    | some other => if other.left.length < fit.left.length then some other else some fit

/-! ## Usages -/

inductive Reply where
  /-- The command line fits. -/
  | fits (arguments : List Text) (options : List Item)
  /-- The text that was asked for. -/
  | shows (text : Text)
  /-- A refusal with the usage. -/
  | refuses (message : Text)
  deriving Repr

end Usage

structure Usage where
  name : String
  help : String
  /-- The lines that list the forms. -/
  synopsis : String
  known : List Usage.Spec
  forms : List Usage.Form

namespace Usage

def version : String := "4.5.1"

def refuse (u : Usage) (message : Text) : Reply :=
  .refuses (if message.isEmpty then u.synopsis.toList else message ++ '\n' :: u.synopsis.toList)

def leftOver (items : List Item) : Text :=
  "Warning: found unmatched (duplicate?) arguments [".toList
    ++ Text.join ", ".toList (items.map Item.listing) ++ [']']

def reply (u : Usage) (words : List Text) : Reply :=
  match readItems u.known words with
  | .error message => u.refuse message
  | .ok items =>
    if items.any (·.isOption "--help".toList) then .shows u.help.toList
    else if items.any (·.isOption "--version".toList) then
      .shows (u.name ++ " " ++ version).toList
    else
      match best (u.forms.filterMap (·.fit items)) with
      | some ⟨arguments, options, []⟩ => .fits arguments options
      | some fit => u.refuse (leftOver fit.left)
      | none => u.refuse (if items.isEmpty then [] else leftOver items)

def has (options : List Item) (name : String) : Bool :=
  options.any (·.isOption name.toList)

def value? (options : List Item) (name : String) : Option Text :=
  options.findSome? fun item =>
    match item with
    | .option spec value => if spec.name = name.toList then value else none
    | .argument _ => none

def helpSpec : Spec := ⟨some "-h".toList, some "--help".toList, false⟩
def versionSpec : Spec := ⟨none, some "--version".toList, false⟩

def flag (short : Option String) (long : String) : Spec :=
  ⟨short.map String.toList, some long.toList, false⟩

def valued (short : Option String) (long : String) : Spec :=
  ⟨short.map String.toList, some long.toList, true⟩

end Usage

end GDWorkbench
