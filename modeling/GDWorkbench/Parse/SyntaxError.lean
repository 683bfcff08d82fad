import GDWorkbench.Fault
import GDWorkbench.Layout
import GDWorkbench.Text.Quoted

/-!
Why a text is not GDScript, and how that is reported.
-/

namespace GDWorkbench

/-- Who refused a token. -/
inductive Refusal where
  /-- The parser, which had no use for it. -/
  | byParser
  /-- The scanner, since none of the terminals that could come next fits the text, though another
  one does. It names the token it had read before. -/
  | byScanner (previous : Option Token)
  deriving Repr

inductive SyntaxError where
  | token (token : Token) (refusal : Refusal) (expected : List Terminal)
  /-- No terminal at all fits the text at this place. -/
  | character (char : Char) (line column offset : Nat) (expected : List Terminal)
      (previous : Option Token) (text : Text)
  | layout (fault : Layout.Fault)
  deriving Repr

namespace Token

def listing (t : Token) : Text :=
  let shown := match t.text with
    | some text => Text.quoted text
    | none => "None".toList
  "Token('".toList ++ t.terminal.name.toList ++ "', ".toList ++ shown ++ [')']

end Token

namespace SyntaxError

def insertSorted (x : Text) : List Text → List Text
  | [] => [x]
  | y :: ys => if decide (x < y) then x :: y :: ys else y :: insertSorted x ys

def sorted (xs : List Text) : List Text :=
  xs.foldr insertSorted []

/-- A terminal without a name of its own is shown by its spelling. -/
def shownName (t : Terminal) : Text :=
  match t.isNameless, t.spelling with
  | true, some word => '"' :: word ++ ['"']
  | _, _ => t.name.toList

def expectedList (names : List Text) : Text :=
  let bullet := "\n\t* ".toList
  "Expected one of: ".toList ++ bullet ++ Text.join bullet (sorted names) ++ ['\n']

def optional (n : Option Nat) : Text :=
  match n with
  | some n => Text.ofNat n
  | none => "None".toList

def contextWidth : Nat := 40

def context (text : Text) (offset : Nat) : Text :=
  let before := (text.take offset).drop (offset - contextWidth)
  let before := (before.reverse.takeWhile (· != '\n')).reverse
  let after := ((text.drop offset).take contextWidth).takeWhile (· != '\n')
  before ++ after ++ ['\n'] ++ List.replicate (Text.expandTabs 8 0 before).length ' ' ++ "^\n".toList

def dedentMessage (found expected : Nat) : Text :=
  "Unexpected dedent to column ".toList ++ Text.ofNat found ++ ". Expected dedent to ".toList
    ++ Text.ofNat expected

def message : SyntaxError → Text
  | .token t refusal expected =>
    let place := "Unexpected token ".toList ++ t.listing ++ " at line ".toList ++ optional t.span.line
      ++ ", column ".toList ++ optional t.span.column ++ ".\n".toList
    match refusal with
    | .byParser => place ++ expectedList (expected.map fun t => t.name.toList)
    | .byScanner previous =>
      let shown := match previous with
        | some t => t.listing
        | none => "None".toList
      place ++ expectedList (expected.map shownName)
        ++ "Previous tokens: [".toList ++ shown ++ "]\n".toList
  | .character c line column offset expected previous text =>
    let place := "No terminal matches '".toList ++ c
      :: "' in the current parser context, at line ".toList ++ Text.ofNat line ++ " col ".toList
      ++ Text.ofNat column ++ "\n\n".toList
    let shown := match previous with
      | some t => "\nPrevious tokens: ".toList ++ t.listing ++ ['\n']
      | none => []
    place ++ context text offset ++ expectedList (expected.map shownName) ++ shown
  | .layout (.dedent found expected) => dedentMessage found expected
  | .layout .unmatchedBracket => "closing bracket without an opening one".toList
  | .layout .noLineFeed => "line end without a line feed".toList

/-- The message with the line the error is in, for the text that was parsed. -/
def report (code : Text) : SyntaxError → Text
  | e@(.token t _ _) =>
    match t.offset with
    | some offset => context code offset ++ '\n' :: message e
    | none => Text.trim (message e)
  | e@(.character ..) => Text.trim (message e)
  | e@(.layout _) => message e

end SyntaxError

/-- Why a source text could not be processed: it is no GDScript, or a pass stopped at its tree. -/
inductive Failure where
  | invalid (error : SyntaxError)
  | fault (fault : Fault)
  deriving Repr

namespace Failure

def ofSyntax {α : Type} : Except SyntaxError α → Except Failure α
  | .ok a => .ok a
  | .error e => .error (.invalid e)

def ofFault {α : Type} : Except Fault α → Except Failure α
  | .ok a => .ok a
  | .error f => .error (.fault f)

end Failure

end GDWorkbench
