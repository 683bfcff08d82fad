import GDWorkbench.Configuration.Token

/-!
A place in the text of a configuration file, together with what is known there: how the lines above
are indented, how many brackets are open and which tokens may still turn out to be names of entries.
-/

namespace GDWorkbench.Configuration

/-- A token in front of which an entry may start: it does if a colon follows on its line. -/
structure Candidate where
  /-- How many brackets are open around it. -/
  depth : Int
  /-- How many tokens are in front of it. -/
  position : Nat
  /-- Whether nothing else can stand there. -/
  isRequired : Bool
  index : Nat
  line : Nat
  column : Nat
  deriving Repr

structure Cursor where
  rest : Text
  index : Nat
  line : Nat
  column : Nat
  /-- How many brackets are open. It is below zero after one too many is closed. -/
  depth : Int
  /-- The column of the lines of the innermost list or map, and those of the ones around it. -/
  indent : Int
  indents : List Int
  /-- Whether the name of an entry may start here. -/
  allowsKey : Bool
  candidates : List Candidate
  /-- The tokens so far, the last one first. -/
  tokens : List Token
  deriving Repr

abbrev Scan := StateT Cursor (Except Defect)

/-! ## Characters -/

def isBreak (c : Char) : Bool :=
  c = '\n' || c = '\r' || c = '\x85' || c = '\u2028' || c = '\u2029'

def isGap (c : Char) : Bool :=
  c = ' ' || c = '\t' || isBreak c

/-- Whether a text is at its end or goes on with such a character. -/
def endsAt (p : Char → Bool) (text : Text) : Bool :=
  text.head?.all p

def isSpaceOrBreak (c : Char) : Bool :=
  c = ' ' || isBreak c

/-- The characters of names: letters, digits, dashes and low lines. -/
def isNameChar (c : Char) : Bool :=
  c.isAlphanum || c = '-' || c = '_'

namespace Cursor

def start (text : Text) : Cursor :=
  { rest := text, index := 0, line := 0, column := 0, depth := 0, indent := -1, indents := []
    allowsKey := true, candidates := [], tokens := [] }

/-- One character further. A carriage return in front of a line feed does not end its line. -/
def next (c : Cursor) : Cursor :=
  match c.rest with
  | [] => c
  | char :: rest =>
    let further := { c with rest := rest, index := c.index + 1 }
    if isBreak char && !(char = '\r' && rest.head? = some '\n') then
      { further with line := c.line + 1, column := 0 }
    else if char = '\ufeff' then further
    else { further with column := c.column + 1 }

def isBetweenBrackets (c : Cursor) : Bool :=
  c.depth != 0

/-- Whether the text goes on with a line of three dashes or points. -/
def isAtSeparator (c : Cursor) : Bool :=
  match c.rest with
  | '-' :: '-' :: '-' :: rest => endsAt isGap rest
  | '.' :: '.' :: '.' :: rest => endsAt isGap rest
  | _ => false

end Cursor

/-! ## Steps -/

namespace Scan

def advance : Nat → Scan Unit
  | 0 => return
  | n + 1 => do
    modify Cursor.next
    advance n

def rest : Scan Text :=
  return (← get).rest

def takeWhile (p : Char → Bool) : Scan Text := do
  let taken := (← rest).takeWhile p
  advance taken.length
  return taken

def skipSpaces : Scan Unit := do
  let _ ← takeWhile (· = ' ')

def expectAt (p : Char → Bool) : Scan Unit := do
  if !endsAt p (← rest) then throw .badToken

/-- A line break, if there is one, as a line feed unless it is one of the separators for lines and
paragraphs. -/
def lineBreak : Scan Text := do
  match ← rest with
  | '\r' :: '\n' :: _ =>
    advance 2
    return ['\n']
  | c :: _ =>
    if !isBreak c then return []
    advance 1
    return if c = '\u2028' || c = '\u2029' then [c] else ['\n']
  | [] => return []

def skipLineEnd : Scan Unit := do
  skipSpaces
  if (← rest).head? = some '#' then
    let _ ← takeWhile (!isBreak ·)
  expectAt isBreak
  let _ ← lineBreak

def push (token : Token) : Scan Unit :=
  modify fun c => { c with tokens := token :: c.tokens }

def insertAt (position : Nat) (token : Token) : Scan Unit :=
  modify fun c =>
    let behind := c.tokens.length - position
    { c with tokens := c.tokens.take behind ++ token :: c.tokens.drop behind }

end Scan

end GDWorkbench.Configuration
