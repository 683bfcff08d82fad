import GDWorkbench.Lexeme
import GDWorkbench.Token

/-!
Reading the next token. Which terminals may come next depends on what has been parsed so far; a
lexicon is such a choice of terminals. The first terminal in their order that fits is taken, however
long its text. Keywords are not tried on their own where an identifier may stand: there the
identifier is read first, and is a keyword if its whole text is one.
-/

namespace GDWorkbench

namespace Terminal

def isIgnored : Terminal → Bool
  | .blanks | .lineJoin | .comment => true
  | _ => false

def readsWords : Terminal → Bool
  | .identifier | .typeHint => true
  | _ => false

/-- A set of terminals as a number with a bit for each of them. -/
def bits (ts : List Terminal) : Nat :=
  ts.foldl (fun set t => set ||| 1 <<< t.ctorIdx) 0

/-- What is tried at any place. -/
def anywhere : Nat :=
  bits [.newline, .blanks, .lineJoin, .comment]

def isWord (t : Terminal) : Bool :=
  match t.spelling with
  | some word =>
    match Lexeme.identifier word with
    | some (_, rest) => rest.isEmpty
    | none => false
  | none => false

end Terminal

structure Lexicon where
  /-- The terminals to try, in order. -/
  tried : List Terminal
  /-- The keywords that an identifier may turn out to be. -/
  words : List Terminal
  deriving Repr, Inhabited

namespace Lexicon

def ofExpected (expected : Nat) : Lexicon :=
  let candidates := Terminal.inOrder.filter fun t =>
    (expected ||| Terminal.anywhere).testBit t.ctorIdx
  if candidates.any Terminal.readsWords then
    ⟨candidates.filter fun t => !t.isWord, candidates.filter Terminal.isWord⟩
  else ⟨candidates, []⟩

def full : Lexicon := ofExpected (Terminal.bits Terminal.inOrder)

def listed (l : Lexicon) : List Terminal :=
  l.tried.filter fun t => !t.isIgnored

def wordFor (l : Lexicon) (t : Terminal) (text : Text) : Terminal :=
  if t.readsWords then
    (l.words.find? fun w => w.spelling.any fun word => word = text).getD t
  else t

def firstOf (text : Text) : List Terminal → Option (Terminal × Text × Text)
  | [] => none
  | t :: more =>
    match Lexeme.reader t text with
    | some (taken, rest) => some (t, taken, rest)
    | none => firstOf text more

def read (l : Lexicon) (text : Text) : Option (Terminal × Text × Text) :=
  (firstOf text l.tried).map fun (t, taken, rest) => (l.wordFor t taken, taken, rest)

end Lexicon

/-- A place in a text: what is left, and where that begins. -/
structure Cursor where
  rest : Text
  offset : Nat
  line : Nat
  column : Nat
  deriving Repr, Inhabited

namespace Cursor

def ofText (text : Text) : Cursor := ⟨text, 0, 1, 1⟩

/-- The place behind `taken`, which the text goes on from with `rest`. -/
def past (c : Cursor) (taken rest : Text) : Cursor :=
  let newLines := taken.count '\n'
  { rest := rest
    offset := c.offset + taken.length
    line := c.line + newLines
    column :=
      if newLines = 0 then c.column + taken.length
      else (taken.reverse.takeWhile (· != '\n')).length + 1 }

def token (c : Cursor) (terminal : Terminal) (taken : Text) (stop : Cursor) : Token :=
  { terminal := terminal
    text := some taken
    span := ⟨some c.line, some c.column, some stop.line, some stop.column⟩
    offset := some c.offset }

end Cursor

inductive Scanned where
  | token (token : Token) (next : Cursor)
  | finished
  | stuck (here : Cursor)
  deriving Inhabited

namespace Lexicon

/-- The next token that is not ignored, in at most one step for every character of `bound`. -/
def nextUpTo (l : Lexicon) (ignored : Terminal → Bool) : Text → Cursor → Scanned
  | [], c => if c.rest.isEmpty then .finished else .stuck c
  | _ :: bound, c =>
    if c.rest.isEmpty then .finished
    else match l.read c.rest with
      | none => .stuck c
      | some (terminal, taken, rest) =>
        let stop := c.past taken rest
        if ignored terminal then nextUpTo l ignored bound stop
        else .token (c.token terminal taken stop) stop

/-- Every step takes at least one character, so that what is left bounds their number. -/
def next (l : Lexicon) (c : Cursor) : Scanned :=
  l.nextUpTo Terminal.isIgnored c.rest c

end Lexicon

end GDWorkbench
