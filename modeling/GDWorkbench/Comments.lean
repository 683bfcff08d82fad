import GDWorkbench.Lexicon
import GDWorkbench.Parse.SyntaxError

/-!
The comments of a text, found without parsing it: everything but comments is skipped, strings as a
whole, so that a number sign inside a string begins no comment.
-/

namespace GDWorkbench

namespace Comments

/-- What lies between comments: a string, or a stretch without quotation marks and number signs. -/
def skipped : Reader :=
  let plain (c : Char) : Bool := c != '#' && c != '"' && c != '\''
  Reader.orElse (Lexeme.reader .longString)
    (Reader.orElse (Lexeme.reader .regularString) (Reader.seq (Reader.char plain) (Reader.run plain)))

/-- Gathers comment tokens, latest first. Every turn takes at least one character. -/
def readUpTo (text : Text) : Nat → Cursor → List Token → Except SyntaxError (List Token)
  | 0, _, found => .ok found.reverse
  | bound + 1, c, found =>
    match c.rest with
    | [] => .ok found.reverse
    | first :: _ =>
      match skipped c.rest with
      | some (taken, rest) => readUpTo text bound (c.past taken rest) found
      | none =>
        match Lexeme.comment c.rest with
        | some (taken, rest) =>
          let stop := c.past taken rest
          readUpTo text bound stop (c.token .comment taken stop :: found)
        | none => .error (.character first c.line c.column c.offset [.comment] found.head? text)

end Comments

/-- The comment tokens of a text in order. Fails at a quotation mark that begins no string. -/
def parseComments (code : Text) : Except SyntaxError (List Token) :=
  Comments.readUpTo code (code.length + 1) (Cursor.ofText code) []

namespace Comments

/-- The texts of the comments without white space at their ends. -/
def texts (comments : List Token) : List Text :=
  comments.map fun t => Text.trimEnd t.content

/-- The comment that begins on a line, and the column it begins in. -/
def onLine (comments : List Token) (line : Nat) : Option (Text × Nat) :=
  (comments.find? (·.span.line = some line)).map fun t => (t.content, t.span.column.getD 1)

/-- For every line, numbered from 1, the comment that begins there if `wanted` holds of the text
before it. The entry of line 0 is always empty. -/
def byLine (wanted : Text → Bool) (code : Text) (comments : List Token) : List (Option Text) :=
  none :: (Text.lines code).zipIdx.map fun (line, i) =>
    match onLine comments (i + 1) with
    | some (text, column) =>
      if wanted (line.take (column - 1)) then some (Text.trimEnd text) else none
    | none => none

def standalone : Text → List Token → List (Option Text) :=
  byLine Text.allBlank

def inline : Text → List Token → List (Option Text) :=
  byLine fun before => !Text.allBlank before

end Comments

end GDWorkbench
