import GDWorkbench.Grammar.Terminal
import GDWorkbench.Text.Identifier

/-!
What each terminal looks like. A reader takes as much of the text as its terminal covers and gives
what it took and what is left; it never looks for a shorter reading once it has found one.
-/

namespace GDWorkbench

abbrev Reader := Text → Option (Text × Text)

namespace Reader

def char (p : Char → Bool) : Reader
  | [] => none
  | c :: rest => if p c then some ([c], rest) else none

def literal (word : Text) : Reader := fun text =>
  (Text.after? word text).map (word, ·)

def run (p : Char → Bool) : Reader := fun text =>
  some (text.takeWhile p, text.dropWhile p)

def seq (a b : Reader) : Reader := fun text => do
  let (first, rest) ← a text
  let (second, rest) ← b rest
  return (first ++ second, rest)

def orElse (a b : Reader) : Reader := fun text =>
  match a text with
  | some found => some found
  | none => b text

def opt (a : Reader) : Reader :=
  orElse a fun text => some ([], text)

/-- One reading after the other while there is one, at most one for every character of `bound`. -/
def manyUpTo (a : Reader) : Text → Reader
  | [] => fun text => some ([], text)
  | _ :: bound => opt (seq a (manyUpTo a bound))

/-- A reading is never empty, so that the text itself bounds their number. -/
def many (a : Reader) : Reader := fun text =>
  manyUpTo a text text

def many1 (a : Reader) : Reader :=
  seq a (many a)

end Reader

namespace Lexeme

open Reader

def isDigit (c : Char) : Bool :=
  '0' ≤ c && c ≤ '9'

def isHexDigit (c : Char) : Bool :=
  isDigit c || ('a' ≤ c && c ≤ 'f') || ('A' ≤ c && c ≤ 'F')

def isBinaryDigit (c : Char) : Bool :=
  c = '0' || c = '1'

def orUnderscore (p : Char → Bool) (c : Char) : Bool :=
  p c || c = '_'

def identifier : Reader :=
  seq (char Text.isIdentifierStart) (run Text.isIdentifierPart)

def blank? : Reader :=
  opt (char (· == ' '))

/-- Identifiers joined by dots, with at most one blank on either side of a dot. -/
def typePath : Reader :=
  seq identifier (many (seq blank? (seq (char (· == '.')) (seq blank? identifier))))

/-- A type path, perhaps with one or two type paths in brackets behind it. -/
def typeHint : Reader :=
  let second := seq blank? (seq (char (· == ',')) (seq blank? typePath))
  seq typePath
    (opt (seq (char (· == '[')) (seq typePath (seq (opt second) (char (· == ']'))))))

def sign? : Reader :=
  opt (char fun c => c == '+' || c == '-')

def integer : Reader :=
  seq (char isDigit) (run (orUnderscore isDigit))

def exponent : Reader :=
  seq (char fun c => c == 'e' || c == 'E') (seq sign? integer)

def decimal : Reader :=
  let point := char (· == '.')
  orElse (seq integer (seq point (opt integer))) (seq point integer)

def number : Reader :=
  seq sign? (orElse (seq integer exponent) (orElse (seq decimal (opt exponent)) integer))

def based (mark : Char) (digit : Char → Bool) : Reader :=
  seq (opt (char (· == '-'))) (seq (literal ['0', mark])
    (seq (char digit) (run (orUnderscore digit))))

/-- The rest of a string up to and including its closing marks. The marks do not close it behind an
odd number of backslashes; `even` says that the number so far is even. -/
def closing (marks : Text) (multiline : Bool) : Bool → Reader
  | even, text =>
    match text with
    | [] => none
    | c :: rest =>
      match if even then Text.after? marks (c :: rest) else none with
      | some left => some (marks, left)
      | none =>
        if c = '\n' && !multiline then none
        else match closing marks multiline (c != '\\' || !even) rest with
          | some (taken, left) => some (c :: taken, left)
          | none => none

/-- A string between single marks stays on one line, and three marks in a row do not begin it. -/
def shortString (mark : Char) : Reader := fun text =>
  match text with
  | [] => none
  | c :: rest =>
    if c = mark && !Text.startsWith rest [mark, mark] then
      (closing [mark] false true rest).map fun (taken, left) => (c :: taken, left)
    else none

def longString (mark : Char) : Reader :=
  let marks := [mark, mark, mark]
  seq (literal marks) (closing marks true true)

def rawMark : Reader :=
  char fun c => c == 'r' || c == 'R'

def eitherMark (string : Char → Reader) : Reader :=
  orElse (string '"') (string '\'')

def lineFeed : Reader :=
  seq (opt (char (· == '\r'))) (char (· == '\n'))

def comment : Reader :=
  seq (char (· == '#')) (run (· != '\n'))

/-- Line ends with the indentation behind them, and comments, in any order. -/
def newline : Reader :=
  many1 (orElse (seq lineFeed (run fun c => c == '\t' || c == ' ')) comment)

def blanks : Reader :=
  many1 (char fun c => c == ' ' || c == '\t')

def lineJoin : Reader :=
  seq (char (· == '\\')) (seq (run fun c => c == '\t' || c == ' ' || c == '\x0c') lineFeed)

def raw (string : Char → Reader) : Reader :=
  orElse (seq rawMark (string '"')) (seq rawMark (string '\''))

/-- How a terminal is read. Terminals that only the layout of a file gives are never read. -/
def reader (t : Terminal) : Reader :=
  match t with
  | .hex => based 'x' isHexDigit
  | .bin => based 'b' isBinaryDigit
  | .typeHint => typeHint
  | .number => number
  | .longRawString => raw longString
  | .longString => eitherMark longString
  | .rawString => raw shortString
  | .identifier => identifier
  | .regularString => eitherMark shortString
  | .newline => newline
  | .blanks => blanks
  | .lineJoin => lineJoin
  | .comment => comment
  | t => match t.spelling with
    | some word => literal word
    | none => fun _ => none

end Lexeme

end GDWorkbench
