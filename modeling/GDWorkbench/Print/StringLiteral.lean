import GDWorkbench.Grammar.Terminal
import GDWorkbench.Text.Basic

/-!
The normal form of string literals. The quotation mark that occurs less often inside is taken to
enclose the literal, `"` where both occur equally often. When the mark changes, escapes in front of the
old one are dropped and the new one is escaped. A literal in three apostrophes is brought to one pair
of marks, one in three quotation marks stays as it is.
-/

namespace GDWorkbench.StringLiteral

def inner (text : Text) : Text :=
  text.tail.dropLast

def swapMarks (old new : Char) (text : Text) : Text :=
  Text.replace [new] ['\\', new] (Text.replace ['\\', old] [old] text)

def preferredMark (text : Text) : Char :=
  if text.count '"' ≤ text.count '\'' then '"' else '\''

def short (literal : Text) : Text :=
  let text := inner literal
  let mark := preferredMark text
  let text :=
    if mark = '"' && Text.startsWith literal ['\''] then swapMarks '\'' '"' text
    else if mark = '\'' && Text.startsWith literal ['"'] then swapMarks '"' '\'' text
    else text
  mark :: text ++ [mark]

def apostrophes : Text := "'''".toList

def long (literal : Text) : Text :=
  if Text.startsWith literal apostrophes && Text.endsWith literal apostrophes then
    short (inner (inner literal))
  else literal

/-- The text of a token as it is printed. The mark of a raw string is left off. -/
def normal (terminal : Terminal) (text : Text) : Text :=
  match terminal with
  | .longString => long text
  | .longRawString => long text.tail
  | .regularString => short text
  | .rawString => short text.tail
  | _ => text

end GDWorkbench.StringLiteral
