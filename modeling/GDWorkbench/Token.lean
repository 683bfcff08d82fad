import GDWorkbench.Grammar.Terminal
import GDWorkbench.Text.Basic

/-!
Tokens: a terminal, its text and where it stands. Tokens that the layout of a file stands for may
have no text or only part of a position.
-/

namespace GDWorkbench

/-- Where something begins and where it ends. Lines and columns count from 1, and the end column is
the one after the last character. -/
structure Span where
  line : Option Nat
  column : Option Nat
  endLine : Option Nat
  endColumn : Option Nat
  deriving DecidableEq, Repr, Inhabited

namespace Span

def nowhere : Span := ⟨none, none, none, none⟩

def upTo (first last : Span) : Span :=
  ⟨first.line, first.column, last.endLine, last.endColumn⟩

end Span

structure Token where
  terminal : Terminal
  text : Option Text
  span : Span
  /-- How many characters stand before the token. -/
  offset : Option Nat
  deriving DecidableEq, Repr, Inhabited

namespace Token

def content (t : Token) : Text :=
  t.text.getD []

def borrow (t : Token) (terminal : Terminal) (text : Text) : Token :=
  { t with terminal := terminal, text := some text }

/-- Same terminal and same text, wherever the two tokens stand. -/
def same (a b : Token) : Bool :=
  a.terminal = b.terminal && a.content = b.content

end Token

end GDWorkbench
