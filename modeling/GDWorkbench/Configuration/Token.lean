import GDWorkbench.Text.Basic

/-!
What the text of a configuration file consists of. Indentation shows in the tokens: a list or a map
that is laid out over lines starts where a line is indented further and ends where one is indented
less.
-/

namespace GDWorkbench.Configuration

/-- Why a text is no configuration. -/
inductive Defect where
  /-- A character that no text may hold. -/
  | unprintable
  /-- Characters that form no token, or one that must not stand there. -/
  | badToken
  /-- Tokens that form no value. -/
  | badOrder
  /-- A mark that stands for no value or for two, or a second document. -/
  | badReference
  /-- A value that is not of its kind. -/
  | badKind
  /-- A number without digits, or one that is too long. -/
  | badNumber
  /-- A word that is no truth value. -/
  | badTruth
  deriving DecidableEq, Repr

inductive Directive where
  | version (major : Text)
  /-- A short form for the beginning of a kind's name. -/
  | handle (name stem : Text)
  | other
  deriving DecidableEq, Repr

inductive Token where
  | directive (directive : Directive)
  | documentStart
  | documentEnd
  | textEnd
  | listBlock
  | mapBlock
  | blockEnd
  | openBracket
  | closeBracket
  | openBrace
  | closeBrace
  /-- The dash of an item. -/
  | dash
  | comma
  | key
  | value
  /-- A mark for the value that follows. -/
  | anchor (name : Text)
  /-- The value that has the mark. -/
  | alias (name : Text)
  /-- The kind of the value that follows. -/
  | kind (handle : Option Text) (rest : Text)
  | scalar (text : Text) (isPlain : Bool)
  deriving DecidableEq, Repr

/-- The tokens of a text, as far as it has them, and what is wrong after them. -/
structure Tokens where
  tokens : List Token
  defect : Option Defect
  deriving Repr

end GDWorkbench.Configuration
