import GDWorkbench.Tree

/-!
What formatting depends on: the settings that hold for a whole file, and for every block how deep it
is and which line of the source was dealt with before it.
-/

namespace GDWorkbench.Format

/-- A line of formatted code knows the line of the source it comes from, so that comments can be put back
beside it; lines that only separate others come from nowhere. A number may be negative: such a line belongs
to no line of the source, and counts from the end where lines are looked up. -/
structure Line where
  number : Option Int
  text : Text
  deriving DecidableEq, Repr, Inhabited

def position {α : Type} (xs : List α) (i : Int) : Nat :=
  if i < 0 then (xs.length + i).toNat else i.toNat

def upTo {α : Type} (xs : List α) : Option Int → List α
  | none => xs
  | some i => xs.take (position xs i)

/-- The elements from one position up to another. A bound that is missing leaves that side open. -/
def between {α : Type} (xs : List α) (first last : Option Int) : List α :=
  match first with
  | none => upTo xs last
  | some i => (upTo xs last).drop (position xs i)

def at? {α : Type} (xs : List α) (i : Int) : Option α :=
  if i < 0 ∧ (xs.length : Int) + i < 0 then none else xs[position xs i]?

def tabWidth : Nat := 4

def width (text : Text) : Nat :=
  text.length + (tabWidth - 1) * text.count '\t'

/-- What the user chooses. -/
structure Style where
  maxWidth : Int
  /-- The number of blanks per level; tabs if there is none. -/
  spaces : Option Int
  /-- How many lines are left free around functions and classes of the outermost level. -/
  outerBlanks : Nat
  deriving Repr, Inhabited

structure Settings where
  maxWidth : Int
  outerBlanks : Nat
  /-- The width of one level, and its text. -/
  unit : Nat
  unitText : Text
  /-- The lines of the source. Lines count from 1; there is an empty line 0. -/
  source : List Text
  /-- The comments of the source by line, those on lines of their own and the others. -/
  standalone : List (Option Text)
  inline : List (Option Text)
  deriving Inhabited

/-- Blanks need a positive number; a tab counts as `tabWidth` of them. -/
def Style.unit (style : Style) : Except Fault (Nat × Text) :=
  match style.spaces with
  | none => .ok (tabWidth, ['\t'])
  | some (.ofNat 0) => .error .zeroIndent
  | some (.ofNat n) => .ok (n, List.replicate n ' ')
  | some (.negSucc _) => .error .missingPart

structure Context where
  settings : Settings
  depth : Nat
  /-- The last line of the source that is dealt with. -/
  previous : Option Int

namespace Context

def indent (c : Context) : Nat :=
  c.depth * c.settings.unit

def margin (c : Context) : Text :=
  Text.repeated c.depth c.settings.unitText

def child (c : Context) (previous : Option Int) : Context :=
  { c with depth := c.depth + 1, previous := previous }

def fits (c : Context) (text : Text) : Bool :=
  (width text : Int) ≤ c.settings.maxWidth

end Context

def firstLine (t : Tree) : Except Fault (Option Int) :=
  match t.span? with
  | some span => .ok (span.line.map Int.ofNat)
  | none => .error .wrongPart

def lastLine (t : Tree) : Except Fault (Option Int) :=
  match t.span? with
  | some span => .ok (span.endLine.map Int.ofNat)
  | none => .error .wrongPart

def number (n : Option Int) : Except Fault Int :=
  match n with
  | some n => .ok n
  | none => .error .wrongValue

end GDWorkbench.Format
