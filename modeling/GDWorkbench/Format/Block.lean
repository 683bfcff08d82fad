import GDWorkbench.Annotations
import GDWorkbench.Format.Fold
import GDWorkbench.Format.Blanks

/-!
Blocks of statements. Between two statements come the comments and empty lines that the source has
there, brought to normal form. Annotations that belong to the next statement wait until it comes.
-/

namespace GDWorkbench.Format

namespace Annotations

def standaloneLines (body : BodyFormatter) (t : Tree) (c : Context) :
    Except Fault (List Line × Option Int) := do
  let lines ← concrete body t ⟨[], ← firstLine t, [], some (-1)⟩ c
  return (lines, ← lastLine t)

def allStandaloneLines (body : BodyFormatter) (c : Context) : List Tree → Lines
  | [] => .ok []
  | t :: ts => do
    let (lines, _) ← standaloneLines body t c
    return lines ++ (← allStandaloneLines body c ts)

/-- Functions do not share a line with annotations, abstract ones apart. -/
def needsOwnLines (pending : List Tree) (statement : Text) : Bool :=
  let isFunction := Text.startsWith statement "func".toList
  let isAbstract := match pending with
    | [t] => Annotations.isNamed "abstract" t
    | _ => false
  (isFunction || Text.startsWith statement "static func".toList)
    && !(isAbstract && isFunction)
    && !(isAbstract && Text.startsWith statement "class_name".toList)

/-- Whether a comment stands between the annotations and the statement. -/
def hasCommentBefore (c : Context) (pending : List Tree) (number : Option Int) :
    Except Fault Bool := do
  match pending.head?, pending.getLast? with
  | some first, some last =>
    let stop ← match number with
      | some n => pure (some n)
      | none => lastLine last
    return hasComment c.settings.standalone (← firstLine first) stop
  | _, _ => .error .missingPart

/-- Puts annotations in front of the first line of a statement. -/
def putBefore (body : BodyFormatter) (c : Context) (pending : List Tree) (line : Line) : Lines := do
  let statement := Text.trim line.text
  let texts ← pending.mapM Tree.line
  let text := Text.join [' '] texts
  let length := c.indent + text.length + statement.length
  let commented ← hasCommentBefore c pending line.number
  if !commented && (length : Int) ≤ c.settings.maxWidth && !needsOwnLines pending statement then
    return [⟨line.number, c.margin ++ text ++ ' ' :: statement⟩]
  return (← allStandaloneLines body c pending) ++ [line]

end Annotations

/-- The lines of a statement or a block, and the last line of the source they deal with. -/
abbrev Outcome := Except Fault (List Line × Option Int)

abbrev StatementFormatter := Tree → Context → Outcome

abbrev BlockFormatter := List Tree → Context → Outcome

namespace Block

structure State where
  lines : List Line
  previous : Option Int
  previousKind : Option Kind
  /-- Annotations that wait for their statement. -/
  pending : List Tree

def separators (lines : List Text) : List Line :=
  lines.map (Line.mk none)

def blanksBefore (c : Context) (s : State) (kind : Kind) (t : Tree) : Except Fault (List Text) := do
  let blanks ← blanksBetween c (← number s.previous) (← number (← firstLine t))
  return match s.previousKind with
    | none => Blanks.dropEmpty blanks
    | some previous =>
      Blanks.beforeStatement (forcedBlanks c kind)
        (Blanks.afterStatement (forcedBlanks c previous) blanks)

def statement (format : StatementFormatter) (body : BodyFormatter) (c : Context) (s : State)
    (kind : Kind) (t : Tree) (blanks : List Text) : Except Fault State := do
  let separated := if s.pending.isEmpty then s.lines ++ separators blanks else s.lines
  let (lines, previous) ← format t c
  let lines ← match s.pending, lines with
    | [], lines => pure lines
    | _, [] => .error .missingPart
    | pending, first :: rest => do
      pure ((← Annotations.putBefore body c pending first) ++ rest)
  return ⟨separated ++ lines, previous, some kind, []⟩

def step (inFunction : Bool) (format : StatementFormatter) (body : BodyFormatter) (c : Context)
    (s : State) (t : Tree) (following : Option Tree) : Except Fault State := do
  let kind ← t.kind
  let waits := (← Annotations.belongsToNextIn inFunction t) || Annotations.makesAbstract t following
  if waits && !s.pending.isEmpty then return { s with pending := s.pending ++ [t] }
  let blanks ← blanksBefore c s kind t
  if waits then return { s with lines := s.lines ++ separators blanks, pending := [t] }
  statement format body c s kind t blanks

def steps (inFunction : Bool) (format : StatementFormatter) (body : BodyFormatter) (c : Context) :
    State → List Tree → Except Fault State
  | s, [] => .ok s
  | s, t :: rest => do
    let s ← step inFunction format body c s t rest.head?
    steps inFunction format body c s rest

end Block

/-- Lays out a block. What stands between its last statement and the first line that is indented less
still belongs to it. -/
def block (inFunction : Bool) (format : StatementFormatter) (body : BodyFormatter)
    (statements : List Tree) (c : Context) : Outcome := do
  let s ← Block.steps inFunction format body c ⟨[], c.previous, none, []⟩ statements
  let previous ← number s.previous
  let stop := dedentLine c previous
  let tail ← blanksBetween c previous stop
  return (s.lines ++ Block.separators (Blanks.dropEmptyEnd tail), some (stop - 1))

end GDWorkbench.Format
