import GDWorkbench.Format.Context

/-!
The lines between statements: comments on lines of their own, and empty lines. Runs of empty lines
become one, functions and classes get a fixed number of empty lines around them, and a block neither
begins nor ends with an empty line.
-/

namespace GDWorkbench.Format

namespace Blanks

/-- Drops an empty line behind an empty line. `empty` says whether the line before was empty. -/
def squeezeAfter : Bool → List Text → List Text
  | _, [] => []
  | empty, line :: rest =>
    if line.isEmpty && empty then squeezeAfter true rest
    else line :: squeezeAfter line.isEmpty rest

def squeeze (lines : List Text) : List Text :=
  squeezeAfter false lines

def dropEmpty (lines : List Text) : List Text :=
  lines.dropWhile List.isEmpty

def dropEmptyEnd (lines : List Text) : List Text :=
  (dropEmpty lines.reverse).reverse

def empties (n : Nat) : List Text :=
  List.replicate n []

/-- As many empty lines as the previous statement asks for. The lines are squeezed, so that at most
one of them is there. -/
def afterStatement (forced : Option Nat) (lines : List Text) : List Text :=
  match forced with
  | none => lines
  | some n => empties (n - if lines.head? = some [] then 1 else 0) ++ lines

/-- As many empty lines as the next statement asks for, in the last run of empty lines or, if there
is none, in front. At most two of them are there. -/
def beforeStatement (forced : Option Nat) (lines : List Text) : List Text :=
  match forced with
  | none => lines
  | some n =>
    let tail := (lines.reverse.takeWhile fun l => !l.isEmpty).reverse
    let head := lines.take (lines.length - tail.length)
    if head.isEmpty then empties n ++ lines
    else
      let present := if 1 < head.length && (head.dropLast.getLast? = some []) then 2 else 1
      head.dropLast ++ empties (n - present) ++ head.drop (head.length - 1) ++ tail

end Blanks

def forcedBlanks (c : Context) (kind : Kind) : Option Nat :=
  match kind with
  | .classDef | .funcDef | .staticFuncDef =>
    some (if c.indent = 0 then c.settings.outerBlanks else 1)
  | _ => none

/-- A comment on a line of its own, indented like its block unless it begins its line. -/
def standaloneComment (c : Context) (lineNumber : Int) (comment : Text) : Except Fault Text :=
  match at? c.settings.source lineNumber with
  | some line => .ok (if Text.startsWith line ['#'] then comment else c.margin ++ comment)
  | none => .error .missingPart

def commentLines (c : Context) : Int → List (Option Text) → Except Fault (List Text)
  | _, [] => .ok []
  | n, none :: rest => do return [] :: (← commentLines c (n + 1) rest)
  | n, some comment :: rest => do
    let line ← standaloneComment c n comment
    return line :: (← commentLines c (n + 1) rest)

/-- The lines strictly between two lines of the source: comments, and an empty line for each other
run of lines. -/
def blanksBetween (c : Context) (first last : Int) : Except Fault (List Text) := do
  let comments := between c.settings.standalone (some (first + 1)) (some last)
  let lines ← commentLines c (first + 1) (comments.take (last - (first + 1)).toNat)
  return Blanks.squeeze lines

/-! ## The end of a block -/

/-- Whether a line of the source is indented less than the block. -/
def isDedented (indent : Nat) (line : Text) : Bool :=
  match line with
  | [] => false
  | ' ' :: _ =>
    let level := (line.takeWhile (· == ' ')).length
    level < indent && level < line.length
  | '\t' :: _ =>
    let level := (line.takeWhile (· == '\t')).length
    level ≤ indent / tabWidth - 1 && level < line.length
  | _ => true

/-- The first line behind the block that ends after `previous`: the first one that is indented less,
or else the one after the last. Blank lines before it belong to what follows. -/
def dedentLine (c : Context) (previous : Int) : Int :=
  let source := c.settings.source
  if previous = source.length - 1 ∨ c.indent = 0 then source.length
  else
    let first := previous + 1
    let inside := (between source (some first) none).takeWhile fun l => !isDedented c.indent l
    let n := first + inside.length
    let before := (source.take (position source (n - 1) + 1)).reverse
    n - (before.takeWhile Text.allBlank).length

end GDWorkbench.Format
