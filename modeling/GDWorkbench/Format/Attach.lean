import GDWorkbench.Format.Context

/-!
Comments that belong to a line. Those behind code go back behind the line that comes from the same
place of the source. Those on lines of their own inside an expression go between its lines; all the
others were put between statements already.

Both passes go through the lines from the last to the first and take from the comments what lies
behind the place the line comes from; what is left stays for the lines before.
-/

namespace GDWorkbench.Format

namespace Attach

def gap : Text := [' ', ' ']

def presentOnes (comments : List (Option Text)) : List Text :=
  comments.filterMap id

/-- The lines are given from the last to the first, and so is the result. -/
def inlineFromEnd : List (Option Text) → List Line → List Line
  | _, [] => []
  | comments, ⟨none, text⟩ :: rest => ⟨none, text⟩ :: inlineFromEnd comments rest
  | comments, ⟨some n, text⟩ :: rest =>
    let taken := presentOnes (between comments (some n) none)
    ⟨some n, Text.join gap (text :: taken)⟩ :: inlineFromEnd (between comments none (some n)) rest

def inline (comments : List (Option Text)) (lines : List Line) : List Line :=
  (inlineFromEnd comments lines.reverse).reverse

def indentation (unit : Char) (text : Text) : Text :=
  text.takeWhile (· == unit)

def greaterIndentation (unit : Char) (a b : Text) : Text :=
  let a := indentation unit a
  let b := indentation unit b
  if b.length < a.length then a else b

/-- `below` is the line under the one at hand and the number of the last line of the statement,
while inside a statement. -/
def standaloneFromEnd (unit : Char) :
    Option (Text × Int) → List (Option Text) → List Line → List Line
  | _, _, [] => []
  | _, comments, ⟨none, text⟩ :: rest =>
    ⟨none, text⟩ :: standaloneFromEnd unit none comments rest
  | none, comments, ⟨some n, text⟩ :: rest =>
    ⟨some n, text⟩ :: standaloneFromEnd unit (some (text, n)) comments rest
  | some (below, last), comments, ⟨some n, text⟩ :: rest =>
    let taken := presentOnes (between comments (some n) (some last))
    let margin := greaterIndentation unit text below
    taken.reverse.map (fun comment => ⟨none, margin ++ comment⟩)
      ++ ⟨some n, text⟩ :: standaloneFromEnd unit (some (text, last))
        (between comments none (some n)) rest

/-- Puts comments between the lines of the statements they stand in. -/
def standalone (unit : Char) (comments : List (Option Text)) (lines : List Line) : List Line :=
  (standaloneFromEnd unit none comments lines.reverse).reverse

end Attach

end GDWorkbench.Format
