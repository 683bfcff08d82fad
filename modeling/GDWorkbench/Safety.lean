import GDWorkbench.Format
import GDWorkbench.Shape
import GDWorkbench.Text.Diff

/-!
What formatting must not do: lose a comment, change what the code means, or leave a text that a
second run would change again.
-/

namespace GDWorkbench

inductive Violation where
  | commentLost (comment : Text)
  | treeChanged (diff : Text)
  | unstable (diff : Text)
  deriving Repr

namespace Violation

def message : Violation → Text
  | .commentLost comment =>
    "CommentPersistenceViolation(missing_comment=\"".toList ++ comment ++ "\")".toList
  | .treeChanged diff => "TreeInvariantViolation(diff=\"".toList ++ diff ++ "\")".toList
  | .unstable diff => "FormattingStabilityViolation(diff=\"".toList ++ diff ++ "\")".toList

end Violation

namespace Safety

/-- Why a check did not pass. -/
inductive Objection where
  | violation (violation : Violation)
  | failure (failure : Failure)
  deriving Repr

abbrev Verdict := Except Objection Unit

def ofSyntax {α : Type} : Except SyntaxError α → Except Objection α
  | .ok a => .ok a
  | .error e => .error (.failure (.invalid e))

def ofFault {α : Type} : Except Fault α → Except Objection α
  | .ok a => .ok a
  | .error f => .error (.failure (.fault f))

def diff (before after : Text) : Text :=
  Text.join ['\n'] (Diff.unified [] ['\n'] (Text.lines before) (Text.lines after))

/-- Every comment is part of some comment of the formatted text. -/
def compareComments (given formatted : List Token) : Verdict :=
  let after := Comments.texts formatted
  match (Comments.texts given).find? fun comment => !after.any (Text.contains comment) with
  | some lost => .error (.violation (.commentLost lost))
  | none => .ok ()

def compareTrees (given formatted : Tree) : Verdict :=
  let before := given.loosen
  let after := formatted.loosen
  if before.same after then .ok ()
  else .error (.violation (.treeChanged (diff before.pretty after.pretty)))

/-- Stability is judged with the wide blanks of the outermost level. -/
def judged (style : Format.Style) : Format.Style :=
  { style with outerBlanks := Format.wideBlanks }

def compareAgain (formatted again : Text) : Verdict :=
  if formatted = again then .ok ()
  else .error (.violation (.unstable (diff formatted again)))

def checkComments (given formatted : Text) : Verdict := do
  let before ← ofSyntax (parseComments given)
  compareComments before (← ofSyntax (parseComments formatted))

def checkTree (given formatted : Text) : Verdict := do
  let before ← ofSyntax (parse given)
  compareTrees before (← ofSyntax (parse formatted))

def checkStability (style : Format.Style) (formatted : Text) : Verdict :=
  match format (judged style) formatted with
  | .ok again => compareAgain formatted again
  | .error failure => .error (.failure failure)

/-- All checks in turn. A text that formatting leaves as it is needs none. -/
def check (style : Format.Style) (given formatted : Text) : Verdict :=
  if given = formatted then .ok ()
  else do
    let tree ← ofSyntax (parse formatted)
    let comments ← ofSyntax (parseComments formatted)
    compareComments (← ofSyntax (parseComments given)) comments
    compareTrees (← ofSyntax (parse given)) tree
    compareAgain formatted (← ofFault (Format.ofTree (judged style) formatted tree comments))

end Safety

end GDWorkbench
