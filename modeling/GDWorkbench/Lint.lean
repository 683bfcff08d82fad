import GDWorkbench.Lint.Basic
import GDWorkbench.Lint.Directives
import GDWorkbench.Lint.Lines
import GDWorkbench.Lint.Names
import GDWorkbench.Lint.Order
import GDWorkbench.Lint.Returns
import GDWorkbench.Parse

/-!
Linting: all checks that are on, one after the other, and of their problems those that no comment of
the text switches off.
-/

namespace GDWorkbench

namespace Lint

def problems (config : Config) (code : Text) (t : Tree) : Problems := do
  let file ← Outline.Class.ofTree t
  let design ← Design.check config file
  let lines ← Lines.check config code
  let names ← Names.check config t
  let order ← Order.check config file
  let basic ← Basic.check config t
  let returns ← Returns.check config t
  return design ++ lines ++ names ++ order ++ basic ++ returns

def Problem.isReported (directives : Directives) (p : Problem) : Bool :=
  match p.line with
  | some line => !directives.isOff p.check.text line
  | none => true

end Lint

def lint (config : Lint.Config) (code : Text) : Except Failure (List Lint.Problem) := do
  let t ← Failure.ofSyntax (parse code)
  let found ← Failure.ofFault (Lint.problems config code t)
  let directives := Lint.Directives.ofText code
  return found.filter (Lint.Problem.isReported directives)

end GDWorkbench
