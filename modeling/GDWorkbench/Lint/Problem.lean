import GDWorkbench.Tree

/-!
Checks, and the problems they report.
-/

namespace GDWorkbench.Lint

inductive Check where
  | functionName | subClassName | className | signalName | enumName | enumElementName
  | loopVariableName | functionArgumentName | functionVariableName | functionPreloadVariableName
  | constantName | loadConstantName | classVariableName | classLoadVariableName
  | duplicatedLoad | expressionNotAssigned | unnecessaryPass | unusedArgument | comparisonWithItself
  | classDefinitionsOrder
  | maxReturns | maxPublicMethods | functionArgumentsNumber
  | maxFileLines | trailingWhitespace | maxLineLength | mixedTabsAndSpaces
  | noElifReturn | noElseReturn
  deriving DecidableEq, Repr

namespace Check

def all : List Check :=
  [.functionName, .subClassName, .className, .signalName, .enumName, .enumElementName,
   .loopVariableName, .functionArgumentName, .functionVariableName, .functionPreloadVariableName,
   .constantName, .loadConstantName, .classVariableName, .classLoadVariableName, .duplicatedLoad,
   .expressionNotAssigned, .unnecessaryPass, .unusedArgument, .comparisonWithItself,
   .classDefinitionsOrder, .maxReturns, .maxPublicMethods, .functionArgumentsNumber, .maxFileLines,
   .trailingWhitespace, .maxLineLength, .mixedTabsAndSpaces, .noElifReturn, .noElseReturn]

def name : Check → String
  | .functionName => "function-name"
  | .subClassName => "sub-class-name"
  | .className => "class-name"
  | .signalName => "signal-name"
  | .enumName => "enum-name"
  | .enumElementName => "enum-element-name"
  | .loopVariableName => "loop-variable-name"
  | .functionArgumentName => "function-argument-name"
  | .functionVariableName => "function-variable-name"
  | .functionPreloadVariableName => "function-preload-variable-name"
  | .constantName => "constant-name"
  | .loadConstantName => "load-constant-name"
  | .classVariableName => "class-variable-name"
  | .classLoadVariableName => "class-load-variable-name"
  | .duplicatedLoad => "duplicated-load"
  | .expressionNotAssigned => "expression-not-assigned"
  | .unnecessaryPass => "unnecessary-pass"
  | .unusedArgument => "unused-argument"
  | .comparisonWithItself => "comparison-with-itself"
  | .classDefinitionsOrder => "class-definitions-order"
  | .maxReturns => "max-returns"
  | .maxPublicMethods => "max-public-methods"
  | .functionArgumentsNumber => "function-arguments-number"
  | .maxFileLines => "max-file-lines"
  | .trailingWhitespace => "trailing-whitespace"
  | .maxLineLength => "max-line-length"
  | .mixedTabsAndSpaces => "mixed-tabs-and-spaces"
  | .noElifReturn => "no-elif-return"
  | .noElseReturn => "no-else-return"

def text (c : Check) : Text :=
  c.name.toList

end Check

structure Problem where
  check : Check
  description : Text
  line : Option Nat
  column : Option Nat
  deriving DecidableEq, Repr

abbrev Problems := Except Fault (List Problem)

namespace Problem

def ofTree (check : Check) (description : Text) (t : Tree) : Except Fault Problem :=
  match t.span? with
  | some span => .ok ⟨check, description, span.line, span.column⟩
  | none => .error .wrongPart

def ofLine (check : Check) (description : Text) (line : Nat) : Problem :=
  ⟨check, description, some line, some 0⟩

end Problem

end GDWorkbench.Lint
