import GDWorkbench.Configuration
import GDWorkbench.Lint.Problem

/-!
What the checks are told: which of them are off, how names have to look, in which order a class
declares its parts, and the limits. A value that does not fit is a fault as soon as it is needed.
-/

namespace GDWorkbench.Lint

/-- A limit, and how messages show it. -/
structure Limit where
  bound : Int
  text : Text

def Limit.isExceeded (limit : Limit) (n : Nat) : Bool :=
  decide (limit.bound < n)

/-- The order in which a class declares its parts. -/
structure SectionOrder where
  /-- The first section as messages show it. Its rank is 0. -/
  first : Text
  rank : Text → Option Nat

structure Config where
  disabled : Except Fault (List Text)
  /-- How the names that a check looks at have to be written. -/
  pattern : Check → Except Fault Text
  order : Except Fault SectionOrder
  maxReturns : Except Fault Limit
  maxPublicMethods : Except Fault Limit
  maxArguments : Except Fault Limit
  maxFileLines : Except Fault Limit
  maxLineLength : Except Fault Limit
  tabWidth : Except Fault Int

namespace Config

def isEnabled (config : Config) (check : Check) : Except Fault Bool := do
  return !(← config.disabled).contains check.text

def run (config : Config) (check : Check) (problems : Problems) : Problems := do
  if ← config.isEnabled check then problems else return []

end Config

/-! ## Defaults -/

def pascalCase : String := "([A-Z][a-z0-9]*)+"

def snakeCase : String := "[a-z][a-z0-9]*(_[a-z0-9]+)*"

def privateSnakeCase : String := "_?" ++ snakeCase

def upperSnakeCase : String := "[A-Z][A-Z0-9]*(_[A-Z0-9]+)*"

def privateUpperSnakeCase : String := "_?" ++ upperSnakeCase

def either (a b : String) : String := "(" ++ a ++ "|" ++ b ++ ")"

def functionCase : String := either ("_on_" ++ pascalCase ++ "(_[a-z0-9]+)*") privateSnakeCase

def defaultOrder : List String :=
  ["tools", "classnames", "extends", "docstrings", "signals", "enums", "consts", "staticvars",
   "exports", "pubvars", "prvvars", "onreadypubvars", "onreadyprvvars", "others"]

def defaultEntries : List (String × Configuration.Value) :=
  [("disable", .list []),
   ("function-name", .text functionCase.toList),
   ("class-name", .text pascalCase.toList),
   ("sub-class-name", .text ("_?" ++ pascalCase).toList),
   ("signal-name", .text snakeCase.toList),
   ("class-variable-name", .text privateSnakeCase.toList),
   ("class-load-variable-name", .text (either pascalCase privateSnakeCase).toList),
   ("function-variable-name", .text snakeCase.toList),
   ("function-preload-variable-name", .text pascalCase.toList),
   ("function-argument-name", .text privateSnakeCase.toList),
   ("loop-variable-name", .text privateSnakeCase.toList),
   ("enum-name", .text pascalCase.toList),
   ("enum-element-name", .text upperSnakeCase.toList),
   ("constant-name", .text privateUpperSnakeCase.toList),
   ("load-constant-name", .text (either pascalCase privateUpperSnakeCase).toList),
   ("duplicated-load", .null),
   ("expression-not-assigned", .null),
   ("unnecessary-pass", .null),
   ("unused-argument", .null),
   ("comparison-with-itself", .null),
   ("class-definitions-order", .list (defaultOrder.map fun section_ => .text section_.toList)),
   ("max-returns", .number 6),
   ("max-public-methods", .number 20),
   ("function-arguments-number", .number 10),
   ("max-file-lines", .number 1000),
   ("trailing-whitespace", .null),
   ("max-line-length", .number 100),
   ("tab-characters", .number 1),
   ("mixed-tabs-and-spaces", .null),
   ("excluded_directories", .set [".git".toList]),
   ("no-elif-return", .null),
   ("no-else-return", .null)]

def defaults : Configuration :=
  defaultEntries.map fun entry => (entry.1.toList, entry.2)

namespace Config

def fitting {α : Type} : Option α → Except Fault α
  | some a => .ok a
  | none => .error .wrongValue

/-- The checks that are off. In place of a list, a text turns off the checks whose names are part of
it. -/
def disabledIn : Configuration.Value → Except Fault (List Text)
  | .text t => .ok ((Check.all.map Check.text).filter fun name => Text.contains name t)
  | value => fitting value.names?

def limitIn (value : Configuration.Value) : Except Fault Limit :=
  fitting (value.number?.map fun n => ⟨n, value.shown⟩)

/-- In place of a list, a text ranks the sections by where they occur in it, and its first character
stands for the first of them. -/
def orderIn : Configuration.Value → Except Fault SectionOrder
  | .list [] | .text [] => .error .missingPart
  | .list (item :: rest) => .ok ⟨item.shown, fun name => (item :: rest).findIdx? (·.isText name)⟩
  | .text (c :: rest) => .ok ⟨[c], fun name => Text.position? name (c :: rest)⟩
  | .map _ => .error .unknownName
  | _ => .error .wrongValue

def tabWidthIn (value : Configuration.Value) : Except Fault Int :=
  match value, value.number? with
  | .null, _ => .error .unmet
  | _, some n => if -0x8000000000000000 ≤ n && n < 0x8000000000000000 then .ok n else .error .tooLarge
  | _, none => .error .wrongValue

def ofConfiguration (c : Configuration) : Config where
  disabled := disabledIn (c.get "disable")
  pattern check := fitting (c.get check.name).text?
  order := orderIn (c.get "class-definitions-order")
  maxReturns := limitIn (c.get "max-returns")
  maxPublicMethods := limitIn (c.get "max-public-methods")
  maxArguments := limitIn (c.get "function-arguments-number")
  maxFileLines := limitIn (c.get "max-file-lines")
  maxLineLength := limitIn (c.get "max-line-length")
  tabWidth := tabWidthIn (c.get "tab-characters")

def default : Config :=
  ofConfiguration defaults

end Config

end GDWorkbench.Lint
