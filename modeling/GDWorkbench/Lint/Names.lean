import GDWorkbench.Lint.Config
import GDWorkbench.Pattern.Read

/-!
Checks of names: each kind of name has a pattern to follow. Variables and constants that hold a
loaded resource have patterns of their own.
-/

namespace GDWorkbench.Lint

namespace Names

/-- The name of what a declaration calls in its first value that is a plain call. -/
def calledName : List Tree → Except Fault (Option Text)
  | [] => .ok none
  | .node .expr _ [.node .standaloneCall span arguments] :: _ =>
    match (Tree.node .standaloneCall span arguments).nameToken? with
    | some name => .ok (some name.content)
    | none => .error .unmet
  | _ :: rest => calledName rest

def calls (names : List String) (t : Tree) : Except Fault Bool := do
  return match ← calledName t.children with
    | some name => names.any fun n => n.toList = name
    | none => false

/-- Which declarations a check looks at. -/
inductive Filter where
  | all
  | loads
  | doesNotLoad
  | preloads

def Filter.accepts (t : Tree) : Filter → Except Fault Bool
  | .all => .ok true
  | .loads => calls ["load", "preload"] t
  | .doesNotLoad => do return !(← calls ["load", "preload"] t)
  | .preloads => calls ["preload"] t

/-- The name of a declaration: a child of it, or of its first child. -/
def declaredName (filter : Filter) (t : Tree) : Except Fault (Option Token) := do
  match t.nameToken? with
  | some name => return if ← filter.accepts t then some name else none
  | none =>
    let inner ← t.part 0
    let _ ← inner.kind
    let isAccepted ← filter.accepts inner
    match inner.nameToken? with
    | some name => return if isAccepted then some name else none
    | none => .error .unmet

def declaredNames (filter : Filter) (t : Tree) (kind : Kind) : Except Fault (List Token) :=
  (t.subtreesOf kind).filterMapM (declaredName filter)

/-- One rule about names: where they are declared, and how a bad one is reported. -/
structure Rule where
  check : Check
  subject : String
  filter : Filter
  kinds : List Kind

def rules : List Rule :=
  [⟨.functionName, "Function name", .all, [.funcDef]⟩,
   ⟨.subClassName, "Class name", .all, [.classDef]⟩,
   ⟨.className, "Class name", .all, [.classnameStmt]⟩,
   ⟨.signalName, "Signal name", .all, [.signalStmt]⟩,
   ⟨.enumName, "Enum name", .all, [.enumNamed]⟩,
   ⟨.enumElementName, "Enum element name", .all, [.enumElement]⟩,
   ⟨.loopVariableName, "Loop variable name", .all, [.forStmt, .forStmtTyped]⟩,
   ⟨.functionArgumentName, "Function argument name", .all,
    [.funcArgRegular, .funcArgInf, .funcArgTyped]⟩,
   ⟨.functionVariableName, "Function-scope variable name", .doesNotLoad, [.funcVarStmt]⟩,
   ⟨.functionPreloadVariableName, "Function-scope preload variable name", .preloads,
    [.funcVarStmt]⟩,
   ⟨.constantName, "Constant name", .doesNotLoad, [.constStmt]⟩,
   ⟨.loadConstantName, "Constant (load/preload) name", .loads, [.constStmt]⟩,
   ⟨.classVariableName, "Class-scope variable name", .doesNotLoad, [.classVarStmt]⟩,
   ⟨.classLoadVariableName, "Class-scope load/preload variable name", .loads, [.classVarStmt]⟩]

def Rule.tokens (rule : Rule) (t : Tree) : Except Fault (List Token) := do
  return (← rule.kinds.mapM (declaredNames rule.filter t)).flatten

def Rule.problem (rule : Rule) (name : Token) : Problem :=
  ⟨rule.check, rule.subject.toList ++ " \"".toList ++ name.content ++ "\" is not valid".toList,
    name.span.line, name.span.column⟩

def faultOf : Pattern.Defect → Fault
  | .malformed => .badPattern
  | .tooManyTurns => .tooLarge
  | .clashingFlags => .clashingFlags
  | .longNumber => .badNumber

def Rule.problems (rule : Rule) (pattern : Except Fault Text) (names : List Token) : Problems := do
  let pattern ← (Pattern.read (← pattern)).mapError faultOf
  return (names.filter fun name => !pattern.holds name.content).map rule.problem

/-- The names of all rules are gathered before the first one is judged. -/
def check (config : Config) (t : Tree) : Problems := do
  let gathered ← rules.mapM fun rule => do return (rule, ← rule.tokens t)
  let found ← gathered.mapM fun (rule, names) =>
    config.run rule.check (rule.problems (config.pattern rule.check) names)
  return found.flatten

end Names

end GDWorkbench.Lint
