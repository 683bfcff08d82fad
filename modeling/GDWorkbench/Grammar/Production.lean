import GDWorkbench.Grammar.Terminal
import GDWorkbench.Grammar.Kind

/-!
Rules of a grammar and the productions they stand for. An alternative may hold choices; writing out
every combination of them gives its productions.
-/

namespace GDWorkbench

/-- The rules that build no node: what they collect goes to the enclosing rule. The second half are the
repetitions, each one or more of what its name says. -/
inductive Fragment where
  | classStmt | simpleClassStmt | varTyped | forIteratorVarTyped | classBody | propertyDelegates
  | funcSuite | funcBody | funcStmt | simpleFuncStmt | matchBody | assnmntOp | contentTestOp
  | compOp | callArglist | attr | plusAtom | lambdaSuite | lambdaBody | standaloneLambdaStmt
  | classStmts | annotations | moreClassStmts | moreAnnotationArgs | moreEnumElements
  | moreSignalArgs | dottedNames | customEtters | moreFuncArgs | funcStmts | moreFuncStmts
  | elifBranches | matchBranches | moreTestPatterns | orPatterns | andPatterns | bitwOrPatterns
  | bitwXorPatterns | bitwAndPatterns | shiftPatterns | arithPatterns | mdrPatterns | dottedPatterns
  | moreDictPatterns | casts | orTests | andTests | contentTests | bitwOrs | bitwXors | bitwAnds
  | shifts | ariths | mdrs | powers | typeTests | awaits | moreArguments | attrs | pathSteps
  | moreColonEntries | moreEqualEntries
  deriving DecidableEq, Repr, Inhabited

inductive Nonterminal where
  | node (kind : Kind)
  | part (fragment : Fragment)
  deriving DecidableEq, Repr, Inhabited

/-- A mark is a terminal that leaves no trace in the tree; a leaf is a terminal that is kept. -/
inductive Symbol where
  | mark (terminal : Terminal)
  | leaf (terminal : Terminal)
  | node (kind : Kind)
  | part (fragment : Fragment)
  deriving DecidableEq, Repr, Inhabited

inductive Item where
  | mark (terminal : Terminal)
  | leaf (terminal : Terminal)
  | node (kind : Kind)
  | part (fragment : Fragment)
  | choice (alternatives : List (List Item))

/-- What is made of the pieces of a production. -/
inductive Build where
  | node (kind : Kind)
  /-- The only piece itself; a node of the given kind if there are more pieces or none. -/
  | collapse (kind : Kind)
  /-- No node: the pieces go to the enclosing production. -/
  | splice
  deriving DecidableEq, Repr, Inhabited

structure Alternative where
  build : Build
  items : List Item

structure Production where
  build : Build
  symbols : List Symbol
  deriving DecidableEq, Repr, Inhabited

namespace Item

def opt (items : List Item) : Item :=
  .choice [items, []]

/-- A repetition that may be left out. The fragment itself is one or more. -/
def many (fragment : Fragment) : Item :=
  .choice [[.part fragment], []]

/-- Entries with commas between them, and perhaps one behind the last. -/
def entries (first : Kind) (more : Fragment) : List Item :=
  [.node first, many more, opt [.node .trailingComma]]

mutual

def expand : Item → List (List Symbol)
  | .mark t => [[.mark t]]
  | .leaf t => [[.leaf t]]
  | .node k => [[.node k]]
  | .part f => [[.part f]]
  | .choice alternatives => expandChoice alternatives

def expandChoice : List (List Item) → List (List Symbol)
  | [] => []
  | items :: rest => expandAll items ++ expandChoice rest

/-- Every way to take one expansion of each item, in the order of the first item's choices. -/
def expandAll : List Item → List (List Symbol)
  | [] => [[]]
  | item :: rest =>
    let tails := expandAll rest
    (expand item).flatMap fun head => tails.map (head ++ ·)

end

end Item

namespace Alternative

def node (kind : Kind) (items : List Item) : Alternative := ⟨.node kind, items⟩

def collapse (kind : Kind) (items : List Item) : Alternative := ⟨.collapse kind, items⟩

def splice (items : List Item) : Alternative := ⟨.splice, items⟩

/-- The rule of a fragment that stands for one or more rows of the items. -/
def repeated (f : Fragment) (items : List Item) : List Alternative :=
  [splice items, splice (.part f :: items)]

def productions (a : Alternative) : List Production :=
  (Item.expandAll a.items).map (Production.mk a.build)

end Alternative

end GDWorkbench
