import GDWorkbench.Print.StringLiteral
import GDWorkbench.Text.Quoted
import GDWorkbench.Tree

/-!
Shapes: what a parse tree says apart from where it stands. A shape may also hold a word, which is a
string literal in normal form, free of the choice of quotation marks.
-/

namespace GDWorkbench

/-- A kind as listings show it. Kinds that are only an alternative of a rule are shown bare. -/
def Kind.listing (k : Kind) : Text :=
  let name := Text.quoted k.name.toList
  if k.isAlias then name else "Token('RULE', ".toList ++ name ++ [')']

inductive Shape where
  | word (text : Text)
  | leaf (terminal : Terminal) (text : Text)
  | node (kind : Kind) (children : List Shape)
  deriving Repr, Inhabited

mutual

def Tree.shape : Tree → Shape
  | .token t => .leaf t.terminal t.content
  | .node k _ cs => .node k (Tree.shapes cs)

def Tree.shapes : List Tree → List Shape
  | [] => []
  | t :: ts => t.shape :: Tree.shapes ts

end

namespace Shape

mutual

def same : Shape → Shape → Bool
  | .word a, .word b => a = b
  | .word a, .leaf _ b => a = b
  | .leaf _ a, .word b => a = b
  | .leaf s a, .leaf t b => s = t && a = b
  | .node j as, .node k bs => j = k && sameAll as bs
  | _, _ => false

def sameAll : List Shape → List Shape → Bool
  | [], [] => true
  | a :: as, b :: bs => same a b && sameAll as bs
  | _, _ => false

end

mutual

def preorder (depth : Nat) : Shape → List (Nat × Shape)
  | .node k cs => (depth, .node k cs) :: preorderAll (depth + 1) cs
  | s => [(depth, s)]

def preorderAll (depth : Nat) : List Shape → List (Nat × Shape)
  | [] => []
  | s :: ss => preorder depth s ++ preorderAll depth ss

end

def leafText? : Shape → Option Text
  | .word text => some text
  | .leaf _ text => some text
  | .node _ _ => none

def margin (depth : Nat) : Text :=
  List.replicate (2 * depth) ' '

mutual

/-- One line per node or leaf, indented by depth. A node with one leaf takes one line. -/
def prettyAt (depth : Nat) : Shape → Text
  | .node k cs =>
    margin depth ++ k.name.toList ++
      match cs with
      | [.word text] => '\t' :: text ++ ['\n']
      | [.leaf _ text] => '\t' :: text ++ ['\n']
      | cs => '\n' :: prettyAll (depth + 1) cs
  | .word text => margin depth ++ text ++ ['\n']
  | .leaf _ text => margin depth ++ text ++ ['\n']

def prettyAll (depth : Nat) : List Shape → Text
  | [] => []
  | s :: ss => prettyAt depth s ++ prettyAll depth ss

end

def pretty (s : Shape) : Text :=
  prettyAt 0 s

mutual

def listing : Shape → Text
  | .word text => Text.quoted text
  | .leaf terminal text =>
    "Token('".toList ++ terminal.name.toList ++ "', ".toList ++ Text.quoted text ++ [')']
  | .node kind cs =>
    "Tree(".toList ++ kind.listing ++ ", [".toList ++ Text.join ", ".toList (listings cs)
      ++ "])".toList

def listings : List Shape → List Text
  | [] => []
  | s :: ss => listing s :: listings ss

end

end Shape

namespace Shape

/-! ## Loosening

The normal form in which two shapes are compared to see whether they mean the same. Round brackets
around expressions and patterns go, since the shape already says what belongs together; the two ladders
of precedence become one; a minus sign joins the number behind it; string literals become words.
Annotations and property bodies of a class are left out, as is what an inline property body holds. -/

def plainKind : Kind → Kind
  | .aslessComparison => .comparison
  | .aslessAndTest => .andTest
  | .aslessOrTest => .orTest
  | .aslessBitwOr => .bitwOr
  | .aslessBitwXor => .bitwXor
  | .aslessBitwAnd => .bitwAnd
  | .aslessShiftExpr => .shiftExpr
  | .aslessTypeTest => .typeTest
  | .aslessContentTest => .contentTest
  | .aslessTestExpr => .testExpr
  | .aslessArithExpr => .arithExpr
  | .aslessMdrExpr => .mdrExpr
  | .aslessPowExpr => .powExpr
  | k => k

def isCompared : Shape → Bool
  | .node .annot _ | .node .propertyBodyDef _ => false
  | _ => true

/-- The normal form of a node whose children are in normal form. -/
def loosenNode : Kind → List Shape → Shape
  | .parExpr, s :: _ => s
  | .parPattern, s :: _ => s
  | .aslessActualNegExpr, [_, .leaf .number text] => .leaf .number ('-' :: text)
  | .string, .leaf terminal text :: _ => .word (StringLiteral.normal terminal text)
  | .rawString, .leaf terminal text :: _ => .word (StringLiteral.normal terminal text)
  | .signalStmt, [name, .node _ []] => .node .signalStmt [name]
  | .start, cs => .node .start (cs.filter isCompared)
  | .classDef, cs => .node .classDef (cs.filter isCompared)
  | .inlinePropertyBody, _ => .node .inlinePropertyBody []
  | k, cs => .node (plainKind k) cs

mutual

def loosen : Shape → Shape
  | .node k cs => loosenNode k (loosenAll cs)
  | s => s

def loosenAll : List Shape → List Shape
  | [] => []
  | s :: ss => loosen s :: loosenAll ss

end

end Shape

def Tree.loosen (t : Tree) : Shape :=
  t.shape.loosen

end GDWorkbench
