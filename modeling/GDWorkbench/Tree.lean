import GDWorkbench.Fault
import GDWorkbench.Token

/-!
Parse trees: tokens at the leaves, nodes of a kind above them. A node that covers no token has no
place in the text.
-/

namespace GDWorkbench

inductive Tree where
  | token (token : Token)
  | node (kind : Kind) (span : Option Span) (children : List Tree)
  deriving Repr, Inhabited

namespace Tree

def kind? : Tree → Option Kind
  | .token _ => none
  | .node k _ _ => some k

def isKind (k : Kind) (t : Tree) : Bool :=
  t.kind? = some k

def isNode : Tree → Bool
  | .token _ => false
  | .node _ _ _ => true

def children : Tree → List Tree
  | .token _ => []
  | .node _ _ cs => cs

def token? : Tree → Option Token
  | .token t => some t
  | .node _ _ _ => none

def span? : Tree → Option Span
  | .token t => some t.span
  | .node _ s _ => s

mutual

def same : Tree → Tree → Bool
  | .token a, .token b => a.same b
  | .node j _ as, .node k _ bs => j = k && sameAll as bs
  | _, _ => false

def sameAll : List Tree → List Tree → Bool
  | [], [] => true
  | a :: as, b :: bs => same a b && sameAll as bs
  | _, _ => false

end

mutual

def size : Tree → Nat
  | .token _ => 1
  | .node _ _ cs => 1 + sizeAll cs

def sizeAll : List Tree → Nat
  | [] => 0
  | t :: ts => size t + sizeAll ts

end

mutual

def tokens : Tree → List Token
  | .token t => [t]
  | .node _ _ cs => tokensAll cs

def tokensAll : List Tree → List Token
  | [] => []
  | t :: ts => tokens t ++ tokensAll ts

end

mutual

/-- Every node and token with its depth, parents before their children. -/
def preorder (depth : Nat) : Tree → List (Nat × Tree)
  | .token t => [(depth, .token t)]
  | .node k s cs => (depth, .node k s cs) :: preorderAll (depth + 1) cs

def preorderAll (depth : Nat) : List Tree → List (Nat × Tree)
  | [] => []
  | t :: ts => preorder depth t ++ preorderAll depth ts

end

def nodes (ts : List Tree) : List Tree :=
  ts.filter isNode

/-- Nodes level by level, each level from right to left. `bound` is at least the number of levels
that follow. -/
def levelsFrom : Nat → List Tree → List Tree
  | 0, _ => []
  | bound + 1, level =>
    if level.isEmpty then []
    else level ++ levelsFrom bound (level.flatMap fun t => (nodes t.children).reverse)

/-- All nodes, those of the deepest level first and the root last. -/
def subtrees (t : Tree) : List Tree :=
  (levelsFrom t.size (nodes [t])).reverse

def subtreesOf (k : Kind) (t : Tree) : List Tree :=
  t.subtrees.filter (isKind k)

def kind : Tree → Except Fault Kind
  | .node k _ _ => .ok k
  | .token _ => .error .wrongPart

def part (t : Tree) (i : Nat) : Except Fault Tree :=
  match t with
  | .token _ => .error .wrongPart
  | .node _ _ cs =>
    match cs[i]? with
    | some c => .ok c
    | none => .error .missingPart

/-- The child at a position that counts from the end if it is negative. -/
def partFrom (t : Tree) (i : Int) : Except Fault Tree :=
  let n : Int := t.children.length
  if 0 ≤ i then t.part i.toNat
  else if -n ≤ i then t.part (n + i).toNat
  else .error .missingPart

def lastPart (t : Tree) : Except Fault Tree :=
  t.part (t.children.length - 1)

def tokenText : Tree → Except Fault Text
  | .token t => .ok t.content
  | .node _ _ _ => .error .wrongPart

def word (t : Tree) (i : Nat) : Except Fault Text := do
  (← t.part i).tokenText

def nameToken? (t : Tree) : Option Token :=
  (t.children.filterMap token?).find? fun token =>
    token.terminal = .identifier || token.terminal = .kwGet || token.terminal = .kwSet

def nameToken (t : Tree) : Except Fault Token :=
  match t.nameToken? with
  | some name => .ok name
  | none => .error .wrongPart

end Tree

end GDWorkbench
