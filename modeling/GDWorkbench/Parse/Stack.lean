import GDWorkbench.Grammar.Automaton
import GDWorkbench.Tree

/-!
The parser's stack. A frame holds what has been built for one symbol of an unfinished production.
Shifting pushes a token; completing a production takes the frames of its symbols off and pushes what
they make.

A node covers its production from the first to the last token, those that leave no trace included.
Something that a production hands on unchanged keeps its own span, but counts for the enclosing
production with all that the handing production covered.
-/

namespace GDWorkbench.Parse

inductive Head where
  | terminal (terminal : Terminal)
  | nonterminal (nonterminal : Nonterminal)
  deriving DecidableEq, Repr

def headOf : Symbol → Head
  | .mark t | .leaf t => .terminal t
  | .node k => .nonterminal (.node k)
  | .part f => .nonterminal (.part f)

structure Frame where
  state : Nat
  head : Head
  /-- One tree, or for a fragment the trees it hands on. -/
  trees : List Tree
  /-- What the frame covers, if it covers a token. -/
  extent : Option Span

abbrev Stack := List Frame

namespace Stack

def top : Stack → Automaton.State
  | [] => Automaton.state 0
  | ⟨number, _, _, _⟩ :: _ => Automaton.state number

def push (stack : Stack) (target : Nat) (t : Token) : Stack :=
  ⟨target, .terminal t.terminal, [.token t], some t.span⟩ :: stack

/-- Takes off the frames of the symbols, given from last to first. The frames come back in reading
order, in front of `taken`. -/
def pop? : List Symbol → Stack → List (Symbol × Frame) → Option (List (Symbol × Frame) × Stack)
  | [], stack, taken => some (taken, stack)
  | _ :: _, [], _ => none
  | s :: symbols, frame :: stack, taken =>
    if headOf s = frame.head then pop? symbols stack ((s, frame) :: taken) else none

end Stack

def keep : Symbol × Frame → List Tree
  | (.mark _, _) => []
  | (_, frame) => frame.trees

def extentOf : List (Symbol × Frame) → Option Span
  | [] => none
  | (_, frame) :: rest =>
    match frame.extent, extentOf rest with
    | none, later => later
    | some first, none => some first
    | some first, some later => some (first.upTo later)

def locate (extent : Option Span) : Tree → Tree
  | .node k none cs => .node k extent cs
  | t => t

/-- The trees that a production makes of those it keeps, and what they cover. -/
def build (b : Build) (kept : List Tree) (extent : Option Span) : List Tree × Option Span :=
  match b, kept with
  | .splice, kept => (kept, extent)
  | .node k, kept => ([.node k extent kept], extent)
  | .collapse _, [.token t] => ([.token t], some t.span)
  | .collapse _, [t] => ([locate extent t], extent)
  | .collapse k, kept => ([.node k extent kept], extent)

namespace Stack

def reduce? (stack : Stack) (head : Nonterminal) (p : Production) : Option Stack := do
  let (frames, rest) ← pop? p.symbols.reverse stack []
  let target ← (top rest).goto? head
  let (trees, extent) := build p.build (frames.flatMap keep) (extentOf frames)
  return ⟨target, .nonterminal head, trees, extent⟩ :: rest

end Stack

/-- What came of a token. -/
inductive Fed where
  | shifted (stack : Stack)
  | accepted (tree : Tree)
  /-- The stack as it is when nothing more can be done with the token. -/
  | refused (stack : Stack)

/-- Completes productions until the token can be shifted, or until the end of the text completes the
whole. -/
def feedUpTo : Nat → Stack → Token → Fed
  | 0, stack, _ => .refused stack
  | bound + 1, stack, t =>
    match stack.top.action? t.terminal with
    | none => .refused stack
    | some (.shift target) => .shifted (stack.push target t)
    | some (.reduce head p) =>
      match stack.reduce? head p with
      | none => .refused stack
      | some stack =>
        match head, stack with
        | .node .start, [⟨_, _, [tree], _⟩] => .accepted tree
        | _, _ => feedUpTo bound stack t

/-- More productions than this are never complete at once: a production either takes more than one
frame off, or climbs the ladder of precedence. -/
def feedBound (stack : Stack) : Nat :=
  64 * (stack.length + 2)

def feed (stack : Stack) (t : Token) : Fed :=
  feedUpTo (feedBound stack) stack t

def admits (stack : Stack) (t : Terminal) : Bool :=
  match feed stack ⟨t, some [], Span.nowhere, none⟩ with
  | .refused _ => false
  | _ => true

end GDWorkbench.Parse
