import GDWorkbench.Grammar.Automaton.States1
import GDWorkbench.Grammar.Automaton.States2
import GDWorkbench.Grammar.Automaton.States3
import GDWorkbench.Grammar.Automaton.States4
import GDWorkbench.Grammar.Rules
import GDWorkbench.Lexicon

/-!
The parsing automaton of the grammar: its states, and what a state does with a terminal. Where a
state could both shift a terminal and complete a production before it, it shifts.
-/

namespace GDWorkbench.Automaton

def width : Nat := 32

def blocks : List (List Row) := [
  block0, block1, block2, block3, block4, block5, block6, block7, block8, block9, block10, block11,
  block12, block13, block14, block15, block16, block17, block18, block19, block20, block21, block22,
  block23, block24, block25, block26, block27, block28]

/-- A row with its references looked up. -/
structure State where
  lexicon : Lexicon
  shifts : List (Terminal × Nat)
  reductions : List (List Terminal × Nonterminal × Production)
  nodes : List (Kind × Nat)
  parts : List (Fragment × Nat)
  deriving Inhabited

inductive Action where
  | shift (target : Nat)
  | reduce (head : Nonterminal) (production : Production)

namespace State

def shift? (s : State) (t : Terminal) : Option Nat :=
  s.shifts.lookup t

def action? (s : State) (t : Terminal) : Option Action :=
  match s.shift? t with
  | some target => some (.shift target)
  | none => (s.reductions.find? (·.1.elem t)).map fun (_, head, p) => .reduce head p

def goto? (s : State) : Nonterminal → Option Nat
  | .node k => s.nodes.lookup k
  | .part f => s.parts.lookup f

def expected (s : State) : List Terminal :=
  Terminal.all.filter fun t => (s.action? t).isSome

end State

def Reduction.resolve (r : Reduction) : Option (List Terminal × Nonterminal × Production) := do
  let lookahead ← lookaheads[r.lookahead]?
  let production ← r.head.productions[r.index]?
  return (lookahead, r.head, production)

def Row.resolve (r : Row) : State :=
  let reductions := r.reductions.filterMap Reduction.resolve
  { lexicon := Lexicon.ofExpected (reductions.foldl (fun set x => set ||| Terminal.bits x.1)
      (Terminal.bits (r.shifts.map (·.1))))
    shifts := r.shifts
    reductions := reductions
    nodes := r.nodes
    parts := r.parts }

def states : List (List State) :=
  blocks.map (·.map Row.resolve)

/-- The state with a number; a number that no state has stands for one that does nothing. -/
def state (number : Nat) : State :=
  ((states[number / width]?).bind (·[number % width]?)).getD default

end GDWorkbench.Automaton
