import GDWorkbench.Proofs.Grammar.Table
import Mathlib.Algebra.GroupWithZero.Nat

/-!
How many productions one token can complete. A production of two symbols or more leaves fewer frames
than it takes, and one of a single symbol climbs the ladder of precedence, which has finitely many
rungs. Weights put the two together: what a production makes weighs less than what it is made of.

The two productions without symbols make something from nothing. States where one of them is complete
get a weight of their own for that. Such a state is entered only with the header of a lambda, so no
production is completed twice there.
-/

namespace GDWorkbench.Automaton

open Parse

/-- The rungs, from the top. The only symbol of a production stands on a lower rung than what it makes,
and what is not named stands on the lowest one. -/
def rung : Nonterminal → Fin 31
  | .part .lambdaSuite => 0
  | .part .standaloneLambdaStmt | .node .start => 1
  | .part .simpleFuncStmt => 2
  | .node .singleFuncStmt => 3
  | .node .exprStmt => 4
  | .node .expr => 5
  | .node .typeCast => 6
  | .node .testExpr | .node .aslessTestExpr => 7
  | .node .orTest | .node .aslessOrTest => 8
  | .node .andTest | .node .aslessAndTest => 9
  | .node .notTest | .node .aslessNotTest => 10
  | .node .contentTest | .node .aslessContentTest | .node .pattern => 11
  | .node .comparison | .node .aslessComparison | .node .listPattern => 12
  | .node .bitwOr | .node .aslessBitwOr | .node .testPattern => 13
  | .node .bitwXor | .node .aslessBitwXor | .node .orPattern => 14
  | .node .bitwAnd | .node .aslessBitwAnd | .node .andPattern => 15
  | .node .shiftExpr | .node .aslessShiftExpr | .node .notPattern => 16
  | .node .arithExpr | .node .aslessArithExpr | .node .compPattern => 17
  | .node .mdrExpr | .node .aslessMdrExpr | .node .bitwOrPattern => 18
  | .node .negExpr | .node .aslessNegExpr | .node .bitwXorPattern => 19
  | .node .bitwNot | .node .aslessBitwNot | .node .bitwAndPattern => 20
  | .node .powExpr | .node .aslessPowExpr | .node .shiftPattern => 21
  | .node .typeTest | .node .aslessTypeTest | .node .arithPattern => 22
  | .node .awaitExpr | .node .mdrPattern => 23
  | .node .callExpr | .node .negPattern => 24
  | .node .attrExpr | .node .bitwNotPattern => 25
  | .node .subscrExpr | .node .attrPattern | .part .classStmts | .part .simpleClassStmt
  | .part .funcStmts | .part .funcSuite => 26
  | .part .plusAtom | .node .callPattern | .node .dictPatternElement
  | .node .singleClassStmt | .part .classStmt | .part .funcStmt => 27
  | .node .atom | .node .atomPattern | .node .classVarStmt | .node .funcVarStmt
  | .node .compoundClassStmt | .node .compoundFuncStmt => 28
  | .node .literal | .node .lambda | .node .classVarTyped | .node .funcVarTyped
  | .node .constStmt | .node .enumStmt | .node .docstrStmt | .node .abstractFuncDef
  | .node .funcArg | .node .ifStmt | .part .annotations | .part .attrs
  | .part .contentTestOp | .part .customEtters | .part .elifBranches | .part .matchBranches
  | .part .propertyDelegates => 29
  | _ => 30

def weight : Head → Nat
  | .terminal _ => 64
  | .nonterminal head => 33 + rung head

theorem weight_le (x : Head) : weight x ≤ 64 := by
  cases x with
  | terminal t => exact Nat.le_refl 64
  | nonterminal head =>
    have hrung := (rung head).isLt
    rw [weight]
    omega

def weightOf (xs : List Head) : Nat :=
  (xs.map weight).sum

@[simp]
theorem weightOf_cons (x : Head) (xs : List Head) : weightOf (x :: xs) = weight x + weightOf xs :=
  rfl

@[simp]
theorem weightOf_append (xs ys : List Head) : weightOf (xs ++ ys) = weightOf xs + weightOf ys := by
  simp [weightOf]

theorem weightOf_reverse (xs : List Head) : weightOf xs.reverse = weightOf xs := by
  induction xs with
  | nil => rfl
  | cons x xs ih =>
    rw [List.reverse_cons, weightOf_append, ih]
    simp [weightOf]
    omega

theorem weightOf_le (xs : List Head) : weightOf xs ≤ 64 * xs.length := by
  induction xs with
  | nil => exact Nat.le_refl 0
  | cons x xs ih =>
    have hx := weight_le x
    rw [weightOf_cons, List.length_cons]
    omega

/-- Whether a production without symbols is complete in the state. -/
def Row.skips (r : Row) : Bool :=
  r.reductions.any fun x => x.head.productions[x.index]?.any (·.symbols.isEmpty)

def skipWeight : Nat := 35

def Row.weight (r : Row) : Nat :=
  if r.skips then skipWeight else 0

/-- What a state that is entered with the symbol weighs at most. -/
def weightBehind : Nonterminal → Nat
  | .node .lambdaHeader => skipWeight
  | _ => 0

/-- Completing a production lowers the weight, that of the state behind it included. -/
def Row.isLowering (r : Row) : Bool :=
  r.reductions.all fun x => x.head.productions[x.index]?.all fun p =>
    Automaton.weight (.nonterminal x.head) + weightBehind x.head <
      weightOf (p.symbols.map headOf) + if p.symbols.isEmpty then skipWeight else 0

def Row.isLight (r : Row) : Bool :=
  r.edges.all fun (x, target) => match x with
    | .terminal _ => true
    | .nonterminal head => (row target).weight ≤ weightBehind head

theorem isLowering_blocks : ∀ rows ∈ blocks, ∀ r ∈ rows, r.isLowering := by decide +kernel

theorem isLight_blocks : ∀ rows ∈ blocks, ∀ r ∈ rows, r.isLight := by decide +kernel

theorem weight_lt_of_action? {number below target : Nat} {t : Terminal} {head : Nonterminal}
    {p : Production} (haction : (state number).action? t = some (.reduce head p))
    (hgoto : (state below).goto? head = some target) :
    weight (.nonterminal head) + (row target).weight <
      weightOf (p.symbols.map headOf) + (row number).weight := by
  obtain ⟨r, hr, rfl, hproduction, -⟩ := mem_of_action? haction
  have hlowering := List.all_eq_true.mp (forall_row (by decide) isLowering_blocks number) r hr
  have hlight :=
    List.all_eq_true.mp (forall_row (by decide) isLight_blocks below) _
      (mem_edges (x := .nonterminal r.head) hgoto)
  simp only [hproduction, Option.all_some, decide_eq_true_eq] at hlowering hlight
  have hskips : (if p.symbols.isEmpty then skipWeight else 0) ≤ (row number).weight := by
    split
    · rename_i hempty
      have hskip : (row number).skips :=
        List.any_eq_true.mpr ⟨r, hr, by simpa [hproduction] using hempty⟩
      simp [Row.weight, hskip]
    · exact Nat.zero_le _
  omega

end GDWorkbench.Automaton
