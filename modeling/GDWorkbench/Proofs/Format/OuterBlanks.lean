import GDWorkbench.Format
import Mathlib.Data.List.Induction

/-!
How many lines are left free around functions and classes of the outermost level matters to the
outermost block alone. Expressions, statements and blocks that are indented are laid out in the same
way whatever that number is.
-/

namespace GDWorkbench.Format

open GDWorkbench.Format.Annotations Block

namespace Context

/-- The context with another number of empty lines around functions and classes of the outermost
level. -/
def withBlanks (n : Nat) (c : Context) : Context :=
  { c with settings := { c.settings with outerBlanks := n } }

theorem child_withBlanks (n : Nat) (c : Context) (previous : Option Int) :
    (c.withBlanks n).child previous = (c.child previous).withBlanks n :=
  rfl

theorem indent_child_ne_zero {c : Context} (h : c.settings.unit ≠ 0) (previous : Option Int) :
    (c.child previous).indent ≠ 0 :=
  Nat.mul_ne_zero (Nat.succ_ne_zero _) h

end Context

/-! A formatter is blind if it does not look at this number. Blocks are blind where they are indented,
and all else is so at every depth, since the blocks inside it are indented. -/

def Formatter.Blind (next : Formatter) : Prop :=
  ∀ n e a (c : Context), c.settings.unit ≠ 0 → next e a (c.withBlanks n) = next e a c

def BodyFormatter.Blind (body : BodyFormatter) : Prop :=
  ∀ n ts (c : Context), c.indent ≠ 0 → body ts (c.withBlanks n) = body ts c

def StatementFormatter.Blind (format : StatementFormatter) : Prop :=
  ∀ n t (c : Context), c.settings.unit ≠ 0 → format t (c.withBlanks n) = format t c

def BlockFormatter.Blind (block : BlockFormatter) : Prop :=
  ∀ n ts (c : Context), c.indent ≠ 0 → block ts (c.withBlanks n) = block ts c

/-! ## Expressions -/

namespace Fold

theorem blind_oneLineOr {fold : Formatter} (hfold : fold.Blind) : (oneLineOr fold).Blind := by
  intro n e a c hc
  unfold oneLineOr
  rw [hfold n e a c hc]
  rfl

section

variable {next : Formatter} (hnext : next.Blind) {a : Affixes} {c : Context} (n : Nat)
  (hc : c.settings.unit ≠ 0)

include hnext hc

theorem itemLines_withBlanks (commaAtEnd : Bool) (items : List Tree) :
    itemLines next (c.withBlanks n) commaAtEnd items = itemLines next c commaAtEnd items := by
  induction items with
  | nil => rfl
  | cons item rest ih => simp only [itemLines, hnext n _ _ c hc, ih]

theorem operationLines_withBlanks (parts : List Expr) :
    operationLines next (c.withBlanks n) parts = operationLines next c parts := by
  induction parts using List.twoStepInduction with
  | nil => rfl
  | singleton p => rfl
  | cons_cons sign operand rest ih _ => simp only [operationLines, hnext n _ _ c hc, ih]

theorem chain_withBlanks (parts : List Expr) :
    chain next parts a (c.withBlanks n) = chain next parts a c := by
  unfold chain
  rw [Context.child_withBlanks, hnext n _ _ (c.child a.beforeLine) hc]
  rfl

theorem insideLastLink_withBlanks (parts : List Expr) :
    insideLastLink next parts a (c.withBlanks n) = insideLastLink next parts a c := by
  simp only [insideLastLink, chain_withBlanks hnext n hc, hnext n _ _ c hc]

theorem linked_withBlanks (t : Tree) : linked next t a (c.withBlanks n) = linked next t a c := by
  have hdots (parts : List Expr) : dots next parts a (c.withBlanks n) = dots next parts a c := by
    unfold dots
    rw [insideLastLink_withBlanks hnext n hc, chain_withBlanks hnext n hc]
    rfl
  simp only [linked, subscript, hdots, hnext n _ _ c hc]

theorem call_withBlanks (callee : Expr) (arguments : List Tree) (last : Option Int) :
    call next callee arguments last a (c.withBlanks n) = call next callee arguments last a c := by
  unfold call listed
  simp only [hnext n _ _ c hc]
  rfl

theorem pair_withBlanks (sign : String) (t : Tree) :
    pair next sign t a (c.withBlanks n) = pair next sign t a c := by
  simp only [pair, hnext n _ _ c hc]

theorem lambdaHeader_withBlanks (t : Tree) :
    lambdaHeader next t a (c.withBlanks n) = lambdaHeader next t a c := by
  simp only [lambdaHeader, hnext n _ _ c hc]

theorem argument_withBlanks (kind : Kind) (t : Tree) :
    argument next kind t a (c.withBlanks n) = argument next kind t a c := by
  refine bind_congr fun name => ?_
  split
  all_goals simp only [defaultValue, behind, hnext n _ _ c hc]

theorem annotationLines_withBlanks (t : Tree) :
    annotationLines next t (c.withBlanks n) = annotationLines next t c := by
  simp only [annotationLines, hnext n _ _ c hc]
  rfl

variable {body : BodyFormatter} (hbody : body.Blind)

include hbody

theorem lambda_withBlanks (t : Tree) :
    lambda next body t a (c.withBlanks n) = lambda next body t a c := by
  have hchild := hbody n t.children.tail (c.child a.beforeLine) (Context.indent_child_ne_zero hc _)
  simp only [lambda, hnext n _ _ c hc, Context.child_withBlanks, hchild]

theorem tree_withBlanks (t : Tree) :
    tree next body t a (c.withBlanks n) = tree next body t a c := by
  have hone (e : Expr) (a : Affixes) : next e a (c.withBlanks n) = next e a c := hnext n e a c hc
  cases t with
  | token t => rfl
  | node kind span children =>
    cases kind
    case assnmntExpr =>
      exact bind_congr fun _ => bind_congr fun _ => bind_congr fun _ => bind_congr fun _ =>
        bind_congr fun _ => hone _ _
    case aslessActualNotTest =>
      exact bind_congr fun _ => bind_congr fun _ => bind_congr fun _ => bind_congr fun _ => hone _ _
    case aslessActualNegExpr | aslessActualBitwNot =>
      exact bind_congr fun _ => bind_congr fun _ => bind_congr fun _ => hone _ _
    case awaitExpr => exact bind_congr fun _ => bind_congr fun _ => hone _ _
    case standaloneCall | callPattern =>
      exact bind_congr fun _ => bind_congr fun _ => call_withBlanks hnext n hc _ _ _
    case getattrCall | getattr | subscrExpr => exact linked_withBlanks hnext n hc _
    case parExpr | parPattern => exact bind_congr fun _ => bind_congr fun _ => hone _ _
    case array | arrayPattern | dict | enumBody | dictPattern | funcArgs | signalArgs | annotationArgs =>
      exact bind_congr fun _ => hone _ _
    case cDictElement | kvPairPattern | eqDictElement => exact pair_withBlanks hnext n hc _ _
    case lambda => exact lambda_withBlanks hnext n hc hbody _
    case lambdaHeader => exact lambdaHeader_withBlanks hnext n hc _
    case funcArgVariadic => exact bind_congr fun _ => hone _ _
    case funcArgRegular => exact argument_withBlanks hnext n hc .funcArgRegular _
    case funcArgInf => exact argument_withBlanks hnext n hc .funcArgInf _
    case funcArgTyped => exact argument_withBlanks hnext n hc .funcArgTyped _
    case annot => exact annotationLines_withBlanks hnext n hc _
    -- What is left are chains of operators, and nodes in which nothing is folded.
    all_goals first | rfl | exact chain_withBlanks hnext n hc _

omit hc in
theorem blind_step : (step next body).Blind := by
  intro n e a c hc
  cases e with
  | tree t => exact tree_withBlanks hnext n hc hbody t
  | listed ts first last =>
    simp only [step, listLines, Context.child_withBlanks, hnext n _ _ (c.child a.beforeLine) hc]
    rfl
  | items ts first last => exact itemLines_withBlanks hnext n hc _ _
  | operations parts first last =>
    cases parts with
    | nil => rfl
    | cons operand rest =>
      simp only [step, operations, hnext n _ _ c hc, operationLines_withBlanks hnext n hc]
  | joined parts first last => rfl
  | call callee arguments first last => exact call_withBlanks hnext n hc callee arguments last
  | subscript base index first last => simp only [step, subscript, hnext n _ _ c hc]

omit hnext hc in
theorem blind_upTo (depth : Nat) : (upTo body depth).Blind := by
  induction depth with
  | zero => exact fun _ _ _ _ _ => rfl
  | succ depth ih => exact blind_step (blind_oneLineOr ih) hbody

end

end Fold

/-! ## Blocks -/

theorem blanksBetween_withBlanks (n : Nat) (c : Context) (first last : Int) :
    blanksBetween (c.withBlanks n) first last = blanksBetween c first last := by
  have hlines (number : Int) (comments : List (Option Text)) :
      commentLines (c.withBlanks n) number comments = commentLines c number comments := by
    induction comments generalizing number with
    | nil => rfl
    | cons comment comments ih =>
      have hcomment (text : Text) :
          standaloneComment (c.withBlanks n) number text = standaloneComment c number text := rfl
      cases comment <;> simp only [commentLines, hcomment, ih]
  unfold blanksBetween
  simp only [hlines]
  rfl

theorem forcedBlanks_withBlanks {c : Context} (hc : c.indent ≠ 0) (n : Nat) (kind : Kind) :
    forcedBlanks (c.withBlanks n) kind = forcedBlanks c kind := by
  have hsame : (c.withBlanks n).indent = c.indent := rfl
  simp only [forcedBlanks, hsame, if_neg hc]

section

variable {body : BodyFormatter} (hbody : body.Blind) (n : Nat) {c : Context}

section

variable (hc : c.settings.unit ≠ 0)

include hbody hc

theorem concrete_withBlanks (t : Tree) (a : Affixes) :
    concrete body t a (c.withBlanks n) = concrete body t a c :=
  Fold.blind_oneLineOr (Fold.blind_upTo hbody _) n _ a c hc

theorem expression_withBlanks (t : Tree) (a : Affixes) :
    expression body t a (c.withBlanks n) = expression body t a c := by
  simp only [expression, concrete_withBlanks hbody n hc]

theorem standaloneLines_withBlanks (t : Tree) :
    standaloneLines body t (c.withBlanks n) = standaloneLines body t c := by
  simp only [standaloneLines, concrete_withBlanks hbody n hc]

theorem putBefore_withBlanks (pending : List Tree) (line : Line) :
    putBefore body (c.withBlanks n) pending line =
      putBefore body c pending line := by
  have hall (ts : List Tree) : allStandaloneLines body (c.withBlanks n) ts =
      allStandaloneLines body c ts := by
    induction ts with
    | nil => rfl
    | cons t ts ih =>
      simp only [allStandaloneLines, standaloneLines_withBlanks hbody n hc, ih]
  unfold putBefore
  rw [hall]
  rfl

end

variable {format : StatementFormatter} (hformat : format.Blind)

include hbody hformat

theorem statement_withBlanks (hc : c.settings.unit ≠ 0) (s : State) (kind : Kind) (t : Tree)
    (blanks : List Text) :
    statement format body (c.withBlanks n) s kind t blanks =
      statement format body c s kind t blanks := by
  simp only [statement, hformat n t c hc, putBefore_withBlanks hbody n hc]

theorem step_withBlanks (hc : c.indent ≠ 0) (inFunction : Bool) (s : State) (t : Tree)
    (following : Option Tree) :
    Block.step inFunction format body (c.withBlanks n) s t following =
      Block.step inFunction format body c s t following := by
  have hunit : c.settings.unit ≠ 0 := Nat.ne_zero_of_mul_ne_zero_right hc
  have hblanks (kind : Kind) :
      blanksBefore (c.withBlanks n) s kind t = blanksBefore c s kind t := by
    simp only [blanksBefore, blanksBetween_withBlanks, forcedBlanks_withBlanks hc]
  simp only [Block.step, hblanks, statement_withBlanks hbody n hformat hunit]

theorem blind_block (inFunction : Bool) : BlockFormatter.Blind (block inFunction format body) := by
  intro n ts c hc
  have hsteps (s : State) : steps inFunction format body (c.withBlanks n) s ts =
      steps inFunction format body c s ts := by
    induction ts generalizing s with
    | nil => rfl
    | cons t ts ih => simp only [steps, step_withBlanks hbody n hformat hc, ih]
  unfold block
  rw [hsteps]
  simp only [blanksBetween_withBlanks]
  rfl

end

/-! ## Statements -/

namespace Statement

variable {block : BlockFormatter} (hblock : block.Blind) (n : Nat) {c : Context}
  (hc : c.settings.unit ≠ 0)

include hblock

theorem blind_body : (body block).Blind := by
  intro n ts c hc
  simp only [body, hblock n ts c hc]

include hc

theorem behind_withBlanks (before : Text) (t e : Tree) (afterLine : Option Int) :
    behind block before t e afterLine (c.withBlanks n) = behind block before t e afterLine c := by
  simp only [behind, expression_withBlanks (blind_body hblock) n hc]

theorem around_withBlanks (before after : Text) (t inner : Tree) :
    around block before after t inner (c.withBlanks n) = around block before after t inner c := by
  simp only [around, concrete_withBlanks (blind_body hblock) n hc]

theorem under_withBlanks (header : List Line) (statements : List Tree) (previous : Option Int) :
    under block header statements previous (c.withBlanks n) =
      under block header statements previous c := by
  simp only [under, Context.child_withBlanks,
    hblock n statements _ (Context.indent_child_ne_zero hc previous)]

theorem branch_withBlanks (before : Text) (i : Nat) (t : Tree) :
    branch block before i t (c.withBlanks n) = branch block before i t c := by
  simp only [branch, expression_withBlanks (blind_body hblock) n hc, under_withBlanks hblock n hc]

theorem declared_withBlanks (modifier : Text) (t : Tree) :
    declared block modifier t (c.withBlanks n) = declared block modifier t c := by
  simp only [declared, assigned, behind_withBlanks hblock n hc]
  rfl

theorem constant_withBlanks (t : Tree) :
    constant block t (c.withBlanks n) = constant block t c := by
  simp only [constant, assigned, behind_withBlanks hblock n hc]

theorem ifBranch_withBlanks (t : Tree) :
    ifBranch block t (c.withBlanks n) = ifBranch block t c := by
  simp only [ifBranch, branch_withBlanks hblock n hc, under_withBlanks hblock n hc]
  rfl

theorem branches_withBlanks (ts : List Tree) :
    branches block (c.withBlanks n) ts = branches block c ts := by
  have hmore (previous : Option Int) (ts : List Tree) :
      moreBranches block (c.withBlanks n) previous ts = moreBranches block c previous ts := by
    induction ts generalizing previous with
    | nil => rfl
    | cons t ts ih =>
      simp only [moreBranches, blanksBetween_withBlanks, ifBranch_withBlanks hblock n hc, ih]
  cases ts with
  | nil => rfl
  | cons t ts => simp only [branches, ifBranch_withBlanks hblock n hc, hmore]

omit n hc in
theorem blind_format : StatementFormatter.Blind (Statement.format block) := by
  intro n t c hc
  unfold Statement.format
  simp only [declared_withBlanks hblock n hc, constant_withBlanks hblock n hc, returned,
    behind_withBlanks hblock n hc, branches_withBlanks hblock n hc, forLoop, typedForLoop, guarded,
    branch_withBlanks hblock n hc, standaloneLines_withBlanks (blind_body hblock) n hc]
  rfl

end Statement

theorem blind_functionBlock (depth : Nat) : (functionBlock depth).Blind := by
  induction depth with
  | zero => exact fun _ _ _ _ => rfl
  | succ depth ih => exact blind_block (Statement.blind_body ih) (Statement.blind_format ih) true

namespace Property

variable {functions : BlockFormatter} (hfunctions : functions.Blind)

include hfunctions

theorem blind_format : StatementFormatter.Blind (format functions) := by
  intro n t c hc
  unfold format
  simp only [getter, setter, Statement.under_withBlanks hfunctions n hc]
  rfl

theorem bodyLines_withBlanks (parts : List Tree) (previous : Option Int) (n : Nat) {c : Context}
    (hc : c.settings.unit ≠ 0) :
    bodyLines functions parts previous (c.withBlanks n) = bodyLines functions parts previous c := by
  have hblock := blind_block (Statement.blind_body hfunctions) (blind_format hfunctions) false n
    parts (c.child previous) (Context.indent_child_ne_zero hc previous)
  simp only [bodyLines, Context.child_withBlanks, hblock]

end Property

namespace Declaration

open Statement

theorem blind_format {functions classes : BlockFormatter} (hfunctions : functions.Blind)
    (hclasses : classes.Blind) :
    StatementFormatter.Blind (Declaration.format functions classes) := by
  intro n t c hc
  have hheader (modifier stop : String) (t : Tree) :
      functionHeader functions modifier stop t (c.withBlanks n) =
        functionHeader functions modifier stop t c := by
    simp only [functionHeader, around_withBlanks hfunctions n hc]
  have hvariable (modifier : String) (t : Tree) :
      variableLines functions modifier t (c.withBlanks n) =
        variableLines functions modifier t c := by
    simp only [variableLines, declared_withBlanks hfunctions n hc, Property.afterLine,
      Property.bodyLines_withBlanks hfunctions _ _ n hc]
  unfold Declaration.format
  simp only [enumeration, signal, docstring, around_withBlanks hfunctions n hc, hvariable, hheader,
    constant_withBlanks hfunctions n hc, function, under_withBlanks hfunctions n hc, innerClass,
    under_withBlanks hclasses n hc, standaloneLines_withBlanks (blind_body hfunctions) n hc,
    Property.standalone, Property.bodyLines_withBlanks hfunctions _ _ n hc]
  rfl

end Declaration

theorem blind_classBlock {functions : BlockFormatter} (hfunctions : functions.Blind) (depth : Nat) :
    (classBlock functions depth).Blind := by
  induction depth with
  | zero => exact fun _ _ _ _ => rfl
  | succ depth ih =>
    exact blind_block (Statement.blind_body hfunctions) (Declaration.blind_format hfunctions ih)
      false

end GDWorkbench.Format
