import GDWorkbench.Proofs.Grammar.Closure
import GDWorkbench.Proofs.Parse.Parts

/-!
What an outline is about: the statements in the blocks of a tree, and the classes and functions that it
defines, each in the order of the text. The rules put definitions into classes only, so nothing is defined
inside a statement or a function.
-/

namespace GDWorkbench

open List Label

variable {t : Tree} {ts : List Tree} {k : Kind} {labels : List Label} {guards : Bool}

/-! ## Statements -/

/-- Nodes with statements among their children, or with branches that have some. -/
def Label.hasBlock : Label → Bool
  | .node .funcDef | .node .ifStmt | .node .ifBranch | .node .elifBranch | .node .elseBranch
  | .node .whileStmt | .node .forStmt | .node .forStmtTyped | .node .matchStmt | .node .matchBranch
  | .node .guardedMatchBranch => true
  | _ => false

/-- Whether a child of a node counts as a statement of its block. With `guards`, the guard of a branch
does. -/
def Kind.counts (guards : Bool) (k : Kind) (l : Label) : Bool :=
  Label.statements.admits l || guards && k = .guardedMatchBranch && l = .node .expr

theorem Kind.counts_eq_false (h : Place.admits (some labels) t.label)
    (hlabels : ∀ l ∈ labels, k.counts guards l = false) : k.counts guards t.label = false :=
  hlabels t.label (of_decide_eq_true h)

namespace Tree

mutual

/-- The statements in the blocks of a tree at any depth. Expressions are not entered, so the statements of
lambdas are not among them. -/
def statements (guards : Bool) : Tree → List Tree
  | .token _ => []
  | .node k _ children => if hasBlock (.node k) then statementsIn guards k children else []

def statementsIn (guards : Bool) (k : Kind) : List Tree → List Tree
  | [] => []
  | t :: ts =>
    (if k.counts guards t.label then [t] else []) ++ statements guards t ++ statementsIn guards k ts

end

theorem statements_eq_nil (h : t.label.hasBlock = false) : t.statements guards = [] := by
  cases t with
  | token t => rfl
  | node k span children => exact if_neg (ne_true_of_eq_false h)

theorem statements_eq {span : Option Span} {children : List Tree} (h : hasBlock (.node k)) :
    (Tree.node k span children).statements guards = statementsIn guards k children :=
  if_pos h

theorem statementsIn_eq_flatMap (ts : List Tree) : statementsIn guards k ts =
    ts.flatMap fun t => (if k.counts guards t.label then [t] else []) ++ t.statements guards := by
  induction ts with
  | nil => rfl
  | cons t ts ih => rw [statementsIn, ih, flatMap_cons]

/-- What stands in front of a block is not part of it. -/
theorem statementsIn_cons_of_admits (h : Place.admits (some labels) t.label)
    (hlabels : ∀ l ∈ labels, k.counts guards l = false ∧ l.hasBlock = false) :
    statementsIn guards k (t :: ts) = statementsIn guards k ts := by
  obtain ⟨hcounts, hblock⟩ := hlabels t.label (of_decide_eq_true h)
  rw [statementsIn, hcounts, statements_eq_nil hblock]
  rfl

theorem statementsIn_block (h : Label.statements.Row [] (ts.map label)) :
    statementsIn guards k ts = ts.flatMap fun t => t :: t.statements guards := by
  rw [statementsIn_eq_flatMap]
  refine flatMap_congr fun t ht => ?_
  rw [Kind.counts, h.forall_mem t ht]
  rfl

theorem statementsIn_branches (h : ∀ t ∈ ts, k.counts guards t.label = false) :
    statementsIn guards k ts = ts.flatMap (statements guards) := by
  rw [statementsIn_eq_flatMap]
  refine flatMap_congr fun t ht => ?_
  rw [h t ht]
  rfl

theorem IsRegular.span_of_mem_statements (h : t.IsRegular) :
    ∀ s ∈ t.statements guards, s.span?.isSome := by
  induction h with
  | token t => exact forall_mem_nil _
  | node hfits hlocated heach ih =>
    rw [statements]
    split
    · intro s hs
      rw [statementsIn_eq_flatMap] at hs
      obtain ⟨c, hc, hs⟩ := mem_flatMap.mp hs
      rcases mem_append.mp hs with hs | hs
      · split at hs
        · rw [mem_singleton.mp hs]
          exact hlocated c hc
        · cases hs
      · exact ih c hc s hs
    · exact forall_mem_nil _

/-- Without the guards, exactly the statements are left. -/
theorem IsRegular.filter_statements (h : t.IsRegular) :
    (t.statements true).filter (fun s => Label.statements.admits s.label) = t.statements false := by
  induction h with
  | token t => rfl
  | @node k span children hfits hlocated heach ih =>
    rw [statements, statements]
    split
    · rw [statementsIn_eq_flatMap, statementsIn_eq_flatMap, filter_flatMap]
      refine flatMap_congr fun c hc => ?_
      rw [filter_append, ih c hc]
      congr 1
      cases hstatement : Label.statements.admits c.label with
      | true => simp [Kind.counts, hstatement]
      | false =>
        have hnone : k.counts false c.label = false := by simp [Kind.counts, hstatement]
        rw [hnone]
        split
        · simp [hstatement]
        · rfl
    · rfl

/-! ## Classes and functions -/

end Tree

def Kind.classes : List Kind :=
  [.start, .classDef]

def Kind.functions : List Kind :=
  [.funcDef, .staticFuncDef, .abstractFuncDef]

namespace Tree

mutual

def classes : Tree → List Tree
  | .token _ => []
  | .node k span children =>
    (if k ∈ Kind.classes then [.node k span children] else []) ++ classesIn children

def classesIn : List Tree → List Tree
  | [] => []
  | t :: ts => classes t ++ classesIn ts

end

mutual

/-- A static function has another definition as its child and is counted once. -/
def functions : Tree → List Tree
  | .token _ => []
  | .node k span children =>
    if k ∈ Kind.functions then [.node k span children] else functionsIn children

def functionsIn : List Tree → List Tree
  | [] => []
  | t :: ts => functions t ++ functionsIn ts

end

theorem classesIn_eq_nil (h : ∀ t ∈ ts, t.classes = []) : classesIn ts = [] := by
  induction ts with
  | nil => rfl
  | cons t ts ih =>
    obtain ⟨ht, hts⟩ := forall_mem_cons.mp h
    rw [classesIn, ht, ih hts]
    rfl

theorem functionsIn_eq_nil (h : ∀ t ∈ ts, t.functions = []) : functionsIn ts = [] := by
  induction ts with
  | nil => rfl
  | cons t ts ih =>
    obtain ⟨ht, hts⟩ := forall_mem_cons.mp h
    rw [functionsIn, ht, ih hts]
    rfl

end Tree

/-- Nodes that make a class, or may: the kind at the end is one of rules that hand on their only part. -/
def Label.definesClass : Label → Bool
  | .node k => decide (k ∈ Kind.classes ++ [.compoundClassStmt])
  | .leaf _ => false

def Label.isDefinition : Label → Bool
  | .node k => (Label.node k).definesClass || decide (k ∈ Kind.functions)
  | .leaf _ => false

/-- The symbols below those that stand for the members of a class. -/
def Nonterminal.isBelowMembers : Nonterminal → Bool
  | .node k => !(Label.node k).isDefinition
  | .part f => f ∉ [.classStmt, .classBody, .classStmts]

/-- Only classes and static functions have a definition among their children. -/
theorem Kind.Expands.not_isDefinition (h : k.Expands Fragment.keepsTokens labels)
    (hclass : (Label.node k).definesClass = false) (hk : k ≠ .staticFuncDef) :
    ∀ l ∈ labels, l.isDefinition = false := by
  obtain ⟨hclosed, hmakers⟩ :
      SymbolSet.IsClosed (fun _ head => head.isBelowMembers) (!·.isDefinition) ∧
        ∀ k : Kind, (Label.node k).definesClass = false → k ≠ .staticFuncDef → ∀ a ∈ k.makers,
          Item.allStayIn (fun _ head => head.isBelowMembers) (!·.isDefinition) k.rule.keepsTokens a.items
            := by
    decide +kernel
  simpa using hclosed.of_expands (hmakers k hclass hk) h

theorem Label.definesClass_eq_false {l : Label} (h : l.isDefinition = false) : l.definesClass = false := by
  cases l with
  | leaf t => rfl
  | node k => exact (Bool.or_eq_false_iff.mp h).1

namespace Tree

theorem Conforms.classes_eq_nil (h : t.Conforms Fragment.keepsTokens)
    (hlabel : t.label.definesClass = false) : t.classes = [] := by
  induction h with
  | token t => rfl
  | @node k span children hexpands heach ih =>
    have hnot : k ∉ Kind.classes := fun hk => of_decide_eq_false hlabel (mem_append_left _ hk)
    have hchildren : ∀ c ∈ children, c.label.definesClass = false := by
      by_cases hk : k = .staticFuncDef
      · subst hk
        obtain ⟨c, rfl, hc⟩ := Place.Row.exists_singleton hexpands.fits
        obtain ⟨span, children, rfl⟩ := exists_node_of_mem hc
        exact forall_mem_singleton.mpr rfl
      · exact fun c hc =>
          definesClass_eq_false (hexpands.not_isDefinition hlabel hk _ (mem_map_of_mem hc))
    rw [classes, if_neg hnot, classesIn_eq_nil fun c hc => ih c hc (hchildren c hc)]
    rfl

theorem Conforms.functions_eq_nil (h : t.Conforms Fragment.keepsTokens)
    (hlabel : t.label.isDefinition = false) : t.functions = [] := by
  induction h with
  | token t => rfl
  | @node k span children hexpands heach ih =>
    obtain ⟨hclass, hfunction⟩ := Bool.or_eq_false_iff.mp hlabel
    have hnot : k ∉ Kind.functions := of_decide_eq_false hfunction
    have hstatic : k ≠ .staticFuncDef := by
      rintro rfl
      exact hnot (by decide)
    rw [functions, if_neg hnot]
    refine functionsIn_eq_nil fun c hc => ih c hc ?_
    exact hexpands.not_isDefinition hclass hstatic _ (mem_map_of_mem hc)

end Tree

end GDWorkbench
