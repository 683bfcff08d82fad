import GDWorkbench.Proofs.Lint.Totality

/-!
Needless statements and comparisons. A comparison of a value with itself is reported if its node is named
`comparison`, but behind some operators such a node has another name. A `pass` is reported if its body has
another statement, unless these are all loops with a typed variable.
-/

namespace GDWorkbench.Lint.Basic

open List GDWorkbench.Tree

variable {code : Text} {t : Tree}

/-- One problem for each of the trees, in any order. -/
def Reports (check : Check) (description : String) (ts : List Tree) (problems : List Problem) : Prop :=
  problems.map some ~ ts.map fun t => (Problem.ofTree check description.toList t).toOption

theorem reports_of_mapM {check : Check} {description : String} {order ts : List Tree}
    {problems : List Problem} (horder : order ~ ts)
    (h : order.mapM (Problem.ofTree check description.toList) = .ok problems) :
    Reports check description ts problems := by
  refine .trans (.of_eq ?_) (horder.map _)
  clear horder
  induction order generalizing problems with
  | nil =>
    cases h
    rfl
  | cons s order ih =>
    rw [mapM_cons] at h
    obtain ⟨p, hp, h⟩ := exists_of_bind_eq_ok h
    obtain ⟨ps, hps, heq⟩ := exists_of_bind_eq_ok h
    cases heq
    rw [map_cons, map_cons, ih hps, hp]
    rfl

/-! ## Comparisons -/

def redundant (t : Tree) : List Tree :=
  t.allNodes.filter fun s => isRedundant s && isComparison s

/-- Every comparison has two operands with one of six signs between them. Those of one of two kinds are
reported if their operands are the same, each once and nothing else; so all are reported exactly if there is
none of the other kind whose operands are the same. -/
theorem comparisonWithItself_reports (h : parse code = .ok t) :
    ∃ problems, comparisonWithItself t = .ok problems ∧
      (∀ s ∈ t.allNodes, isComparison s = true → ∃ left operator right,
        s.children = [left, .token operator, right] ∧
          Label.comparators.admits (.leaf operator.terminal) = true) ∧
      Reports .comparisonWithItself "Redundant comparison"
        (t.allNodes.filter fun s => isRedundant s && s.isKind .comparison) problems ∧
      (Reports .comparisonWithItself "Redundant comparison" (redundant t) problems ↔
        ∀ s ∈ t.allNodes, s.isKind .aslessComparison = true → isRedundant s = false) := by
  obtain ⟨hregular, hkind, -⟩ := isRegular_of_parse h
  obtain ⟨problems, hproblems, -⟩ := succeeds_comparisonWithItself hregular (decide_eq_true hkind)
  have hreports : Reports .comparisonWithItself "Redundant comparison"
      (t.allNodes.filter fun s => isRedundant s && s.isKind .comparison) problems := by
    refine reports_of_mapM ?_ ((comparisonWithItself_eq hregular).symm.trans hproblems)
    rw [subtreesOf, filter_filter]
    exact (subtrees_perm t).filter _
  refine ⟨problems, hproblems, fun s hs => exists_operands ((mem_allNodes_iff.mp hs).2.isRegular hregular),
    hreports, fun hall s hs hasless => ?_, fun hnone => ?_⟩
  · have hlength := hreports.symm.length_eq.trans hall.length_eq
    rw [length_map, length_map] at hlength
    have hsub : (t.allNodes.filter fun s => isRedundant s && s.isKind .comparison).Sublist (redundant t) := by
      apply monotone_filter_right
      intro s hs
      rw [Bool.and_eq_true] at hs ⊢
      exact ⟨hs.1, Bool.or_eq_true_iff.mpr (.inl hs.2)⟩
    refine Bool.eq_false_iff.mpr fun hredundant => ?_
    have hmem : s ∈ redundant t := by
      simp [redundant, hs, isComparison, hasless, hredundant]
    rw [← hsub.eq_of_length hlength, mem_filter, Bool.and_eq_true] at hmem
    cases (of_decide_eq_true hmem.2.2).symm.trans (of_decide_eq_true hasless)
  · rw [redundant, filter_congr fun s hs => ?_]
    · exact hreports
    · have := hnone s hs
      cases hasless : s.isKind .aslessComparison <;> simp_all [isComparison]

def comparedArgument : Text :=
  "var x = f(a == a, a < b)\n".toList

theorem comparisonWithItself_reports_argument :
    ∃ t problems, parse comparedArgument = .ok t ∧ comparisonWithItself t = .ok problems ∧
      Reports .comparisonWithItself "Redundant comparison" (redundant t) problems ∧
      (redundant t).length = 1 := by
  have hparse : (parse comparedArgument).toOption.any (fun t => decide ((redundant t).length = 1 ∧
      ∀ s ∈ t.allNodes, s.isKind .aslessComparison = true → isRedundant s = false)) = true := by
    decide +kernel
  obtain ⟨t, ht, hone, hnone⟩ := exists_eq_ok_of_any hparse
  obtain ⟨problems, hproblems, -, -, hall⟩ := comparisonWithItself_reports ht
  exact ⟨t, problems, ht, hproblems, hall.mpr hnone, hone⟩

def comparedBehindAnd : Text :=
  "var x = a and b == b\n".toList

theorem comparisonWithItself_misses_comparison :
    ∃ t, parse comparedBehindAnd = .ok t ∧ comparisonWithItself t = .ok [] ∧
      (redundant t).length = 1 := by
  have hparse : (parse comparedBehindAnd).toOption.any (fun t => decide ((redundant t).length = 1 ∧
      (comparisonWithItself t).toOption.any (fun problems => decide (problems = [])) = true)) = true := by
    decide +kernel
  obtain ⟨t, ht, hone, hnone⟩ := exists_eq_ok_of_any hparse
  obtain ⟨_, hproblems, rfl⟩ := exists_eq_ok_of_any hnone
  exact ⟨t, ht, hproblems, hone⟩

/-! ## Bodies -/

def hasBody : Kind → Bool
  | .funcDef | .propertyCustomSetter | .propertyCustomGetter | .lambda | .ifBranch | .elifBranch
  | .elseBranch | .whileStmt | .forStmt | .forStmtTyped | .matchBranch | .guardedMatchBranch => true
  | _ => false

def passes (body : Tree) : List Tree :=
  body.children.filter (·.isKind .passStmt)

/-- The other statements of a body. -/
def others (body : Tree) : List Tree :=
  body.children.filter fun s =>
    Label.statements.admits s.label && !s.isKind .passStmt && !s.isKind .annot

/-- What may stand in a body is a plain statement if it is a statement, but for typed loops. -/
theorem isPlainStatement_eq (k inner : Kind) (hk : hasBody k)
    (h : k.children.rest.admits (.node inner) ∨
      ∃ place ∈ k.children.front, place.admits (.node inner)) :
    isPlainStatement inner =
      (Label.statements.admits (.node inner) && !isKind .annot (.node inner none []) &&
        !isKind .forStmtTyped (.node inner none [])) := by
  -- Few kinds are plain statements outside functions only, so the bodies are gone through for these.
  by_contra hne
  refine absurd h ?_
  clear h
  revert k
  revert inner
  decide +kernel

theorem needlessPasses_eq (h : t.IsRegular) (ht : t.kind?.any hasBody) :
    needlessPasses t = if (others t).all (·.isKind .forStmtTyped) then [] else passes t := by
  have hplain : ∀ s ∈ t.children, s.kind?.any isPlainStatement =
      (Label.statements.admits s.label && !s.isKind .annot && !s.isKind .forStmtTyped) := by
    intro s hs
    cases t with
    | token t => cases hs
    | node k span children =>
      cases s with
      | token token => rfl
      | node inner span children =>
        have hadmits := Template.admits_of_mem h.row _ (mem_map_of_mem hs)
        exact isPlainStatement_eq k inner ht hadmits
  have hpasses : passes t = (t.children.filter fun s => s.kind?.any isPlainStatement).filter (·.isKind .passStmt) := by
    rw [filter_filter]
    refine filter_congr fun s hs => ?_
    cases hpass : s.isKind .passStmt with
    | false => rfl
    | true => rw [of_decide_eq_true hpass]; rfl
  have hlength : (passes t).length < (t.children.filter fun s => s.kind?.any isPlainStatement).length ↔
      ¬ (others t).all (·.isKind .forStmtTyped) := by
    rw [hpasses, length_filter_lt_length_iff_exists]
    simp only [others, all_filter, all_eq_true, mem_filter]
    grind
  rw [needlessPasses]
  exact (if_congr hlength rfl rfl).trans (ite_not ..)

/-- Every needless `pass` is reported once and nothing else. In the body of a function, branch, loop,
accessor or lambda every `pass` is needless if there is another statement that is not a typed loop, and none
otherwise; so this is as it should be exactly unless there is a `pass` and all other statements are
typed loops. -/
theorem unnecessaryPass_reports (h : parse code = .ok t) :
    ∃ problems, unnecessaryPass t = .ok problems ∧
      Reports .unnecessaryPass "\"pass\" statement not necessary" (t.allNodes.flatMap needlessPasses)
        problems ∧
      ∀ body ∈ t.allNodes, body.kind?.any hasBody = true →
        needlessPasses body =
          (if (others body).all (·.isKind .forStmtTyped) then [] else passes body) ∧
        (needlessPasses body = (if (others body).isEmpty then [] else passes body) ↔
          passes body = [] ∨ others body = [] ∨ (others body).all (·.isKind .forStmtTyped) = false) := by
  obtain ⟨hregular, -⟩ := isRegular_of_parse h
  obtain ⟨problems, hproblems, -⟩ := succeeds_unnecessaryPass hregular
  refine ⟨problems, hproblems, reports_of_mapM ((subtrees_perm t).flatMap_right _) hproblems, ?_⟩
  intro body hbody hhas
  have heq := needlessPasses_eq ((mem_allNodes_iff.mp hbody).2.isRegular hregular) hhas
  refine ⟨heq, ?_⟩
  rw [heq]
  cases others body with
  | nil => simp
  | cons s rest =>
    rw [isEmpty_cons]
    cases (s :: rest).all (·.isKind .forStmtTyped) <;> simp

def passAndReturn : Text :=
  "func f():\n\tpass\n\treturn\n".toList

theorem unnecessaryPass_reports_passAndReturn :
    ∃ t problems, parse passAndReturn = .ok t ∧ unnecessaryPass t = .ok problems ∧
      Reports .unnecessaryPass "\"pass\" statement not necessary" (t.allNodes.flatMap needlessPasses)
        problems ∧
      ∃ body ∈ t.allNodes, body.kind?.any hasBody = true ∧ needlessPasses body = passes body ∧
        (passes body).length = 1 := by
  have hparse : (parse passAndReturn).toOption.any (fun t => decide (∃ body ∈ t.allNodes,
      body.kind?.any hasBody = true ∧ (others body).all (·.isKind .forStmtTyped) = false ∧
      (passes body).length = 1)) = true := by
    decide +kernel
  obtain ⟨t, ht, body, hbody, hhas, hothers, hone⟩ := exists_eq_ok_of_any hparse
  obtain ⟨problems, hproblems, hreports, hbodies⟩ := unnecessaryPass_reports ht
  refine ⟨t, problems, ht, hproblems, hreports, body, hbody, hhas, ?_, hone⟩
  rw [(hbodies body hbody hhas).1, hothers]
  rfl

def passAndTypedLoop : Text :=
  "func f():\n\tpass\n\tfor i: int in x:\n\t\tpass\n".toList

theorem unnecessaryPass_misses_pass :
    ∃ t, parse passAndTypedLoop = .ok t ∧ unnecessaryPass t = .ok [] ∧
      ∃ body ∈ t.allNodes, body.kind?.any hasBody = true ∧ (passes body).length = 1 ∧
        (others body).length = 1 := by
  have hparse : (parse passAndTypedLoop).toOption.any (fun t => decide
      ((unnecessaryPass t).toOption.any (fun problems => decide (problems = [])) = true ∧
      ∃ body ∈ t.allNodes, body.kind?.any hasBody = true ∧ (passes body).length = 1 ∧
        (others body).length = 1)) = true := by
    decide +kernel
  obtain ⟨t, ht, hnone, hbody⟩ := exists_eq_ok_of_any hparse
  obtain ⟨_, hproblems, rfl⟩ := exists_eq_ok_of_any hnone
  exact ⟨t, ht, hproblems, hbody⟩

end GDWorkbench.Lint.Basic
