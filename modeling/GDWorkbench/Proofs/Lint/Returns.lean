import GDWorkbench.Proofs.Lint.Independence
import GDWorkbench.Proofs.Lint.Totality

/-!
Where the checks of needless branches stop. They judge whether a branch always returns, and so come to
the branches of a `match` inside. A branch of a `match` that has no statements is nothing but its
pattern, and looking for the wildcard takes a part of it that need not be there.
-/

namespace GDWorkbench.Lint

open List GDWorkbench.Tree

namespace Returns

variable {s t : Tree} {span : Option Span} {branches : List Tree}

/-! ## Judging a branch -/

def isWildcard (branch : Tree) : Except Fault Bool := do
  return (← (← branch.part 0).part 0).isKind .wildcardPattern

/-- Whether a statement is an `if` with an `else` all of whose branches return. -/
def ifReturns : Tree → Except Fault Bool
  | .token _ => .ok false
  | .node kind _ branches => if kind = .ifStmt && hasElse branches then allReturn branches else .ok false

/-- Whether a statement is a match with a wildcard all of whose branches return. -/
def matchReturns : Tree → Except Fault Bool
  | .node .matchStmt _ (_ :: branches) => do
    if ← hasWildcard branches then allReturn branches else return false
  | _ => .ok false

theorem asks_hasWildcard : Asks isWildcard false hasWildcard where
  nil := rfl
  cons branch rest := by
    rw [hasWildcard, isWildcard]
    cases branch.part 0 with
    | error f => rfl
    | ok first =>
      change (first.part 0 >>= fun pattern => _) = (first.part 0 >>= fun pattern => _) >>= _
      cases first.part 0 with
      | error f => rfl
      | ok pattern =>
        change (if pattern.isKind .wildcardPattern then _ else _) =
          if pattern.isKind .wildcardPattern = false then _ else _
        cases pattern.isKind .wildcardPattern <;> rfl

theorem asks_allReturn : Asks alwaysReturns true allReturn where
  nil := rfl
  cons t ts := by
    rw [allReturn]
    cases alwaysReturns t with
    | error f => rfl
    | ok answer => cases answer <;> rfl

theorem asks_someIfReturns : Asks ifReturns false someIfReturns where
  nil := rfl
  cons s rest := by
    cases s with
    | token t => rfl
    | node kind span branches =>
      rw [someIfReturns, ifReturns]
      split
      · cases allReturn branches with
        | error f => rfl
        | ok answer => cases answer <;> rfl
      · rfl

theorem asks_someMatchReturns : Asks matchReturns false someMatchReturns where
  nil := rfl
  cons s rest := by
    fun_cases matchReturns s with
    | case1 span value branches =>
      rw [someMatchReturns]
      cases hasWildcard branches with
      | error f => rfl
      | ok found =>
        cases found with
        | false => rfl
        | true =>
          change (allReturn branches >>= fun answer => _) = allReturn branches >>= fun answer => _
          cases allReturn branches with
          | error f => rfl
          | ok answer => cases answer <;> rfl
    | case2 s hother =>
      rw [someMatchReturns]
      · rfl
      · exact hother

/-- Judging a branch comes to the branches of an `if`: it has an `else`, and no `if` before
returns. -/
structure ComesToIf (t : Tree) (branches : List Tree) : Prop where
  noReturn : ∀ s ∈ t.children, s.isKind .returnStmt = false
  place : ∃ before span rest, t.children = before ++ Tree.node .ifStmt span branches :: rest ∧
    ∀ s ∈ before, ifReturns s = .ok false
  complete : hasElse branches = true

/-- Judging a branch comes to the branches of a `match`: no `if` returns, and no `match` before. -/
structure ComesToMatch (t : Tree) (branches : List Tree) : Prop where
  noReturn : ∀ s ∈ t.children, s.isKind .returnStmt = false
  noIf : ∀ s ∈ t.children, ifReturns s = .ok false
  place : ∃ before span value rest, t.children = before ++ Tree.node .matchStmt span (value :: branches) :: rest ∧
    ∀ s ∈ before, matchReturns s = .ok false

theorem not_succeeds_ifReturns_iff :
    ¬ Succeeds (ifReturns s) ↔ ∃ span branches, s = .node .ifStmt span branches ∧
      hasElse branches ∧ ¬ Succeeds (allReturn branches) := by
  cases s with
  | token t => exact iff_of_false (not_not_intro succeeds_ok) nofun
  | node kind span branches =>
    rw [ifReturns]
    split
    · rename_i hif
      obtain ⟨hkind, helse⟩ := Bool.and_eq_true_iff.mp hif
      obtain rfl := of_decide_eq_true hkind
      constructor
      · exact fun h => ⟨span, branches, rfl, helse, h⟩
      · rintro ⟨_, _, ⟨⟩, -, h⟩
        exact h
    · rename_i hif
      refine iff_of_false (not_not_intro succeeds_ok) ?_
      rintro ⟨_, _, ⟨⟩, helse, -⟩
      exact hif (Bool.and_eq_true_iff.mpr ⟨rfl, helse⟩)

theorem not_succeeds_matchReturns_iff :
    ¬ Succeeds (matchReturns s) ↔ ∃ span value branches, s = .node .matchStmt span (value :: branches) ∧
      (¬ Succeeds (hasWildcard branches) ∨
        hasWildcard branches = .ok true ∧ ¬ Succeeds (allReturn branches)) := by
  fun_cases matchReturns s with
  | case1 span value branches =>
    rw [not_succeeds_bind_iff, Bool.exists_bool]
    constructor
    · rintro (h | ⟨-, h⟩ | h)
      · exact ⟨span, value, branches, rfl, .inl h⟩
      · exact absurd succeeds_ok h
      · exact ⟨span, value, branches, rfl, .inr h⟩
    · rintro ⟨_, _, _, ⟨⟩, h | h⟩
      · exact .inl h
      · exact .inr (.inr h)
  | case2 s hother =>
    refine iff_of_false (not_not_intro succeeds_ok) ?_
    rintro ⟨span, value, branches, rfl, -⟩
    exact hother span value branches rfl

theorem not_succeeds_node_iff {k : Kind} {children : List Tree} :
    ¬ Succeeds (alwaysReturns (.node k span children)) ↔
      (∀ s ∈ children, s.isKind .returnStmt = false) ∧ (¬ Succeeds (someIfReturns children) ∨
        (∀ s ∈ children, ifReturns s = .ok false) ∧ ¬ Succeeds (someMatchReturns children)) := by
  rw [alwaysReturns, ← asks_someIfReturns.eq_ok_iff]
  cases hreturn : children.any (·.isKind .returnStmt) with
  | true =>
    obtain ⟨s, hs, hkind⟩ := any_eq_true.mp hreturn
    refine iff_of_false (not_not_intro succeeds_ok) fun h => ?_
    cases (h.1 s hs).symm.trans hkind
  | false =>
    rw [and_iff_right (by simpa using hreturn)]
    change ¬ Succeeds (someIfReturns children >>= fun found => _) ↔ _
    rw [not_succeeds_bind_iff, Bool.exists_bool]
    refine or_congr_right (or_iff_left ?_)
    rintro ⟨-, h⟩
    exact h succeeds_ok

/-- Judging fails at the first statement that cannot be judged. -/
theorem not_succeeds_alwaysReturns_iff (h : t.isNode) : ¬ Succeeds (alwaysReturns t) ↔
      (∃ branches, ComesToIf t branches ∧ ¬ Succeeds (allReturn branches)) ∨
      ∃ branches, ComesToMatch t branches ∧ (¬ Succeeds (hasWildcard branches) ∨
        hasWildcard branches = .ok true ∧ ¬ Succeeds (allReturn branches)) := by
  cases t with
  | token t => cases h
  | node k span children =>
    rw [not_succeeds_node_iff, asks_someIfReturns.not_succeeds_iff, asks_someMatchReturns.not_succeeds_iff]
    constructor
    · rintro ⟨hreturn, ⟨before, s, rest, rfl, hbefore, hs⟩ | ⟨hif, before, s, rest, rfl, hbefore, hs⟩⟩
      · obtain ⟨span, branches, rfl, helse, hfails⟩ := not_succeeds_ifReturns_iff.mp hs
        exact .inl ⟨branches, ⟨hreturn, ⟨before, span, rest, rfl, hbefore⟩, helse⟩, hfails⟩
      · obtain ⟨span, value, branches, rfl, hfails⟩ := not_succeeds_matchReturns_iff.mp hs
        exact .inr ⟨branches, ⟨hreturn, hif, before, span, value, rest, rfl, hbefore⟩, hfails⟩
    · rintro (⟨branches, ⟨hreturn, ⟨before, span, rest, hchildren, hbefore⟩, helse⟩, hfails⟩ |
        ⟨branches, ⟨hreturn, hif, before, span, value, rest, hchildren, hbefore⟩, hfails⟩)
      · refine ⟨hreturn, .inl ⟨before, _, rest, hchildren, hbefore, ?_⟩⟩
        exact not_succeeds_ifReturns_iff.mpr ⟨span, branches, rfl, helse, hfails⟩
      · refine ⟨hreturn, .inr ⟨hif, before, _, rest, hchildren, hbefore, ?_⟩⟩
        exact not_succeeds_matchReturns_iff.mpr ⟨span, value, branches, rfl, hfails⟩

def isBare : Tree → Bool
  | .node .pattern _ [pattern] => pattern.children.isEmpty
  | _ => false

/-- Whether a branch returns cannot be told: judging it comes to a bare branch. -/
inductive Stuck : Tree → Prop
  | inIf {t b : Tree} {passed more : List Tree} (comes : ComesToIf t (passed ++ b :: more))
      (returning : ∀ p ∈ passed, alwaysReturns p = .ok true) (stuck : Stuck b) : Stuck t
  | inMatch {t b : Tree} {passed more : List Tree} (comes : ComesToMatch t (passed ++ b :: more))
      (complete : hasWildcard (passed ++ b :: more) = .ok true)
      (returning : ∀ p ∈ passed, alwaysReturns p = .ok true) (stuck : Stuck b) : Stuck t
  | atBare {t b : Tree} {passed more : List Tree} (comes : ComesToMatch t (passed ++ b :: more))
      (special : ∀ p ∈ passed, isWildcard p = .ok false) (bare : isBare b = true) : Stuck t

theorem succeeds_part_zero_iff : Succeeds (t.part 0) ↔ t.children ≠ [] := by
  cases t with
  | token t => exact iff_of_false nofun (not_not_intro rfl)
  | node k span children =>
    cases children with
    | nil => exact iff_of_false nofun (not_not_intro rfl)
    | cons c rest => exact iff_of_true succeeds_ok (cons_ne_nil c rest)

theorem succeeds_isWildcard_iff {k : Kind} {first : Tree} {rest : List Tree} :
    Succeeds (isWildcard (.node k span (first :: rest))) ↔ first.children ≠ [] := by
  rw [← succeeds_part_zero_iff]
  change Succeeds (first.part 0 >>= fun pattern => _) ↔ _
  rw [succeeds_bind_iff, succeeds_iff]
  exact exists_congr fun pattern => and_iff_left succeeds_ok

theorem not_succeeds_of_isBare {b : Tree} (h : isBare b) : ¬ Succeeds (isWildcard b) := by
  unfold isBare at h
  split at h
  · exact fun hsucceeds => succeeds_isWildcard_iff.mp hsucceeds (List.isEmpty_iff.mp h)
  · cases h

theorem isBare_of_not_succeeds {b : Tree} (h : b.IsRegular)
    (hlabel : Label.branches.admits b.label) (hfails : ¬ Succeeds (isWildcard b)) :
    isBare b := by
  obtain ⟨k, hk, span, children, rfl⟩ := Label.exists_node hlabel
  -- The pattern of a branch that is not one itself has a part.
  have hfull (hfirst : ∃ first rest, children = first :: rest ∧
      (Label.nodes [.pattern]).admits first.label) : Succeeds (isWildcard (.node k span children)) := by
    obtain ⟨first, rest, rfl, hpattern⟩ := hfirst
    obtain ⟨_, inner, rfl⟩ := Label.exists_node_of_mem hpattern
    obtain ⟨c, rfl, -⟩ := (h.child mem_cons_self).1.row.exists_singleton
    exact succeeds_isWildcard_iff.mpr (cons_ne_nil c [])
  simp only [mem_cons, not_mem_nil, or_false] at hk
  rcases hk with rfl | rfl | rfl
  · obtain ⟨c, rfl, -⟩ := h.row.exists_singleton
    exact List.isEmpty_iff.mpr (not_not.mp fun hne => hfails (succeeds_isWildcard_iff.mpr hne))
  · obtain ⟨first, rest, rfl, hfirst, -⟩ := h.row.exists_cons
    exact absurd (hfull ⟨first, rest, rfl, hfirst⟩) hfails
  · obtain ⟨first, rest, rfl, hfirst, -⟩ := h.row.exists_cons
    exact absurd (hfull ⟨first, rest, rfl, hfirst⟩) hfails

theorem ComesToIf.exists_mem (h : ComesToIf t branches) :
    ∃ span, .node .ifStmt span branches ∈ t.children := by
  obtain ⟨before, span, rest, hchildren, -⟩ := h.place
  exact ⟨span, hchildren ▸ mem_append_right _ mem_cons_self⟩

theorem ComesToMatch.exists_mem (h : ComesToMatch t branches) :
    ∃ span value, .node .matchStmt span (value :: branches) ∈ t.children := by
  obtain ⟨before, span, value, rest, hchildren, -⟩ := h.place
  exact ⟨span, value, hchildren ▸ mem_append_right _ mem_cons_self⟩

theorem isNode_of_admits {kinds : List Kind}
    (h : (Label.nodes kinds).admits t.label) : t.isNode := by
  obtain ⟨k, -, span, children, rfl⟩ := Label.exists_node h
  rfl

theorem isNode_of_ifStmt
    (h : (Tree.node .ifStmt span branches).IsRegular) : ∀ b ∈ branches, b.isNode := by
  obtain ⟨first, rest, rfl, hfirst, hrow⟩ := h.row.exists_cons
  exact forall_mem_cons.mpr ⟨isNode_of_admits hfirst, fun b hb =>
    isNode_of_admits (hrow.forall_mem b hb)⟩

theorem admits_of_matchStmt {value : Tree} (h : (Tree.node .matchStmt span (value :: branches)).IsRegular) :
    ∀ b ∈ branches, Label.branches.admits b.label := by
  obtain ⟨_, _, ⟨⟩, -, hrow⟩ := h.row.exists_cons
  exact hrow.forall_mem

/-- Where a branch cannot be judged, it is stuck. The induction is on the size, since the branches that
are judged next are children of children. -/
theorem stuck_of_not_succeeds (h : t.IsRegular) (hnode : t.isNode)
    (hfails : ¬ Succeeds (alwaysReturns t)) : Stuck t := by
  induction hsize : t.size using Nat.strong_induction_on generalizing t with
  | _ n ih =>
    have hbranches {s : Tree} {branches : List Tree} (hs : s ∈ t.children)
        (hsub : branches ⊆ s.children) (hnodes : ∀ b ∈ branches, b.isNode)
        (hfails : ¬ Succeeds (allReturn branches)) : ∃ passed b more, branches = passed ++ b :: more ∧
          (∀ p ∈ passed, alwaysReturns p = .ok true) ∧ Stuck b := by
      obtain ⟨passed, b, more, rfl, hpassed, hb⟩ := asks_allReturn.not_succeeds_iff.mp hfails
      have hmem : b ∈ passed ++ b :: more := mem_append_right _ mem_cons_self
      have hlt : b.size < n := hsize ▸ (size_lt_of_mem (hsub hmem)).trans (size_lt_of_mem hs)
      have hregular := ((h.child hs).1.child (hsub hmem)).1
      exact ⟨passed, b, more, rfl, hpassed, ih b.size hlt hregular (hnodes b hmem) hb rfl⟩
    rcases (not_succeeds_alwaysReturns_iff hnode).mp hfails with ⟨branches, hcomes, hfails⟩ |
      ⟨branches, hcomes, hfails | ⟨hwildcard, hfails⟩⟩
    · obtain ⟨span, hs⟩ := hcomes.exists_mem
      obtain ⟨passed, b, more, rfl, hpassed, hstuck⟩ :=
        hbranches hs (Subset.refl _) (isNode_of_ifStmt (h.child hs).1) hfails
      exact .inIf hcomes hpassed hstuck
    · obtain ⟨span, value, hs⟩ := hcomes.exists_mem
      obtain ⟨passed, b, more, rfl, hpassed, hb⟩ := asks_hasWildcard.not_succeeds_iff.mp hfails
      have hmem : b ∈ passed ++ b :: more := mem_append_right _ mem_cons_self
      have hmatch := (h.child hs).1
      exact .atBare hcomes hpassed (isBare_of_not_succeeds
        (hmatch.child (mem_cons_of_mem _ hmem)).1 (admits_of_matchStmt hmatch b hmem) hb)
    · obtain ⟨span, value, hs⟩ := hcomes.exists_mem
      obtain ⟨passed, b, more, rfl, hpassed, hstuck⟩ :=
        hbranches hs (subset_cons_self _ _) (fun b hb =>
          isNode_of_admits (admits_of_matchStmt (h.child hs).1 b hb)) hfails
      exact .inMatch hcomes hwildcard hpassed hstuck

theorem Stuck.isNode (h : Stuck t) : t.isNode := by
  cases h with
  | inIf hcomes =>
    obtain ⟨span, hs⟩ := hcomes.exists_mem
    exact isNode_of_mem_children hs
  | inMatch hcomes | atBare hcomes =>
    obtain ⟨span, value, hs⟩ := hcomes.exists_mem
    exact isNode_of_mem_children hs

theorem Stuck.not_succeeds (h : Stuck t) : ¬ Succeeds (alwaysReturns t) := by
  have hnode := h.isNode
  induction h with
  | inIf hcomes hpassed hstuck ih =>
    refine (not_succeeds_alwaysReturns_iff hnode).mpr (.inl ⟨_, hcomes, ?_⟩)
    exact asks_allReturn.not_succeeds_iff.mpr ⟨_, _, _, rfl, hpassed, ih hstuck.isNode⟩
  | inMatch hcomes hwildcard hpassed hstuck ih =>
    refine (not_succeeds_alwaysReturns_iff hnode).mpr (.inr ⟨_, hcomes, .inr ⟨hwildcard, ?_⟩⟩)
    exact asks_allReturn.not_succeeds_iff.mpr ⟨_, _, _, rfl, hpassed, ih hstuck.isNode⟩
  | atBare hcomes hspecial hbare =>
    refine (not_succeeds_alwaysReturns_iff hnode).mpr (.inr ⟨_, hcomes, .inl ?_⟩)
    exact asks_hasWildcard.not_succeeds_iff.mpr ⟨_, _, _, rfl, hspecial, not_succeeds_of_isBare hbare⟩

/-! ## The checks -/

def conditions (s : Tree) : List Tree :=
  s.children.filter (!isElse ·)

/-- The branches of an `if` that are judged, as long as they return: those behind which another comes. -/
def judged (s : Tree) : List Tree :=
  if hasElse s.children then conditions s else (conditions s).dropLast

/-- Judging the branches of an `if` comes to one that is stuck. -/
def Trips (s : Tree) : Prop :=
  ∃ passed b more, judged s = passed ++ b :: more ∧ (∀ p ∈ passed, alwaysReturns p = .ok true) ∧ Stuck b

theorem succeeds_needlessElifs_iff :
    Succeeds (needlessElifs branches) ↔ Succeeds (allReturn branches.dropLast) := by
  induction branches with
  | nil => exact iff_of_true succeeds_ok succeeds_ok
  | cons b branches ih =>
    cases branches with
    | nil => exact iff_of_true succeeds_ok succeeds_ok
    | cons next rest =>
      rw [needlessElifs, dropLast_cons_cons, allReturn]
      cases alwaysReturns b with
      | error f => exact iff_of_false nofun nofun
      | ok answer =>
        cases answer with
        | false => exact iff_of_true succeeds_ok succeeds_ok
        | true =>
          change Succeeds (needlessElifs (next :: rest) >>= fun more => _) ↔
            Succeeds (allReturn (next :: rest).dropLast)
          rw [← ih, succeeds_bind_iff, succeeds_iff]
          exact exists_congr fun more => and_iff_left succeeds_ok

theorem ensures_needlessElifs (branches : List Tree) :
    Ensures (needlessElifs branches) fun found => ∀ e ∈ found, e ∈ branches := by
  fun_induction needlessElifs branches with
  | case1 b next rest ih =>
    refine .skip fun answer => ?_
    split
    · exact ensures_ok nofun
    · refine ih.bind fun found hfound => ensures_ok (forall_mem_cons.mpr ⟨?_, fun e he => ?_⟩)
      · exact mem_cons_of_mem b mem_cons_self
      · exact mem_cons_of_mem b (hfound e he)
  | case2 => exact ensures_ok nofun

theorem succeeds_report_iff {xs : List Tree} {f : Tree → Except Fault (List Tree)} {check : Check}
    {description : Text} (h : ∀ x ∈ xs, Ensures (f x) fun found => ∀ e ∈ found, e.span?.isSome) :
    Succeeds (do
      let found ← xs.mapM f
      found.flatten.mapM (Problem.ofTree check description)) ↔ ∀ x ∈ xs, Succeeds (f x) := by
  constructor
  · intro hsucceeds
    obtain ⟨found, hfound, -⟩ := succeeds_bind_iff.mp hsucceeds
    exact succeeds_mapM_iff.mp ⟨found, hfound, trivial⟩
  · intro hall
    have hfound : Gives (xs.mapM f) fun found => ∀ es ∈ found, ∀ e ∈ es, e.span?.isSome :=
      .mapM fun x hx => (hall x hx).gives (h x hx)
    refine hfound.bind fun found hfound => Succeeds.mapM fun e he => Problem.succeeds_ofTree ?_
    obtain ⟨es, hes, he⟩ := mem_flatten.mp he
    exact hfound es hes e he

theorem succeeds_noElifReturn_iff (h : t.IsRegular) : Succeeds (noElifReturn t) ↔
      ∀ s ∈ t.subtreesOf .ifStmt, Succeeds (allReturn (conditions s).dropLast) := by
  simp only [← succeeds_needlessElifs_iff]
  refine succeeds_report_iff fun s hs found hfound e he => ?_
  have hmem := ensures_needlessElifs _ found hfound e he
  have hregular := (mem_subtreesOf_iff.mp hs).2.isRegular h
  exact (hregular.child (mem_of_mem_filter hmem)).2

theorem succeeds_variableNames (h : t.IsRegular) : Succeeds (variableNames t) := by
  refine .mapM fun s hs => ?_
  obtain ⟨hmem, hkind⟩ := mem_filter.mp hs
  obtain ⟨span, children, rfl⟩ := exists_of_isKind hkind
  obtain ⟨inner, rest, rfl, hnamed⟩ := (h.child hmem).1.exists_isNamed (by decide)
  exact hnamed.word

theorem succeeds_needlessElse_iff (h : s.IsRegular) (outer : List Text) :
    Succeeds (needlessElse outer s) ↔ (hasElse s.children → Succeeds (allReturn (conditions s))) := by
  rw [needlessElse]
  split
  · rename_i hnone
    refine iff_of_true succeeds_ok fun helse => ?_
    obtain ⟨branch, hmem, hkind⟩ := any_eq_true.mp helse
    exact absurd hkind (find?_eq_none.mp hnone branch hmem)
  · rename_i branch hsome
    have hmem := mem_of_find?_eq_some hsome
    have helse : hasElse s.children := any_eq_true.mpr ⟨branch, hmem, find?_some hsome⟩
    rw [succeeds_bind_iff, succeeds_iff, forall_prop_of_true helse]
    refine exists_congr fun answer => and_iff_left ?_
    split
    · exact succeeds_ok
    · exact (succeeds_variableNames (h.child hmem).1).bind fun _ => succeeds_ok

theorem ensures_needlessElse (outer : List Text) (s : Tree) :
    Ensures (needlessElse outer s) fun found => ∀ e ∈ found, e ∈ s.children := by
  rw [needlessElse]
  split
  · exact ensures_ok nofun
  · rename_i branch hsome
    refine .skip fun answer => ?_
    split
    · exact ensures_ok nofun
    · refine .skip fun inner => ensures_ok ?_
      split
      · exact nofun
      · exact fun e he => Option.some.inj he ▸ mem_of_find?_eq_some hsome

theorem succeeds_needlessElsesIn_iff (h : t.IsRegular) :
    Succeeds (needlessElsesIn t) ↔ ∀ s ∈ t.children, s.isKind .ifStmt →
      hasElse s.children → Succeeds (allReturn (conditions s)) := by
  have hstatements (outer : List Text) :
      Succeeds ((t.children.filter (·.isKind .ifStmt)).filterMapM (needlessElse outer)) ↔
        ∀ s ∈ t.children, s.isKind .ifStmt →
          hasElse s.children → Succeeds (allReturn (conditions s)) := by
    rw [succeeds_filterMapM_iff]
    simp only [mem_filter, and_imp]
    exact forall₃_congr fun s hs _ => succeeds_needlessElse_iff (h.child hs).1 outer
  rw [needlessElsesIn]
  split
  · rename_i hempty
    refine iff_of_true succeeds_ok ((hstatements []).mp ?_)
    rw [List.isEmpty_iff.mp hempty]
    exact succeeds_ok
  · exact (succeeds_variableNames h).bind_iff hstatements

theorem ensures_needlessElsesIn (h : t.IsRegular) :
    Ensures (needlessElsesIn t) fun found => ∀ e ∈ found, e.span?.isSome := by
  rw [needlessElsesIn]
  split
  · exact ensures_ok nofun
  · refine .skip fun outer => .filterMapM fun s hs found hfound e he => ?_
    have hregular := (h.child (mem_of_mem_filter hs)).1
    exact (hregular.child (ensures_needlessElse outer s found hfound e he)).2

theorem succeeds_noElseReturn_iff (h : t.IsRegular) (hstart : t.isKind .start) :
    Succeeds (noElseReturn t) ↔ ∀ s ∈ t.subtreesOf .ifStmt,
      hasElse s.children → Succeeds (allReturn (conditions s)) := by
  have hregular {u : Tree} (hu : u ∈ t.subtrees) := (mem_subtrees_iff.mp hu).2.isRegular h
  refine (succeeds_report_iff fun u hu => ensures_needlessElsesIn (hregular hu)).trans ?_
  constructor
  · intro hall s hs
    obtain ⟨hkind, hinside⟩ := mem_subtreesOf_iff.mp hs
    obtain ⟨u, hu, hmem⟩ := hinside.exists_parent fun heq => by
      rw [heq] at hkind
      cases (of_decide_eq_true hkind).symm.trans (of_decide_eq_true hstart)
    have hu : u ∈ t.subtrees := mem_subtrees_iff.mpr ⟨isNode_of_mem_children hmem, hu⟩
    exact (succeeds_needlessElsesIn_iff (hregular hu)).mp (hall u hu) s hmem hkind
  · intro hall u hu
    refine (succeeds_needlessElsesIn_iff (hregular hu)).mpr fun s hs hkind => hall s ?_
    exact mem_subtreesOf_iff.mpr ⟨hkind, .trans (.child hs .refl) (mem_subtrees_iff.mp hu).2⟩

/-- The two checks together judge the branches behind which another comes. -/
theorem succeeds_judged_iff : Succeeds (allReturn (judged s)) ↔ Succeeds (allReturn (conditions s).dropLast) ∧
      (hasElse s.children → Succeeds (allReturn (conditions s))) := by
  rw [judged]
  split
  · rename_i helse
    rw [forall_prop_of_true helse]
    have hfront : (conditions s).dropLast <+: conditions s := List.dropLast_prefix _
    exact (and_iff_right_of_imp (asks_allReturn.succeeds_of_isPrefix hfront)).symm
  · rename_i helse
    exact (and_iff_left fun h => absurd h helse).symm

theorem mem_of_mem_judged {b : Tree} (h : b ∈ judged s) : b ∈ s.children := by
  rw [judged] at h
  split at h
  · exact mem_of_mem_filter h
  · exact mem_of_mem_filter (dropLast_subset _ h)

theorem trips_iff (h : s.IsRegular) (hkind : s.isKind .ifStmt) :
    Trips s ↔ ¬ Succeeds (allReturn (judged s)) := by
  rw [asks_allReturn.not_succeeds_iff]
  refine exists₃_congr fun passed b more => and_congr_right fun hjudged => and_congr_right fun _ => ?_
  have hmem : b ∈ s.children := mem_of_mem_judged (hjudged ▸ mem_append_right _ mem_cons_self)
  have hnode : b.isNode := by
    obtain ⟨span, branches, rfl⟩ := exists_of_isKind hkind
    exact isNode_of_ifStmt h b hmem
  exact ⟨Stuck.not_succeeds, stuck_of_not_succeeds (h.child hmem).1 hnode⟩

theorem succeeds_check_default_iff (h : t.IsRegular) (hstart : t.isKind .start) :
    Succeeds (Returns.check .default t) ↔ ∀ s ∈ t.subtreesOf .ifStmt, ¬ Trips s := by
  have hcheck : Succeeds (Returns.check .default t) ↔
      Succeeds (noElifReturn t) ∧ Succeeds (noElseReturn t) := by
    change Succeeds (noElifReturn t >>= fun elifs => noElseReturn t >>= fun elses => .ok (elifs ++ elses)) ↔ _
    constructor
    · intro hsucceeds
      obtain ⟨elifs, helifs, hsucceeds⟩ := succeeds_bind_iff.mp hsucceeds
      obtain ⟨elses, helses, -⟩ := succeeds_bind_iff.mp hsucceeds
      exact ⟨⟨elifs, helifs, trivial⟩, ⟨elses, helses, trivial⟩⟩
    · rintro ⟨helifs, helses⟩
      exact helifs.bind fun _ => helses.bind fun _ => succeeds_ok
  rw [hcheck, succeeds_noElifReturn_iff h, succeeds_noElseReturn_iff h hstart, ← forall₂_and]
  refine forall₂_congr fun s hs => ?_
  obtain ⟨hkind, hinside⟩ := mem_subtreesOf_iff.mp hs
  rw [← succeeds_judged_iff, trips_iff (hinside.isRegular h) hkind, not_not]

end Returns

end GDWorkbench.Lint
