import GDWorkbench.Proofs.Lint.Returns

/-!
What it means that a branch is judged to return. Statements are run without looking at values: a condition,
a pattern and a guard may hold or not, and a loop may take any number of turns. A branch that is judged to
return can be run through only past a `match` whose wildcard has a guard.
-/

namespace GDWorkbench.Lint

open List GDWorkbench.Tree Label

namespace Returns

variable {s b : Tree} {branches : List Tree}

/-! ## Running statements -/

/-- How running a statement ends. -/
inductive Exit where
  | through
  | returned
  | broken
  | continued
deriving DecidableEq

/-- The statements of a branch, behind its condition or its pattern and guard. -/
def statements : Tree → List Tree
  | .node .ifBranch _ (_ :: body) | .node .elifBranch _ (_ :: body) | .node .elseBranch _ body
  | .node .matchBranch _ (_ :: body) | .node .guardedMatchBranch _ (_ :: _ :: body) => body
  | _ => []

/-- Whether a branch is taken whenever no branch before it is: an `else`, or a wildcard without guard. -/
def isCatchAll : Tree → Bool
  | .node .elseBranch _ _ => true
  | .node .matchBranch _ (.node .pattern _ [p] :: _) | .node .pattern _ [p] => p.isKind .wildcardPattern
  | _ => false

def branches? : Tree → Option (List Tree)
  | .node .ifStmt _ branches | .node .matchStmt _ (_ :: branches) => some branches
  | _ => none

def loopBody? : Tree → Option (List Tree)
  | .node .whileStmt _ (_ :: body) | .node .forStmt _ (_ :: _ :: body)
  | .node .forStmtTyped _ (_ :: _ :: _ :: body) => some body
  | _ => none

def isPlain (s : Tree) : Bool :=
  [.passStmt, .funcVarStmt, .breakpointStmt, .exprStmt, .constStmt, .annot].any (s.isKind ·)

mutual

/-- A run of a statement ends so. -/
inductive Runs : Tree → Exit → Prop
  | plain {s : Tree} (plain : isPlain s = true) : Runs s .through
  | returns {s : Tree} (kind : s.isKind .returnStmt = true) : Runs s .returned
  | breaks {s : Tree} (kind : s.isKind .breakStmt = true) : Runs s .broken
  | continues {s : Tree} (kind : s.isKind .continueStmt = true) : Runs s .continued
  | taken {s b : Tree} {passed rest : List Tree} {exit : Exit}
      (choice : branches? s = some (passed ++ b :: rest)) (missed : ∀ p ∈ passed, isCatchAll p = false)
      (body : RunsAll (statements b) exit) : Runs s exit
  | missed {s : Tree} {branches : List Tree} (choice : branches? s = some branches)
      (missed : ∀ p ∈ branches, isCatchAll p = false) : Runs s .through
  | finished {s : Tree} {body : List Tree} (loop : loopBody? s = some body) : Runs s .through
  | turn {s : Tree} {body : List Tree} {turn exit : Exit} (loop : loopBody? s = some body)
      (first : RunsAll body turn) (goesOn : turn = .through ∨ turn = .continued) (rest : Runs s exit) :
      Runs s exit
  | broken {s : Tree} {body : List Tree} (loop : loopBody? s = some body)
      (last : RunsAll body .broken) : Runs s .through
  | returned {s : Tree} {body : List Tree} (loop : loopBody? s = some body)
      (last : RunsAll body .returned) : Runs s .returned

/-- A run of statements in their order ends so. -/
inductive RunsAll : List Tree → Exit → Prop
  | nil : RunsAll [] .through
  | next {s : Tree} {rest : List Tree} {exit : Exit} (first : Runs s .through)
      (others : RunsAll rest exit) : RunsAll (s :: rest) exit
  | stop {s : Tree} {rest : List Tree} {exit : Exit} (first : Runs s exit) (leaves : exit ≠ .through) :
      RunsAll (s :: rest) exit

end

def FallsThrough (branch : Tree) : Prop :=
  RunsAll (statements branch) .through

theorem forall_runs_through {body : List Tree} (h : RunsAll body .through) :
    ∀ s ∈ body, Runs s .through := by
  induction body with
  | nil => exact forall_mem_nil _
  | cons s rest ih =>
    cases h with
    | next hfirst hothers => exact forall_mem_cons.mpr ⟨hfirst, ih hothers⟩
    | stop hfirst hleaves => exact absurd rfl hleaves

theorem not_runs_returnStmt_through (hkind : s.isKind .returnStmt) : ¬ Runs s .through := by
  obtain ⟨span, children, rfl⟩ := exists_of_isKind hkind
  intro h
  cases h with
  | plain h | taken h | missed h | finished h | turn h | broken h => cases h

/-- A statement with branches is run through by a branch that is, or if none need be taken. -/
theorem exists_fallsThrough (hs : branches? s = some branches) (h : Runs s .through) :
    (∃ b ∈ branches, FallsThrough b) ∨ ∀ b ∈ branches, isCatchAll b = false := by
  have hkind : ¬ isPlain s ∧ loopBody? s = none := by
    unfold branches? at hs
    split at hs
    · exact ⟨nofun, rfl⟩
    · exact ⟨nofun, rfl⟩
    · cases hs
  cases h with
  | plain h => exact absurd h hkind.1
  | taken h _ hbody =>
    obtain rfl := Option.some.inj (hs.symm.trans h)
    exact .inl ⟨_, mem_append_right _ mem_cons_self, hbody⟩
  | missed h hmissed =>
    obtain rfl := Option.some.inj (hs.symm.trans h)
    exact .inr hmissed
  | finished h | turn h | broken h => cases hkind.2.symm.trans h

/-! ## Statements that are judged to return -/

def SeemsToReturn (s : Tree) : Prop :=
  ifReturns s = .ok true ∨ matchReturns s = .ok true

/-- The verdict about a branch depends on a `match` that is judged to return: there is no return among the
statements around it, up to those of the branch. -/
inductive RestsOn : Tree → Tree → Prop
  | here {b m : Tree} (noReturn : ∀ s ∈ statements b, s.isKind .returnStmt = false)
      (stands : m ∈ statements b) (judged : matchReturns m = .ok true) : RestsOn b m
  | inside {b s c m : Tree} {branches : List Tree}
      (noReturn : ∀ s ∈ statements b, s.isKind .returnStmt = false) (stands : s ∈ statements b)
      (judged : SeemsToReturn s) (choice : branches? s = some branches) (branch : c ∈ branches)
      (rests : RestsOn c m) : RestsOn b m

def isGuardedWildcard : Tree → Bool
  | .node .guardedMatchBranch _ (.node .pattern _ [p] :: _) => p.isKind .wildcardPattern
  | _ => false

/-- A `match` that may take no branch, though one of them has the wildcard. -/
def isOpen (m : Tree) : Bool :=
  (branches? m).any fun branches => branches.all (!isCatchAll ·) && branches.any isGuardedWildcard

theorem runs_through_of_isOpen {m : Tree} (h : isOpen m) : Runs m .through := by
  obtain ⟨branches, hbranches, h⟩ := (Option.any_eq_true _ _).mp h
  refine .missed hbranches fun b hb => ?_
  simpa using all_eq_true.mp (Bool.and_eq_true_iff.mp h).1 b hb

theorem exists_of_ifReturns (h : ifReturns s = .ok true) :
    ∃ span branches, s = .node .ifStmt span branches ∧ hasElse branches ∧
      ∀ b ∈ branches, alwaysReturns b = .ok true := by
  cases s with
  | token t => cases h
  | node k span branches =>
    rw [ifReturns] at h
    split at h
    · rename_i hif
      obtain ⟨hkind, helse⟩ := Bool.and_eq_true_iff.mp hif
      obtain rfl := of_decide_eq_true hkind
      exact ⟨span, branches, rfl, helse, asks_allReturn.eq_ok_iff.mp h⟩
    · cases h

theorem exists_of_matchReturns (h : matchReturns s = .ok true) :
    ∃ span value branches, s = .node .matchStmt span (value :: branches) ∧
      hasWildcard branches = .ok true ∧ ∀ b ∈ branches, alwaysReturns b = .ok true := by
  unfold matchReturns at h
  split at h
  · rename_i span value branches
    obtain ⟨found, hfound, h⟩ := exists_of_bind_eq_ok h
    split at h
    · rename_i htrue
      exact ⟨span, value, branches, rfl, htrue ▸ hfound, asks_allReturn.eq_ok_iff.mp h⟩
    · cases h
  · cases h

theorem exists_of_alwaysReturns (h : alwaysReturns b = .ok true) :
    (∃ s ∈ b.children, s.isKind .returnStmt) ∨ ∃ s ∈ b.children, SeemsToReturn s := by
  cases b with
  | token t => cases h
  | node k span children =>
    rw [alwaysReturns] at h
    split at h
    · rename_i hreturn
      exact .inl (any_eq_true.mp hreturn)
    · obtain ⟨found, hfound, h⟩ := exists_of_bind_eq_ok h
      cases found with
      | true =>
        obtain ⟨s, hs, hreturns⟩ := asks_someIfReturns.exists_of_ne hfound (by decide)
        exact .inr ⟨s, hs, .inl hreturns⟩
      | false =>
        obtain ⟨s, hs, hreturns⟩ := asks_someMatchReturns.exists_of_ne h (by decide)
        exact .inr ⟨s, hs, .inr hreturns⟩

/-- The kinds of branches. A branch of a `match` without statements is its pattern. -/
def isBranch (b : Tree) : Bool :=
  [.ifBranch, .elifBranch, .elseBranch, .pattern, .matchBranch, .guardedMatchBranch].any (b.isKind ·)

/-- The child for which a branch is judged is one of its statements. -/
theorem mem_statements (hb : isBranch b) (hregular : b.IsRegular)
    (hconforms : b.Conforms Fragment.keepsTokens) (hs : s ∈ b.children)
    (hlabel : s.label.isStatement) : s ∈ statements b := by
  have hother {kinds : List Kind} {first : Tree} (hfirst : (Label.nodes kinds).admits first.label)
      (hkinds : ∀ k ∈ kinds, (Label.node k).isStatement = false) : s ≠ first := by
    rintro rfl
    obtain ⟨k, hk, span, children, rfl⟩ := exists_node hfirst
    cases (hkinds k hk).symm.trans hlabel
  obtain ⟨k, hk, hkind⟩ := any_eq_true.mp hb
  obtain ⟨span, children, rfl⟩ := exists_of_isKind hkind
  simp only [mem_cons, not_mem_nil, or_false] at hk
  rcases hk with rfl | rfl | rfl | rfl | rfl | rfl
  · obtain ⟨first, rest, rfl, hfirst, -⟩ := hregular.row.exists_cons
    exact (mem_cons.mp hs).resolve_left (hother hfirst (by decide))
  · obtain ⟨first, rest, rfl, hfirst, -⟩ := hregular.row.exists_cons
    exact (mem_cons.mp hs).resolve_left (hother hfirst (by decide))
  · exact hs
  · cases hconforms with
    | node hexpands _ =>
      have hnone := not_isStatement_of_pattern hexpands s.label (mem_map_of_mem hs)
      cases hnone.symm.trans hlabel
  · obtain ⟨first, rest, rfl, hfirst, -⟩ := hregular.row.exists_cons
    exact (mem_cons.mp hs).resolve_left (hother hfirst (by decide))
  · obtain ⟨first, rest, rfl, hfirst, hrow⟩ := hregular.row.exists_cons
    obtain ⟨second, rest, rfl, hsecond, -⟩ := hrow.exists_cons
    have hs := (mem_cons.mp hs).resolve_left (hother hfirst (by decide))
    exact (mem_cons.mp hs).resolve_left (hother hsecond (by decide))

theorem isStatement_of_seemsToReturn (h : SeemsToReturn s) : s.label.isStatement := by
  rcases h with h | h
  · obtain ⟨span, branches, rfl, -⟩ := exists_of_ifReturns h
    rfl
  · obtain ⟨span, value, branches, rfl, -⟩ := exists_of_matchReturns h
    rfl

theorem isBranch_of_admits {kinds : List Kind} (h : (Label.nodes kinds).admits b.label)
    (hkinds : ∀ k ∈ kinds, isBranch (.node k none [])) : isBranch b := by
  obtain ⟨k, hk, span, children, rfl⟩ := exists_node h
  exact hkinds k hk

theorem isBranch_of_mem (hregular : s.IsRegular)
    (hs : branches? s = some branches) (hb : b ∈ branches) : isBranch b := by
  unfold branches? at hs
  split at hs
  · cases hs
    obtain ⟨first, rest, rfl, hfirst, hrow⟩ := hregular.row.exists_cons
    rcases mem_cons.mp hb with rfl | hb
    · exact isBranch_of_admits hfirst (by decide)
    · exact isBranch_of_admits (hrow.forall_mem b hb) (by decide)
  · cases hs
    exact isBranch_of_admits (admits_of_matchStmt hregular b hb) (by decide)
  · cases hs

theorem subset_children (hs : branches? s = some branches) : branches ⊆ s.children := by
  unfold branches? at hs
  split at hs
  · exact Option.some.inj hs ▸ Subset.refl _
  · exact Option.some.inj hs ▸ subset_cons_self _ _
  · cases hs

theorem not_alwaysReturns_pattern (hkind : b.isKind .pattern) (hregular : b.IsRegular)
    (hconforms : b.Conforms Fragment.keepsTokens) : alwaysReturns b ≠ .ok true := by
  intro h
  have hnone {s : Tree} (hs : s ∈ b.children) (hlabel : s.label.isStatement) : False := by
    have hbranch : isBranch b := any_eq_true.mpr ⟨.pattern, by decide, hkind⟩
    have hmem := mem_statements hbranch hregular hconforms hs hlabel
    obtain ⟨span, children, rfl⟩ := exists_of_isKind hkind
    cases hmem
  rcases exists_of_alwaysReturns h with ⟨s, hs, hreturn⟩ | ⟨s, hs, hseems⟩
  · obtain ⟨span, children, rfl⟩ := exists_of_isKind hreturn
    exact hnone hs rfl
  · exact hnone hs (isStatement_of_seemsToReturn hseems)

/-- The wildcard that a `match` is judged by stands in a branch with statements, with a guard or without. -/
theorem isCatchAll_or_isGuardedWildcard (hregular : b.IsRegular)
    (hlabel : Label.branches.admits b.label) (hkind : b.isKind .pattern = false)
    (h : isWildcard b = .ok true) : isCatchAll b ∨ isGuardedWildcard b := by
  obtain ⟨k, hk, span, children, rfl⟩ := exists_node hlabel
  simp only [mem_cons, not_mem_nil, or_false] at hk
  rcases hk with rfl | rfl | rfl
  · cases hkind
  · obtain ⟨first, rest, rfl, hfirst, -⟩ := hregular.row.exists_cons
    obtain ⟨_, inner, rfl⟩ := exists_node_of_mem hfirst
    obtain ⟨c, rfl, -⟩ := (hregular.child mem_cons_self).1.row.exists_singleton
    exact .inl (Except.ok.inj h)
  · obtain ⟨first, rest, rfl, hfirst, -⟩ := hregular.row.exists_cons
    obtain ⟨_, inner, rfl⟩ := exists_node_of_mem hfirst
    obtain ⟨c, rfl, -⟩ := (hregular.child mem_cons_self).1.row.exists_singleton
    exact .inr (Except.ok.inj h)

/-- A `match` that is judged to return and need not take a branch has a guard at its wildcard. -/
theorem isOpen_of_missed {m : Tree} (hregular : m.IsRegular)
    (hconforms : m.Conforms Fragment.keepsTokens) (hm : matchReturns m = .ok true)
    (hbranches : branches? m = some branches) (hmissed : ∀ b ∈ branches, isCatchAll b = false) :
    isOpen m := by
  obtain ⟨span, value, all, rfl, hwildcard, hall⟩ := exists_of_matchReturns hm
  obtain rfl : all = branches := Option.some.inj hbranches
  obtain ⟨b, hb, hfound⟩ := asks_hasWildcard.exists_of_ne hwildcard nofun
  have hmem := mem_cons_of_mem value hb
  have hpattern : b.isKind .pattern = false := Bool.eq_false_iff.mpr fun hkind =>
    not_alwaysReturns_pattern hkind (hregular.child hmem).1 (hconforms.child hmem) (hall b hb)
  have hguarded : isGuardedWildcard b := by
    refine (isCatchAll_or_isGuardedWildcard (hregular.child hmem).1
      (admits_of_matchStmt hregular b hb) hpattern hfound).resolve_left fun hcatch => ?_
    cases (hmissed b hb).symm.trans hcatch
  refine Bool.and_eq_true_iff.mpr ⟨all_eq_true.mpr fun c hc => ?_, any_eq_true.mpr ⟨b, hb, hguarded⟩⟩
  rw [hmissed c hc]
  rfl

/-- A run through a branch that is judged to return passes an open `match`. The induction is on the size,
since the branch that is run through next is a child of a child. -/
theorem exists_isOpen (hbranch : isBranch b) (hregular : b.IsRegular)
    (hconforms : b.Conforms Fragment.keepsTokens) (hreturns : alwaysReturns b = .ok true)
    (hfalls : FallsThrough b) : ∃ m, RestsOn b m ∧ isOpen m := by
  induction hsize : b.size using Nat.strong_induction_on generalizing b with
  | _ n ih =>
    have hthrough := forall_runs_through hfalls
    have hnoReturn : ∀ s ∈ statements b, s.isKind .returnStmt = false := fun s hs =>
      Bool.eq_false_iff.mpr fun hkind => not_runs_returnStmt_through hkind (hthrough s hs)
    rcases exists_of_alwaysReturns hreturns with ⟨s, hs, hkind⟩ | ⟨s, hs, hseems⟩
    · obtain ⟨span, children, rfl⟩ := exists_of_isKind hkind
      have hmem := mem_statements hbranch hregular hconforms hs rfl
      cases (hnoReturn _ hmem).symm.trans hkind
    · have hmem := mem_statements hbranch hregular hconforms hs (isStatement_of_seemsToReturn hseems)
      have hregular := (hregular.child hs).1
      have hconforms := hconforms.child hs
      have hinside {branches : List Tree} (hchoice : branches? s = some branches)
          (hall : ∀ c ∈ branches, alwaysReturns c = .ok true) (hc : ∃ c ∈ branches, FallsThrough c) :
          ∃ m, RestsOn b m ∧ isOpen m := by
        obtain ⟨c, hc, hfalls⟩ := hc
        have hchild := subset_children hchoice hc
        have hlt : c.size < n := hsize ▸ (size_lt_of_mem hchild).trans (size_lt_of_mem hs)
        obtain ⟨m, hrests, hopen⟩ := ih c.size hlt (isBranch_of_mem hregular hchoice hc)
          (hregular.child hchild).1 (hconforms.child hchild) (hall c hc) hfalls rfl
        exact ⟨m, .inside hnoReturn hmem hseems hchoice hc hrests, hopen⟩
      have hruns := hthrough s hmem
      rcases hseems with hif | hmatch
      · obtain ⟨span, branches, rfl, helse, hall⟩ := exists_of_ifReturns hif
        rcases exists_fallsThrough rfl hruns with hc | hmissed
        · exact hinside rfl hall hc
        · obtain ⟨c, hc, hkind⟩ := any_eq_true.mp helse
          obtain ⟨_, body, rfl⟩ := exists_of_isKind hkind
          cases hmissed _ hc
      · obtain ⟨span, value, branches, rfl, -, hall⟩ := exists_of_matchReturns hmatch
        rcases exists_fallsThrough rfl hruns with hc | hmissed
        · exact hinside rfl hall hc
        · exact ⟨_, .here hnoReturn hmem hmatch, isOpen_of_missed hregular hconforms hmatch rfl hmissed⟩

theorem mem_children_of_mem_statements (h : s ∈ statements b) : s ∈ b.children := by
  unfold statements at h
  split at h
  · exact mem_cons_of_mem _ h
  · exact mem_cons_of_mem _ h
  · exact h
  · exact mem_cons_of_mem _ h
  · exact mem_cons_of_mem _ (mem_cons_of_mem _ h)
  · cases h

theorem RestsOn.inside_of_match {m : Tree} (h : RestsOn b m) :
    m.isKind .matchStmt ∧ Inside m b := by
  induction h with
  | here _ hstands hjudged =>
    obtain ⟨span, value, branches, rfl, -⟩ := exists_of_matchReturns hjudged
    exact ⟨rfl, .child (mem_children_of_mem_statements hstands) .refl⟩
  | inside _ hstands _ hchoice hbranch _ ih =>
    exact ⟨ih.1, .child (mem_children_of_mem_statements hstands)
      (.child (subset_children hchoice hbranch) ih.2)⟩

/-- A branch that is judged to return falls through only past an open `match` that the verdict rests on,
and so not at all where there is none. -/
theorem fallsThrough_only_past_isOpen {code : Text} {t b : Tree} (hparse : parse code = .ok t)
    (hb : b ∈ t.subtrees) (hbranch : isBranch b = true) (hreturns : alwaysReturns b = .ok true) :
    (FallsThrough b → ∃ m, RestsOn b m ∧ isOpen m = true) ∧
      ((∀ m ∈ t.subtreesOf .matchStmt, isOpen m = false) → ¬ FallsThrough b) := by
  have hinside := (Tree.mem_subtrees_iff.mp hb).2
  have hopen := exists_isOpen hbranch (hinside.isRegular (isRegular_of_parse hparse).1)
    ((conforms_of_parse hparse).inside hinside) hreturns
  refine ⟨hopen, fun hclosed hfalls => ?_⟩
  obtain ⟨m, hrests, hm⟩ := hopen hfalls
  obtain ⟨hkind, hinner⟩ := hrests.inside_of_match
  have hnone := hclosed m (Tree.mem_subtreesOf_iff.mpr ⟨hkind, hinner.trans hinside⟩)
  cases hnone.symm.trans hm

/-- The first branch of the `if` is judged by the two statements inside it. -/
def nestedReturns : Text :=
  "func f():\n\tif a:\n\t\tmatch x:\n\t\t\t1 when b: return\n\t\t\t_:\n\t\t\t\tif c: return\n\t\t\t\telse: return\n".toList

theorem not_fallsThrough_nestedReturns :
    ∃ t b, parse nestedReturns = .ok t ∧ b ∈ t.subtrees ∧ isBranch b = true ∧
      (∀ s ∈ statements b, s.isKind .matchStmt = true) ∧ alwaysReturns b = .ok true ∧
      (∀ m ∈ t.subtreesOf .matchStmt, isOpen m = false) ∧ ¬ FallsThrough b := by
  have hparse : (parse nestedReturns).toOption.any (fun t => decide
      ((∃ b ∈ t.subtrees, isBranch b = true ∧ (∀ s ∈ statements b, s.isKind .matchStmt = true) ∧
        (alwaysReturns b).toOption = some true) ∧
      ∀ m ∈ t.subtreesOf .matchStmt, isOpen m = false)) = true := by
    decide +kernel
  cases ht : parse nestedReturns with
  | error e =>
    rw [ht] at hparse
    cases hparse
  | ok t =>
    rw [ht] at hparse
    obtain ⟨⟨b, hb, hbranch, hstatements, hreturns⟩, hclosed⟩ := of_decide_eq_true hparse
    have hreturns := eq_ok_of_toOption hreturns
    exact ⟨t, b, rfl, hb, hbranch, hstatements, hreturns, hclosed,
      (fallsThrough_only_past_isOpen ht hb hbranch hreturns).2 hclosed⟩

def guardedWildcard : Text :=
  "func f():\n\tif a:\n\t\tmatch x:\n\t\t\t_ when b:\n\t\t\t\treturn\n\telse:\n\t\tpass\n".toList

/-- A branch that is judged to return, and falls through. -/
theorem guardedWildcard_fallsThrough :
    ∃ t b, parse guardedWildcard = .ok t ∧ b ∈ t.subtrees ∧ isBranch b = true ∧
      alwaysReturns b = .ok true ∧ FallsThrough b := by
  have hparse : (parse guardedWildcard).toOption.any (fun t => decide
      (∃ b ∈ t.subtrees, isBranch b = true ∧ (alwaysReturns b).toOption = some true ∧
        (statements b).length = 1 ∧ ∀ m ∈ statements b, isOpen m = true)) = true := by
    decide +kernel
  cases ht : parse guardedWildcard with
  | error e =>
    rw [ht] at hparse
    cases hparse
  | ok t =>
    rw [ht] at hparse
    obtain ⟨b, hb, hbranch, hreturns, hlength, hopen⟩ := of_decide_eq_true hparse
    refine ⟨t, b, rfl, hb, hbranch, eq_ok_of_toOption hreturns, ?_⟩
    obtain ⟨m, hm⟩ := length_eq_one_iff.mp hlength
    rw [FallsThrough, hm]
    exact .next (runs_through_of_isOpen (hopen m (hm ▸ mem_singleton_self m))) .nil

end Returns

end GDWorkbench.Lint
