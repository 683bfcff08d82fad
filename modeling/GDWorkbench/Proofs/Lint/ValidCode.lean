import GDWorkbench.Proofs.Lint.Returns

/-!
Linting of valid code. With the default configuration, a text that can be parsed and ignores no warning
is linted, unless judging the branches of an `if` comes to a branch of a `match` that has no statements.
-/

namespace GDWorkbench.Lint

theorem Returns.Stuck.exists_isBare {t : Tree} (h : Stuck t) :
    ∃ m b, Tree.Inside m t ∧ m.isKind .matchStmt ∧ b ∈ m.children ∧ isBare b := by
  induction h with
  | @inIf t b passed more hcomes _ _ ih =>
    obtain ⟨span, hs⟩ := hcomes.exists_mem
    obtain ⟨m, x, hinside, hm⟩ := ih
    have hb : b ∈ passed ++ b :: more := List.mem_append_right _ List.mem_cons_self
    exact ⟨m, x, hinside.trans (.child hs (.child hb .refl)), hm⟩
  | @inMatch t b passed more hcomes _ _ _ ih =>
    obtain ⟨span, value, hs⟩ := hcomes.exists_mem
    obtain ⟨m, x, hinside, hm⟩ := ih
    have hb : b ∈ value :: (passed ++ b :: more) :=
      List.mem_cons_of_mem _ (List.mem_append_right _ List.mem_cons_self)
    exact ⟨m, x, hinside.trans (.child hs (.child hb .refl)), hm⟩
  | @atBare t b passed more hcomes _ hbare =>
    obtain ⟨span, value, hs⟩ := hcomes.exists_mem
    have hb : b ∈ value :: (passed ++ b :: more) :=
      List.mem_cons_of_mem _ (List.mem_append_right _ List.mem_cons_self)
    exact ⟨_, b, .child hs .refl, rfl, hb, hbare⟩

theorem Returns.Trips.exists_isBare {s : Tree} (h : Trips s) :
    ∃ m b, Tree.Inside m s ∧ m.isKind .matchStmt ∧ b ∈ m.children ∧ isBare b := by
  obtain ⟨passed, b, more, hjudged, -, hstuck⟩ := h
  obtain ⟨m, x, hinside, hm⟩ := hstuck.exists_isBare
  have hb : b ∈ s.children := mem_of_mem_judged (hjudged ▸ List.mem_append_right _ List.mem_cons_self)
  exact ⟨m, x, hinside.trans (.child hb .refl), hm⟩

theorem succeeds_problems_iff {config : Config} (hfit : config.IsFit) {t : Tree}
    (hconforms : t.Conforms Fragment.keepsTokens) (h : t.IsRegular)
    (hstart : t.isKind .start) (hspan : t.children ≠ [] → t.span?.isSome)
    (hignores : t.IgnoresNothing) (code : Text) :
    Succeeds (problems config code t) ↔ Succeeds (Returns.check config t) := by
  obtain ⟨file, hfile, hclasses, hfunctions, -⟩ :=
    (Outline.delivers_ofTree True hconforms h hstart hspan fun _ => hignores).gives trivial
  rw [problems, hfile]
  refine (Design.succeeds_check hfit hclasses hfunctions).bind_iff fun _ =>
    (Lines.succeeds_check hfit code).bind_iff fun _ =>
    (Names.succeeds_check hfit h).bind_iff fun _ =>
    (Order.succeeds_check hfit hclasses).bind_iff fun _ =>
    (Basic.succeeds_check hfit h hstart).bind_iff fun _ => ?_
  rw [succeeds_bind_iff, succeeds_iff]
  exact exists_congr fun _ => and_iff_left succeeds_ok

/-- Valid code that ignores no warning is linted, unless the branches of some `if` cannot be judged.
They can where no branch of a `match` is bare. -/
theorem lint_default_isOk_iff {code : Text} {t : Tree} (hparse : parse code = .ok t)
    (hignores : t.IgnoresNothing) :
    ((∃ found, lint .default code = .ok found) ↔ ∀ s ∈ t.subtreesOf .ifStmt, ¬ Returns.Trips s) ∧
    ((∀ m ∈ t.subtreesOf .matchStmt, ∀ b ∈ m.children, Returns.isBare b = false) →
      ∃ found, lint .default code = .ok found) := by
  obtain ⟨hregular, hkind, hspan⟩ := isRegular_of_parse hparse
  have hstart : t.isKind .start = true := decide_eq_true hkind
  have hiff : (∃ found, lint .default code = .ok found) ↔ ∀ s ∈ t.subtreesOf .ifStmt, ¬ Returns.Trips s := by
    rw [← Returns.succeeds_check_default_iff hregular hstart,
      ← succeeds_problems_iff Config.isFit_default (conforms_of_parse hparse) hregular hstart hspan hignores
        code]
    simp only [lint_eq_ok_iff, hparse, Except.ok.injEq]
    constructor
    · rintro ⟨_, _, all, rfl, hall, -⟩
      exact ⟨all, hall, trivial⟩
    · rintro ⟨all, hall, -⟩
      exact ⟨_, t, all, rfl, hall, rfl⟩
  refine ⟨hiff, fun hfull => hiff.mpr fun s hs htrips => ?_⟩
  obtain ⟨m, b, hinside, hm, hb, hbare⟩ := htrips.exists_isBare
  have hmem := Tree.mem_subtreesOf_iff.mpr ⟨hm, hinside.trans (Tree.mem_subtreesOf_iff.mp hs).2⟩
  cases (hfull m hmem b hb).symm.trans hbare

/-- All branches of the `if` are judged, and so are those of the `match` inside. -/
def fullBranches : Text :=
  "func f():\n\tif a:\n\t\tmatch x:\n\t\t\t_:\n\t\t\t\treturn\n\telse:\n\t\tpass\n".toList

theorem lint_default_isOk_fullBranches :
    ∃ t, parse fullBranches = .ok t ∧ t.IgnoresNothing ∧ (t.subtreesOf .matchStmt).length = 1 ∧
      (∀ m ∈ t.subtreesOf .matchStmt, ∀ b ∈ m.children, Returns.isBare b = false) ∧
      (∃ found, lint .default fullBranches = .ok found) ∧
      ∀ s ∈ t.subtreesOf .ifStmt, ¬ Returns.Trips s := by
  have hparse : (parse fullBranches).toOption.any (fun t => decide (t.IgnoresNothing ∧
      (t.subtreesOf .matchStmt).length = 1 ∧
      ∀ m ∈ t.subtreesOf .matchStmt, ∀ b ∈ m.children, Returns.isBare b = false)) = true := by
    decide +kernel
  cases ht : parse fullBranches with
  | error e =>
    rw [ht] at hparse
    cases hparse
  | ok t =>
    rw [ht] at hparse
    obtain ⟨hignores, hlength, hfull⟩ := of_decide_eq_true hparse
    obtain ⟨hiff, hlint⟩ := lint_default_isOk_iff ht hignores
    exact ⟨t, rfl, hignores, hlength, hfull, hlint hfull, hiff.mp (hlint hfull)⟩

def bareBranch : Text :=
  "func f():\n\tif a:\n\t\tmatch x:\n\t\t\t_:\n\telse:\n\t\tpass\n".toList

/-- Valid code that cannot be linted. -/
theorem lint_default_fails_at_bareBranch :
    (∃ t, parse bareBranch = .ok t ∧ t.IgnoresNothing) ∧
      ¬ ∃ found, lint .default bareBranch = .ok found := by
  have hparse : (parse bareBranch).toOption.any (fun t =>
      decide t.IgnoresNothing && !(problems .default bareBranch t).isOk) = true := by
    decide +kernel
  cases ht : parse bareBranch with
  | error e =>
    rw [ht] at hparse
    cases hparse
  | ok t =>
    rw [ht] at hparse
    obtain ⟨hignores, hproblems⟩ := Bool.and_eq_true_iff.mp hparse
    refine ⟨⟨t, rfl, of_decide_eq_true hignores⟩, ?_⟩
    rintro ⟨found, hfound⟩
    obtain ⟨_, all, ht', hall, -⟩ := lint_eq_ok_iff.mp hfound
    cases ht.symm.trans ht'
    rw [hall] at hproblems
    cases hproblems

end GDWorkbench.Lint
