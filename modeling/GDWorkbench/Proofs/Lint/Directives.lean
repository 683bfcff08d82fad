import GDWorkbench.Lint.Directives
import GDWorkbench.Proofs.Text
import Mathlib.Data.List.Basic

/-!
Checks that are switched off and on. A line with a directive that disables a check begins a range in which
the check is off, and one that enables it is meant to end the ranges that are open there. It ends all
ranges instead, also those that begin behind it. So a check that is enabled and then disabled again stays on.
-/

namespace GDWorkbench.Lint

open List

namespace Directives

/-! ## Directives of a text -/

/-- Line `n` has a directive of this kind that names the check. -/
def NamedOn (kind : String) (code name : Text) (n : Nat) : Prop :=
  ∃ i line, n = i + 1 ∧ (Text.lines code)[i]? = some line ∧ name ∈ (names kind line).getD []

/-- A directive disables the check from line `n` on: from its own line if that is nothing but a comment,
and else from the next one. -/
def DisabledFrom (code name : Text) (n : Nat) : Prop :=
  ∃ i line, (Text.lines code)[i]? = some line ∧ name ∈ (names "disable" line).getD [] ∧
    n = if Text.startsWith (Text.trim line) ['#'] then i + 1 else i + 2

/-- The check is off on line `n` of the text: it was disabled, and from there on it was not enabled on a
line before. -/
def SwitchedOff (code name : Text) (n : Nat) : Prop :=
  1 ≤ n ∧ n ≤ (Text.lines code).length ∧
    ∃ first, DisabledFrom code name first ∧ first ≤ n ∧
      ∀ e, NamedOn "enable" code name e → ¬ (first ≤ e ∧ e < n)

def ListedOff (code name : Text) (n : Nat) : Prop :=
  ∃ numbers, (name, numbers) ∈ (ofText code).offLines ∧ n ∈ numbers

variable {code name : Text} {n : Nat}

theorem mem_flatMap_zipIdx (lines : List Text) (found : Text → List Text) (place : Text → Nat → Nat) :
    (name, n) ∈ lines.zipIdx.flatMap (fun (line, i) => (found line).map fun x => (x, place line i)) ↔
      ∃ i line, lines[i]? = some line ∧ name ∈ found line ∧ n = place line i := by
  rw [mem_flatMap]
  constructor
  · rintro ⟨⟨line, i⟩, hmem, hfound⟩
    obtain ⟨x, hx, heq⟩ := mem_map.mp hfound
    cases heq
    exact ⟨i, line, mem_zipIdx_iff_getElem?.mp hmem, hx, rfl⟩
  · rintro ⟨i, line, hline, hname, rfl⟩
    exact ⟨(line, i), mem_zipIdx_iff_getElem?.mpr hline, mem_map_of_mem hname⟩

theorem mem_find_iff {kind : String} :
    (name, n) ∈ find kind (Text.lines code) ↔ NamedOn kind code name n := by
  refine (mem_flatMap_zipIdx _ (fun line => (names kind line).getD []) fun _ i => i + 1).trans ?_
  exact exists₂_congr fun i line => and_rotate.symm

theorem not_namedOn {kind : String} (h : find kind (Text.lines code) = []) :
    ¬ NamedOn kind code name n := by
  rw [← mem_find_iff, h]
  exact not_mem_nil

theorem mem_findDisabled_iff :
    (name, n) ∈ findDisabled (Text.lines code) ↔ DisabledFrom code name n := by
  refine (mem_flatMap_zipIdx _ (fun line => (names "disable" line).getD [])
    fun line i => if startsOnNext line then i + 2 else i + 1).trans (exists₂_congr fun i line => ?_)
  rw [startsOnNext]
  cases Text.startsWith (Text.trim line) ['#'] <;> rfl

theorem DisabledFrom.pos (h : DisabledFrom code name n) : 1 ≤ n := by
  obtain ⟨i, line, -, -, rfl⟩ := h
  split <;> omega

/-! ## Lines on which a check is off -/

theorem le_foldl_min_iff {ons : List (Text × Nat)} {last : Nat} :
    n ≤ ons.foldl (fun last on => min last on.2) last ↔ n ≤ last ∧ ∀ on ∈ ons, n ≤ on.2 := by
  induction ons generalizing last with
  | nil => simp
  | cons on ons ih => rw [foldl_cons, ih, Nat.le_min, forall_mem_cons, and_assoc]

theorem le_lastOff_iff :
    n ≤ (ofText code).lastOff name ↔
      n ≤ (Text.lines code).length ∧ ∀ e, NamedOn "enable" code name e → n ≤ e := by
  rw [lastOff, le_foldl_min_iff]
  refine and_congr_right fun _ => ?_
  simp only [mem_filter, decide_eq_true_eq, and_imp, Prod.forall]
  constructor
  · exact fun h e he => h name e (mem_find_iff.mpr he) rfl
  · rintro h _ e he rfl
    exact h e (mem_find_iff.mp he)

theorem isOff_iff :
    (ofText code).isOff name n ↔
      (∃ i, NamedOn "ignore" code name i ∧ (n = i ∨ n = i + 1)) ∨
        (∃ first, DisabledFrom code name first ∧ first ≤ n) ∧ n ≤ (ofText code).lastOff name := by
  have hignored : ((ofText code).ignored.any fun i => i.1 = name && (n = i.2 || n = i.2 + 1)) ↔
      ∃ i, NamedOn "ignore" code name i ∧ (n = i ∨ n = i + 1) := by
    simp only [any_eq_true, Bool.and_eq_true, Bool.or_eq_true, decide_eq_true_eq, Prod.exists]
    constructor
    · rintro ⟨_, i, hmem, rfl, hn⟩
      exact ⟨i, mem_find_iff.mp hmem, hn⟩
    · rintro ⟨i, hi, hn⟩
      exact ⟨name, i, mem_find_iff.mpr hi, rfl, hn⟩
  have hdisabled : ((ofText code).disabled.any fun s => s.1 = name && s.2 ≤ n) ↔
      ∃ first, DisabledFrom code name first ∧ first ≤ n := by
    simp only [any_eq_true, Bool.and_eq_true, decide_eq_true_eq, Prod.exists]
    constructor
    · rintro ⟨_, first, hmem, rfl, hn⟩
      exact ⟨first, mem_findDisabled_iff.mp hmem, hn⟩
    · rintro ⟨first, hfirst, hn⟩
      exact ⟨name, first, mem_findDisabled_iff.mpr hfirst, rfl, hn⟩
  rw [isOff, Bool.or_eq_true, Bool.and_eq_true, hignored, hdisabled, decide_eq_true_eq]

theorem mem_insertName {x : Text} {sorted : List Text} :
    x ∈ insertName name sorted ↔ x = name ∨ x ∈ sorted := by
  fun_induction insertName name sorted with
  | case1 => simp
  | case2 ns => simp
  | case3 n ns => simp
  | case4 n ns _ _ ih =>
    rw [mem_cons, ih, mem_cons]
    exact or_left_comm

theorem mem_foldr_insertName {x : Text} {found : List Text} :
    x ∈ found.foldr insertName [] ↔ x ∈ found := by
  induction found with
  | nil => rfl
  | cons first found ih => rw [foldr_cons, mem_insertName, ih, mem_cons]

theorem mem_offNames (h : (ofText code).isOff name n) : name ∈ (ofText code).offNames := by
  rw [offNames, mem_foldr_insertName, map_append, mem_append]
  rcases isOff_iff.mp h with ⟨i, hi, -⟩ | ⟨⟨first, hfirst, -⟩, -⟩
  · exact .inl (mem_map.mpr ⟨(name, i), mem_find_iff.mpr hi, rfl⟩)
  · exact .inr (mem_map.mpr ⟨(name, first), mem_findDisabled_iff.mpr hfirst, rfl⟩)

theorem NamedOn.le_length {kind : String} (h : NamedOn kind code name n) :
    n ≤ (Text.lines code).length := by
  obtain ⟨i, line, rfl, hline, -⟩ := h
  obtain ⟨hlt, -⟩ := List.getElem?_eq_some_iff.mp hline
  exact hlt

theorem lt_of_isOff (h : (ofText code).isOff name n) : n < (ofText code).lastLine + 2 := by
  change n < (Text.lines code).length + 2
  rcases isOff_iff.mp h with ⟨i, hi, hn⟩ | ⟨-, hlast⟩
  · have := hi.le_length
    omega
  · have := (le_lastOff_iff.mp hlast).1
    omega

theorem listedOff_iff : ListedOff code name n ↔ (ofText code).isOff name n := by
  simp only [ListedOff, offLines, mem_map, Prod.mk.injEq]
  constructor
  · rintro ⟨_, ⟨_, -, rfl, rfl⟩, hn⟩
    exact (mem_filter.mp hn).2
  · intro h
    refine ⟨_, ⟨name, mem_offNames h, rfl, rfl⟩, mem_filter.mpr ⟨?_, h⟩⟩
    exact mem_range.mpr (lt_of_isOff h)

theorem listedOff_iff_le (hignored : ∀ i, NamedOn "ignore" code name i → n ≠ i ∧ n ≠ i + 1) :
    ListedOff code name n ↔ SwitchedOff code name n ∧ ∀ e, NamedOn "enable" code name e → n ≤ e := by
  rw [listedOff_iff, isOff_iff, le_lastOff_iff]
  constructor
  · rintro (⟨i, hi, hn | hn⟩ | ⟨⟨first, hfirst, hle⟩, hlast, henabled⟩)
    · exact absurd hn (hignored i hi).1
    · exact absurd hn (hignored i hi).2
    · refine ⟨⟨Nat.le_trans hfirst.pos hle, hlast, first, hfirst, hle, fun e he hbetween => ?_⟩, henabled⟩
      exact absurd hbetween.2 (Nat.not_lt.mpr (henabled e he))
  · rintro ⟨⟨-, hlast, first, hfirst, hle, -⟩, henabled⟩
    exact .inr ⟨⟨first, hfirst, hle⟩, hlast, henabled⟩

/-- The check is off on line `n`, and some line before has enabled it. -/
def DisabledAgain (code name : Text) (n : Nat) : Prop :=
  SwitchedOff code name n ∧ ∃ e, NamedOn "enable" code name e ∧ e < n

/-- A line without directives that ignore the check is listed as off if the check is switched off there
and no line before has enabled it, whatever stands between. So the list is right for a line unless the
check is disabled again there, and right for all lines if the check is never enabled before it is
disabled. -/
theorem listedOff_iff_switchedOff
    (hignored : ∀ i, NamedOn "ignore" code name i → n ≠ i ∧ n ≠ i + 1) :
    (ListedOff code name n ↔ SwitchedOff code name n ∧ ∀ e, NamedOn "enable" code name e → n ≤ e) ∧
    ((ListedOff code name n ↔ SwitchedOff code name n) ↔ ¬ DisabledAgain code name n) ∧
    ((∀ first e, DisabledFrom code name first → NamedOn "enable" code name e → first ≤ e) →
      (ListedOff code name n ↔ SwitchedOff code name n)) := by
  have hlisted := listedOff_iff_le hignored
  have hagain : (ListedOff code name n ↔ SwitchedOff code name n) ↔ ¬ DisabledAgain code name n := by
    rw [hlisted, and_iff_left_iff_imp, DisabledAgain, not_and]
    refine forall_congr' fun _ => ?_
    simp only [not_exists, not_and, Nat.not_lt]
  refine ⟨hlisted, hagain, fun horder => hagain.mpr ?_⟩
  rintro ⟨⟨-, -, first, hfirst, -, hopen⟩, e, he, hlt⟩
  exact hopen e he ⟨horder first e hfirst he, hlt⟩

/-- The check is disabled on the first line and enabled on the third. -/
def onceDisabled : Text :=
  "# gdlint: disable=x\nvar a\n# gdlint: enable=x\nvar b\n".toList

theorem listedOff_iff_switchedOff_onceDisabled :
    (∀ i, NamedOn "ignore" onceDisabled ['x'] i → 2 ≠ i ∧ 2 ≠ i + 1) ∧
      ListedOff onceDisabled ['x'] 2 ∧ SwitchedOff onceDisabled ['x'] 2 := by
  have hignored : ∀ i, NamedOn "ignore" onceDisabled ['x'] i → 2 ≠ i ∧ 2 ≠ i + 1 :=
    fun i hi => absurd hi (not_namedOn (by decide +kernel))
  have hlisted : ListedOff onceDisabled ['x'] 2 := listedOff_iff.mpr (by decide +kernel)
  exact ⟨hignored, hlisted, ((listedOff_iff_switchedOff hignored).1.mp hlisted).1⟩

/-- The check is disabled, enabled and disabled again, on lines of their own. -/
def twiceDisabled : Text :=
  "# gdlint: disable=x\n# gdlint: enable=x\n# gdlint: disable=x\n".toList

/-- A line on which a check is switched off that is not listed. -/
theorem not_listedOff_twiceDisabled :
    (∀ i, NamedOn "ignore" twiceDisabled ['x'] i → 3 ≠ i ∧ 3 ≠ i + 1) ∧
      SwitchedOff twiceDisabled ['x'] 3 ∧ ¬ ListedOff twiceDisabled ['x'] 3 := by
  refine ⟨fun i hi => absurd hi (not_namedOn (by decide +kernel)),
    ⟨by decide, by decide +kernel, 3, ?_, Nat.le_refl 3, fun e _ => by omega⟩, ?_⟩
  · exact mem_findDisabled_iff.mp (by decide +kernel)
  · rw [listedOff_iff]
    decide +kernel

end Directives

end GDWorkbench.Lint
