import GDWorkbench.Proofs.Format.Crowding

/-!
Empty lines between two statements. The lines between them are texts with gaps around them, and a gap is a
number of empty lines; `gaps` lists these numbers, in front of the first text, between neighbours and behind
the last. Squeezing cuts every gap down to one line, the statement before sets the first gap, and the
statement behind sets the last gap that is not empty, or the first if all are. The texts stay as they are,
and texts and gaps make up the lines, so that what happens to the lines is seen from their gaps.

A result is in normal form: bringing it to normal form once more changes nothing.
-/

namespace GDWorkbench.Format

open List

namespace Blanks

variable {lines : List Text} {gap : Nat} {rest gs : List Nat} {n : Nat}

def texts (lines : List Text) : List Text :=
  lines.filter fun line => !line.isEmpty

/-- The numbers of empty lines in front of the first text, between two texts and behind the last. -/
def gaps : List Text → List Nat
  | [] => [0]
  | line :: rest => if line.isEmpty then (gaps rest).modifyHead (· + 1) else 0 :: gaps rest

/-- The last run of empty lines. -/
def lastRun (lines : List Text) : Nat :=
  ((gaps lines).filter (0 < ·)).getLastD 0

theorem gaps_nil_cons (rest : List Text) : gaps ([] :: rest) = (gaps rest).modifyHead (· + 1) := rfl

theorem gaps_text_cons {line : Text} (h : line ≠ []) (rest : List Text) :
    gaps (line :: rest) = 0 :: gaps rest := by
  simp [gaps, h]

theorem exists_gaps (lines : List Text) : ∃ first later, gaps lines = first :: later := by
  cases lines with
  | nil => exact ⟨0, [], rfl⟩
  | cons line rest =>
    obtain ⟨first, later, hrest⟩ := exists_gaps rest
    by_cases hline : line = []
    · subst hline
      exact ⟨first + 1, later, by rw [gaps_nil_cons, hrest, modifyHead_cons]⟩
    · exact ⟨0, gaps rest, gaps_text_cons hline rest⟩

theorem gaps_empties_append (k : Nat) (lines : List Text) :
    gaps (empties k ++ lines) = (gaps lines).modifyHead (· + k) := by
  obtain ⟨first, later, hlines⟩ := exists_gaps lines
  induction k with
  | zero => simp [empties, hlines]
  | succ k ih =>
    rw [empties, replicate_succ, cons_append, gaps_nil_cons, ← empties, ih, hlines]
    rfl

theorem gaps_of_not_mem (h : [] ∉ lines) : gaps lines = 0 :: replicate lines.length 0 := by
  induction lines with
  | nil => rfl
  | cons line rest ih =>
    obtain ⟨hline, hrest⟩ := ne_and_not_mem_of_not_mem_cons h
    rw [gaps_text_cons hline.symm, ih hrest]
    rfl

/-- Lines that do not end with an empty one keep their gaps, whatever follows. -/
theorem exists_gaps_append {front : List Text} (h : front.getLast? ≠ some []) :
    ∃ before, (front ≠ [] → before ≠ []) ∧ ∀ rest, gaps (front ++ rest) = before ++ gaps rest := by
  induction front with
  | nil => exact ⟨[], fun hne => absurd rfl hne, fun rest => rfl⟩
  | cons line front ih =>
    have hfront : front.getLast? ≠ some [] := by
      intro hlast
      exact h (by rw [getLast?_cons, hlast]; rfl)
    obtain ⟨before, hne, hgaps⟩ := ih hfront
    by_cases hline : line = []
    · subst hline
      have hsome : front ≠ [] := by
        rintro rfl
        exact h rfl
      obtain ⟨first, later, rfl⟩ := exists_cons_of_ne_nil (hne hsome)
      refine ⟨(first + 1) :: later, fun _ => cons_ne_nil _ _, fun rest => ?_⟩
      rw [cons_append, gaps_nil_cons, hgaps]
      rfl
    · refine ⟨0 :: before, fun _ => cons_ne_nil _ _, fun rest => ?_⟩
      rw [cons_append, gaps_text_cons hline, hgaps]
      rfl

/-- Lines with gaps around texts. -/
def laid : List Nat → List Text → List Text
  | [], ts => ts
  | gap :: _, [] => empties gap
  | gap :: gs, t :: ts => empties gap ++ t :: laid gs ts

theorem laid_gaps (lines : List Text) : laid (gaps lines) (texts lines) = lines := by
  induction lines with
  | nil => rfl
  | cons line rest ih =>
    obtain ⟨first, later, hrest⟩ := exists_gaps rest
    by_cases hline : line = []
    · subst hline
      have hwider (ts : List Text) : laid ((first + 1) :: later) ts = [] :: laid (first :: later) ts := by
        cases ts <;> rfl
      have htexts : texts ([] :: rest) = texts rest := rfl
      rw [gaps_nil_cons, hrest, modifyHead_cons, htexts, hwider, ← hrest, ih]
    · have htexts : texts (line :: rest) = line :: texts rest := by simp [texts, hline]
      rw [gaps_text_cons hline, htexts]
      exact congrArg (line :: ·) ih

/-- Texts and gaps make up the lines. -/
theorem eq_of_gaps {xs ys : List Text} (hgaps : gaps xs = gaps ys) (htexts : texts xs = texts ys) :
    xs = ys := by
  rw [← laid_gaps xs, hgaps, htexts, laid_gaps]

/-! ## Squeezing -/

theorem texts_squeeze (lines : List Text) : texts (squeeze lines) = texts lines := by
  have hafter (empty : Bool) : texts (squeezeAfter empty lines) = texts lines := by
    induction lines generalizing empty with
    | nil => rfl
    | cons line rest ih =>
      rw [squeezeAfter]
      split
      · rename_i hdropped
        have hline : line = [] := by simpa using (Bool.and_eq_true_iff.mp hdropped).1
        rw [ih, hline]
        rfl
      · have hrest : (squeezeAfter line.isEmpty rest).filter _ = rest.filter _ := ih line.isEmpty
        rw [texts, texts, filter_cons, filter_cons, hrest]
  exact hafter false

/-- Behind an empty line the first gap is closed, since the line before is what is left of it. -/
theorem gaps_squeezeAfter (empty : Bool) (lines : List Text) :
    gaps (squeezeAfter empty lines) =
      if empty then 0 :: ((gaps lines).tail).map (min 1) else (gaps lines).map (min 1) := by
  induction lines generalizing empty with
  | nil => cases empty <;> rfl
  | cons line rest ih =>
    obtain ⟨first, later, hrest⟩ := exists_gaps rest
    by_cases hline : line = []
    · subst hline
      have hsqueezed : gaps (squeezeAfter true rest) = 0 :: later.map (min 1) := by
        rw [ih true, hrest]
        rfl
      cases empty with
      | true =>
        rw [gaps_nil_cons, hrest]
        exact hsqueezed
      | false =>
        change gaps ([] :: squeezeAfter true rest) = _
        rw [gaps_nil_cons, gaps_nil_cons, hsqueezed, hrest]
        simp
    · have hkept : squeezeAfter empty (line :: rest) = line :: squeezeAfter false rest := by
        have hfull : line.isEmpty = false := by simpa using hline
        simp [squeezeAfter, hfull]
      rw [hkept, gaps_text_cons hline, gaps_text_cons hline, ih false]
      cases empty <;> simp

theorem gaps_squeeze (lines : List Text) : gaps (squeeze lines) = (gaps lines).map (min 1) :=
  gaps_squeezeAfter false lines

theorem le_one_of_mem_gaps_squeeze (lines : List Text) : ∀ gap ∈ gaps (squeeze lines), gap ≤ 1 := by
  rw [gaps_squeeze]
  intro gap hgap
  obtain ⟨wide, -, rfl⟩ := mem_map.mp hgap
  exact Nat.min_le_left _ _

/-! ## Behind a statement -/

/-- How many of the empty lines that the previous statement asks for are found in place. -/
def foundBehind (lines : List Text) : Nat :=
  if lines.head? = some [] then 1 else 0

theorem texts_empties (k : Nat) : texts (empties k) = [] := by
  simp [texts, empties]

theorem texts_append (xs ys : List Text) : texts (xs ++ ys) = texts xs ++ texts ys :=
  filter_append ..

theorem texts_afterStatement (forced : Option Nat) (lines : List Text) :
    texts (afterStatement forced lines) = texts lines := by
  cases forced with
  | none => rfl
  | some n => rw [afterStatement, texts_append, texts_empties, nil_append]

theorem length_afterStatement (n : Nat) (lines : List Text) :
    (afterStatement (some n) lines).length = lines.length + (n - foundBehind lines) := by
  rw [afterStatement, length_append, empties, length_replicate, Nat.add_comm]
  rfl

theorem foundBehind_eq (lines : List Text) : foundBehind lines = min 1 ((gaps lines).headD 0) := by
  cases lines with
  | nil => rfl
  | cons line rest =>
    obtain ⟨first, later, hrest⟩ := exists_gaps rest
    by_cases hline : line = []
    · subst hline
      simp [foundBehind, gaps_nil_cons, hrest]
    · simp [foundBehind, gaps_text_cons hline, hline]

theorem gaps_afterStatement (hn : 1 ≤ n) (hlines : ∀ gap ∈ gaps lines, gap ≤ 1) :
    gaps (afterStatement (some n) lines) = n :: (gaps lines).tail := by
  obtain ⟨first, later, hgaps⟩ := exists_gaps lines
  have hfirst : first ≤ 1 := hlines first (hgaps ▸ mem_cons_self)
  have hfound : foundBehind lines = first := by
    rw [foundBehind_eq, hgaps]
    exact Nat.min_eq_right hfirst
  change gaps (empties (n - foundBehind lines) ++ lines) = _
  rw [gaps_empties_append, hfound, hgaps, modifyHead_cons, tail_cons, Nat.add_sub_cancel']
  exact hfirst.trans hn

/-! ## Before a statement -/

/-- How many of the empty lines that the next statement asks for are found in place. Not more than two
lines are looked at. -/
def foundBefore (lines : List Text) : Nat :=
  min 2 (lastRun lines)

/-- The last number that is not zero is set, or the first if all of them are. -/
def setLast (n : Nat) : List Nat → List Nat
  | [] => []
  | gap :: rest => if rest.all (· == 0) then n :: rest else gap :: setLast n rest

theorem setLast_cons (h : ∃ later ∈ rest, later ≠ 0) :
    setLast n (gap :: rest) = gap :: setLast n rest := by
  obtain ⟨later, hlater, hne⟩ := h
  have hall : ¬ rest.all (· == 0) := fun hall =>
    hne (by simpa using all_eq_true.mp hall later hlater)
  rw [setLast, if_neg hall]

theorem setLast_cons_zeros (n gap : Nat) (h : ∀ later ∈ rest, later = 0) :
    setLast n (gap :: rest) = n :: rest := by
  have hall : rest.all (· == 0) := by simpa using h
  rw [setLast, if_pos hall]

theorem setLast_append (n gap : Nat) (before : List Nat) {zeros : List Nat}
    (hzeros : ∀ later ∈ zeros, later = 0) (hgap : gap ≠ 0) :
    setLast n (before ++ gap :: zeros) = before ++ n :: zeros := by
  induction before with
  | nil => exact setLast_cons_zeros n gap hzeros
  | cons first before ih =>
    rw [cons_append, setLast_cons ⟨gap, by simp, hgap⟩, ih]
    rfl

/-- An empty line at the end of the lines before a run belongs to it. -/
theorem exists_whole_run (head : List Text) (k : Nat) :
    ∃ front j, head ++ empties (k + 1) = front ++ empties (j + 1) ∧ front.getLast? ≠ some [] := by
  induction head using reverseRecOn generalizing k with
  | nil => exact ⟨[], k, rfl, nofun⟩
  | append_singleton head line ih =>
    by_cases hline : line = []
    · subst hline
      have hlonger : head ++ [[]] ++ empties (k + 1) = head ++ empties (k + 1 + 1) := by
        simp [empties, replicate_succ]
      rw [hlonger]
      exact ih (k + 1)
    · exact ⟨head ++ [line], k, rfl, by simpa using hline⟩

/-- The lines divided at their last run. -/
theorem exists_last_run (h : [] ∈ lines) :
    ∃ front k tail, lines = front ++ empties (k + 1) ++ tail ∧ front.getLast? ≠ some [] ∧ [] ∉ tail := by
  obtain ⟨head, tail, rfl, htail⟩ := exists_last_empty h
  obtain ⟨front, k, hfront, hlast⟩ := exists_whole_run head 0
  exact ⟨front, k, tail, by rw [← hfront, empties]; simp, hlast, htail⟩

theorem gaps_last_run {front tail : List Text} (hfront : front.getLast? ≠ some []) (htail : [] ∉ tail) :
    ∃ before, ∀ k, gaps (front ++ empties k ++ tail) = before ++ k :: replicate tail.length 0 := by
  obtain ⟨before, -, hbefore⟩ := exists_gaps_append hfront
  refine ⟨before, fun k => ?_⟩
  rw [append_assoc, hbefore, gaps_empties_append, gaps_of_not_mem htail, modifyHead_cons,
    Nat.zero_add]

theorem lastRun_eq {before : List Nat} {k m : Nat}
    (h : gaps lines = before ++ (k + 1) :: replicate m 0) : lastRun lines = k + 1 := by
  simp [lastRun, h, filter_append]

theorem lastRun_of_not_mem (h : [] ∉ lines) : lastRun lines = 0 := by
  simp [lastRun, gaps_of_not_mem h]

theorem lastRun_le (h : ∀ gap ∈ gaps lines, gap ≤ n) : lastRun lines ≤ n := by
  rw [lastRun, getLastD_eq_getLast?]
  cases hlast : ((gaps lines).filter (0 < ·)).getLast? with
  | none => exact Nat.zero_le n
  | some gap => exact h gap (mem_of_mem_filter (mem_of_getLast? hlast))

theorem beforeStatement_run {front tail : List Text} (hfront : front.getLast? ≠ some [])
    (htail : [] ∉ tail) (n k : Nat) :
    beforeStatement (some n) (front ++ empties (k + 1) ++ tail) =
      front ++ empties (k + 1 + (n - min 2 (k + 1))) ++ tail := by
  have hsplit : front ++ empties (k + 1) ++ tail = front ++ empties k ++ [] :: tail := by
    rw [empties, replicate_succ']
    simp [empties]
  have hpresent : (if (front ++ empties k).getLast? = some [] then 2 else 1) = min 2 (k + 1) := by
    cases k with
    | zero => simpa [empties] using hfront
    | succ k => simp [empties, getLast?_append, replicate_succ']
  have hjoined (j : Nat) : empties k ++ empties j ++ [[]] = empties (k + 1 + j) := by
    rw [empties, empties, empties, replicate_append_replicate, ← replicate_succ']
    congr 1
    omega
  rw [hsplit, beforeStatement_append htail, hpresent, ← hjoined]
  simp

theorem texts_beforeStatement (forced : Option Nat) (lines : List Text) :
    texts (beforeStatement forced lines) = texts lines := by
  cases forced with
  | none => rfl
  | some n =>
    by_cases h : [] ∈ lines
    · obtain ⟨front, k, tail, rfl, hfront, htail⟩ := exists_last_run h
      rw [beforeStatement_run hfront htail]
      simp only [texts_append, texts_empties]
    · rw [beforeStatement_of_not_mem h, texts_append, texts_empties, nil_append]

theorem length_beforeStatement (n : Nat) (lines : List Text) :
    (beforeStatement (some n) lines).length = lines.length + (n - foundBefore lines) := by
  by_cases h : [] ∈ lines
  · obtain ⟨front, k, tail, rfl, hfront, htail⟩ := exists_last_run h
    obtain ⟨before, hgaps⟩ := gaps_last_run hfront htail
    rw [beforeStatement_run hfront htail, foundBefore, lastRun_eq (hgaps (k + 1))]
    simp only [length_append, empties, length_replicate]
    omega
  · rw [beforeStatement_of_not_mem h, foundBefore, lastRun_of_not_mem h, length_append, empties,
      length_replicate, Nat.add_comm]
    rfl

theorem gaps_beforeStatement (hn : n ≤ 2) (hlines : ∀ gap ∈ gaps lines, gap ≤ n) :
    gaps (beforeStatement (some n) lines) = setLast n (gaps lines) := by
  have hzeros (m : Nat) : ∀ later ∈ replicate m 0, later = 0 := fun _ => eq_of_mem_replicate
  by_cases h : [] ∈ lines
  · obtain ⟨front, k, tail, rfl, hfront, htail⟩ := exists_last_run h
    obtain ⟨before, hgaps⟩ := gaps_last_run hfront htail
    have hk : k + 1 ≤ n := hlines (k + 1) (by rw [hgaps]; simp)
    have hrun : k + 1 + (n - min 2 (k + 1)) = n := by omega
    rw [beforeStatement_run hfront htail, hrun, hgaps, hgaps,
      setLast_append n (k + 1) before (hzeros _) (Nat.succ_ne_zero k)]
  · rw [beforeStatement_of_not_mem h, gaps_empties_append, gaps_of_not_mem h,
      setLast_cons_zeros n 0 (hzeros _), modifyHead_cons, Nat.zero_add]

/-! ## Setting the last gap -/

section

variable {n : Nat}

theorem le_of_mem_setLast (h : ∀ gap ∈ gs, gap ≤ n) : ∀ gap ∈ setLast n gs, gap ≤ n := by
  induction gs with
  | nil => exact h
  | cons first rest ih =>
    obtain ⟨hfirst, hrest⟩ := forall_mem_cons.mp h
    rw [setLast]
    split
    · exact forall_mem_cons.mpr ⟨Nat.le_refl n, hrest⟩
    · exact forall_mem_cons.mpr ⟨hfirst, ih hrest⟩

/-- The number that is set is the only one that may be greater than before. -/
theorem mem_or_zeros_of_setLast {front : List Nat} (h : setLast n gs = front ++ gap :: rest) :
    (∃ more, gs = front ++ gap :: more) ∨ ∀ later ∈ rest, later = 0 := by
  induction gs generalizing front with
  | nil => simp [setLast] at h
  | cons first gs ih =>
    rw [setLast] at h
    split at h
    · rename_i hzeros
      cases front with
      | nil =>
        cases h
        exact .inr (by simpa using hzeros)
      | cons _ front =>
        obtain ⟨-, rfl⟩ := List.cons.inj h
        refine .inr fun later hlater => ?_
        simpa using all_eq_true.mp hzeros later (by simp [hlater])
    · cases front with
      | nil =>
        cases h
        exact .inl ⟨gs, rfl⟩
      | cons head front =>
        obtain ⟨rfl, hrest⟩ := List.cons.inj h
        exact (ih hrest).imp_left fun ⟨more, hmore⟩ => ⟨more, by rw [hmore]; rfl⟩

theorem getLast?_setLast (hn : 0 < n) (h : gs ≠ []) : ((setLast n gs).filter (0 < ·)).getLast? = some n := by
  induction gs with
  | nil => exact absurd rfl h
  | cons first rest ih =>
    rw [setLast]
    split
    · rename_i hzeros
      have hnone : rest.filter (0 < ·) = [] := by
        rw [filter_eq_nil_iff]
        intro later hlater
        simpa using all_eq_true.mp hzeros later hlater
      simp [hn, hnone]
    · rename_i hsome
      have hlast := ih (by rintro rfl; exact hsome rfl)
      rw [filter_cons]
      split
      · rw [getLast?_cons, hlast]
        rfl
      · exact hlast

theorem mem_setLast (hn : 0 < n) (h : gs ≠ []) : n ∈ setLast n gs :=
  mem_of_mem_filter (mem_of_getLast? (getLast?_setLast hn h))

theorem map_min_setLast (hn : 1 ≤ n) (gs : List Nat) :
    (setLast n gs).map (min 1) = setLast 1 (gs.map (min 1)) := by
  induction gs with
  | nil => rfl
  | cons first rest ih =>
    have hzeros : (rest.map (min 1)).all (· == 0) = rest.all (· == 0) := by
      rw [all_map]
      congr 1
      funext gap
      cases gap <;> simp
    rw [map_cons, setLast, setLast, hzeros]
    split
    · rw [map_cons, Nat.min_eq_left hn]
    · rw [map_cons, ih]

theorem setLast_setLast {m : Nat} (hm : 0 < m) (gs : List Nat) :
    setLast n (setLast m gs) = setLast n gs := by
  induction gs with
  | nil => rfl
  | cons first rest ih =>
    by_cases hzeros : ∀ later ∈ rest, later = 0
    · rw [setLast_cons_zeros m first hzeros, setLast_cons_zeros n m hzeros,
        setLast_cons_zeros n first hzeros]
    · obtain ⟨later, hlater, hne⟩ : ∃ later ∈ rest, later ≠ 0 := by simpa using hzeros
      have hmem : m ∈ setLast m rest := mem_setLast hm (ne_nil_of_mem hlater)
      rw [setLast_cons ⟨later, hlater, hne⟩, setLast_cons ⟨m, hmem, hm.ne'⟩, ih,
        setLast_cons ⟨later, hlater, hne⟩]

end

/-! ## The normal form -/

/-- What the statements on both sides make of gaps. -/
def spacedGaps (n : Nat) (behind before : Bool) (gs : List Nat) : List Nat :=
  let after := if behind then n :: gs.tail else gs
  if before then setLast n after else after

section

variable {n : Nat} (hn : n = 1 ∨ n = 2)

theorem texts_spaced (n : Nat) (behind before : Bool) (lines : List Text) :
    texts (spaced n behind before lines) = texts lines := by
  rw [spaced, texts_beforeStatement, texts_afterStatement]

include hn

theorem gaps_after (behind : Bool) (hlines : ∀ gap ∈ gaps lines, gap ≤ 1) :
    gaps (afterStatement (if behind then some n else none) lines) =
        (if behind then n :: (gaps lines).tail else gaps lines) ∧
      ∀ gap ∈ gaps (afterStatement (if behind then some n else none) lines), gap ≤ n := by
  have hpositive : 1 ≤ n := by omega
  cases behind with
  | false => exact ⟨rfl, fun gap hgap => (hlines gap hgap).trans hpositive⟩
  | true =>
    have hgaps := gaps_afterStatement hpositive hlines
    refine ⟨hgaps, fun gap hgap => ?_⟩
    rcases mem_cons.mp (hgaps ▸ hgap) with rfl | hgap
    · exact Nat.le_refl _
    · exact (hlines gap (mem_of_mem_tail hgap)).trans hpositive

theorem gaps_spaced (behind before : Bool) (hlines : ∀ gap ∈ gaps lines, gap ≤ 1) :
    gaps (spaced n behind before lines) = spacedGaps n behind before (gaps lines) := by
  obtain ⟨hgaps, hle⟩ := gaps_after hn behind hlines
  rw [spaced, spacedGaps, ← hgaps]
  cases before with
  | false => rfl
  | true => exact gaps_beforeStatement (by omega) hle

theorem le_of_mem_spaced (behind before : Bool) (lines : List Text) :
    ∀ gap ∈ gaps (spaced n behind before (squeeze lines)), gap ≤ n := by
  obtain ⟨hafter, hle⟩ := gaps_after hn behind (le_one_of_mem_gaps_squeeze lines)
  rw [gaps_spaced hn behind before (le_one_of_mem_gaps_squeeze lines), spacedGaps, ← hafter]
  cases before with
  | false => exact hle
  | true => exact le_of_mem_setLast hle

/-- Squeezing cuts the gaps that were set down to one line, and they are set again. -/
theorem spacedGaps_squeezed (behind before : Bool) (hgs : ∀ gap ∈ gs, gap ≤ 1) :
    spacedGaps n behind before ((spacedGaps n behind before gs).map (min 1)) =
      spacedGaps n behind before gs := by
  have hpositive : 1 ≤ n := by omega
  have hsame {l : List Nat} (hl : ∀ gap ∈ l, gap ≤ 1) : l.map (min 1) = l :=
    (map_congr_left fun gap hgap => Nat.min_eq_right (hl gap hgap)).trans (map_id l)
  have hset {l : List Nat} (hl : ∀ gap ∈ l, gap ≤ 1) : (setLast n l).map (min 1) = setLast 1 l := by
    rw [map_min_setLast hpositive, hsame hl]
  have htail : ∀ gap ∈ gs.tail, gap ≤ 1 := fun gap hgap => hgs gap (mem_of_mem_tail hgap)
  cases behind <;> cases before
  · exact hsame hgs
  · change setLast n ((setLast n gs).map (min 1)) = setLast n gs
    rw [hset hgs, setLast_setLast Nat.one_pos]
  · change n :: (gs.tail).map (min 1) = n :: gs.tail
    rw [hsame htail]
  · change setLast n (n :: ((setLast n (n :: gs.tail)).map (min 1)).tail) = setLast n (n :: gs.tail)
    by_cases hzeros : ∀ later ∈ gs.tail, later = 0
    · rw [setLast_cons_zeros n n hzeros, map_cons, tail_cons, hsame htail,
        setLast_cons_zeros n n hzeros]
    · obtain ⟨later, hlater, hne⟩ : ∃ later ∈ gs.tail, later ≠ 0 := by simpa using hzeros
      obtain ⟨gap, hgap, hgap0⟩ : ∃ gap ∈ setLast 1 gs.tail, gap ≠ 0 :=
        ⟨1, mem_setLast Nat.one_pos (ne_nil_of_mem hlater), Nat.one_ne_zero⟩
      rw [setLast_cons ⟨later, hlater, hne⟩, map_cons, tail_cons, hset htail,
        setLast_cons ⟨gap, hgap, hgap0⟩, setLast_setLast Nat.one_pos]

end

/-- A gap of more than one line was set: it is the first one, or the last that is not empty. -/
theorem isSet_of_one_lt {behind before : Bool} (hgs : ∀ gap ∈ gs, gap ≤ 1)
    {front : List Nat} (h : spacedGaps n behind before gs = front ++ gap :: rest)
    (hgap : 1 < gap) : behind ∧ front = [] ∨ before ∧ ∀ later ∈ rest, later = 0 := by
  have hafter (more : List Nat) (heq : (if behind then n :: gs.tail else gs) = front ++ gap :: more) :
      behind ∧ front = [] := by
    cases behind with
    | false =>
      have hmem : gap ∈ gs := (show gs = _ from heq) ▸ mem_append_right _ mem_cons_self
      exact absurd (hgs gap hmem) (by omega)
    | true =>
      cases front with
      | nil => exact ⟨rfl, rfl⟩
      | cons first front =>
        have htail : gs.tail = front ++ gap :: more := (List.cons.inj heq).2
        have hmem : gap ∈ gs := mem_of_mem_tail (by rw [htail]; simp)
        exact absurd (hgs gap hmem) (by omega)
  cases before with
  | false => exact .inl (hafter rest h)
  | true =>
    exact (mem_or_zeros_of_setLast h).imp (fun ⟨more, hmore⟩ => hafter more hmore) fun h => ⟨rfl, h⟩

/-- The normal form of lines between two statements, where the one before them, the one behind them or both
ask for `n` empty lines. -/
structure IsNormal (n : Nat) (behind before : Bool) (lines result : List Text) : Prop where
  texts_eq : texts result = texts lines
  gap_le : ∀ gap ∈ gaps result, gap ≤ n
  /-- Where no statement asks for empty lines there is not more than one. -/
  free : ∀ front gap rest, gaps result = front ++ gap :: rest → 1 < gap →
    behind = true ∧ front = [] ∨ before = true ∧ ∀ later ∈ rest, later = 0
  head_eq : behind = true → (gaps result).head? = some n
  lastRun_eq : before = true → lastRun result = n

/-- Squeezed lines get the empty lines that the statements around them ask for, and are then in normal form.
At no time more of these lines are found in place than are asked for, so that exactly those that are missing
are added; and a second time nothing changes. -/
theorem spaced_squeeze_isNormal {n : Nat} (hn : n = 1 ∨ n = 2) (behind before : Bool)
    (lines : List Text) :
    let after := afterStatement (if behind then some n else none) (squeeze lines)
    let result := beforeStatement (if before then some n else none) after
    IsNormal n behind before lines result ∧
      (behind = true → foundBehind (squeeze lines) ≤ n ∧
        after.length = (squeeze lines).length + (n - foundBehind (squeeze lines))) ∧
      (before = true → foundBefore after ≤ n ∧
        result.length = after.length + (n - foundBefore after)) ∧
      beforeStatement (if before then some n else none)
        (afterStatement (if behind then some n else none) (squeeze result)) = result := by
  intro after result
  have hsqueezed : ∀ gap ∈ gaps (squeeze lines), gap ≤ 1 := le_one_of_mem_gaps_squeeze lines
  obtain ⟨hafter, hle⟩ : gaps after = _ ∧ ∀ gap ∈ gaps after, gap ≤ n := gaps_after hn behind hsqueezed
  have hresult : gaps result = spacedGaps n behind before (gaps (squeeze lines)) :=
    gaps_spaced hn behind before hsqueezed
  refine ⟨⟨?_, le_of_mem_spaced hn behind before lines, fun front gap rest h => ?_, ?_, ?_⟩, ?_, ?_, ?_⟩
  · exact (texts_spaced n behind before _).trans (texts_squeeze lines)
  · exact isSet_of_one_lt hsqueezed (hresult.symm.trans h)
  · rintro rfl
    rw [hresult]
    cases before with
    | false => rfl
    | true =>
      change (setLast n (n :: (gaps (squeeze lines)).tail)).head? = some n
      rw [setLast]
      split <;> rfl
  · rintro rfl
    obtain ⟨first, later, hgaps⟩ := exists_gaps after
    have hset : gaps result = setLast n (gaps after) := by rw [hresult, hafter]; rfl
    have hlast := getLast?_setLast (n := n) (by omega) (hgaps ▸ cons_ne_nil first later)
    rw [lastRun, hset, getLastD_eq_getLast?, hlast]
    rfl
  · rintro rfl
    refine ⟨?_, length_afterStatement n _⟩
    rw [foundBehind_eq]
    omega
  · rintro rfl
    exact ⟨(Nat.min_le_right _ _).trans (lastRun_le hle), length_beforeStatement n _⟩
  · have hagain := gaps_spaced hn behind before (le_one_of_mem_gaps_squeeze result)
    refine eq_of_gaps (hagain.trans ?_) ?_
    · rw [gaps_squeeze, hresult, spacedGaps_squeezed hn behind before hsqueezed]
    · exact (texts_spaced n behind before _).trans (texts_squeeze result)

/-- Two comments between functions, with three empty lines between them. -/
theorem spaced_squeeze_isNormal_notes :
    let lines := ["# a".toList, [], [], [], "# b".toList]
    let result := [[], [], "# a".toList, [], [], "# b".toList]
    beforeStatement (some 2) (afterStatement (some 2) (squeeze lines)) = result ∧
      gaps result = [2, 2, 0] ∧ IsNormal 2 true true lines result ∧
      beforeStatement (some 2) (afterStatement (some 2) (squeeze result)) = result := by
  intro lines result
  have hresult : beforeStatement (some 2) (afterStatement (some 2) (squeeze lines)) = result := by decide
  obtain ⟨hnormal, -, -, hagain⟩ := spaced_squeeze_isNormal (n := 2) (.inr rfl) true true lines
  exact ⟨hresult, by decide, hresult ▸ hnormal, hresult ▸ hagain⟩

end Blanks

end GDWorkbench.Format
