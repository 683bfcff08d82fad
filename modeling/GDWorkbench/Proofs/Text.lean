import GDWorkbench.Text.Identifier

/-!
Parts of texts. Beginning with a word is being that word followed by a rest, and a replacement that
keeps the number of some character in what it replaces keeps it in the whole text. What is joined can be
split again at a character that is in none of the pieces. White space is no part of identifiers, so that
taking it off the ends of a line leaves the words in between.
-/

namespace GDWorkbench.Text

open List

variable {text : Text} {c : Char}

theorem after?_eq_some_iff {head rest : Text} : after? head text = some rest ↔ text = head ++ rest := by
  fun_induction after? head text with
  | case1 text => simp
  | case2 c head => simp
  | case3 head d text ih => simp [ih]
  | case4 c head d text hne => simp [Ne.symm hne]

theorem startsWith_iff {head : Text} : startsWith text head ↔ head <+: text := by
  simp only [startsWith, Option.isSome_iff_exists, after?_eq_some_iff]
  exact ⟨fun ⟨rest, h⟩ => ⟨rest, h.symm⟩, fun ⟨rest, h⟩ => ⟨rest, h.symm⟩⟩

theorem suffix_of_endsWith {tail : Text} (h : endsWith text tail) : tail <:+ text := by
  rw [← reverse_prefix]
  exact startsWith_iff.mp h

theorem count_replaceFrom {part new : Text} (hpart : part ≠ [])
    (hcount : new.count c = part.count c) (skip : Nat) (text : Text) :
    (replaceFrom part new skip text).count c = (text.drop skip).count c := by
  fun_induction replaceFrom part new skip text with
  | case1 skip => simp
  | case2 skip d rest ih => simpa using ih
  | case3 d rest hstart ih =>
    obtain ⟨left, hleft⟩ := startsWith_iff.mp hstart
    obtain ⟨p, part', rfl⟩ := exists_cons_of_ne_nil hpart
    have hrest : rest = part' ++ left := (List.cons.inj hleft).2.symm
    have hd : d = p := (List.cons.inj hleft).1.symm
    rw [count_append, ih, hcount]
    subst hrest hd
    simp [count_cons, count_append]
    omega
  | case4 d rest hstart ih => simp [count_cons, ih]

/-- A replacement keeps the number of a character that is as frequent in the new part as in the old
one. -/
theorem count_replace {part new : Text} (hcount : new.count c = part.count c)
    (text : Text) : (replace part new text).count c = text.count c := by
  by_cases hpart : part = []
  · simp [replace, hpart]
  · simp [replace, hpart, count_replaceFrom hpart hcount]

/-! ## Pieces -/

theorem splitAt_of_not_mem (h : c ∉ text) : splitAt c text = [text] := by
  induction text with
  | nil => rfl
  | cons d text ih =>
    obtain ⟨hd, htext⟩ := not_or.mp (mt mem_cons.mpr h)
    rw [splitAt, if_neg (Ne.symm hd), ih htext]

theorem splitAt_ne_nil (text : Text) : splitAt c text ≠ [] := by
  cases text with
  | nil => exact cons_ne_nil _ _
  | cons d text =>
    rw [splitAt]
    split
    · exact cons_ne_nil _ _
    · split <;> exact cons_ne_nil _ _

theorem splitAt_append_separator (text rest : Text) :
    splitAt c (text ++ c :: rest) = splitAt c text ++ splitAt c rest := by
  induction text with
  | nil => simp [splitAt]
  | cons d text ih =>
    obtain ⟨piece, pieces, hpieces⟩ := exists_cons_of_ne_nil (splitAt_ne_nil (c := c) text)
    rw [cons_append, splitAt, splitAt, ih, hpieces]
    split <;> rfl

/-- Pieces that are joined are found again if the separator is in none of them. -/
theorem splitAt_join {pieces : List Text} (hne : pieces ≠ [])
    (h : ∀ piece ∈ pieces, c ∉ piece) : splitAt c (join [c] pieces) = pieces := by
  induction pieces with
  | nil => exact absurd rfl hne
  | cons piece pieces ih =>
    obtain ⟨hpiece, hpieces⟩ := forall_mem_cons.mp h
    cases pieces with
    | nil =>
      rw [join, intercalate_singleton]
      exact splitAt_of_not_mem hpiece
    | cons next pieces =>
      have hjoin : join [c] (piece :: next :: pieces) = piece ++ c :: join [c] (next :: pieces) := by
        simp [join, intercalate_cons_cons]
      rw [hjoin, splitAt_append_separator, splitAt_of_not_mem hpiece, ih (cons_ne_nil _ _) hpieces]
      rfl

/-! ## White space -/

def wideBlanks : List Nat :=
  [0x85, 0xA0, 0x1680, 0x2000, 0x2001, 0x2002, 0x2003, 0x2004, 0x2005, 0x2006, 0x2007, 0x2008, 0x2009,
   0x200A, 0x2028, 0x2029, 0x202F, 0x205F, 0x3000]

theorem isBlank_cases (h : isBlank c) :
    (c.toNat < 0x80 ∧ c.toNat ≤ 0x20 ∧ 0 < c.toNat) ∨ (0x80 ≤ c.toNat ∧ c.toNat ∈ wideBlanks) := by
  simp only [isBlank] at h
  split at h
  · simp only [Bool.or_eq_true, Bool.and_eq_true, decide_eq_true_eq] at h
    omega
  · rename_i hhigh
    refine .inr ⟨Nat.le_of_not_lt hhigh, ?_⟩
    simp only [Bool.or_eq_true, Bool.and_eq_true, decide_eq_true_eq] at h
    have hspaces : ∀ k < 11, 0x2000 + k ∈ wideBlanks := by decide
    rcases h with (((((((h | h) | h) | ⟨hlow, hle⟩) | h) | h) | h) | h) | h
    case isFalse.inl.inl.inl.inl.inl.inr =>
      obtain ⟨k, hk⟩ := Nat.exists_eq_add_of_le hlow
      rw [hk]
      exact hspaces k (by omega)
    all_goals
      rw [h]
      decide

theorem not_isIdentifier_of_isBlank (h : isBlank c) :
    isIdentifierStart c = false ∧ isIdentifierPart c = false := by
  have hwide : ∀ n ∈ wideBlanks,
      (inRuns startRuns n || (0x37A ≤ n && n ≤ 0x37D) || (0x309B ≤ n && n ≤ 0x309F) ||
        (0xFE70 ≤ n && n ≤ 0xFE74) || (0xFE76 ≤ n && n ≤ 0xFEFC)) = false ∧
      (inRuns startRuns n || inRuns continueRuns n || (0x37A ≤ n && n ≤ 0x37D) ||
        (0xFE76 ≤ n && n ≤ 0xFEFC)) = false := by
    decide +kernel
  unfold isIdentifierStart isIdentifierPart
  rcases isBlank_cases h with ⟨hlow, hle, hpos⟩ | ⟨hhigh, hmem⟩
  · simp only [if_pos hlow, isLetter, Bool.or_eq_false_iff, Bool.and_eq_false_iff,
      decide_eq_false_iff_not]
    omega
  · simp only [if_neg (Nat.not_lt.mpr hhigh)]
    exact hwide _ hmem

end GDWorkbench.Text
