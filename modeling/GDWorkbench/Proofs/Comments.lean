import GDWorkbench.Comments
import GDWorkbench.Proofs.Scan

/-!
Gathering comments turn by turn. Plain characters are passed over all at once, and a comment goes up to
the end of its line.
-/

namespace GDWorkbench.Comments

open List Cursor Lexeme Reader Text

/-- Characters that are neither quotation marks nor number signs. -/
def isPlain (c : Char) : Bool :=
  c != '#' && c != '"' && c != '\''

theorem skipped_of_isPlain {text rest : Text} (hne : text ≠ [])
    (htext : ∀ c ∈ text, isPlain c)
    (hrest : ∀ c ∈ rest.head?, isPlain c = false) : skipped (text ++ rest) = some (text, rest) := by
  obtain ⟨c, text, rfl⟩ := exists_cons_of_ne_nil hne
  have hc := htext c mem_cons_self
  have hrun : ∀ d ∈ text, isPlain d := fun d hd => htext d (mem_cons_of_mem c hd)
  have hdouble : c ≠ '"' := by
    rintro rfl
    cases hc
  have hsingle : c ≠ '\'' := by
    rintro rfl
    cases hc
  have hlong : reader .longString (c :: (text ++ rest)) = none := by
    simp [reader, eitherMark, orElse, longString, seq,
      literal, after?, Ne.symm hdouble, Ne.symm hsingle]
  have hregular : reader .regularString (c :: (text ++ rest)) = none := by
    simp [reader, eitherMark, orElse, shortString, hdouble, hsingle]
  have hseq : seq (char isPlain) (run isPlain) (c :: (text ++ rest)) = some (c :: text, rest) := by
    simp [seq, char, hc, run_append hrun hrest]
  show orElse _ (orElse _ (seq (char isPlain) (run isPlain))) (c :: (text ++ rest)) = _
  simp only [orElse, hlong, hregular, hseq]

theorem skipped_hash (rest : Text) : skipped ('#' :: rest) = none := rfl

theorem comment_of_line {comment rest : Text} (hhash : comment.head? = some '#')
    (hline : '\n' ∉ comment) (hends : ∀ d ∈ rest.head?, d = '\n') :
    Lexeme.comment (comment ++ rest) = some (comment, rest) := by
  cases comment with
  | nil => simp at hhash
  | cons c comment =>
    obtain rfl : c = '#' := by simpa using hhash
    have hall : ∀ d ∈ comment, (d != '\n') :=
      fun d hd => bne_iff_ne.mpr fun h => hline (h ▸ mem_cons_of_mem _ hd)
    have hrun := run_append hall
      (show ∀ d ∈ rest.head?, (d != '\n') = false from fun d hd => bne_eq_false_iff_eq.mpr (hends d hd))
    simp [Lexeme.comment, seq, char, hrun]

section Turns

variable {text : Text} {bound : Nat} {c : Cursor} {found : List Token}

theorem readUpTo_nil (h : c.rest = []) : readUpTo text bound c found = .ok found.reverse := by
  cases bound <;> simp [readUpTo, h]

theorem readUpTo_skipped {taken rest : Text} (hrest : c.rest ≠ [])
    (h : skipped c.rest = some (taken, rest)) :
    readUpTo text (bound + 1) c found = readUpTo text bound (c.past taken rest) found := by
  obtain ⟨d, rest', hcons⟩ := exists_cons_of_ne_nil hrest
  rw [hcons] at h
  simp only [readUpTo, hcons, h]

theorem readUpTo_comment {comment rest : Text} (hhash : comment.head? = some '#')
    (hline : '\n' ∉ comment) (hends : ∀ d ∈ rest.head?, d = '\n')
    (hrest : c.rest = comment ++ rest) :
    readUpTo text (bound + 1) c found =
      readUpTo text bound (c.past comment rest)
        (c.token .comment comment (c.past comment rest) :: found) := by
  have hread := comment_of_line hhash hline hends
  cases comment with
  | nil => simp at hhash
  | cons d comment =>
    obtain rfl : d = '#' := by simpa using hhash
    rw [cons_append] at hread hrest
    simp only [readUpTo, hrest, skipped_hash, hread]

end Turns

theorem readUpTo_plain (text rest : Text) {before : Text} {c : Cursor} {bound : Nat}
    (hbefore : ∀ d ∈ before, isPlain d) (hstop : ∀ d ∈ rest.head?, isPlain d = false)
    (hrest : c.rest = before ++ rest) (hbound : c.rest.length < bound) (found : List Token) :
    ∃ left, rest.length < left ∧
      readUpTo text bound c found = readUpTo text left (c.past before rest) found := by
  by_cases hne : before = []
  · subst hne
    refine ⟨bound, by rw [hrest] at hbound; exact hbound, ?_⟩
    have hsame : c.past [] rest = c := by
      rw [past_of_not_mem c (by simp), ← show c.rest = rest from hrest]
      rfl
    rw [hsame]
  · obtain ⟨left, rfl⟩ : ∃ left, bound = left + 1 := ⟨bound - 1, by omega⟩
    refine ⟨left, ?_, ?_⟩
    · have hlength := length_pos_iff.mpr hne
      rw [hrest, length_append] at hbound
      omega
    · apply readUpTo_skipped
      · simp [hrest, hne]
      · rw [hrest]
        exact skipped_of_isPlain hne hbefore hstop

end GDWorkbench.Comments
