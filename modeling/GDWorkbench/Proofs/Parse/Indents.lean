import GDWorkbench.Layout
import GDWorkbench.Proofs.Scan.Advance

/-!
The indentation of a line. A line end that is read may begin with a comment and may go over many lines,
but where the text ends with a line feed it has a last line feed of its own, and only tabs and blanks
come behind that one.
-/

namespace GDWorkbench

open List Reader

namespace Reader

variable {a : Reader} {text taken rest : Text}

theorem manyUpTo_of_none (h : a text = none) (bound : Text) :
    manyUpTo a bound text = some ([], text) := by
  cases bound <;> simp [manyUpTo, opt, orElse, seq, h]

theorem manyUpTo_of_some (h : a text = some (taken, rest)) {more left : Text} {c : Char}
    {bound : Text} (hmore : manyUpTo a bound rest = some (more, left)) :
    manyUpTo a (c :: bound) text = some (taken ++ more, left) := by
  simp [manyUpTo, opt, orElse, seq, h, hmore]

theorem many1_of_some (h : a text = some (taken, rest)) {more left : Text}
    (hmore : manyUpTo a rest rest = some (more, left)) :
    many1 a text = some (taken ++ more, left) := by
  simp [many1, many, seq, h, hmore]

theorem exists_manyUpTo (a : Reader) (bound text : Text) :
    ∃ found, manyUpTo a bound text = some found := by
  cases bound with
  | nil => exact ⟨_, rfl⟩
  | cons d bound =>
    simp only [manyUpTo, opt, orElse]
    split <;> exact ⟨_, rfl⟩

end Reader

def isIndent (text : Text) : Bool :=
  text.all fun c => c == '\t' || c == ' '

theorem mem_indent {text : Text} (h : isIndent text) : ∀ c ∈ text, c = '\t' ∨ c = ' ' := by
  simpa [isIndent] using h

namespace Lexeme

def lineEndPart : Reader :=
  orElse (seq lineFeed (run fun c => c == '\t' || c == ' ')) comment

/-- Ends with a line feed and the indentation of the next line. -/
def EndsLine (taken : Text) : Prop :=
  ∃ before indent, taken = before ++ '\n' :: indent ∧ isIndent indent = true

theorem EndsLine.append {taken : Text} (h : EndsLine taken) (first : Text) :
    EndsLine (first ++ taken) := by
  obtain ⟨before, indent, rfl, hindent⟩ := h
  exact ⟨first ++ before, indent, by simp, hindent⟩

theorem EndsLine.indentOf {taken : Text} (h : EndsLine taken) :
    ∃ indent, Layout.indentOf taken = some indent ∧ isIndent indent := by
  obtain ⟨before, indent, rfl, hindent⟩ := h
  refine ⟨indent, ?_, hindent⟩
  have hall : ∀ c ∈ indent.reverse, (c != '\n') := by
    intro c hc
    rcases mem_indent hindent c (mem_reverse.mp hc) with rfl | rfl <;> rfl
  have hmem : (before ++ '\n' :: indent).elem '\n' := by simp
  rw [Layout.indentOf, if_pos hmem, reverse_append, reverse_cons, append_assoc,
    takeWhile_append_of_pos hall]
  simp

/-- A part of a line end ends a line, or is a comment up to the end of its line. -/
theorem lineEndPart_cases {text first left : Text} (h : lineEndPart text = some (first, left)) :
    EndsLine first ∨ '\n' ∉ first ∧ ∀ c ∈ left.head?, c = '\n' := by
  rcases orElse_cases h with h | h
  · obtain ⟨feed, behind, indent, hfeed, hindent, rfl⟩ := seq_cases h
    obtain ⟨carriage, between, lineFeed, -, hlineFeed, rfl⟩ := seq_cases hfeed
    obtain ⟨c, rfl, hc, -⟩ := char_cases hlineFeed
    obtain rfl : c = '\n' := by simpa using hc
    have hrun : behind.takeWhile (fun c => c == '\t' || c == ' ') = indent :=
      (Prod.mk.inj (Option.some.inj hindent)).1
    refine .inl ⟨carriage, indent, by simp, ?_⟩
    rw [← hrun]
    exact all_takeWhile
  · obtain ⟨hash, behind, words, hhash, hwords, rfl⟩ := seq_cases h
    obtain ⟨c, rfl, hc, -⟩ := char_cases hhash
    obtain ⟨hrun, hleft⟩ := Prod.mk.inj (Option.some.inj hwords)
    refine .inr ⟨fun hmem => ?_, fun d hd => ?_⟩
    · rcases mem_append.mp hmem with hmem | hmem
      · obtain rfl := mem_singleton.mp hmem
        simp at hc
      · rw [← hrun] at hmem
        simpa using all_eq_true.mp all_takeWhile _ hmem
    · have hstop := head?_dropWhile_not (· != '\n') behind
      rw [hleft, hd] at hstop
      simpa using hstop

theorem divides_lineEndPart : Divides lineEndPart :=
  (divides_lineFeed.seq (divides_run _)).orElse divides_comment

theorem lineEndPart_lineFeed (text : Text) : lineEndPart ('\n' :: text) ≠ none := by
  simp [lineEndPart, Reader.orElse, seq, lineFeed, Reader.opt, char, run]

/-- What is read behind a part of a line end ends the line, or else the part has ended it. -/
theorem endsLine_append {text first left more : Text} (hpart : lineEndPart text = some (first, left))
    (hlast : text.getLast? = some '\n')
    (hmore : EndsLine more ∨ more = [] ∧ lineEndPart left = none) : EndsLine (first ++ more) := by
  rcases hmore with hmore | ⟨rfl, hnone⟩
  · exact hmore.append first
  rw [append_nil]
  rcases lineEndPart_cases hpart with hfirst | ⟨hfirst, hleft⟩
  · exact hfirst
  -- a comment leaves the line feed at the end of the text, which could be read on
  · have hdivided := divides_lineEndPart hpart
    cases left with
    | nil =>
      rw [hdivided, append_nil] at hlast
      exact absurd (mem_of_getLast? hlast) hfirst
    | cons c left =>
      obtain rfl := hleft c rfl
      exact absurd hnone (lineEndPart_lineFeed left)

theorem getLast?_of_append {first left : Text} (hlast : (first ++ left).getLast? = some '\n') :
    left = [] ∨ left.getLast? = some '\n' := by
  cases left with
  | nil => exact .inl rfl
  | cons c left =>
    rw [getLast?_append] at hlast
    exact .inr (by simpa [getLast?_cons] using hlast)

theorem endsLine_of_manyUpTo {bound text taken rest : Text} (hbound : text.length ≤ bound.length)
    (hlast : text = [] ∨ text.getLast? = some '\n')
    (h : Reader.manyUpTo lineEndPart bound text = some (taken, rest)) :
    EndsLine taken ∨ taken = [] ∧ lineEndPart text = none := by
  induction bound generalizing text taken with
  | nil =>
    obtain rfl := eq_nil_of_length_eq_zero (Nat.le_zero.mp hbound)
    cases h
    exact .inr ⟨rfl, rfl⟩
  | cons d bound ih =>
    cases hpart : lineEndPart text with
    | none =>
      rw [manyUpTo_of_none hpart] at h
      cases h
      exact .inr ⟨rfl, rfl⟩
    | some found =>
      obtain ⟨first, left⟩ := found
      obtain ⟨⟨more, left'⟩, hmore⟩ := exists_manyUpTo lineEndPart bound left
      rw [manyUpTo_of_some hpart hmore] at h
      cases h
      have hdivided := divides_lineEndPart hpart
      have hfirst := length_pos_iff.mpr (advances_newlinePart _ hpart)
      have hlength := congrArg length hdivided
      rw [length_append] at hlength
      rw [length_cons] at hbound
      have htext : text.getLast? = some '\n' := by
        refine hlast.resolve_left fun hempty => ?_
        rw [hempty, length_nil] at hlength
        omega
      rw [hdivided] at htext
      have hrest := ih (by omega) (getLast?_of_append htext) hmore
      rw [← hdivided] at htext
      exact .inl (endsLine_append hpart htext hrest)

theorem endsLine_of_newline {text taken rest : Text} (hlast : text.getLast? = some '\n')
    (h : newline text = some (taken, rest)) : EndsLine taken := by
  obtain ⟨first, left, more, hpart, hmore, rfl⟩ := seq_cases h
  have hdivided := divides_lineEndPart hpart
  have hleft := hlast
  rw [hdivided] at hleft
  exact endsLine_append hpart hlast
    (endsLine_of_manyUpTo (Nat.le_refl _) (getLast?_of_append hleft) hmore)

end Lexeme

/-- Only tabs and blanks come behind the last line feed of a line end. -/
theorem Lexicon.indentOf_of_next {l : Lexicon} {c stop : Cursor} {t : Token}
    (hlast : c.rest.getLast? = some '\n') (h : l.next c = .token t stop)
    (ht : t.terminal = .newline) :
    ∃ indent, Layout.indentOf t.content = some indent ∧ isIndent indent := by
  obtain ⟨ignored, hrest, hread⟩ := read_of_next h
  rw [ht] at hread
  have htaken := advances_read hread
  have hreader := reader_of_spelling hread rfl
  rw [hrest] at hlast
  have htext : (t.content ++ stop.rest).getLast? = some '\n' :=
    (Lexeme.getLast?_of_append hlast).resolve_left
      fun hempty => htaken (append_eq_nil_iff.mp hempty).1
  exact (Lexeme.endsLine_of_newline htext hreader).indentOf

end GDWorkbench
