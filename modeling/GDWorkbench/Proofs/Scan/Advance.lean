import GDWorkbench.Proofs.Scan

/-!
Scanning gets on. No reader takes an empty text, so that the scanner comes to the next token or to a
place where no terminal fits before its bound runs out.
-/

namespace GDWorkbench

open List

variable {t : Terminal}

namespace Reader

def Advances (a : Reader) : Prop :=
  ∀ ⦃text taken rest : Text⦄, a text = some (taken, rest) → taken ≠ []

theorem advances_char (p : Char → Bool) : Advances (char p) := by
  intro text taken rest h
  obtain ⟨c, rfl, -, -⟩ := char_cases h
  exact cons_ne_nil c []

theorem advances_literal {word : Text} (hword : word ≠ []) : Advances (literal word) := by
  intro text taken rest h
  obtain ⟨left, -, heq⟩ := Option.map_eq_some_iff.mp h
  cases heq
  exact hword

variable {a b : Reader}

theorem Advances.seq (ha : Advances a) (b : Reader) : Advances (seq a b) := by
  intro text taken rest h
  obtain ⟨first, left, second, hfirst, -, rfl⟩ := seq_cases h
  exact fun hempty => ha hfirst (append_eq_nil_iff.mp hempty).1

theorem Advances.seq_right (a : Reader) (hb : Advances b) : Advances (Reader.seq a b) := by
  intro text taken rest h
  obtain ⟨first, left, second, -, hsecond, rfl⟩ := seq_cases h
  exact fun hempty => hb hsecond (append_eq_nil_iff.mp hempty).2

theorem Advances.orElse (ha : Advances a) (hb : Advances b) : Advances (orElse a b) := by
  intro text taken rest h
  rcases orElse_cases h with h | h
  · exact ha h
  · exact hb h

theorem Advances.many1 (ha : Advances a) : Advances (many1 a) :=
  ha.seq _

end Reader

namespace Lexeme

open Reader

theorem advances_shortString (mark : Char) : Advances (shortString mark) := by
  intro text taken rest h
  cases text with
  | nil => cases h
  | cons c text =>
    simp only [shortString] at h
    split at h
    · obtain ⟨⟨more, left⟩, -, heq⟩ := Option.map_eq_some_iff.mp h
      cases heq
      exact cons_ne_nil c more
    · cases h

theorem advances_longString (mark : Char) : Advances (longString mark) :=
  (advances_literal (cons_ne_nil mark _)).seq _

theorem advances_integer : Advances integer :=
  (advances_char _).seq _

theorem advances_number : Advances number := by
  have hdecimal : Advances decimal := (advances_integer.seq _).orElse ((advances_char _).seq _)
  exact .seq_right _ ((advances_integer.seq _).orElse ((hdecimal.seq _).orElse advances_integer))

theorem advances_based (mark : Char) (digit : Char → Bool) : Advances (based mark digit) :=
  .seq_right _ ((advances_literal (cons_ne_nil '0' _)).seq _)

theorem advances_lineFeed : Advances lineFeed :=
  .seq_right _ (advances_char _)

theorem advances_comment : Advances comment :=
  (advances_char _).seq _

theorem advances_newlinePart (p : Char → Bool) : Advances (orElse (seq lineFeed (run p)) comment) :=
  (advances_lineFeed.seq _).orElse advances_comment

theorem spelling_ne_empty {word : Text} (h : t.spelling = some word) : word ≠ [] := by
  have hall : t.spelling.all (fun word => !word.isEmpty) := by
    cases t <;> rfl
  simpa [h] using hall

theorem advances_reader (t : Terminal) : Advances (reader t) := by
  unfold reader
  split
  · exact advances_based _ _
  · exact advances_based _ _
  · exact (((advances_char _).seq _).seq _).seq _
  · exact advances_number
  · exact ((advances_char _).seq _).orElse ((advances_char _).seq _)
  · exact (advances_longString _).orElse (advances_longString _)
  · exact ((advances_char _).seq _).orElse ((advances_char _).seq _)
  · exact (advances_char _).seq _
  · exact (advances_shortString _).orElse (advances_shortString _)
  · exact (advances_newlinePart _).many1
  · exact (advances_char _).many1
  · exact (advances_char _).seq _
  · exact advances_comment
  · split
    · rename_i hword
      exact advances_literal (spelling_ne_empty hword)
    · intro text taken rest h
      cases h

end Lexeme

namespace Lexicon

variable {l : Lexicon} {text taken rest : Text}

/-- A word that is read turns out to be a keyword only if it is spelled so. -/
theorem spelling_wordFor (l : Lexicon) (t : Terminal) (text : Text) :
    l.wordFor t text = t ∨
      ∃ word, (l.wordFor t text).spelling = some word ∧ word = text := by
  unfold wordFor
  split
  · cases hfind : l.words.find? fun w => w.spelling.any fun word => word = text with
    | none => exact .inl rfl
    | some w =>
      have hany := find?_some hfind
      cases hword : w.spelling with
      | none => simp [hword] at hany
      | some word => exact .inr ⟨word, hword, by simpa [hword] using hany⟩
  · exact .inl rfl

theorem reader_of_read (h : l.read text = some (t, taken, rest)) :
    ∃ u, Lexeme.reader u text = some (taken, rest) ∧
      (t = u ∨ ∃ word, t.spelling = some word ∧ word = taken) := by
  obtain ⟨u, hread, rfl⟩ := exists_of_read h
  exact ⟨u, hread, spelling_wordFor l u taken⟩

theorem advances_read (h : l.read text = some (t, taken, rest)) : taken ≠ [] := by
  obtain ⟨u, hread, -⟩ := reader_of_read h
  exact Lexeme.advances_reader u hread

theorem reader_of_spelling
    (h : l.read text = some (t, taken, rest)) (ht : t.spelling = none) :
    Lexeme.reader t text = some (taken, rest) := by
  obtain ⟨u, hread, rfl | ⟨word, hword, -⟩⟩ := reader_of_read h
  · exact hread
  · rw [ht] at hword
    cases hword

/-- What the scanner comes to from a place. It passes over what is ignored, one piece after another. -/
inductive ComesTo (l : Lexicon) : Cursor → Scanned → Prop
  | finished {c : Cursor} (ends : c.rest = []) : ComesTo l c .finished
  | stuck {c : Cursor} (left : c.rest ≠ []) (unread : l.read c.rest = none) : ComesTo l c (.stuck c)
  | token {c : Cursor} {terminal : Terminal} {taken rest : Text}
      (read : l.read c.rest = some (terminal, taken, rest)) (kept : terminal.isIgnored = false) :
      ComesTo l c (.token (c.token terminal taken (c.past taken rest)) (c.past taken rest))
  | ignored {c : Cursor} {terminal : Terminal} {taken rest : Text} {found : Scanned}
      (read : l.read c.rest = some (terminal, taken, rest)) (ignored : terminal.isIgnored = true)
      (more : ComesTo l (c.past taken rest) found) : ComesTo l c found

theorem comesTo_nextUpTo {bound : Text} {c : Cursor} (hbound : c.rest.length ≤ bound.length) :
    l.ComesTo c (l.nextUpTo Terminal.isIgnored bound c) := by
  induction bound generalizing c with
  | nil =>
    have hempty : c.rest = [] := eq_nil_of_length_eq_zero (Nat.le_zero.mp hbound)
    rw [nextUpTo, hempty]
    exact .finished hempty
  | cons d bound ih =>
    rw [nextUpTo]
    split
    · rename_i hempty
      exact .finished (List.isEmpty_iff.mp hempty)
    · rename_i hleft
      split
      · rename_i hread
        exact .stuck (mt List.isEmpty_iff.mpr hleft) hread
      · rename_i terminal taken rest hread
        dsimp only
        split
        · rename_i hignored
          have htaken := length_pos_iff.mpr (advances_read hread)
          have hrest := congrArg length (divides_read hread)
          rw [length_append] at hrest
          rw [length_cons] at hbound
          exact .ignored hread hignored (ih (by simp only [Cursor.past]; omega))
        · rename_i hkept
          exact .token hread (eq_false_of_ne_true hkept)

theorem comesTo_of_next {c : Cursor} {found : Scanned} (h : l.next c = found) : l.ComesTo c found :=
  h ▸ comesTo_nextUpTo (Nat.le_refl _)

/-- A token is read behind what was ignored, and the rest is what follows it. -/
theorem read_of_next {c stop : Cursor} {t : Token} (h : l.next c = .token t stop) :
    ∃ ignored, c.rest = ignored ++ (t.content ++ stop.rest) ∧
      l.read (t.content ++ stop.rest) = some (t.terminal, t.content, stop.rest) := by
  have hcomes := comesTo_of_next h
  clear h
  generalize hfound : Scanned.token t stop = found at hcomes
  induction hcomes with
  | finished => cases hfound
  | stuck => cases hfound
  | token read =>
    cases hfound
    have hrest := divides_read read
    exact ⟨[], hrest, hrest ▸ read⟩
  | @ignored c terminal taken rest found read ignored more ih =>
    obtain ⟨ignored, hmore, hnext⟩ := ih hfound
    exact ⟨taken ++ ignored, by rw [divides_read read, append_assoc, ← hmore]; rfl, hnext⟩

theorem length_lt_of_next {c stop : Cursor} {t : Token} (h : l.next c = .token t stop) :
    stop.rest.length < c.rest.length := by
  obtain ⟨ignored, hrest, hread⟩ := read_of_next h
  have htaken := length_pos_iff.mpr (advances_read hread)
  rw [hrest, length_append, length_append]
  omega

/-- The scanner is stuck only where text is left and no terminal of the lexicon fits. -/
theorem read_of_stuck {c here : Cursor} (h : l.next c = .stuck here) :
    here.rest ≠ [] ∧ l.read here.rest = none := by
  have hcomes := comesTo_of_next h
  clear h
  generalize hfound : Scanned.stuck here = found at hcomes
  induction hcomes with
  | finished => cases hfound
  | stuck left unread =>
    cases hfound
    exact ⟨left, unread⟩
  | token => cases hfound
  | ignored read ignored more ih => exact ih hfound

end Lexicon

end GDWorkbench
