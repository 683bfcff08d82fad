import GDWorkbench.Lexicon
import GDWorkbench.Proofs.Text

/-!
Scanning takes tokens from the front of a text. A reader divides the text into what it took and
what it left, so that the text of a token stands in the source, behind what was ignored and before
all that is still to be read.
-/

namespace GDWorkbench

open List

variable {text rest taken : Text} {t : Terminal} {l : Lexicon}

namespace Reader

variable {p : Char → Bool}

theorem run_append (htext : ∀ c ∈ text, p c)
    (hrest : ∀ c ∈ rest.head?, p c = false) : run p (text ++ rest) = some (text, rest) := by
  have hstop : rest.takeWhile p = [] ∧ rest.dropWhile p = rest := by
    cases rest with
    | nil => exact ⟨rfl, rfl⟩
    | cons c rest => simp [hrest c rfl]
  simp [run, takeWhile_append_of_pos htext, dropWhile_append_of_pos htext, hstop]

def Divides (a : Reader) : Prop :=
  ∀ ⦃text taken rest : Text⦄, a text = some (taken, rest) → text = taken ++ rest

theorem char_cases
    (h : char p text = some (taken, rest)) : ∃ c, taken = [c] ∧ p c ∧ text = c :: rest := by
  cases text with
  | nil => cases h
  | cons c text =>
    simp only [char] at h
    split at h
    · rename_i hc
      cases h
      exact ⟨c, rfl, hc, rfl⟩
    · cases h

theorem divides_char (p : Char → Bool) : Divides (char p) := by
  intro text taken rest h
  obtain ⟨c, rfl, -, rfl⟩ := char_cases h
  rfl

theorem divides_literal (word : Text) : Divides (literal word) := by
  intro text taken rest h
  obtain ⟨left, hleft, heq⟩ := Option.map_eq_some_iff.mp h
  cases heq
  exact Text.after?_eq_some_iff.mp hleft

theorem divides_run (p : Char → Bool) : Divides (run p) := by
  intro text taken rest h
  cases h
  exact takeWhile_append_dropWhile.symm

theorem divides_nothing : Divides fun _ => none := by
  intro text taken rest h
  cases h

variable {a b : Reader}

theorem seq_cases (h : seq a b text = some (taken, rest)) :
    ∃ first left second, a text = some (first, left) ∧ b left = some (second, rest) ∧
      taken = first ++ second := by
  obtain ⟨⟨first, left⟩, hfirst, h⟩ := Option.bind_eq_some_iff.mp h
  obtain ⟨⟨second, rest'⟩, hsecond, h⟩ := Option.bind_eq_some_iff.mp h
  cases h
  exact ⟨first, left, second, hfirst, hsecond, rfl⟩

theorem orElse_cases {found : Text × Text} (h : orElse a b text = some found) :
    a text = some found ∨ b text = some found := by
  simp only [Reader.orElse] at h
  split at h
  · rename_i hfound
    exact .inl (hfound.trans h)
  · exact .inr h

theorem Divides.seq (ha : Divides a) (hb : Divides b) : Divides (seq a b) := by
  intro text taken rest h
  obtain ⟨first, left, second, hfirst, hsecond, rfl⟩ := seq_cases h
  rw [ha hfirst, hb hsecond, append_assoc]

theorem Divides.orElse (ha : Divides a) (hb : Divides b) : Divides (orElse a b) := by
  intro text taken rest h
  rcases orElse_cases h with h | h
  · exact ha h
  · exact hb h

theorem Divides.opt (ha : Divides a) : Divides (opt a) := by
  apply ha.orElse
  intro text taken rest h
  cases h
  rfl

theorem Divides.manyUpTo (ha : Divides a) (bound : Text) : Divides (manyUpTo a bound) := by
  induction bound with
  | nil =>
    intro text taken rest h
    cases h
    rfl
  | cons c bound ih => exact (ha.seq ih).opt

theorem Divides.many (ha : Divides a) : Divides (many a) :=
  fun text _ _ h => ha.manyUpTo text h

theorem Divides.many1 (ha : Divides a) : Divides (many1 a) :=
  ha.seq ha.many

end Reader

namespace Lexeme

open Reader

/-- The marks close a string where they come next, or it goes on with a character. -/
theorem closing_cases {marks : Text} {multiline even : Bool} {c : Char} {text taken rest : Text}
    (h : closing marks multiline even (c :: text) = some (taken, rest)) :
    even ∧ taken = marks ∧ c :: text = marks ++ rest ∨
      (if even then Text.after? marks (c :: text) else none) = none ∧ ∃ more, taken = c :: more ∧
        closing marks multiline (c != '\\' || !even) text = some (more, rest) := by
  rw [closing] at h
  split at h
  · rename_i left hleft
    cases h
    split at hleft
    · exact .inl ⟨‹_›, rfl, Text.after?_eq_some_iff.mp hleft⟩
    · cases hleft
  · rename_i hopen
    split at h
    · cases h
    · split at h
      · cases h
        exact .inr ⟨hopen, _, rfl, ‹_›⟩
      · cases h

theorem divides_closing (marks : Text) (multiline even : Bool) :
    Divides (closing marks multiline even) := by
  intro text
  induction text generalizing even with
  | nil =>
    intro taken rest h
    cases h
  | cons c text ih =>
    intro taken rest h
    rcases closing_cases h with ⟨-, rfl, htext⟩ | ⟨-, more, rfl, hmore⟩
    · exact htext
    · rw [ih _ hmore, cons_append]

theorem divides_shortString (mark : Char) : Divides (shortString mark) := by
  intro text taken rest h
  cases text with
  | nil => simp [shortString] at h
  | cons c text =>
    simp only [shortString] at h
    split at h
    · obtain ⟨⟨taken', rest'⟩, hread, heq⟩ := Option.map_eq_some_iff.mp h
      cases heq
      rw [divides_closing _ _ _ hread, cons_append]
    · cases h

theorem divides_longString (mark : Char) : Divides (longString mark) :=
  (divides_literal _).seq (divides_closing _ _ _)

theorem divides_integer : Divides integer :=
  (divides_char _).seq (divides_run _)

theorem divides_exponent : Divides exponent :=
  (divides_char _).seq ((divides_char _).opt.seq divides_integer)

theorem divides_number : Divides number := by
  have hdecimal : Divides decimal :=
    (divides_integer.seq ((divides_char _).seq divides_integer.opt)).orElse
      ((divides_char _).seq divides_integer)
  exact (divides_char _).opt.seq ((divides_integer.seq divides_exponent).orElse
    ((hdecimal.seq divides_exponent.opt).orElse divides_integer))

theorem divides_based (mark : Char) (digit : Char → Bool) : Divides (based mark digit) :=
  (divides_char _).opt.seq ((divides_literal _).seq ((divides_char _).seq (divides_run _)))

theorem divides_identifier : Divides identifier :=
  (divides_char _).seq (divides_run _)

theorem divides_typePath : Divides typePath :=
  divides_identifier.seq ((divides_char _).opt.seq
    ((divides_char _).seq ((divides_char _).opt.seq divides_identifier))).many

theorem divides_typeHint : Divides typeHint :=
  divides_typePath.seq ((divides_char _).seq (divides_typePath.seq
    (((divides_char _).opt.seq ((divides_char _).seq
      ((divides_char _).opt.seq divides_typePath))).opt.seq (divides_char _)))).opt

theorem divides_lineFeed : Divides lineFeed :=
  (divides_char _).opt.seq (divides_char _)

theorem divides_comment : Divides comment :=
  (divides_char _).seq (divides_run _)

theorem divides_raw {string : Char → Reader} (h : ∀ mark, Divides (string mark)) :
    Divides (raw string) :=
  ((divides_char _).seq (h _)).orElse ((divides_char _).seq (h _))

theorem divides_reader (t : Terminal) : Divides (reader t) := by
  unfold reader
  split
  · exact divides_based _ _
  · exact divides_based _ _
  · exact divides_typeHint
  · exact divides_number
  · exact divides_raw divides_longString
  · exact (divides_longString _).orElse (divides_longString _)
  · exact divides_raw divides_shortString
  · exact divides_identifier
  · exact (divides_shortString _).orElse (divides_shortString _)
  · exact ((divides_lineFeed.seq (divides_run _)).orElse divides_comment).many1
  · exact (divides_char _).many1
  · exact (divides_char _).seq ((divides_run _).seq divides_lineFeed)
  · exact divides_comment
  · split
    · exact divides_literal _
    · exact divides_nothing

end Lexeme

namespace Lexicon

variable {tried : List Terminal}

theorem reader_of_firstOf (h : firstOf text tried = some (t, taken, rest)) :
    Lexeme.reader t text = some (taken, rest) := by
  induction tried with
  | nil => cases h
  | cons u tried ih =>
    simp only [firstOf] at h
    split at h
    · rename_i hread
      obtain ⟨rfl, rfl, rfl⟩ := by simpa using h
      exact hread
    · exact ih h

theorem exists_of_read (h : l.read text = some (t, taken, rest)) :
    ∃ u, Lexeme.reader u text = some (taken, rest) ∧ l.wordFor u taken = t := by
  obtain ⟨⟨u, taken', rest'⟩, hfirst, heq⟩ := Option.map_eq_some_iff.mp h
  obtain ⟨rfl, rfl, rfl⟩ : l.wordFor u taken' = t ∧ taken' = taken ∧ rest' = rest := by
    simpa using heq
  exact ⟨u, reader_of_firstOf hfirst, rfl⟩

theorem divides_read (h : l.read text = some (t, taken, rest)) : text = taken ++ rest := by
  obtain ⟨u, hread, -⟩ := exists_of_read h
  exact Lexeme.divides_reader u hread

end Lexicon

/-! ## Places -/

theorem Cursor.past_of_not_mem (c : Cursor) (h : '\n' ∉ taken) (rest : Text) :
    c.past taken rest = ⟨rest, c.offset + taken.length, c.line, c.column + taken.length⟩ := by
  simp [past, count_eq_zero.mpr h]

end GDWorkbench
