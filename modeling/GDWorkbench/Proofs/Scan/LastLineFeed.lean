import GDWorkbench.Proofs.Comments.Division
import GDWorkbench.Proofs.Parse.Indents

/-!
One more line feed at the end of a text. In a text that ends with a line feed, no reader goes past that
line feed but those of line ends and of line joins. So the scanner takes the same tokens from the text
whether or not another line feed follows, up to the line end that the text ends with: this one takes the
other line feed as well.

A line join is different. It takes the last line feed of the text as a part of itself, and what another
line feed leads to then depends on what stands before the join.
-/

namespace GDWorkbench

open List

variable {text taken : Text}

variable {c : Cursor} {left bound : Text} {t : Terminal} {l : Lexicon} {text : Text}

namespace Text

theorem getLast?_of_cons {c : Char} (hlast : (c :: text).getLast? = some '\n')
    (hc : c ≠ '\n') : text.getLast? = some '\n' := by
  cases text with
  | nil => exact absurd (by simpa using hlast) hc
  | cons d text => simpa [getLast?_cons] using hlast

theorem isEmpty_eq_false (hlast : text.getLast? = some '\n') : text.isEmpty = false := by
  cases text with
  | nil => cases hlast
  | cons c text => rfl

variable {word text : Text} (hword : '\n' ∉ word) (hlast : text.getLast? = some '\n')

include hword hlast

theorem after?_append_lineFeed :
    after? word (text ++ ['\n']) = (after? word text).map (· ++ ['\n']) := by
  induction word generalizing text with
  | nil => rfl
  | cons c word ih =>
    cases text with
    | nil => cases hlast
    | cons d text =>
      simp only [cons_append, after?]
      split
      · rename_i heq
        have hd : d ≠ '\n' := fun h => hword (by simp [heq, h])
        exact ih (fun h => hword (mem_cons_of_mem c h)) (getLast?_of_cons hlast hd)
      · rfl

theorem getLast?_of_after? (h : after? word text = some left) : left.getLast? = some '\n' := by
  rw [after?_eq_some_iff.mp h] at hlast
  refine (Lexeme.getLast?_of_append hlast).resolve_left fun hempty => ?_
  rw [hempty, append_nil] at hlast
  exact hword (mem_of_getLast? hlast)

end Text

namespace Reader

variable {p : Char → Bool}

/-- In a text that ends with a line feed the reader takes the same if another one follows. -/
def Stretches (a : Reader) : Prop :=
  ∀ ⦃text : Text⦄, text.getLast? = some '\n' →
    a (text ++ ['\n']) = (a text).map fun (taken, left) => (taken, left ++ ['\n'])

def Stops (a : Reader) : Prop :=
  ∀ ⦃text taken left : Text⦄, text.getLast? = some '\n' → a text = some (taken, left) →
    left.getLast? = some '\n'

structure LeavesEnd (a : Reader) : Prop where
  stretches : Stretches a
  stops : Stops a

theorem stretches_char (p : Char → Bool) : Stretches (char p) := by
  intro text hlast
  cases text with
  | nil => cases hlast
  | cons c text =>
    simp only [cons_append, char]
    split <;> rfl

theorem leavesEnd_char (hp : p '\n' = false) : LeavesEnd (char p) where
  stretches := stretches_char p
  stops := by
    intro text taken left hlast h
    obtain ⟨c, -, hc, rfl⟩ := char_cases h
    refine Text.getLast?_of_cons hlast fun hfeed => ?_
    rw [hfeed, hp] at hc
    cases hc

theorem leavesEnd_literal {word : Text} (hword : '\n' ∉ word) : LeavesEnd (literal word) where
  stretches := by
    intro text hlast
    simp only [literal, Text.after?_append_lineFeed hword hlast]
    cases Text.after? word text <;> rfl
  stops := by
    intro text taken left hlast h
    obtain ⟨rest, hrest, heq⟩ := Option.map_eq_some_iff.mp h
    cases heq
    exact Text.getLast?_of_after? hword hlast hrest

theorem leavesEnd_run (hp : p '\n' = false) : LeavesEnd (run p) := by
  have hrun : ∀ text : Text, text.getLast? = some '\n' →
      (text ++ ['\n']).takeWhile p = text.takeWhile p ∧
        (text ++ ['\n']).dropWhile p = text.dropWhile p ++ ['\n'] ∧
        (text.dropWhile p).getLast? = some '\n' := by
    intro text hlast
    induction text with
    | nil => cases hlast
    | cons c text ih =>
      by_cases hc : p c
      · have htext : text.getLast? = some '\n' :=
          Text.getLast?_of_cons hlast fun h => by rw [h, hp] at hc; cases hc
        obtain ⟨htake, hdrop, hstop⟩ := ih htext
        simp only [cons_append, takeWhile_cons, dropWhile_cons, hc, if_pos]
        exact ⟨congrArg _ htake, hdrop, hstop⟩
      · simp [hc, hlast]
  refine ⟨fun text hlast => ?_, fun text taken left hlast h => ?_⟩
  · obtain ⟨htake, hdrop, -⟩ := hrun text hlast
    simp [run, htake, hdrop]
  · cases h
    exact (hrun text hlast).2.2

theorem leavesEnd_empty : LeavesEnd fun text => some ([], text) where
  stretches := fun _ _ => rfl
  stops := by
    intro text taken left hlast h
    cases h
    exact hlast

theorem leavesEnd_nothing : LeavesEnd fun _ => none where
  stretches := fun _ _ => rfl
  stops := by
    intro text taken left hlast h
    cases h

variable {a b : Reader}

theorem LeavesEnd.stretches_seq (ha : LeavesEnd a) (hb : Stretches b) : Stretches (seq a b) := by
  intro text hlast
  simp only [seq, ha.stretches hlast]
  cases hfirst : a text with
  | none => rfl
  | some found =>
    simp only [Option.map_some, bind, Option.bind, hb (ha.stops hlast hfirst)]
    cases b found.2 <;> rfl

theorem LeavesEnd.seq (ha : LeavesEnd a) (hb : LeavesEnd b) : LeavesEnd (seq a b) where
  stretches := ha.stretches_seq hb.stretches
  stops := by
    intro text taken left hlast h
    obtain ⟨first, between, second, hfirst, hsecond, -⟩ := seq_cases h
    exact hb.stops (ha.stops hlast hfirst) hsecond

theorem Stretches.orElse (ha : Stretches a) (hb : Stretches b) : Stretches (orElse a b) := by
  intro text hlast
  simp only [Reader.orElse, ha hlast]
  cases a text with
  | none => exact hb hlast
  | some found => rfl

theorem LeavesEnd.orElse (ha : LeavesEnd a) (hb : LeavesEnd b) : LeavesEnd (orElse a b) where
  stretches := ha.stretches.orElse hb.stretches
  stops := by
    intro text taken left hlast h
    rcases orElse_cases h with h | h
    · exact ha.stops hlast h
    · exact hb.stops hlast h

theorem LeavesEnd.opt (ha : LeavesEnd a) : LeavesEnd (opt a) :=
  ha.orElse leavesEnd_empty

theorem LeavesEnd.manyUpTo (ha : LeavesEnd a) (bound : Text) : LeavesEnd (manyUpTo a bound) := by
  induction bound with
  | nil => exact leavesEnd_empty
  | cons c bound ih => exact (ha.seq ih).opt

theorem manyUpTo_eq (hdivides : Divides a) (hadvances : Advances a) {bound' text : Text}
    (hbound : text.length ≤ bound.length) (hbound' : text.length ≤ bound'.length) :
    manyUpTo a bound text = manyUpTo a bound' text := by
  induction bound generalizing bound' text with
  | nil =>
    obtain rfl := eq_nil_of_length_eq_zero (Nat.le_zero.mp hbound)
    have hnone : a [] = none := by
      cases h : a [] with
      | none => rfl
      | some found =>
        exact absurd (append_eq_nil_iff.mp (hdivides h).symm).1 (hadvances h)
    rw [manyUpTo_of_none hnone, manyUpTo_of_none hnone]
  | cons c bound ih =>
    cases h : a text with
    | none => rw [manyUpTo_of_none h, manyUpTo_of_none h]
    | some found =>
      obtain ⟨taken, left⟩ := found
      have hlength := congrArg length (hdivides h)
      have htaken := length_pos_iff.mpr (hadvances h)
      rw [length_append] at hlength
      rw [length_cons] at hbound
      cases bound' with
      | nil =>
        rw [length_nil] at hbound'
        omega
      | cons d bound' =>
        rw [length_cons] at hbound'
        obtain ⟨⟨more, rest⟩, hmore⟩ := exists_manyUpTo a bound left
        have hsame : manyUpTo a bound left = manyUpTo a bound' left := ih (by omega) (by omega)
        have hmore' := hmore
        rw [hsame] at hmore'
        rw [manyUpTo_of_some h hmore, manyUpTo_of_some h hmore']

theorem LeavesEnd.many (ha : LeavesEnd a) (hdivides : Divides a) (hadvances : Advances a) :
    LeavesEnd (many a) where
  stretches := by
    intro text hlast
    have hbound : text.length ≤ (text ++ ['\n']).length := by simp
    rw [Reader.many, Reader.many, (ha.manyUpTo (text ++ ['\n'])).stretches hlast,
      manyUpTo_eq hdivides hadvances hbound (Nat.le_refl _)]
  stops := fun text _ _ hlast h => (ha.manyUpTo text).stops hlast h

theorem LeavesEnd.many1 (ha : LeavesEnd a) (hdivides : Divides a) (hadvances : Advances a) :
    LeavesEnd (many1 a) :=
  ha.seq (ha.many hdivides hadvances)

/-- Behind what ends a text nothing is run through, with a line feed or without. -/
theorem Stretches.seq_run (ha : Stretches a) (hdivides : Divides a)
    (hp : p '\n' = false) : Stretches (Reader.seq a (run p)) := by
  intro text hlast
  simp only [Reader.seq, ha hlast]
  cases hfirst : a text with
  | none => rfl
  | some found =>
    obtain ⟨first, left⟩ := found
    rw [hdivides hfirst] at hlast
    rcases Lexeme.getLast?_of_append hlast with rfl | hleft
    · simp [run, hp]
    · simp only [Option.map_some, bind, Option.bind, (leavesEnd_run hp).stretches hleft]
      rfl

end Reader

namespace Lexeme

variable {mark : Char}

open Reader

theorem leavesEnd_closing {marks : Text} (hmarks : '\n' ∉ marks) (hne : marks ≠ [])
    (multiline even : Bool) : LeavesEnd (closing marks multiline even) := by
  -- what is taken ends with the marks
  have hends {text taken left : Text} (h : closing marks multiline even text = some (taken, left)) :
      taken.getLast? ≠ some '\n' := by
    obtain ⟨before, rfl⟩ := Comments.suffix_of_closing h
    exact fun hlast => hmarks (mem_of_getLast? ((getLast?_of_append hlast).resolve_left hne))
  have hstops : Stops (closing marks multiline even) := by
    intro text taken left hlast h
    rw [divides_closing _ _ _ h] at hlast
    refine (getLast?_of_append hlast).resolve_left fun hempty => hends h ?_
    rwa [hempty, append_nil] at hlast
  refine ⟨fun text hlast => ?_, hstops⟩
  cases h : closing marks multiline even text with
  | some found =>
    have hdivided := divides_closing _ _ _ h
    rw [hdivided] at h ⊢
    rw [append_assoc]
    exact Comments.closing_append hne h _
  | none =>
    cases hmore : closing marks multiline even (text ++ ['\n']) with
    | none => rfl
    | some found =>
      obtain ⟨taken, left⟩ := found
      have hdivided := divides_closing _ _ _ hmore
      have hleft : left.getLast? = some '\n' := hstops (by simp) hmore
      obtain ⟨left, rfl⟩ := getLast?_eq_some_iff.mp hleft
      obtain rfl : text = taken ++ left := by simpa [← append_assoc] using hdivided
      rw [hdivided] at hmore
      rw [Comments.closing_append hne hmore left] at h
      cases h

theorem leavesEnd_shortString (hmark : mark ≠ '\n') : LeavesEnd (shortString mark) := by
  have hmarks : '\n' ∉ [mark] := by simpa using hmark.symm
  have hclosing := leavesEnd_closing hmarks (by simp) false true
  refine ⟨fun text hlast => ?_, fun text taken left hlast h => ?_⟩
  · cases text with
    | nil => cases hlast
    | cons c text =>
      by_cases hc : c = mark
      · have htext := Text.getLast?_of_cons hlast (hc ▸ hmark)
        have hstarts : Text.startsWith (text ++ ['\n']) [mark, mark] =
            Text.startsWith text [mark, mark] := by
          rw [Text.startsWith, Text.startsWith,
            Text.after?_append_lineFeed (by simpa using hmark.symm) htext, Option.isSome_map]
        simp only [cons_append, shortString, hstarts, hclosing.stretches htext]
        split
        · cases closing [mark] false true text <;> rfl
        · rfl
      · simp [shortString, hc]
  · cases text with
    | nil => cases hlast
    | cons c text =>
      simp only [shortString] at h
      split at h
      · rename_i hc
        obtain ⟨⟨taken', left'⟩, hread, heq⟩ := Option.map_eq_some_iff.mp h
        cases heq
        have hmark' : c = mark := by simp at hc; exact hc.1
        exact hclosing.stops (Text.getLast?_of_cons hlast (hmark' ▸ hmark)) hread
      · cases h

theorem leavesEnd_longString (hmark : mark ≠ '\n') : LeavesEnd (longString mark) :=
  have hmarks : '\n' ∉ [mark, mark, mark] := by simpa using hmark.symm
  (leavesEnd_literal hmarks).seq (leavesEnd_closing hmarks (by simp) _ _)

theorem leavesEnd_integer : LeavesEnd integer :=
  (leavesEnd_char rfl).seq (leavesEnd_run rfl)

theorem leavesEnd_exponent : LeavesEnd exponent :=
  (leavesEnd_char rfl).seq ((leavesEnd_char rfl).opt.seq leavesEnd_integer)

theorem leavesEnd_number : LeavesEnd number := by
  have hdecimal : LeavesEnd decimal :=
    (leavesEnd_integer.seq ((leavesEnd_char rfl).seq leavesEnd_integer.opt)).orElse
      ((leavesEnd_char rfl).seq leavesEnd_integer)
  exact (leavesEnd_char rfl).opt.seq ((leavesEnd_integer.seq leavesEnd_exponent).orElse
    ((hdecimal.seq leavesEnd_exponent.opt).orElse leavesEnd_integer))

theorem leavesEnd_based (hmark : mark ≠ '\n') {digit : Char → Bool}
    (hdigit : digit '\n' = false) : LeavesEnd (based mark digit) := by
  have hzero : '\n' ∉ ['0', mark] := by simpa using hmark.symm
  have hdigits : orUnderscore digit '\n' = false := by simp [orUnderscore, hdigit]
  exact (leavesEnd_char rfl).opt.seq ((leavesEnd_literal hzero).seq
    ((leavesEnd_char hdigit).seq (leavesEnd_run hdigits)))

theorem leavesEnd_identifier : LeavesEnd identifier :=
  (leavesEnd_char rfl).seq (leavesEnd_run rfl)

theorem leavesEnd_typePath : LeavesEnd typePath := by
  have hdot : LeavesEnd (seq (char (· == '.')) (seq blank? identifier)) :=
    (leavesEnd_char rfl).seq ((leavesEnd_char rfl).opt.seq leavesEnd_identifier)
  have hdivides : Divides (seq (char (· == '.')) (seq blank? identifier)) :=
    (divides_char _).seq ((divides_char _).opt.seq divides_identifier)
  exact leavesEnd_identifier.seq (((leavesEnd_char rfl).opt.seq hdot).many
    ((divides_char _).opt.seq hdivides) (.seq_right _ ((advances_char _).seq _)))

theorem leavesEnd_typeHint : LeavesEnd typeHint :=
  leavesEnd_typePath.seq ((leavesEnd_char rfl).seq (leavesEnd_typePath.seq
    (((leavesEnd_char rfl).opt.seq ((leavesEnd_char rfl).seq
      ((leavesEnd_char rfl).opt.seq leavesEnd_typePath))).opt.seq (leavesEnd_char rfl)))).opt

theorem leavesEnd_comment : LeavesEnd comment :=
  (leavesEnd_char rfl).seq (leavesEnd_run rfl)

theorem leavesEnd_raw {string : Char → Reader} (h : ∀ mark, mark ≠ '\n' → LeavesEnd (string mark)) :
    LeavesEnd (raw string) :=
  ((leavesEnd_char rfl).seq (h _ (by decide))).orElse ((leavesEnd_char rfl).seq (h _ (by decide)))

theorem not_mem_spelling {word : Text} (h : t.spelling = some word) : '\n' ∉ word := by
  have hall : t.spelling.all (fun word => !word.contains '\n') := by
    cases t <;> rfl
  simpa [h] using hall

theorem leavesEnd_reader (hnewline : t ≠ .newline) (hjoin : t ≠ .lineJoin) : LeavesEnd (reader t) := by
  unfold reader
  split
  · exact leavesEnd_based (by decide) rfl
  · exact leavesEnd_based (by decide) rfl
  · exact leavesEnd_typeHint
  · exact leavesEnd_number
  · exact leavesEnd_raw fun _ => leavesEnd_longString
  · exact (leavesEnd_longString (by decide)).orElse (leavesEnd_longString (by decide))
  · exact leavesEnd_raw fun _ => leavesEnd_shortString
  · exact leavesEnd_identifier
  · exact (leavesEnd_shortString (by decide)).orElse (leavesEnd_shortString (by decide))
  · contradiction
  · exact (leavesEnd_char rfl).many1 (divides_char _) (advances_char _)
  · contradiction
  · exact leavesEnd_comment
  · split
    · rename_i hword
      exact leavesEnd_literal (not_mem_spelling hword)
    · exact leavesEnd_nothing

theorem stretches_lineFeed : Stretches lineFeed :=
  LeavesEnd.stretches_seq (leavesEnd_char rfl).opt (stretches_char _)

theorem stretches_lineJoin : Stretches lineJoin :=
  LeavesEnd.stretches_seq (leavesEnd_char rfl)
    (LeavesEnd.stretches_seq (leavesEnd_run rfl) stretches_lineFeed)

theorem stretches_lineEndPart : Stretches lineEndPart :=
  (stretches_lineFeed.seq_run divides_lineFeed rfl).orElse leavesEnd_comment.stretches

/-! ## Line ends -/

/-- What is read where another line feed follows. A line end that ends the text takes it. -/
def stretched (t : Terminal) : Text × Text → Text × Text
  | (taken, []) => if t = .newline then (taken ++ ['\n'], []) else (taken, ['\n'])
  | (taken, c :: left) => (taken, c :: left ++ ['\n'])

theorem stretched_of_ne (ht : t ≠ .newline) (taken left : Text) :
    stretched t (taken, left) = (taken, left ++ ['\n']) := by
  cases left with
  | nil => simp [stretched, ht]
  | cons c left => rfl

theorem stretched_of_ne_nil (hleft : left ≠ []) (t : Terminal) (taken : Text) :
    stretched t (taken, left) = (taken, left ++ ['\n']) := by
  obtain ⟨c, left, rfl⟩ := exists_cons_of_ne_nil hleft
  rfl

theorem stretched_append (first taken left : Text) :
    stretched .newline (first ++ taken, left) =
      (first ++ (stretched .newline (taken, left)).1, (stretched .newline (taken, left)).2) := by
  cases left with
  | nil => simp [stretched]
  | cons c left => rfl

theorem manyUpTo_lineFeed (hbound : 0 < bound.length) :
    manyUpTo lineEndPart bound ['\n'] = some (['\n'], []) := by
  obtain ⟨d, bound, rfl⟩ := exists_cons_of_length_pos hbound
  have hpart : lineEndPart ['\n'] = some (['\n'], []) := rfl
  exact manyUpTo_of_some hpart (manyUpTo_of_none rfl bound)

/-- Parts of a line end that are read up to the end of the text are read on. -/
theorem manyUpTo_append_lineFeed {bound' text : Text} (hbound : text.length ≤ bound.length)
    (hbound' : text.length < bound'.length) (hlast : text = [] ∨ text.getLast? = some '\n') :
    manyUpTo lineEndPart bound' (text ++ ['\n']) =
      (manyUpTo lineEndPart bound text).map (stretched .newline) := by
  induction bound generalizing bound' text with
  | nil =>
    obtain rfl := eq_nil_of_length_eq_zero (Nat.le_zero.mp hbound)
    exact manyUpTo_lineFeed hbound'
  | cons c bound ih =>
    rcases hlast with rfl | hlast
    · have hnone : lineEndPart [] = none := rfl
      rw [manyUpTo_of_none hnone]
      exact manyUpTo_lineFeed hbound'
    have hstretched := stretches_lineEndPart hlast
    cases hpart : lineEndPart text with
    | none =>
      rw [hpart] at hstretched
      rw [manyUpTo_of_none hpart, manyUpTo_of_none hstretched]
      cases text with
      | nil => cases hlast
      | cons d text => rfl
    | some found =>
      obtain ⟨first, left⟩ := found
      rw [hpart] at hstretched
      have hdivided := divides_lineEndPart hpart
      have hlength := congrArg length hdivided
      have hfirst := length_pos_iff.mpr (advances_newlinePart _ hpart)
      rw [length_append] at hlength
      rw [length_cons] at hbound
      obtain ⟨d, bound', rfl⟩ := exists_cons_of_length_pos (Nat.zero_lt_of_lt hbound')
      rw [length_cons] at hbound'
      rw [hdivided] at hlast
      obtain ⟨⟨more, rest⟩, hmore⟩ := exists_manyUpTo lineEndPart bound left
      have hmore' : manyUpTo lineEndPart bound' (left ++ ['\n']) =
          (manyUpTo lineEndPart bound left).map (stretched .newline) :=
        ih (by omega) (by omega) (getLast?_of_append hlast)
      rw [hmore] at hmore'
      rw [manyUpTo_of_some hpart hmore, Option.map_some, stretched_append]
      exact manyUpTo_of_some hstretched hmore'

theorem newline_append_lineFeed (hlast : text.getLast? = some '\n') :
    newline (text ++ ['\n']) = (newline text).map (stretched .newline) := by
  have hstretched := stretches_lineEndPart hlast
  cases hpart : lineEndPart text with
  | none =>
    rw [hpart] at hstretched
    have hnone {text : Text} (h : lineEndPart text = none) : newline text = none := by
      change many1 lineEndPart text = none
      simp [many1, seq, h]
    rw [hnone hpart, hnone hstretched]
    rfl
  | some found =>
    obtain ⟨first, left⟩ := found
    rw [hpart] at hstretched
    rw [divides_lineEndPart hpart] at hlast
    obtain ⟨⟨more, rest⟩, hmore⟩ := exists_manyUpTo lineEndPart left left
    have hbound : left.length < (left ++ ['\n']).length := by simp
    have hmore' := manyUpTo_append_lineFeed (Nat.le_refl _) hbound (getLast?_of_append hlast)
    rw [hmore] at hmore'
    have hread : newline text = some (first ++ more, rest) := many1_of_some hpart hmore
    rw [hread, Option.map_some, stretched_append]
    exact many1_of_some hstretched hmore'

/-- What a terminal's reader takes where another line feed follows. -/
theorem reader_append_lineFeed (t : Terminal) (hlast : text.getLast? = some '\n') :
    reader t (text ++ ['\n']) = (reader t text).map (stretched t) := by
  by_cases hnewline : t = .newline
  · rw [hnewline]
    exact newline_append_lineFeed hlast
  · have hstretches : Stretches (reader t) := by
      by_cases hjoin : t = .lineJoin
      · rw [hjoin]
        exact stretches_lineJoin
      · exact (leavesEnd_reader hnewline hjoin).stretches
    rw [hstretches hlast]
    congr 1
    funext ⟨taken, left⟩
    exact (stretched_of_ne hnewline taken left).symm

/-- Only a line end or a line join can be the last that is read. -/
theorem eq_of_reader_end (hlast : text.getLast? = some '\n')
    (h : reader t text = some (taken, [])) : t = .newline ∨ t = .lineJoin := by
  by_cases hnewline : t = .newline
  · exact .inl hnewline
  · by_cases hjoin : t = .lineJoin
    · exact .inr hjoin
    · cases (leavesEnd_reader hnewline hjoin).stops hlast h

end Lexeme

/-! ## The scanner -/

namespace Lexicon

theorem firstOf_append_lineFeed (hlast : text.getLast? = some '\n')
    (tried : List Terminal) :
    firstOf (text ++ ['\n']) tried =
      (firstOf text tried).map fun (t, found) => (t, Lexeme.stretched t found) := by
  induction tried with
  | nil => rfl
  | cons t tried ih =>
    simp only [firstOf, Lexeme.reader_append_lineFeed t hlast]
    cases Lexeme.reader t text with
    | none => exact ih
    | some found => rfl

theorem wordFor_stretched (l : Lexicon) (t : Terminal) (taken left : Text) :
    l.wordFor t (Lexeme.stretched t (taken, left)).1 = l.wordFor t taken := by
  by_cases ht : t = .newline
  · rw [ht]
    rfl
  · rw [Lexeme.stretched_of_ne ht]

theorem stretched_wordFor (l : Lexicon) (t : Terminal) (text : Text) :
    Lexeme.stretched (l.wordFor t text) = Lexeme.stretched t := by
  by_cases ht : t = .newline
  · rw [ht]
    rfl
  · have hword : l.wordFor t text ≠ .newline := by
      rcases spelling_wordFor l t text with hsame | ⟨word, hword, -⟩
      · rwa [hsame]
      · intro h
        rw [h] at hword
        cases hword
    funext ⟨taken, left⟩
    rw [Lexeme.stretched_of_ne hword, Lexeme.stretched_of_ne ht]

theorem read_append_lineFeed (l : Lexicon) (hlast : text.getLast? = some '\n') :
    l.read (text ++ ['\n']) = (l.read text).map fun (t, found) => (t, Lexeme.stretched t found) := by
  simp only [read, firstOf_append_lineFeed hlast]
  cases firstOf text l.tried with
  | none => rfl
  | some found =>
    obtain ⟨t, taken, left⟩ := found
    simp only [Option.map_some, stretched_wordFor]
    rw [← wordFor_stretched l t taken left]

theorem eq_of_read_end
    (hlast : text.getLast? = some '\n') (h : l.read text = some (t, taken, [])) :
    t = .newline ∨ t = .lineJoin := by
  obtain ⟨u, hread, rfl⟩ := exists_of_read h
  rcases Lexeme.eq_of_reader_end hlast hread with rfl | rfl
  · exact .inl rfl
  · exact .inr rfl

end Lexicon

def Cursor.stretched (c : Cursor) : Cursor :=
  { c with rest := c.rest ++ ['\n'] }

/-- What the scanner comes to where another line feed follows. -/
inductive Scanned.Stretches : Scanned → Scanned → Prop
  /-- What was left has been passed over. Nothing is said about the other line feed. -/
  | finished (other : Scanned) : Stretches .finished other
  | stuck (here here' : Cursor) : Stretches (.stuck here) (.stuck here')
  | token (t : Token) {stop : Cursor} (goes_on : stop.rest.getLast? = some '\n') :
      Stretches (.token t stop) (.token t stop.stretched)
  /-- Both texts end with this line end. -/
  | lineEnd {t t' : Token} {stop stop' : Cursor} (ends : stop.rest = []) (ends' : stop'.rest = [])
      (terminal_eq : t.terminal = .newline) (terminal_eq' : t'.terminal = .newline)
      (indent : Layout.indentOf t.content = some []) (indent' : Layout.indentOf t'.content = some []) :
      Stretches (.token t stop) (.token t' stop')

theorem Layout.indentOf_of_getLast? (hlast : text.getLast? = some '\n') :
    indentOf text = some [] := by
  obtain ⟨before, rfl⟩ := getLast?_eq_some_iff.mp hlast
  simp [indentOf]

namespace Lexicon

theorem stretches_nextUpTo (l : Lexicon) {bound' : Text}
    (hbound : c.rest.length ≤ bound.length) (hbound' : c.rest.length < bound'.length)
    (hlast : c.rest.getLast? = some '\n') :
    (l.nextUpTo Terminal.isIgnored bound c).Stretches
      (l.nextUpTo Terminal.isIgnored bound' c.stretched) := by
  induction bound generalizing bound' c with
  | nil =>
    rw [eq_nil_of_length_eq_zero (Nat.le_zero.mp hbound)] at hlast
    cases hlast
  | cons d bound ih =>
    obtain ⟨d', bound', rfl⟩ := exists_cons_of_length_pos (Nat.zero_lt_of_lt hbound')
    have hread := l.read_append_lineFeed hlast
    have hlonger : (c.rest ++ ['\n']).getLast? = some '\n' := getLast?_concat
    simp only [nextUpTo, Cursor.stretched, Text.isEmpty_eq_false hlast,
      Text.isEmpty_eq_false hlonger, hread]
    cases hfound : l.read c.rest with
    | none => exact .stuck _ _
    | some found =>
      obtain ⟨t, taken, left⟩ := found
      have hdivided := divides_read hfound
      have hlength := congrArg length hdivided
      have htaken := length_pos_iff.mpr (advances_read hfound)
      rw [length_append] at hlength
      rw [length_cons] at hbound hbound'
      have hends := hlast
      rw [hdivided] at hends
      rcases Lexeme.getLast?_of_append hends with rfl | hleft
      · rcases eq_of_read_end hlast hfound with rfl | rfl
        · rw [append_nil] at hends
          have hlonger : (taken ++ ['\n']).getLast? = some '\n' := getLast?_concat
          exact .lineEnd rfl rfl rfl rfl (Layout.indentOf_of_getLast? hends)
            (Layout.indentOf_of_getLast? hlonger)
        · have hfinished : l.nextUpTo Terminal.isIgnored bound (c.past taken []) = .finished := by
            cases bound <;> rfl
          simp only [Terminal.isIgnored, if_true, hfinished]
          exact .finished _
      · have hne : left ≠ [] := by
          rintro rfl
          cases hleft
        simp only [Option.map_some, Lexeme.stretched_of_ne_nil hne]
        cases t.isIgnored with
        | true =>
          exact ih (c := c.past taken left) (by simp only [Cursor.past]; omega)
            (by simp only [Cursor.past]; omega) hleft
        | false => exact .token _ hleft

theorem stretches_next (l : Lexicon) (hlast : c.rest.getLast? = some '\n') :
    (l.next c).Stretches (l.next c.stretched) :=
  l.stretches_nextUpTo (Nat.le_refl _) (by simp [Cursor.stretched]) hlast

end Lexicon

/-! ## Joined to nothing -/

def Text.EndsJoined (text : Text) : Prop :=
  ∃ before behind, text = before ++ '\\' :: behind ∧
    ∀ c ∈ behind, c = ' ' ∨ c = '\t' ∨ c = '\x0c' ∨ c = '\r'

theorem Text.EndsJoined.append (h : text.EndsJoined) (first : Text) :
    (first ++ text).EndsJoined := by
  obtain ⟨before, behind, rfl, hbehind⟩ := h
  exact ⟨first ++ before, behind, by simp, hbehind⟩

theorem Lexeme.endsJoined_of_lineJoin (h : lineJoin text = some (taken, left)) :
    ∃ line, taken = line ++ ['\n'] ∧ line.EndsJoined := by
  obtain ⟨slash, rest, joined, hslash, hjoined, rfl⟩ := Reader.seq_cases h
  obtain ⟨blanks, behind, feed, hblanks, hfeed, rfl⟩ := Reader.seq_cases hjoined
  obtain ⟨carriage, rest', lineFeed, hcarriage, hlineFeed, rfl⟩ := Reader.seq_cases hfeed
  obtain ⟨c, rfl, hc, -⟩ := Reader.char_cases hslash
  obtain ⟨d, rfl, hd, -⟩ := Reader.char_cases hlineFeed
  obtain rfl : c = '\\' := by simpa using hc
  obtain rfl : d = '\n' := by simpa using hd
  refine ⟨'\\' :: (blanks ++ carriage), by simp, [], _, rfl, fun e he => ?_⟩
  rcases mem_append.mp he with he | he
  · rw [← (Prod.mk.inj (Option.some.inj hblanks)).1] at he
    have hblank := all_eq_true.mp all_takeWhile e he
    simp only [Bool.or_eq_true, beq_iff_eq] at hblank
    rcases hblank with (rfl | rfl) | rfl <;> simp
  · rcases Reader.orElse_cases hcarriage with hcarriage | hcarriage
    · obtain ⟨d, rfl, hd, -⟩ := Reader.char_cases hcarriage
      obtain rfl := mem_singleton.mp he
      exact .inr (.inr (.inr (beq_iff_eq.mp hd)))
    · cases hcarriage
      cases he

namespace Lexicon

/-- The scanner passes over the last line feed of a text only as part of a line join. -/
theorem endsJoined_of_next (hlast : c.rest.getLast? = some '\n') (h : l.next c = .finished) :
    ∃ line, c.rest = line ++ ['\n'] ∧ line.EndsJoined := by
  have hcomes := comesTo_of_next h
  clear h
  generalize hfound : Scanned.finished = found at hcomes
  induction hcomes with
  | finished ends =>
    rw [ends] at hlast
    cases hlast
  | stuck => cases hfound
  | token => cases hfound
  | @ignored c t taken left found hread hignored more ih =>
    have hdivided := divides_read hread
    have hends := hlast
    rw [hdivided] at hends
    rcases Lexeme.getLast?_of_append hends with rfl | hleft
    · rcases eq_of_read_end hlast hread with rfl | rfl
      · cases hignored
      · obtain ⟨line, hline, hjoined⟩ :=
          Lexeme.endsJoined_of_lineJoin (reader_of_spelling hread rfl)
        exact ⟨line, by rw [hdivided, append_nil, hline], hjoined⟩
    · obtain ⟨line, hline, hjoined⟩ := ih hleft hfound
      refine ⟨taken ++ line, ?_, hjoined.append taken⟩
      rw [hdivided, append_assoc, ← hline]
      rfl

end Lexicon

end GDWorkbench
