import GDWorkbench.Proofs.Scan.LastLineFeed
import GDWorkbench.Proofs.StringLiteral.Tokens
import Mathlib.Data.List.TakeWhile

/-!
How tokens end. A token in a tree that is no string in three marks stands on one line, and its last
character is none of white space. A reader has this from the readers it is made of: what is read last counts
for the end, and no part may hold a line feed.
-/

namespace GDWorkbench

open List

variable {text taken rest : Text}

namespace Text

variable {t u : Text} {c : Char}

/-- Whether the text ends with something else than white space. -/
def ends (t : Text) : Bool :=
  t.getLast?.any fun c => !isBlank c

theorem exists_of_ends (h : t.ends) : ∃ first c, t = first ++ [c] ∧ isBlank c = false := by
  cases hlast : t.getLast? with
  | none => simp [ends, hlast] at h
  | some c =>
    obtain ⟨first, rfl⟩ := getLast?_eq_some_iff.mp hlast
    exact ⟨first, c, rfl, by simpa [ends] using h⟩

@[simp]
theorem ends_concat (hc : isBlank c = false) : (t ++ [c]).ends := by
  simp [ends, hc]

theorem ends_append (h : u.ends) : (t ++ u).ends := by
  obtain ⟨first, c, rfl, hc⟩ := exists_of_ends h
  rw [← append_assoc]
  exact ends_concat hc

theorem ends_cons (h : t.ends) : ends (c :: t) :=
  ends_append (t := [c]) h

/-- Nothing at all, or a text that ends with something else than white space. -/
def IsClean (t : Text) : Prop :=
  t = [] ∨ t.ends

theorem isClean_nil : IsClean [] :=
  .inl rfl

theorem ends_append_isClean (ht : t.ends) (hu : u.IsClean) : (t ++ u).ends := by
  rcases hu with rfl | hu
  · rwa [append_nil]
  · exact ends_append hu

theorem ends_cons_isClean (hc : isBlank c = false) (ht : t.IsClean) : ends (c :: t) :=
  ends_append_isClean (t := [c]) (ends_concat (t := []) hc) ht

theorem IsClean.append (ht : t.IsClean) (hu : u.IsClean) : IsClean (t ++ u) := by
  rcases hu with rfl | hu
  · rwa [append_nil]
  · exact .inr (ends_append hu)

theorem ends_trimEnd (hc : c ∈ t) (hblank : isBlank c = false) : (trimEnd t).ends := by
  have hne : t.reverse.dropWhile isBlank ≠ [] := by
    rw [Ne, dropWhile_eq_nil_iff]
    intro hall
    exact Bool.false_ne_true (hblank.symm.trans (hall c (mem_reverse.mpr hc)))
  obtain ⟨d, rest, hdrop⟩ := exists_cons_of_ne_nil hne
  have hhead := head?_dropWhile_not isBlank t.reverse
  rw [hdrop] at hhead
  rw [trimEnd, hdrop, reverse_cons]
  exact ends_concat (by simpa using hhead)

theorem ends_trim (h : t.ends) : (trim t).ends := by
  obtain ⟨first, c, rfl, hc⟩ := exists_of_ends h
  refine ends_trimEnd (c := c) ?_ hc
  rw [trimStart, dropWhile_append]
  split
  · simp [hc]
  · simp

theorem isBlank_eq_false (hc : '!' ≤ c) (hle : c ≤ '~') : isBlank c = false := by
  rw [Bool.eq_false_iff]
  intro hblank
  have hlow : 0x21 ≤ c.toNat := hc
  have hhigh : c.toNat ≤ 0x7E := hle
  rcases isBlank_cases hblank with ⟨-, hsmall, -⟩ | ⟨hlarge, -⟩ <;> omega

/-! ## Texts on one line -/

abbrev OnLine (t : Text) : Prop :=
  '\n' ∉ t

structure IsPiece (t : Text) : Prop where
  onLine : t.OnLine
  isClean : t.IsClean

structure IsSolid (t : Text) : Prop where
  onLine : t.OnLine
  ends : t.ends

theorem OnLine.append (ht : t.OnLine) (hu : u.OnLine) : OnLine (t ++ u) :=
  not_mem_append ht hu

theorem isPiece_nil : IsPiece [] :=
  ⟨not_mem_nil, isClean_nil⟩

theorem IsPiece.append (ht : t.IsPiece) (hu : u.IsPiece) : IsPiece (t ++ u) :=
  ⟨ht.onLine.append hu.onLine, ht.isClean.append hu.isClean⟩

theorem IsSolid.isPiece (h : t.IsSolid) : t.IsPiece :=
  ⟨h.onLine, .inr h.ends⟩

theorem IsSolid.append (ht : t.IsSolid) (hu : u.IsPiece) : IsSolid (t ++ u) :=
  ⟨ht.onLine.append hu.onLine, ends_append_isClean ht.ends hu.isClean⟩

theorem OnLine.append_isSolid (ht : t.OnLine) (hu : u.IsSolid) : IsSolid (t ++ u) :=
  ⟨ht.append hu.onLine, ends_append hu.ends⟩

theorem isSolid_singleton (hc : isBlank c = false) : IsSolid [c] := by
  refine ⟨?_, ends_concat (t := []) hc⟩
  rw [OnLine, mem_singleton]
  rintro rfl
  cases hc

theorem isPiece_of_forall (h : ∀ c ∈ t, isBlank c = false) : IsPiece t := by
  induction t with
  | nil => exact isPiece_nil
  | cons c t ih =>
    obtain ⟨hc, ht⟩ := forall_mem_cons.mp h
    exact ((isSolid_singleton hc).append (ih ht)).isPiece

end Text

open Text

/-! ## Readers -/

namespace Reader

variable {P Q R : Text → Prop} {p : Char → Bool} {a b : Reader}

/-- What is taken has the property. -/
def Takes (P : Text → Prop) (a : Reader) : Prop :=
  ∀ ⦃text taken rest : Text⦄, a text = some (taken, rest) → P taken

theorem Takes.mono (h : Takes P a) (hPQ : ∀ t, P t → Q t) : Takes Q a :=
  fun _ _ _ hread => hPQ _ (h hread)

theorem takes_char (h : ∀ c, p c → P [c]) : Takes P (char p) := by
  intro text taken rest hread
  obtain ⟨c, rfl, hc, -⟩ := char_cases hread
  exact h c hc

theorem takes_literal {word : Text} (h : P word) : Takes P (literal word) := by
  intro text taken rest hread
  obtain ⟨left, -, heq⟩ := Option.map_eq_some_iff.mp hread
  cases heq
  exact h

theorem takes_run (h : ∀ c, p c → isBlank c = false) : Takes IsPiece (run p) := by
  intro text taken rest hread
  cases hread
  exact isPiece_of_forall fun c hc => h c (all_eq_true.mp all_takeWhile c hc)

theorem Takes.seq (ha : Takes P a) (hb : Takes Q b) (h : ∀ {t u}, P t → Q u → R (t ++ u)) :
    Takes R (seq a b) := by
  intro text taken rest hread
  obtain ⟨first, left, second, hfirst, hsecond, rfl⟩ := seq_cases hread
  exact h (ha hfirst) (hb hsecond)

theorem Takes.orElse (ha : Takes P a) (hb : Takes P b) : Takes P (orElse a b) := by
  intro text taken rest hread
  exact (orElse_cases hread).elim (ha ·) (hb ·)

theorem Takes.opt (ha : Takes P a) (hnil : P []) : Takes P (opt a) :=
  ha.orElse fun text taken rest hread => by cases hread; exact hnil

theorem Takes.many (ha : Takes IsPiece a) : Takes IsPiece (many a) := by
  have hupTo (bound : Text) : Takes IsPiece (manyUpTo a bound) := by
    induction bound with
    | nil =>
      intro text taken rest hread
      cases hread
      exact isPiece_nil
    | cons c bound ih => exact (ha.seq ih IsPiece.append).opt isPiece_nil
  exact fun text taken rest hread => hupTo text hread

theorem Takes.optSolid (ha : Takes IsSolid a) : Takes IsPiece (Reader.opt a) :=
  (ha.mono fun _ h => h.isPiece).opt isPiece_nil

theorem Takes.thenSolid (ha : Takes OnLine a) (hb : Takes IsSolid b) : Takes IsSolid (Reader.seq a b) :=
  ha.seq hb OnLine.append_isSolid

theorem Takes.thenPiece (ha : Takes IsSolid a) (hb : Takes IsPiece b) : Takes IsSolid (Reader.seq a b) :=
  ha.seq hb IsSolid.append

theorem Takes.onLine (ha : Takes IsSolid a) : Takes OnLine a :=
  ha.mono fun _ h => h.onLine

end Reader

namespace Lexeme

open Reader

theorem takes_shown (p : Char → Bool) (h : ∀ c, p c → '!' ≤ c ∧ c ≤ '~') : Takes IsSolid (char p) :=
  takes_char fun c hc => isSolid_singleton (isBlank_eq_false (h c hc).1 (h c hc).2)

theorem takes_is (c : Char) (h : '!' ≤ c ∧ c ≤ '~') : Takes IsSolid (char (· == c)) :=
  takes_shown _ fun _ hd => beq_iff_eq.mp hd ▸ h

/-! ### Names and types -/

theorem isBlank_identifierStart {c : Char} (h : isIdentifierStart c) : isBlank c = false :=
  Bool.eq_false_iff.mpr fun hblank =>
    Bool.false_ne_true ((not_isIdentifier_of_isBlank hblank).1.symm.trans h)

theorem isBlank_identifierPart {c : Char} (h : isIdentifierPart c) : isBlank c = false :=
  Bool.eq_false_iff.mpr fun hblank =>
    Bool.false_ne_true ((not_isIdentifier_of_isBlank hblank).2.symm.trans h)

theorem takes_identifier : Takes IsSolid identifier :=
  (takes_char fun _ hc => isSolid_singleton (isBlank_identifierStart hc)).thenPiece
    (takes_run fun _ => isBlank_identifierPart)

theorem takes_blank? : Takes OnLine blank? := by
  refine (takes_char fun c hc => ?_).opt not_mem_nil
  rw [beq_iff_eq.mp hc]
  exact (by decide : '\n' ∉ [' '])

/-- Behind a mark with perhaps a blank on either side. -/
theorem takes_apart {a : Reader} (c : Char) (hc : '!' ≤ c ∧ c ≤ '~') (ha : Takes IsSolid a) :
    Takes IsSolid (seq blank? (seq (char (· == c)) (seq blank? a))) :=
  takes_blank?.thenSolid ((takes_is c hc).onLine.thenSolid (takes_blank?.thenSolid ha))

theorem takes_typePath : Takes IsSolid typePath :=
  takes_identifier.thenPiece
    ((takes_apart '.' (by decide) takes_identifier).mono fun _ h => h.isPiece).many

theorem takes_typeHint : Takes IsSolid typeHint := by
  have hsecond := (takes_apart ',' (by decide) takes_typePath).optSolid.mono fun _ h => h.onLine
  refine takes_typePath.thenPiece (Takes.optSolid ?_)
  exact (takes_is '[' (by decide)).onLine.thenSolid
    (takes_typePath.onLine.thenSolid (hsecond.thenSolid (takes_is ']' (by decide))))

/-! ### Numbers -/

theorem le_of_isHexDigit (c : Char) (h : isHexDigit c) : '!' ≤ c ∧ c ≤ '~' := by
  simp only [isHexDigit, isDigit, Bool.or_eq_true, Bool.and_eq_true, decide_eq_true_eq] at h
  rcases h with (⟨hlow, hhigh⟩ | ⟨hlow, hhigh⟩) | ⟨hlow, hhigh⟩
  all_goals exact ⟨Char.le_trans (by decide) hlow, Char.le_trans hhigh (by decide)⟩

theorem le_of_isDigit (c : Char) (h : isDigit c) : '!' ≤ c ∧ c ≤ '~' :=
  le_of_isHexDigit c (by simp [isHexDigit, h])

theorem le_of_isBinaryDigit (c : Char) (h : isBinaryDigit c) : '!' ≤ c ∧ c ≤ '~' := by
  rcases Bool.or_eq_true_iff.mp h with h | h
  all_goals
    rw [of_decide_eq_true h]
    decide

theorem takes_digits {digit : Char → Bool} (h : ∀ c, digit c → '!' ≤ c ∧ c ≤ '~') :
    Takes IsSolid (seq (char digit) (run (orUnderscore digit))) := by
  refine (takes_shown digit h).thenPiece (takes_run fun c hc => ?_)
  rcases Bool.or_eq_true_iff.mp hc with hc | hc
  · exact isBlank_eq_false (h c hc).1 (h c hc).2
  · rw [of_decide_eq_true hc]
    decide

theorem takes_sign {p : Char → Bool} (h : ∀ c, p c → c = '+' ∨ c = '-') : Takes OnLine (opt (char p)) := by
  have hchar : Takes IsSolid (char p) :=
    takes_shown p fun c hc => by rcases h c hc with rfl | rfl <;> decide
  exact hchar.optSolid.mono fun _ ht => ht.onLine

theorem takes_number : Takes IsSolid number := by
  have hsign : Takes OnLine sign? := takes_sign fun c hc => by simpa using hc
  have hinteger : Takes IsSolid integer := takes_digits le_of_isDigit
  have hpoint := takes_is '.' (by decide)
  have hletter : Takes IsSolid (char fun c => c == 'e' || c == 'E') :=
    takes_shown _ fun c hc => by
      rcases Bool.or_eq_true_iff.mp hc with hc | hc <;> rw [beq_iff_eq.mp hc] <;> decide
  have hexponent : Takes IsSolid exponent := hletter.onLine.thenSolid (hsign.thenSolid hinteger)
  have hdecimal : Takes IsSolid decimal :=
    (hinteger.onLine.thenSolid (hpoint.thenPiece hinteger.optSolid)).orElse
      (hpoint.onLine.thenSolid hinteger)
  exact hsign.thenSolid ((hinteger.onLine.thenSolid hexponent).orElse
    ((hdecimal.thenPiece hexponent.optSolid).orElse hinteger))

theorem takes_based {mark : Char} (hmark : OnLine ['0', mark]) {digit : Char → Bool}
    (h : ∀ c, digit c → '!' ≤ c ∧ c ≤ '~') : Takes IsSolid (based mark digit) := by
  have hsign : Takes OnLine (opt (char (· == '-'))) := takes_sign fun c hc => .inr (beq_iff_eq.mp hc)
  exact hsign.thenSolid ((takes_literal hmark).thenSolid (takes_digits h))

/-! ### Strings -/

theorem isSolid_of_isMark {mark : Char} (h : StringLiteral.IsMark mark) : IsSolid [mark] := by
  rcases h with rfl | rfl <;> exact isSolid_singleton (by decide)

theorem takes_shortString {mark : Char} (hmark : StringLiteral.IsMark mark) :
    Takes IsSolid (shortString mark) := by
  intro text taken rest hread
  obtain ⟨body, rfl, hbody⟩ := exists_body_of_shortString hmark hread
  have hmark := isSolid_of_isMark hmark
  exact (hmark.onLine.append (StringLiteral.not_mem_of_isBody hbody)).append_isSolid hmark

theorem isSolid_of_spelling {t : Terminal} {word : Text} (h : t.spelling = some word) : IsSolid word := by
  have hall : t.spelling.all Text.ends := by
    cases t <;> decide
  exact ⟨not_mem_spelling h, by simpa [h] using hall⟩

/-- What is read for a terminal that the parser gets, unless it is a string in three marks. -/
theorem takes_reader {t : Terminal} (hignored : t.isIgnored = false) (hnewline : t ≠ .newline)
    (hlong : t ≠ .longString) (hlongRaw : t ≠ .longRawString) : Takes IsSolid (reader t) := by
  have hraw : Takes IsSolid rawMark :=
    takes_shown _ fun c hc => by
      rcases Bool.or_eq_true_iff.mp hc with hc | hc <;> rw [beq_iff_eq.mp hc] <;> decide
  unfold reader
  split
  · exact takes_based (by decide) le_of_isHexDigit
  · exact takes_based (by decide) le_of_isBinaryDigit
  · exact takes_typeHint
  · exact takes_number
  · contradiction
  · contradiction
  · exact (hraw.onLine.thenSolid (takes_shortString (.inl rfl))).orElse
      (hraw.onLine.thenSolid (takes_shortString (.inr rfl)))
  · exact takes_identifier
  · exact (takes_shortString (.inl rfl)).orElse (takes_shortString (.inr rfl))
  · contradiction
  · cases hignored
  · cases hignored
  · cases hignored
  · split
    · rename_i hword
      exact takes_literal (isSolid_of_spelling hword)
    · intro text taken rest hread
      cases hread

end Lexeme

theorem Token.IsScanned.isSolid {t : Token} (h : t.IsScanned) (hignored : t.terminal.isIgnored = false)
    (hmade : ¬ Layout.IsMade t) (hlong : t.isLong = false) : IsSolid t.content := by
  obtain ⟨l, rest, hread⟩ := h
  obtain ⟨u, hreader, rfl | ⟨word, hword, rfl⟩⟩ := Lexicon.reader_of_read hread
  · obtain ⟨hlong, hlongRaw⟩ := Bool.or_eq_false_iff.mp hlong
    exact Lexeme.takes_reader hignored (fun hnewline => hmade (.inl hnewline)) (of_decide_eq_false hlong)
      (of_decide_eq_false hlongRaw) hreader
  · exact Lexeme.isSolid_of_spelling hword

end GDWorkbench
