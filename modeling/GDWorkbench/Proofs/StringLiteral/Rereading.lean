import GDWorkbench.Print
import GDWorkbench.Proofs.StringLiteral.Tokens

/-!
Literals that are printed and read again. A literal comes back whole, and stands for what it stood for,
exactly if the text between its marks bears the way to the preferred ones. Where the mark stays, it must
not stand in the text by itself, which only three apostrophes allow. Where it changes, the new mark must
not stand behind a backslash before, and the old one not behind a pair of them.

A raw literal has no escapes, so that it bears no change of the text at all: where its mark changes, the
new one must not occur and the old one must not stand right behind a backslash.
-/

namespace GDWorkbench

open List Reader

namespace StringLiteral

open Lexeme

variable {body : Text}

/-! ## Texts in which backslashes come with a character -/

/-- Whether a character stands behind every backslash that is not itself behind one. -/
def isPaired : Text → Bool
  | [] => true
  | '\\' :: _ :: rest => isPaired rest
  | c :: rest => c != '\\' && isPaired rest

theorem isPaired_of_isBody {mark : Char} (h : isBody mark body) : isPaired body := by
  fun_induction isBody mark body with
  | case1 => rfl
  | case2 c body ih =>
    rw [isPaired]
    exact ih (Bool.and_eq_true_iff.mp h).2
  | case3 c body hpair ih =>
    simp only [Bool.and_eq_true] at h
    rw [isPaired, h.1.1.1, ih h.2]
    · rfl
    · exact hpair

theorem exists_isPaired_of_closing {marks text taken rest : Text} {multiline : Bool}
    (h : closing marks multiline true text = some (taken, rest)) :
    ∃ body, taken = body ++ marks ∧ isPaired body := by
  fun_induction isPaired text generalizing taken rest with
  | case1 => cases h
  | case2 c text ih =>
    rcases closing_cases h with ⟨-, rfl, -⟩ | ⟨-, more, rfl, hmore⟩
    · exact ⟨[], rfl, rfl⟩
    -- the character behind the backslash closes nothing, and leaves an even number of them
    · rcases closing_cases hmore with ⟨hodd, -, -⟩ | ⟨-, more, rfl, hpair⟩
      · cases hodd
      · rw [bne_self_eq_false, Bool.not_true, Bool.or_self, Bool.not_false, Bool.or_true] at hpair
        obtain ⟨body, rfl, hbody⟩ := ih hpair
        exact ⟨'\\' :: c :: body, rfl, hbody⟩
  | case3 c text hpair ih =>
    rcases closing_cases h with ⟨-, rfl, -⟩ | ⟨-, more, rfl, hmore⟩
    · exact ⟨[], rfl, rfl⟩
    · by_cases hc : c = '\\'
      · cases text with
        | nil => cases hmore
        | cons d text => exact (hpair d text hc rfl).elim
      · rw [bne_iff_ne.mpr hc, Bool.true_or] at hmore
        obtain ⟨body, rfl, hbody⟩ := ih hmore
        refine ⟨c :: body, rfl, ?_⟩
        rw [isPaired, bne_iff_ne.mpr hc, hbody]
        · rfl
        · exact fun d rest' h _ => hc h

/-! ## Changing the marks of any text -/

section Change

variable {old new : Char} (hold : IsMark old) (hnew : IsMark new) (hne : old ≠ new)

include hold hnew hne

theorem swapMarks_pair_old (text : Text) :
    swapMarks old new ('\\' :: '\\' :: old :: text) = '\\' :: old :: swapMarks old new text := by
  have houter : '\\' = '\\' → ('\\' :: old :: text).head? ≠ some old :=
    fun _ => by simpa using Ne.symm hold.ne_backslash
  rw [swapMarks_cons houter, swapMarks_old_pair hne, if_neg (Ne.symm hnew.ne_backslash)]
  rfl

/-- A change of marks gives a text for the new ones that stands for the same, exactly if no old mark
stands behind a pair of backslashes and no new one behind a single backslash. -/
theorem keeps_swapMarks_iff {text : Text} (hpaired : isPaired text) (hline : '\n' ∉ text) :
    (isBody new (swapMarks old new text) ∧ pieces (swapMarks old new text) = pieces text) ↔
      (isClean old text ∧ escapes new text = false) := by
  fun_induction isPaired text with
  | case1 => simp [swapMarks, Text.replace, Text.replaceFrom, isBody, isClean, escapes, pieces]
  | case2 c text ih =>
    have hrest : '\n' ∉ text := fun h => hline (by simp [h])
    have hc : c ≠ '\n' := fun h => hline (by simp [h])
    specialize ih hpaired hrest
    by_cases hcold : c = old
    · subst hcold
      rw [swapMarks_old_pair hne, isBody_cons hold.ne_backslash, pieces_cons hold.ne_backslash, pieces,
        Piece.ofPair_mark hold]
      simpa [isClean, escapes, hne, hold.ne_backslash, hc] using ih
    · by_cases hunclean : c = '\\' ∧ text.head? = some old
      · -- the pair of backslashes loses one of them
        obtain ⟨rfl, hhead⟩ := hunclean
        obtain ⟨text, rfl⟩ := head?_eq_some_iff.mp hhead
        rw [swapMarks_pair_old hold hnew hne, pieces, Piece.ofPair_mark hold, pieces]
        have hback : Piece.ofPair '\\' = .char '\\' := rfl
        simp [isClean, hback, hold.ne_backslash]
      · have hinner : c = '\\' → text.head? ≠ some old := fun hb hh => hunclean ⟨hb, hh⟩
        rw [swapMarks_pair hnew hcold hinner]
        have hclean : isClean old ('\\' :: c :: text) = isClean old text := by
          have : (c != '\\' || text.head? != some old) := by
            simpa [bne_iff_ne, or_iff_not_imp_left] using hinner
          rw [isClean, this, Bool.true_and]
        by_cases hcnew : c = new
        · -- the mark stands behind two backslashes now and closes the literal
          subst hcnew
          simp [isBody, isBody_cons hnew.ne_backslash, escapes]
        · simpa [hcnew, isBody, pieces, escapes, hc, hclean] using ih
  | case3 c text hpair ih =>
    simp only [Bool.and_eq_true, bne_iff_ne] at hpaired
    have hrest : '\n' ∉ text := fun h => hline (by simp [h])
    have hc : c ≠ '\n' := fun h => hline (by simp [h])
    specialize ih hpaired.2 hrest
    have hclean : isClean old (c :: text) = isClean old text := by
      rw [isClean]
      exact hpair
    rw [swapMarks_cons (fun h => (hpaired.1 h).elim), pieces_cons hpaired.1,
      escapes_cons hpaired.1, hclean]
    by_cases hcnew : c = new
    · subst hcnew
      simpa [isBody, pieces, Piece.ofPair_mark hnew, hc] using ih
    · simpa [hcnew, isBody_cons hpaired.1, pieces_cons hpaired.1, hc] using ih

/-- A change of marks leaves a text alone exactly if it has nothing to change. -/
theorem swapMarks_eq_self_iff {text : Text} :
    swapMarks old new text = text ↔ new ∉ text ∧ ¬ ['\\', old] <:+: text := by
  induction text with
  | nil => simp [swapMarks, Text.replace, Text.replaceFrom]
  | cons c text ih =>
    rw [infix_cons_iff]
    by_cases hpair : c = '\\' ∧ text.head? = some old
    · obtain ⟨rfl, hhead⟩ := hpair
      obtain ⟨text, rfl⟩ := head?_eq_some_iff.mp hhead
      rw [swapMarks_old_pair hne]
      simp [hold.ne_backslash]
    · have hinner : c = '\\' → text.head? ≠ some old := fun hb hh => hpair ⟨hb, hh⟩
      have hstart : ¬ ['\\', old] <+: c :: text := by
        rintro ⟨rest, hrest⟩
        cases hrest
        exact hinner rfl rfl
      rw [swapMarks_cons hinner]
      by_cases hcnew : c = new
      · subst hcnew
        simp [Ne.symm hnew.ne_backslash]
      · simpa [hcnew, Ne.symm hcnew, hstart] using ih

end Change

/-! ## Normal forms -/

/-- Whether a text comes between the preferred marks without a change of what it stands for. -/
def isKept (mark : Char) (body : Text) : Bool :=
  if preferredMark body = mark then isBody mark body
  else isClean mark body && !escapes (preferredMark body) body

/-- Whether a text comes between the preferred marks of a single line as it is. -/
def IsKeptRaw (mark : Char) (body : Text) : Prop :=
  if preferredMark body = mark then isBody mark body = true
  else '\n' ∉ body ∧ preferredMark body ∉ body ∧ ¬ ['\\', mark] <:+: body

theorem keeps_renewed_iff {mark : Char} (hmark : IsMark mark)
    (hpaired : isPaired body) (hline : '\n' ∉ body) :
    (isBody (preferredMark body) (renewed mark body) ∧
      pieces (renewed mark body) = pieces body) ↔ isKept mark body := by
  unfold renewed isKept
  by_cases h : preferredMark body = mark
  · simp [h]
  · rw [if_neg h, if_neg h]
    simpa using keeps_swapMarks_iff hmark (isMark_preferredMark body) (Ne.symm h) hpaired hline

theorem isBody_of_not_mem {mark : Char} (hpaired : isPaired body)
    (hline : '\n' ∉ body) (hmark : mark ∉ body) : isBody mark body := by
  fun_induction isPaired body with
  | case1 => rfl
  | case2 c body ih =>
    simp only [mem_cons, not_or] at hline hmark
    rw [isBody, bne_iff_ne.mpr (Ne.symm hline.2.1), ih hpaired hline.2.2 hmark.2.2]
    rfl
  | case3 c body hpair ih =>
    simp only [mem_cons, not_or] at hline hmark
    simp only [Bool.and_eq_true, bne_iff_ne] at hpaired
    rw [isBody_cons hpaired.1, bne_iff_ne.mpr (Ne.symm hmark.1), bne_iff_ne.mpr (Ne.symm hline.1),
      ih hpaired.2 hline.2 hmark.2]
    rfl

theorem keepsRaw_renewed_iff {mark : Char} (hmark : IsMark mark)
    (hpaired : isPaired body) :
    (isBody (preferredMark body) (renewed mark body) ∧ renewed mark body = body) ↔
      IsKeptRaw mark body := by
  unfold renewed IsKeptRaw
  by_cases h : preferredMark body = mark
  · simp [h]
  · have hiff : swapMarks mark (preferredMark body) body = body ↔ _ :=
      swapMarks_eq_self_iff hmark (isMark_preferredMark body) (Ne.symm h)
    rw [if_neg h, if_neg h, hiff]
    constructor
    · rintro ⟨hbody, hsame⟩
      rw [hiff.mpr hsame] at hbody
      exact ⟨not_mem_of_isBody hbody, hsame⟩
    · rintro ⟨hline, hsame⟩
      rw [hiff.mpr hsame]
      exact ⟨isBody_of_not_mem hpaired hline hsame.1, hsame⟩

/-! ## Reading -/

theorem shortString_eq_iff {mark mark' : Char} (hmark : IsMark mark) (hmark' : IsMark mark') :
    shortString mark' (mark :: body ++ [mark]) = some (mark :: body ++ [mark], []) ↔
      mark' = mark ∧ isBody mark body := by
  constructor
  · intro h
    obtain ⟨body', heq, hbody⟩ := exists_body_of_shortString hmark' h
    obtain ⟨rfl, hrest⟩ := List.cons.inj heq
    obtain rfl := (append_inj' hrest rfl).1
    exact ⟨rfl, hbody⟩
  · rintro ⟨rfl, hbody⟩
    have hthree : Text.startsWith (body ++ [mark']) [mark', mark'] = false :=
      not_three_marks (head_ne_of_isBody hmark hbody) (by simp)
    simp [shortString, hthree, closing_of_isBody hmark.ne_backslash [] hbody]

theorem reader_regularString_iff {mark : Char} (hmark : IsMark mark) :
    reader .regularString (mark :: body ++ [mark]) = some (mark :: body ++ [mark], []) ↔
      isBody mark body := by
  constructor
  · intro h
    obtain ⟨mark', hmark', hread⟩ := exists_mark_of_eitherMark h
    exact ((shortString_eq_iff hmark hmark').mp hread).2
  · intro h
    have hread := (shortString_eq_iff hmark hmark).mpr ⟨rfl, h⟩
    rcases hmark with rfl | rfl
    · simp only [reader, eitherMark, orElse, hread]
    · simpa [reader, eitherMark, orElse, shortString] using hread

theorem reader_rawString_iff {mark : Char} (hmark : IsMark mark) :
    reader .rawString ('r' :: (mark :: body ++ [mark])) =
        some ('r' :: (mark :: body ++ [mark]), []) ↔ isBody mark body := by
  constructor
  · intro h
    obtain ⟨c, mark', text, taken, hmark', hread, heq⟩ := exists_mark_of_raw h
    obtain ⟨body', rfl, hbody⟩ := exists_body_of_shortString hmark' hread
    obtain ⟨-, rfl, rfl, -⟩ : 'r' = c ∧ mark = mark' ∧ body = body' ∧ mark = mark' := by
      simpa using heq
    exact hbody
  · intro h
    have hread := (shortString_eq_iff hmark hmark).mpr ⟨rfl, h⟩
    simp only [reader, raw, orElse, seq, rawMark, char, cons_append]
    rw [cons_append] at hread
    rcases hmark with rfl | rfl
    · simp [hread]
    · have hother : shortString '"' ('\'' :: (body ++ ['\''])) = none := by simp [shortString]
      simp [hread, hother]

/-- What is read between three marks on either side, without the outermost ones. -/
theorem exists_inner_of_longString {mark mark' : Char} {text read rest : Text}
    (h : longString mark' read = some (mark :: text ++ [mark], rest)) :
    ∃ inner, text = mark :: mark :: inner ++ [mark, mark] := by
  obtain ⟨inner, heq⟩ := exists_body_of_longString h
  obtain ⟨rfl, -⟩ := List.cons.inj heq
  have happend : text ++ [mark] = mark :: mark :: inner ++ [mark, mark] ++ [mark] := by simpa using heq
  exact ⟨inner, append_cancel_right happend⟩

theorem length_pieces_le (text more : Text) :
    (pieces text).length ≤ (pieces (text ++ more)).length := by
  fun_induction pieces text with
  | case1 => simp
  | case2 c text ih => simpa [pieces] using ih
  | case3 c text hpair ih =>
    by_cases hc : c = '\\'
    · cases text with
      | nil => cases more <;> simp [hc, pieces]
      | cons d text => exact (hpair d text hc rfl).elim
    · simpa [pieces_cons hc] using ih

end StringLiteral

namespace Lexeme

/-- A literal between three marks is read as well if nothing follows it. -/
theorem longString_whole {mark : Char} {text taken rest : Text}
    (h : longString mark text = some (taken, rest)) : longString mark taken = some (taken, []) := by
  obtain ⟨opening, left, closed, hopens, hcloses, rfl⟩ := seq_cases h
  obtain ⟨left', -, heq⟩ := Option.map_eq_some_iff.mp hopens
  cases heq
  rw [divides_closing _ _ _ hcloses] at hcloses
  have hclosed := Comments.closing_append (cons_ne_nil _ _) hcloses []
  rw [append_nil] at hclosed
  simp [longString, seq, literal, Text.after?, hclosed]

theorem reader_longRawString {text taken rest : Text}
    (h : longString '"' text = some (taken, rest)) :
    reader .longRawString ('r' :: taken) = some ('r' :: taken, []) := by
  simp [reader, raw, orElse, seq, rawMark, char, longString_whole h]

end Lexeme

/-! ## Tokens -/

namespace Token

open StringLiteral (IsMark isBody pieces isPaired preferredMark isMark_preferredMark renewed isKept
  IsKeptRaw)

def mark (l : Token) : Char :=
  l.marks.headD '"'

/-- Whether the literal, printed, is read again as one that stands for the same. -/
def keepsValue (l : Token) : Bool :=
  isKept l.mark l.body

/-- The raw literal comes between three quotation marks, or bears the way to the preferred mark. -/
def KeepsBody (l : Token) : Prop :=
  l.marks = ['"', '"', '"'] ∨ IsKeptRaw l.mark l.body

variable {l : Token} {mark : Char} {body : Text}

theorem Encloses.mark_eq (h : l.Encloses mark body) : l.mark = mark := by
  rw [Token.mark, h.marks_eq, width]
  split <;> rfl

theorem isPaired_body (hscanned : l.IsScanned) (hstring : l.isString) : isPaired l.body := by
  obtain ⟨mark, h⟩ := exists_encloses hscanned hstring
  cases hlong : l.isLong with
  | false => exact StringLiteral.isPaired_of_isBody (h.isBody hlong)
  | true =>
    obtain ⟨mark', text, rest, -, hread⟩ := exists_read_of_isScanned hscanned hstring
    rw [hlong] at hread
    obtain ⟨opening, left, closed, hopens, hcloses, hquoted⟩ := seq_cases hread
    obtain ⟨left', -, heq⟩ := Option.map_eq_some_iff.mp hopens
    cases heq
    obtain ⟨body, rfl, hbody⟩ := StringLiteral.exists_isPaired_of_closing hcloses
    have henclosed := h.quoted_eq
    rw [hquoted, width, if_pos hlong] at henclosed
    obtain ⟨-, hrest⟩ := append_inj henclosed rfl
    rw [← (append_inj' hrest rfl).1]
    exact hbody

theorem encloses_regular (hmark : IsMark mark) (hbody : isBody mark body) (l : Token) :
    (l.borrow .regularString (mark :: body ++ [mark])).Encloses mark body :=
  ⟨hmark, rfl, fun _ => hbody⟩

theorem encloses_raw (hmark : IsMark mark) (hbody : isBody mark body) (l : Token) :
    (l.borrow .rawString ('r' :: (mark :: body ++ [mark]))).Encloses mark body :=
  ⟨hmark, rfl, fun _ => hbody⟩

theorem encloses_long (hmark : IsMark mark) (l : Token) :
    (l.borrow .longString (mark :: mark :: mark :: body ++ [mark, mark, mark])).Encloses mark body :=
  ⟨hmark, rfl, nofun⟩

theorem encloses_longRaw (hmark : IsMark mark) (l : Token) :
    (l.borrow .longRawString
      ('r' :: (mark :: mark :: mark :: body ++ [mark, mark, mark]))).Encloses mark body :=
  ⟨hmark, rfl, nofun⟩

theorem enclosed_twice (mark : Char) (inner : Text) :
    mark :: (mark :: mark :: inner ++ [mark, mark]) ++ [mark] =
      mark :: mark :: mark :: inner ++ [mark, mark, mark] := by
  simp

theorem Encloses.value_eq (h : l.Encloses mark body) (hraw : l.isRaw = false) :
    l.value = pieces body := by
  rw [value, hraw, h.body_eq]
  rfl

/-- A text that begins with the mark around it comes from one between three apostrophes. -/
theorem eq_of_renewed {inner : Text}
    (h : renewed mark body = preferredMark body :: inner) : renewed mark body = body := by
  unfold renewed at h ⊢
  split
  · rfl
  · rename_i hne
    rw [if_neg hne] at h
    refine absurd (congrArg List.head? h) ?_
    exact StringLiteral.head_swapMarks_ne (StringLiteral.isMark_preferredMark body) body

/-- A text is not what stands between two marks of its own on either side. -/
theorem pieces_ne_enclosed (hmark : IsMark mark) (inner : Text) :
    pieces inner ≠ pieces (mark :: mark :: inner ++ [mark, mark]) := by
  intro h
  have hlength := congrArg length h
  have hle := StringLiteral.length_pieces_le inner [mark, mark]
  rw [cons_append, cons_append, StringLiteral.pieces_cons hmark.ne_backslash,
    StringLiteral.pieces_cons hmark.ne_backslash, length_cons, length_cons] at hlength
  omega

/-- A literal between single marks, or between three apostrophes on one line, is printed as one that
is read whole and stands for the same, exactly if the text between its marks bears it. -/
theorem rereads_iff_keepsValue (hscanned : l.IsScanned)
    (hkind : l.terminal = .regularString ∨
      l.terminal = .longString ∧ l.marks = StringLiteral.apostrophes ∧ '\n' ∉ l.content) :
    (∃ text t, (Tree.token l).line = .ok text ∧ (t = .regularString ∨ t = .longString) ∧
        Lexeme.reader t text = some (text, []) ∧ (l.borrow t text).value = l.value) ↔
      l.keepsValue = true := by
  have hstring : l.isString = true := by
    rcases hkind with h | ⟨h, -⟩ <;> simp [isString, h, Terminal.isString]
  have hraw : l.isRaw = false := by
    rcases hkind with h | ⟨h, -⟩ <;> simp [isRaw, h]
  obtain ⟨mark, h⟩ := exists_encloses hscanned hstring
  have hshort : l.isLong = true → mark = '\'' := by
    intro hlong
    rcases hkind with hkind | ⟨-, hmarks, -⟩
    · simp [isLong, hkind] at hlong
    · rw [h.marks_eq, width, if_pos hlong] at hmarks
      exact (List.cons.inj hmarks).1
  have hline : '\n' ∉ l.body := by
    cases hlong : l.isLong with
    | false => exact StringLiteral.not_mem_of_isBody (h.isBody hlong)
    | true =>
      rcases hkind with hkind | ⟨-, -, hline⟩
      · simp [isLong, hkind] at hlong
      · intro hmem
        have hcontent : l.quoted = l.content := by simp [quoted, hraw]
        rw [← hcontent, h.quoted_eq] at hline
        exact hline (by simp [hmem])
  have hpreferred := isMark_preferredMark l.body
  have hprinted : (Tree.token l).line =
      .ok (preferredMark l.body :: renewed mark l.body ++ [preferredMark l.body]) := by
    rw [← StringLiteral.short_enclosed h.isMark, ← h.normal_short hstring hshort]
    rfl
  rw [hprinted, h.value_eq hraw, keepsValue, h.mark_eq,
    ← StringLiteral.keeps_renewed_iff h.isMark (isPaired_body hscanned hstring) hline]
  constructor
  · rintro ⟨text, t, htext, rfl | rfl, hread, hvalue⟩
    · obtain rfl := Except.ok.inj htext
      have hbody := (StringLiteral.reader_regularString_iff hpreferred).mp hread
      rw [(encloses_regular hpreferred hbody l).value_eq rfl] at hvalue
      exact ⟨hbody, hvalue⟩
    · -- three marks in a row: two of them, on either side, have stood in the text before
      obtain rfl := Except.ok.inj htext
      obtain ⟨_, -, hlong⟩ := Lexeme.exists_mark_of_eitherMark hread
      obtain ⟨inner, hinner⟩ := StringLiteral.exists_inner_of_longString hlong
      have hsame := eq_of_renewed hinner
      rw [hinner, enclosed_twice] at hvalue
      rw [(encloses_long hpreferred l).value_eq rfl, ← hsame, hinner] at hvalue
      exact absurd hvalue (pieces_ne_enclosed hpreferred inner)
  · rintro ⟨hbody, hpieces⟩
    refine ⟨_, .regularString, rfl, .inl rfl, ?_, ?_⟩
    · exact (StringLiteral.reader_regularString_iff hpreferred).mpr hbody
    · rw [(encloses_regular hpreferred hbody l).value_eq rfl, hpieces]

/-- The value of a literal with an apostrophe, which its marks let stand unescaped. -/
theorem rereads_apostrophe :
    let l : Token := ⟨.regularString, some "'a\\'b\\n'".toList, Span.nowhere, none⟩
    l.IsScanned ∧ ∃ text t, (Tree.token l).line = .ok text ∧
      (t = .regularString ∨ t = .longString) ∧ Lexeme.reader t text = some (text, []) ∧
        (l.borrow t text).value = l.value := by
  intro l
  have hscanned : l.IsScanned := ⟨⟨[.longString, .regularString], []⟩, [], by decide⟩
  exact ⟨hscanned, (rereads_iff_keepsValue hscanned (.inl rfl)).mpr (by decide)⟩

/-- An escaped quotation mark gets a second backslash between apostrophes that change, and the literal
is closed before its end. -/
theorem not_rereads_escapedMark :
    let l : Token := ⟨.regularString, some "'\\\"\\''".toList, Span.nowhere, none⟩
    l.IsScanned ∧ (Tree.token l).line = .ok "\"\\\\\"'\"".toList ∧
      ∀ t ∈ [Terminal.regularString, .longString],
        Lexeme.reader t "\"\\\\\"'\"".toList ≠ some ("\"\\\\\"'\"".toList, []) :=
  ⟨⟨⟨[.longString, .regularString], []⟩, [], by decide⟩, by decide, by decide⟩

/-- A raw literal is printed as one that is read whole and has the same text between its marks, exactly
if it comes between three quotation marks or this text bears the change. -/
theorem rawRereads_iff_keepsBody (hscanned : l.IsScanned) (hraw : l.isRaw = true)
    (span : Option Span) :
    (∃ text t, (Tree.node .rawString span [.token l]).line = .ok text ∧
        (t = .rawString ∨ t = .longRawString) ∧
        Lexeme.reader t text = some (text, []) ∧ (l.borrow t text).body = l.body) ↔
      l.KeepsBody := by
  have hstring : l.isString = true := by
    simp only [isRaw, Bool.or_eq_true, decide_eq_true_eq] at hraw
    rcases hraw with h | h <;> simp [isString, h, Terminal.isString]
  obtain ⟨mark, h⟩ := exists_encloses hscanned hstring
  have hline : (Tree.node .rawString span [.token l]).line = .ok ('r' :: l.normal) := rfl
  rw [hline]
  rcases h.long_or_short with ⟨hlong, rfl⟩ | hshort
  · -- three quotation marks stay
    have hnormal := h.normal_long hstring hlong
    have hquoted : l.quoted = l.normal := by
      rw [h.quoted_eq, hnormal, width, if_pos hlong]
      simp [List.replicate]
    refine ⟨fun _ => .inl (by rw [h.marks_eq, width, if_pos hlong]; rfl), fun _ => ?_⟩
    refine ⟨_, .longRawString, rfl, .inr rfl, ?_, ?_⟩
    · obtain ⟨mark, text, rest, hmark, hread⟩ := exists_read_of_isScanned hscanned hstring
      rw [if_pos hlong, hquoted, hnormal] at hread
      obtain ⟨body, hbody⟩ := Lexeme.exists_body_of_longString hread
      obtain rfl := (List.cons.inj hbody).1
      rw [hnormal]
      exact Lexeme.reader_longRawString hread
    · rw [hnormal]
      exact (encloses_longRaw (.inl rfl) l).body_eq
  · have hmarks : l.marks ≠ ['"', '"', '"'] := by
      rw [h.marks_eq, width]
      split
      · rename_i hlong
        simp [hshort hlong, List.replicate]
      · simp
    have hpreferred := isMark_preferredMark l.body
    rw [h.normal_short hstring hshort, StringLiteral.short_enclosed h.isMark, KeepsBody, h.mark_eq,
      or_iff_right hmarks,
      ← StringLiteral.keepsRaw_renewed_iff h.isMark (isPaired_body hscanned hstring)]
    constructor
    · rintro ⟨text, t, htext, rfl | rfl, hread, hbody⟩
      · obtain rfl := Except.ok.inj htext
        have hrenewed := (StringLiteral.reader_rawString_iff hpreferred).mp hread
        rw [(encloses_raw hpreferred hrenewed l).body_eq] at hbody
        exact ⟨hrenewed, hbody⟩
      · obtain rfl := Except.ok.inj htext
        obtain ⟨_, _, _, _, -, hlong, heq⟩ := Lexeme.exists_mark_of_raw hread
        rw [← (List.cons.inj heq).2] at hlong
        obtain ⟨inner, hinner⟩ := StringLiteral.exists_inner_of_longString hlong
        have hsame := eq_of_renewed hinner
        rw [hinner, enclosed_twice] at hbody
        rw [(encloses_longRaw hpreferred l).body_eq, ← hsame, hinner] at hbody
        have hlength := congrArg List.length hbody
        rw [length_append, length_cons, length_cons] at hlength
        omega
    · rintro ⟨hrenewed, hbody⟩
      refine ⟨_, .rawString, rfl, .inl rfl, ?_, ?_⟩
      · exact (StringLiteral.reader_rawString_iff hpreferred).mpr hrenewed
      · exact (encloses_raw hpreferred hrenewed l).body_eq.trans hbody

/-- A raw literal that holds quotation marks keeps its apostrophes. -/
theorem rawRereads_quotationMarks :
    let l : Token := ⟨.rawString, some "R'\"a\\\"'".toList, Span.nowhere, none⟩
    l.IsScanned ∧ l.isRaw = true ∧ ∃ text t, (Tree.node .rawString none [.token l]).line = .ok text ∧
      (t = .rawString ∨ t = .longRawString) ∧
      Lexeme.reader t text = some (text, []) ∧ (l.borrow t text).body = l.body := by
  intro l
  have hscanned : l.IsScanned := ⟨⟨[.longRawString, .rawString], []⟩, [], by decide⟩
  have hkept : IsKeptRaw l.mark l.body := by
    unfold IsKeptRaw
    decide
  exact ⟨hscanned, rfl, (rawRereads_iff_keepsBody hscanned rfl none).mpr (.inr hkept)⟩

/-- An apostrophe between apostrophes loses its backslash, which belongs to a raw literal. -/
theorem not_rawRereads_escapedMark :
    let l : Token := ⟨.rawString, some "r'a\\'b'".toList, Span.nowhere, none⟩
    l.IsScanned ∧ (Tree.node .rawString none [.token l]).line = .ok "r\"a'b\"".toList ∧
      ∀ t ∈ [Terminal.rawString, .longRawString],
        (l.borrow t "r\"a'b\"".toList).body ≠ l.body :=
  ⟨⟨⟨[.longRawString, .rawString], []⟩, [], by decide⟩, by decide, by decide⟩

end Token

end GDWorkbench
