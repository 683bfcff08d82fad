import GDWorkbench.Lexeme
import GDWorkbench.Print.StringLiteral
import GDWorkbench.Proofs.Text

/-!
String literals between single marks: where they close, and what becomes of that when the marks are
changed. The characters between the marks come one by one or behind a backslash, and only a mark
that stands by itself closes the literal. Going over to the other mark puts a backslash in front of
every such mark, also of one that has a backslash already; there the two backslashes become a pair
and the mark closes the literal too early. That is the only way in which it goes wrong.

A literal in normal form is its own normal form, because the two marks are as frequent after a
change as before it.
-/

namespace GDWorkbench.StringLiteral

open List Text Reader

variable {c : Char} {body : Text} {mark : Char} {old new : Char}

/-- Whether a literal between two marks has this text between them. -/
def isBody (mark : Char) : Text → Bool
  | [] => true
  | '\\' :: c :: rest => c != '\n' && isBody mark rest
  | c :: rest => c != '\\' && c != mark && c != '\n' && isBody mark rest

/-- Whether the mark stands behind a backslash that is not itself behind one. -/
def escapes (mark : Char) : Text → Bool
  | [] => false
  | '\\' :: c :: rest => c = mark || escapes mark rest
  | _ :: rest => escapes mark rest

def IsMark (c : Char) : Prop :=
  c = '"' ∨ c = '\''

theorem IsMark.ne_backslash (h : IsMark c) : c ≠ '\\' := by
  rintro rfl
  simp [IsMark] at h

theorem IsMark.ne_lineFeed (h : IsMark c) : c ≠ '\n' := by
  rintro rfl
  simp [IsMark] at h

/-! ## Reading a literal -/

open Lexeme

section Closing

variable {mark : Char} (hmark : mark ≠ '\\')

theorem closing_mark (text : Text) :
    closing [mark] false true (mark :: text) = some ([mark], text) := by
  simp [closing, after?]

include hmark in
theorem closing_pair (c : Char) (text : Text) :
    closing [mark] false true ('\\' :: c :: text) =
      if c = '\n' then none
      else (closing [mark] false true text).map fun (taken, left) =>
        ('\\' :: c :: taken, left) := by
  by_cases hc : c = '\n'
  · simp [closing, after?, hmark, hc]
  · cases h : closing [mark] false true text <;> simp [closing, after?, hmark, hc, h]

theorem closing_plain (hc : c ≠ mark) (hb : c ≠ '\\') (text : Text) : closing [mark] false true (c :: text) =
      if c = '\n' then none
      else (closing [mark] false true text).map fun (taken, left) => (c :: taken, left) := by
  have heven : (c != '\\') := bne_iff_ne.mpr hb
  by_cases hn : c = '\n'
  · subst hn
    simp [closing, after?, Ne.symm hc]
  · cases h : closing [mark] false true text <;>
      simp [closing, after?, Ne.symm hc, hn, heven, h]

include hmark in
theorem closing_of_isBody (rest : Text) (h : isBody mark body) :
    closing [mark] false true (body ++ mark :: rest) = some (body ++ [mark], rest) := by
  fun_induction isBody mark body with
  | case1 => exact closing_mark rest
  | case2 c body ih =>
    simp only [Bool.and_eq_true, bne_iff_ne] at h
    simp [closing_pair hmark, h.1, ih h.2]
  | case3 c body hpair ih =>
    simp only [Bool.and_eq_true, bne_iff_ne] at h
    simp [closing_plain h.1.1.2 h.1.1.1, h.1.2, ih h.2]

include hmark in
/-- What is read up to the closing mark is a body and the mark. -/
theorem isBody_of_closing {text taken rest : Text}
    (h : closing [mark] false true text = some (taken, rest)) :
    ∃ body, isBody mark body ∧ taken = body ++ [mark] ∧ text = taken ++ rest := by
  fun_induction isBody mark text generalizing taken with
  | case1 => simp [closing] at h
  | case2 c text ih =>
    rw [closing_pair hmark] at h
    split at h
    · cases h
    · rename_i hc
      obtain ⟨⟨taken', rest'⟩, hread, heq⟩ := Option.map_eq_some_iff.mp h
      cases heq
      obtain ⟨body, hbody, rfl, rfl⟩ := ih hread
      exact ⟨'\\' :: c :: body, by simp [isBody, hbody, hc], by simp, by simp⟩
  | case3 c text hpair ih =>
    by_cases hc : c = mark
    · subst hc
      rw [closing_mark] at h
      cases h
      exact ⟨[], rfl, rfl, rfl⟩
    · by_cases hb : c = '\\'
      · -- a backslash at the very end of the text
        have hend : text = [] := by
          cases text with
          | nil => rfl
          | cons d text => exact (hpair d text hb rfl).elim
        subst hb hend
        simp [closing, after?, hmark] at h
      · rw [closing_plain hc hb] at h
        split at h
        · cases h
        · rename_i hn
          obtain ⟨⟨taken', rest'⟩, hread, heq⟩ := Option.map_eq_some_iff.mp h
          cases heq
          obtain ⟨body, hbody, rfl, rfl⟩ := ih hread
          refine ⟨c :: body, ?_, by simp, by simp⟩
          simp [isBody, hbody, hc, hb, hn]

end Closing

section Opening

variable {mark : Char} (hmark : IsMark mark) {rest : Text}
  (hthree : startsWith rest [mark, mark] = false)

include hmark hthree

theorem reader_longString : reader .longString (mark :: rest) = none := by
  have hafter : after? [mark, mark] rest = none := by
    simpa [startsWith] using hthree
  rcases hmark with rfl | rfl <;>
    simp [reader, eitherMark, orElse, longString, seq, Reader.literal, after?, hafter]

theorem reader_regularString :
    reader .regularString (mark :: rest) =
      (closing [mark] false true rest).map fun (taken, left) => (mark :: taken, left) := by
  rcases hmark with rfl | rfl
  · simp only [reader, eitherMark, orElse, shortString, hthree]
    cases closing ['"'] false true rest <;> simp
  · simp [reader, eitherMark, orElse, shortString, hthree]

end Opening

/-- Marks around a text that does not begin with one are not three in a row. -/
theorem not_three_marks {rest : Text} (hbody : body.head? ≠ some mark)
    (hrest : rest.head? ≠ some mark) :
    startsWith (body ++ mark :: rest) [mark, mark] = false := by
  rw [Bool.eq_false_iff]
  intro h
  obtain ⟨left, hleft⟩ := startsWith_iff.mp h
  cases body with
  | nil =>
    rw [← (List.cons.inj hleft).2] at hrest
    simp at hrest
  | cons c body =>
    rw [← (List.cons.inj hleft).1] at hbody
    simp at hbody

/-! ## Changing the marks -/

theorem isBody_cons (hc : c ≠ '\\') (rest : Text) :
    isBody mark (c :: rest) = (c != mark && c != '\n' && isBody mark rest) := by
  rw [isBody]
  · simp [bne_iff_ne.mpr hc]
  · exact fun d rest' h _ => hc h

theorem escapes_cons (hc : c ≠ '\\') (rest : Text) :
    escapes mark (c :: rest) = escapes mark rest := by
  rw [escapes]
  exact fun d rest' h _ => hc h

theorem not_mem_of_isBody (h : isBody mark body) : '\n' ∉ body := by
  fun_induction isBody mark body with
  | case1 => simp
  | case2 c body ih =>
    simp only [Bool.and_eq_true, bne_iff_ne] at h
    simp [ih h.2, Ne.symm h.1]
  | case3 c body hpair ih =>
    simp only [Bool.and_eq_true, bne_iff_ne] at h
    simp [ih h.2, Ne.symm h.1.2]

theorem head_ne_of_isBody (hmark : IsMark mark)
    (h : isBody mark body) : body.head? ≠ some mark := by
  cases body with
  | nil => simp
  | cons c body =>
    rintro hhead
    obtain rfl : c = mark := by simpa using hhead
    simp [isBody_cons hmark.ne_backslash] at h

theorem unescape_pair (old : Char) (text : Text) :
    Text.replace ['\\', old] [old] ('\\' :: old :: text) =
      old :: Text.replace ['\\', old] [old] text := by
  simp [Text.replace, replaceFrom, startsWith, after?]

theorem unescape_cons {old : Char} {text : Text} (h : c = '\\' → text.head? ≠ some old) :
    Text.replace ['\\', old] [old] (c :: text) = c :: Text.replace ['\\', old] [old] text := by
  have hstart : startsWith (c :: text) ['\\', old] = false := by
    rw [Bool.eq_false_iff]
    intro hstart
    obtain ⟨left, hleft⟩ := startsWith_iff.mp hstart
    cases hleft
    exact h rfl rfl
  simp [Text.replace, replaceFrom, hstart]

theorem escape_cons (new c : Char) (text : Text) :
    Text.replace [new] ['\\', new] (c :: text) =
      (if c = new then ['\\', new] else [c]) ++ Text.replace [new] ['\\', new] text := by
  by_cases hc : c = new
  · simp [Text.replace, replaceFrom, startsWith, after?, hc]
  · simp [Text.replace, replaceFrom, startsWith, after?, hc, Ne.symm hc]

section Change

variable {old new : Char} (hold : IsMark old) (hnew : IsMark new) (hne : old ≠ new)

include hne in
theorem swapMarks_old_pair (text : Text) :
    swapMarks old new ('\\' :: old :: text) = old :: swapMarks old new text := by
  simp [swapMarks, unescape_pair, escape_cons, hne]

theorem swapMarks_cons {text : Text} (h : c = '\\' → text.head? ≠ some old) :
    swapMarks old new (c :: text) =
      (if c = new then ['\\', new] else [c]) ++ swapMarks old new text := by
  simp only [swapMarks, unescape_cons h, escape_cons]

include hnew in
theorem swapMarks_pair (hc : c ≠ old) {text : Text}
    (h : c = '\\' → text.head? ≠ some old) :
    swapMarks old new ('\\' :: c :: text) =
      (if c = new then ['\\', '\\', new] else ['\\', c]) ++ swapMarks old new text := by
  have houter : '\\' = '\\' → (c :: text).head? ≠ some old := fun _ => by simpa using hc
  rw [swapMarks_cons houter, swapMarks_cons h, if_neg (Ne.symm hnew.ne_backslash)]
  split <;> rfl

end Change

/-- Both marks are as frequent after a change of marks as before it. -/
theorem count_swapMarks (hc : c ≠ '\\') (text : Text) :
    (swapMarks old new text).count c = text.count c := by
  unfold swapMarks
  rw [Text.count_replace, Text.count_replace]
  · simp [count_cons, Ne.symm hc]
  · simp [count_cons, Ne.symm hc]

theorem head_swapMarks_ne (hnew : IsMark new) (text : Text) :
    (swapMarks old new text).head? ≠ some new := by
  unfold swapMarks
  cases Text.replace ['\\', old] [old] text with
  | nil => simp [Text.replace, replaceFrom]
  | cons c text =>
    rw [escape_cons]
    by_cases hc : c = new
    · simp [hc, Ne.symm hnew.ne_backslash]
    · simp [hc]

/-! ## Normal forms -/

def otherMark (mark : Char) : Char :=
  if mark = '"' then '\'' else '"'

theorem IsMark.eq_otherMark (hold : IsMark old) (hnew : IsMark new)
    (hne : old ≠ new) : old = otherMark new := by
  rcases hold with rfl | rfl <;> rcases hnew with rfl | rfl <;> first | rfl | contradiction

theorem isMark_preferredMark (text : Text) : IsMark (preferredMark text) := by
  unfold preferredMark IsMark
  split <;> simp

theorem short_eq {literal : Text} (hmark : preferredMark (inner literal) = mark) :
    short literal = mark ::
      (if startsWith literal [otherMark mark] then
        swapMarks (otherMark mark) mark (inner literal)
      else inner literal) ++ [mark] := by
  have hm : IsMark mark := hmark ▸ isMark_preferredMark _
  simp only [short, hmark]
  rcases hm with rfl | rfl <;> simp [otherMark]

theorem preferredMark_swapMarks (text : Text) :
    preferredMark (swapMarks old new text) = preferredMark text := by
  simp only [preferredMark, count_swapMarks (show '"' ≠ '\\' by decide),
    count_swapMarks (show '\'' ≠ '\\' by decide)]

theorem otherMark_ne (h : IsMark mark) : otherMark mark ≠ mark := by
  rcases h with rfl | rfl <;> decide

def renewed (mark : Char) (body : Text) : Text :=
  if preferredMark body = mark then body else swapMarks mark (preferredMark body) body

theorem short_enclosed (hmark : IsMark mark) (body : Text) : short (mark :: body ++ [mark]) =
      preferredMark body :: renewed mark body ++ [preferredMark body] := by
  have hinner : inner (mark :: body ++ [mark]) = body := by simp [inner]
  rw [short_eq (by rw [hinner]), hinner, renewed]
  by_cases h : preferredMark body = mark
  · have hstart : startsWith (mark :: body ++ [mark]) [otherMark (preferredMark body)] = false := by
      rcases hmark with rfl | rfl <;> simp [startsWith, after?, h, otherMark]
    rw [if_neg (ne_true_of_eq_false hstart), if_pos h]
  · rw [← hmark.eq_otherMark (isMark_preferredMark body) (Ne.symm h)]
    simp [h, startsWith, after?]

theorem short_short (literal : Text) : short (short literal) = short literal := by
  obtain ⟨mark, hmark⟩ : ∃ mark, preferredMark (inner literal) = mark := ⟨_, rfl⟩
  have hm : IsMark mark := hmark ▸ isMark_preferredMark _
  have hform := short_eq hmark
  generalize hbody : (if startsWith literal [otherMark mark] then
    swapMarks (otherMark mark) mark (inner literal) else inner literal) = body at hform
  have hsame : preferredMark body = mark := by
    rw [← hbody]
    split
    · rw [preferredMark_swapMarks, hmark]
    · exact hmark
  have hinner : inner (short literal) = body := by simp [hform, inner]
  have hstart : startsWith (short literal) [otherMark mark] = false := by
    simp [hform, startsWith, after?, otherMark_ne hm]
  rw [short_eq (hinner ▸ hsame), hinner, if_neg (by simp [hstart]), hform]

end GDWorkbench.StringLiteral
