import GDWorkbench.Proofs.Parse.CommentPlaces
import GDWorkbench.Proofs.Parse.Scanned
import GDWorkbench.Proofs.StringLiteral.Value

/-!
Tokens of string literals: the marks, what stands between them and what it stands for. Literals that have
been scanned are enclosed in the same marks on both sides. Between single marks stands a body, which holds
them escaped only. Where two such literals have the same normal form, they stand for the same as long as
both are raw or both are not, with reservations for quotation marks inside.
-/

namespace GDWorkbench

open StringLiteral (IsMark isBody Piece pieces isClean short)

/-! ## Readers -/

namespace Lexeme

open Reader

variable {text taken rest : Text}

theorem exists_mark_of_eitherMark {string : Char → Reader}
    (h : eitherMark string text = some (taken, rest)) :
    ∃ mark, IsMark mark ∧ string mark text = some (taken, rest) := by
  rcases orElse_cases h with h | h
  · exact ⟨'"', .inl rfl, h⟩
  · exact ⟨'\'', .inr rfl, h⟩

theorem exists_mark_of_raw {string : Char → Reader}
    (h : raw string text = some (taken, rest)) :
    ∃ c mark text' taken', IsMark mark ∧ string mark text' = some (taken', rest) ∧
      taken = c :: taken' := by
  have hmarked {mark : Char} (hmark : IsMark mark)
      (h : seq rawMark (string mark) text = some (taken, rest)) :
      ∃ c mark text' taken', IsMark mark ∧ string mark text' = some (taken', rest) ∧
        taken = c :: taken' := by
    obtain ⟨before, left, taken', hbefore, hstring, rfl⟩ := seq_cases h
    obtain ⟨c, rfl, -, -⟩ := char_cases hbefore
    exact ⟨c, mark, left, taken', hmark, hstring, rfl⟩
  rcases orElse_cases h with h | h
  · exact hmarked (.inl rfl) h
  · exact hmarked (.inr rfl) h

theorem exists_body_of_shortString {mark : Char} (hmark : IsMark mark)
    (h : shortString mark text = some (taken, rest)) :
    ∃ body, taken = mark :: body ++ [mark] ∧ isBody mark body := by
  cases text with
  | nil => cases h
  | cons c text =>
    simp only [shortString] at h
    split at h
    · rename_i hopens
      obtain ⟨⟨closed, left⟩, hcloses, heq⟩ := Option.map_eq_some_iff.mp h
      obtain ⟨body, hbody, rfl, -⟩ := StringLiteral.isBody_of_closing hmark.ne_backslash hcloses
      cases heq
      obtain ⟨rfl, -⟩ := Bool.and_eq_true_iff.mp hopens |>.imp_left of_decide_eq_true
      exact ⟨body, rfl, hbody⟩
    · cases h

theorem exists_body_of_longString {mark : Char}
    (h : longString mark text = some (taken, rest)) :
    ∃ body, taken = mark :: mark :: mark :: body ++ [mark, mark, mark] := by
  obtain ⟨opening, left, closed, hopens, hcloses, rfl⟩ := seq_cases h
  obtain ⟨left', -, heq⟩ := Option.map_eq_some_iff.mp hopens
  cases heq
  obtain ⟨body, rfl⟩ := Comments.suffix_of_closing hcloses
  exact ⟨body, rfl⟩

end Lexeme

/-! ## Literals -/

namespace Token

variable (l : Token)

def isRaw : Bool :=
  l.terminal = .rawString || l.terminal = .longRawString

def isLong : Bool :=
  l.terminal = .longString || l.terminal = .longRawString

def quoted : Text :=
  if l.isRaw then l.content.tail else l.content

def width : Nat :=
  if l.isLong then 3 else 1

def marks : Text :=
  l.quoted.take l.width

def body : Text :=
  (l.quoted.drop l.width).take (l.quoted.length - 2 * l.width)

def value : List Piece :=
  if l.isRaw then l.body.map .char else pieces l.body

def normal : Text :=
  StringLiteral.normal l.terminal l.content

variable {l}

structure Encloses (l : Token) (mark : Char) (body : Text) : Prop where
  isMark : IsMark mark
  quoted_eq : l.quoted = List.replicate l.width mark ++ (body ++ List.replicate l.width mark)
  isBody : l.isLong = false → isBody mark body = true

section Encloses

variable {mark : Char} {body : Text} (h : l.Encloses mark body)

include h

theorem Encloses.marks_eq : l.marks = List.replicate l.width mark := by
  rw [marks, h.quoted_eq]
  simp

theorem Encloses.body_eq : l.body = body := by
  rw [Token.body, h.quoted_eq, List.drop_left' (by simp)]
  exact List.take_left' (by simp; omega)

end Encloses

theorem exists_read_of_isScanned (hscanned : l.IsScanned) (hstring : l.isString) :
    ∃ mark text rest, IsMark mark ∧
      (if l.isLong then Lexeme.longString else Lexeme.shortString) mark text =
        some (l.quoted, rest) := by
  obtain ⟨lexicon, rest, hread⟩ := hscanned
  have hspelling : l.terminal.spelling = none := by
    unfold Token.isString at hstring
    cases ht : l.terminal <;> rw [ht] at hstring <;> first | rfl | cases hstring
  have hreader := lexicon.reader_of_spelling hread hspelling
  unfold Token.isString at hstring
  cases ht : l.terminal <;> rw [ht] at hstring hreader <;> try cases hstring
  case longString | regularString =>
    obtain ⟨mark, hmark, h⟩ := Lexeme.exists_mark_of_eitherMark hreader
    exact ⟨mark, _, rest, hmark, by simpa [isLong, quoted, isRaw, ht] using h⟩
  case longRawString | rawString =>
    obtain ⟨c, mark, text, taken, hmark, h, hcontent⟩ := Lexeme.exists_mark_of_raw hreader
    exact ⟨mark, text, rest, hmark, by simpa [isLong, quoted, isRaw, ht, hcontent] using h⟩

theorem exists_encloses (hscanned : l.IsScanned) (hstring : l.isString) :
    ∃ mark, l.Encloses mark l.body := by
  suffices h : ∃ mark body, l.Encloses mark body by
    obtain ⟨mark, body, h⟩ := h
    exact ⟨mark, h.body_eq.symm ▸ h⟩
  obtain ⟨mark, text, rest, hmark, hread⟩ := exists_read_of_isScanned hscanned hstring
  cases hlong : l.isLong with
  | false =>
    rw [hlong] at hread
    obtain ⟨body, hquoted, hbody⟩ := Lexeme.exists_body_of_shortString hmark hread
    exact ⟨mark, body, hmark, by simp [hquoted, width, hlong], fun _ => hbody⟩
  | true =>
    rw [hlong] at hread
    obtain ⟨body, hquoted⟩ := Lexeme.exists_body_of_longString hread
    exact ⟨mark, body, hmark, by simp [hquoted, width, hlong, List.replicate], by simp [hlong]⟩

/-! ## Normal forms -/

theorem long_apostrophes (body : Text) :
    StringLiteral.long ('\'' :: '\'' :: '\'' :: body ++ ['\'', '\'', '\'']) =
      short ('\'' :: body ++ ['\'']) := by
  have hends : Text.endsWith ('\'' :: '\'' :: '\'' :: body ++ ['\'', '\'', '\''])
      StringLiteral.apostrophes := by
    simp [Text.endsWith, Text.startsWith, StringLiteral.apostrophes, Text.after?]
  have hinner (text : Text) : StringLiteral.inner ('\'' :: text ++ ['\'']) = text := by
    simp [StringLiteral.inner]
  have hnested : '\'' :: '\'' :: '\'' :: body ++ ['\'', '\'', '\''] =
      '\'' :: ('\'' :: ('\'' :: body ++ ['\'']) ++ ['\'']) ++ ['\''] := by simp
  rw [StringLiteral.long, hends, hnested, hinner, hinner]
  rfl

section Normal

variable {mark : Char} {body : Text}

theorem normal_eq (hstring : l.isString) :
    l.normal = if l.isLong then StringLiteral.long l.quoted else short l.quoted := by
  unfold Token.isString at hstring
  unfold normal isLong quoted isRaw
  cases ht : l.terminal <;> rw [ht] at hstring <;> first | rfl | cases hstring

theorem Encloses.normal_long (h : l.Encloses '"' body) (hstring : l.isString)
    (hlong : l.isLong) :
    l.normal = '"' :: '"' :: '"' :: body ++ ['"', '"', '"'] := by
  have hquoted : l.quoted = '"' :: '"' :: '"' :: body ++ ['"', '"', '"'] := by
    simp [h.quoted_eq, width, hlong, List.replicate]
  rw [normal_eq hstring, if_pos hlong, hquoted]
  rfl

theorem Encloses.normal_short (h : l.Encloses mark body) (hstring : l.isString)
    (hmark : l.isLong → mark = '\'') : l.normal = short (mark :: body ++ [mark]) := by
  rw [normal_eq hstring]
  cases hlong : l.isLong with
  | false =>
    have hquoted : l.quoted = mark :: body ++ [mark] := by simp [h.quoted_eq, width, hlong]
    rw [hquoted]
    rfl
  | true =>
    obtain rfl := hmark hlong
    have hquoted : l.quoted = '\'' :: '\'' :: '\'' :: body ++ ['\'', '\'', '\''] := by
      simp [h.quoted_eq, width, hlong, List.replicate]
    rw [hquoted]
    exact long_apostrophes body

theorem Encloses.normal_ne_long (h : l.Encloses mark body) (hstring : l.isString)
    (hmark : l.isLong → mark = '\'') (rest : Text) :
    l.normal ≠ '"' :: '"' :: '"' :: rest := by
  rw [h.normal_short hstring hmark]
  refine StringLiteral.short_ne_long h.isMark (fun hdouble => h.isBody ?_) rest
  refine Bool.eq_false_iff.mpr fun hlong => ?_
  cases hdouble.symm.trans (hmark hlong)

end Normal

/-- Nowhere between three apostrophes does an apostrophe stand right behind a pair of backslashes. -/
def isPlainLong (l : Token) : Bool :=
  l.marks != StringLiteral.apostrophes || isClean '\'' l.body

def IsUnmarked (l : Token) : Prop :=
  '"' ∉ l.body ∧ '\'' ∉ l.body

/-- Pairs of literals whose values can be told apart by their normal forms. -/
inductive Discerned (l m : Token) : Prop
  | ordinary (notRaw : l.isRaw = false) (notRaw' : m.isRaw = false) (plain : l.isPlainLong = true)
      (plain' : m.isPlainLong = true)
  | raw (isRaw : l.isRaw = true) (isRaw' : m.isRaw = true) (same : l.marks = m.marks)
      (notApostrophes : l.marks ≠ StringLiteral.apostrophes)
  | unmarked (noMarks : l.IsUnmarked) (noMarks' : m.IsUnmarked)
      (readable : l.isRaw = m.isRaw ∨ '\\' ∉ l.body ∧ '\\' ∉ m.body)

theorem value_eq_of_body {l m : Token} (hbody : l.body = m.body)
    (h : l.isRaw = m.isRaw ∨ '\\' ∉ l.body ∧ '\\' ∉ m.body) : l.value = m.value := by
  unfold value
  rcases h with hraw | ⟨hl, hm⟩
  · rw [hraw, hbody]
  · rw [StringLiteral.pieces_of_not_mem hl, StringLiteral.pieces_of_not_mem hm, hbody]
    split <;> split <;> rfl

theorem Discerned.readable_or {l m : Token} (h : Discerned l m) :
    l.isRaw = m.isRaw ∨ '\\' ∉ l.body ∧ '\\' ∉ m.body := by
  cases h with
  | ordinary hl hm => exact .inl (hl.trans hm.symm)
  | raw hl hm => exact .inl (hl.trans hm.symm)
  | unmarked _ _ h => exact h

section Pair

variable {l m : Token} {mark mark' : Char}

theorem Encloses.isClean_body (h : l.Encloses mark l.body) (hmark : l.isLong → mark = '\'')
    (hplain : l.isPlainLong) : isClean mark l.body := by
  cases hlong : l.isLong with
  | false => exact StringLiteral.isClean_of_isBody h.isMark (h.isBody hlong)
  | true =>
    obtain rfl := hmark hlong
    have hmarks : l.marks = StringLiteral.apostrophes := by
      rw [h.marks_eq, width, hlong]
      rfl
    simpa [isPlainLong, hmarks] using hplain

theorem Encloses.not_isLong (h : l.Encloses mark l.body) (hmark : l.isLong → mark = '\'')
    (hmarks : l.marks ≠ StringLiteral.apostrophes) : l.isLong = false := by
  refine Bool.eq_false_iff.mpr fun hlong => hmarks ?_
  rw [h.marks_eq, width, hlong, hmark hlong]
  rfl

/-- Literals that come between single marks stand for the same if their normal forms are the same. -/
theorem value_eq_of_short (hl : l.Encloses mark l.body) (hm : m.Encloses mark' m.body)
    (hmark : l.isLong → mark = '\'') (hmark' : m.isLong → mark' = '\'')
    (hdiscerned : Discerned l m)
    (h : short (mark :: l.body ++ [mark]) = short (mark' :: m.body ++ [mark'])) :
    l.value = m.value := by
  cases hdiscerned with
  | ordinary hraw hraw' hplain hplain' =>
    have hpieces := StringLiteral.pieces_eq_of_short hl.isMark hm.isMark
      (hl.isClean_body hmark hplain) (hm.isClean_body hmark' hplain') h
    simpa [value, hraw, hraw'] using hpieces
  | raw hraw hraw' hsame hnot =>
    have hlong := hl.not_isLong hmark hnot
    have hlong' := hm.not_isLong hmark' (hsame ▸ hnot)
    obtain rfl : mark = mark' := by
      simpa [hl.marks_eq, hm.marks_eq, width, hlong, hlong'] using hsame
    have hbody := StringLiteral.eq_of_short hl.isMark (hl.isBody hlong) (hm.isBody hlong') h
    exact value_eq_of_body hbody (.inl (hraw.trans hraw'.symm))
  | unmarked hnone hnone' hreadable =>
    rw [StringLiteral.short_of_not_mem hl.isMark hnone.1 hnone.2,
      StringLiteral.short_of_not_mem hm.isMark hnone'.1 hnone'.2] at h
    exact value_eq_of_body (by simpa using h) hreadable

theorem Encloses.long_or_short (h : l.Encloses mark l.body) :
    (l.isLong ∧ mark = '"') ∨ (l.isLong → mark = '\'') := by
  rcases h.isMark with rfl | rfl
  · cases hlong : l.isLong <;> simp
  · exact .inr fun _ => rfl

/-- Literals with the same normal form stand for the same, if their values can be told apart. -/
theorem value_eq_of_normal (hscanned : l.IsScanned) (hstring : l.isString)
    (hscanned' : m.IsScanned) (hstring' : m.isString) (hdiscerned : Discerned l m)
    (h : l.normal = m.normal) : l.value = m.value := by
  obtain ⟨mark, hl⟩ := exists_encloses hscanned hstring
  obtain ⟨mark', hm⟩ := exists_encloses hscanned' hstring'
  rcases hl.long_or_short with ⟨hlong, rfl⟩ | hshort <;>
    rcases hm.long_or_short with ⟨hlong', rfl⟩ | hshort'
  · rw [hl.normal_long hstring hlong, hm.normal_long hstring' hlong'] at h
    exact value_eq_of_body (by simpa using h) hdiscerned.readable_or
  · rw [hl.normal_long hstring hlong] at h
    exact absurd h.symm (hm.normal_ne_long hstring' hshort' _)
  · rw [hm.normal_long hstring' hlong'] at h
    exact absurd h (hl.normal_ne_long hstring hshort _)
  · rw [hl.normal_short hstring hshort, hm.normal_short hstring' hshort'] at h
    exact value_eq_of_short hl hm hshort hshort' hdiscerned h

end Pair

end Token

/-! ## A second pass -/

/-- Marks close a string at the first chance: not more than four of five in a row belong to it. -/
theorem Lexeme.length_le_of_closing {mark : Char} (hmark : mark ≠ '\\') {multiline even : Bool}
    (before : Text) {text taken rest : Text}
    (h : closing [mark, mark, mark] multiline even
      (before ++ mark :: mark :: mark :: mark :: mark :: text) = some (taken, rest)) :
    taken.length ≤ before.length + 4 := by
  induction before generalizing even taken with
  | nil =>
    rcases closing_cases h with ⟨-, rfl, -⟩ | ⟨-, more, rfl, hmore⟩
    · exact Nat.le_succ 3
    · rcases closing_cases hmore with ⟨-, rfl, -⟩ | ⟨hopen, -⟩
      · exact Nat.le_refl 4
      · simp [hmark, Text.after?] at hopen
  | cons c before ih =>
    rcases closing_cases h with ⟨-, rfl, -⟩ | ⟨-, more, rfl, hmore⟩
    · simp
    · exact Nat.succ_le_succ (ih hmore)

namespace StringLiteral

open Lexeme Text

theorem count_renewed {c : Char} (hc : IsMark c) (mark : Char) (body : Text) :
    (renewed mark body).count c = body.count c := by
  unfold renewed
  split
  · rfl
  · exact count_swapMarks hc.ne_backslash body

/-- The text between three apostrophes does not end in two, so no pair of marks around it makes three
on both sides again. -/
theorem long_short_of_longString {text literal rest : Text}
    (h : longString '\'' text = some (literal, rest)) :
    ∃ body, literal = '\'' :: '\'' :: '\'' :: body ++ ['\'', '\'', '\''] ∧
      long (short ('\'' :: body ++ ['\''])) = short ('\'' :: body ++ ['\'']) := by
  obtain ⟨opening, left, closed, hopens, hcloses, rfl⟩ := Reader.seq_cases h
  obtain ⟨_, -, heq⟩ := Option.map_eq_some_iff.mp hopens
  cases heq
  obtain ⟨body, rfl⟩ := Comments.suffix_of_closing hcloses
  refine ⟨body, rfl, if_neg fun hmarks => ?_⟩
  obtain ⟨hstarts, hends⟩ := Bool.and_eq_true_iff.mp hmarks
  rw [short_enclosed (.inr rfl)] at hstarts hends
  have hmark : preferredMark body = '\'' := by
    rcases isMark_preferredMark body with hdouble | hmark
    · rw [hdouble] at hstarts
      cases hstarts
    · exact hmark
  rw [hmark, renewed, if_pos hmark] at hends
  have hsuffix : ['\'', '\''] <:+ '\'' :: body := by
    obtain ⟨before, hbefore⟩ := suffix_of_endsWith hends
    have hsame : (before ++ ['\'', '\'']) ++ ['\''] = ('\'' :: body) ++ ['\''] := by
      simpa [apostrophes] using hbefore
    exact ⟨before, List.append_cancel_right hsame⟩
  rcases List.suffix_cons_iff.mp hsuffix with heq | ⟨before, rfl⟩
  · cases heq
    cases hmark
  · rw [divides_closing _ _ _ hcloses] at hcloses
    have hlength := length_le_of_closing (by decide : '\'' ≠ '\\') before (by simpa using hcloses)
    simp at hlength

/-- A second pass over a literal changes nothing. The marks inside are as many as before, and those
around it are the ones of which there are not more. -/
theorem normal_forms_are_stable {mark : Char} (hmark : IsMark mark) (body : Text) :
    let once := short (mark :: body ++ [mark])
    (∃ text, once = preferredMark body :: text ++ [preferredMark body] ∧
      text.count '"' = body.count '"' ∧ text.count '\'' = body.count '\'') ∧ short once = once ∧
    ∀ text literal rest, longString '\'' text = some (literal, rest) →
      short (long literal) = long literal ∧ long (long literal) = long literal := by
  refine ⟨⟨renewed mark body, short_enclosed hmark body, count_renewed (.inl rfl) mark body,
    count_renewed (.inr rfl) mark body⟩, short_short _, fun text literal rest h => ?_⟩
  obtain ⟨inner, rfl, hlong⟩ := long_short_of_longString h
  rw [Token.long_apostrophes]
  exact ⟨short_short _, hlong⟩

theorem normal_forms_are_stable_mixed :
    short "\"it's \\\"so\\\"\"".toList = "'it\\'s \"so\"'".toList ∧
      short "'it\\'s \"so\"'".toList = "'it\\'s \"so\"'".toList ∧
      long (long "'''it's'''".toList) = long "'''it's'''".toList := by
  obtain ⟨-, hshort, hlong⟩ := normal_forms_are_stable (.inl rfl) "it's \\\"so\\\"".toList
  exact ⟨rfl, hshort, (hlong "'''it's'''".toList _ [] rfl).2⟩

end StringLiteral

end GDWorkbench
