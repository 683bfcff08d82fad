import GDWorkbench.Proofs.Comments
import GDWorkbench.Proofs.StringLiteral

/-!
Where the strings and the comments of a text are. A text is divided into plain characters, strings and
comments that follow each other. However a division was come by, gathering the comments of the text
finds exactly its comments: a string is skipped as a whole, and what a string is does not depend on what
comes before it.

The parts of a division do not overlap, and a number sign that is in none of its strings is in one of its
comments.
-/

namespace GDWorkbench

open List Cursor Lexeme Reader

/-- A part of a text with the number of characters before it. -/
structure Part where
  start : Nat
  text : Text
  deriving DecidableEq, Repr

namespace Part

def Covers (p : Part) (i : Nat) : Prop :=
  p.start ≤ i ∧ i < p.start + p.text.length

/-- The part is where it says it is, in a text of which `start` characters have been read. -/
def StandsIn (p : Part) (start : Nat) (text : Text) : Prop :=
  start ≤ p.start ∧ p.text <+: text.drop (p.start - start)

theorem standsIn_append (start : Nat) (taken rest : Text) :
    StandsIn ⟨start, taken⟩ start (taken ++ rest) :=
  ⟨Nat.le_refl _, by simp⟩

theorem StandsIn.append {p : Part} {start : Nat} (taken : Text) {rest : Text}
    (h : p.StandsIn (start + taken.length) rest) : p.StandsIn start (taken ++ rest) := by
  obtain ⟨hstart, hstands⟩ := h
  refine ⟨by omega, ?_⟩
  have hsplit : p.start - start = taken.length + (p.start - (start + taken.length)) := by omega
  rwa [hsplit, ← drop_drop, drop_left]

def Apart (p q : Part) : Prop :=
  ∀ i, ¬ (p.Covers i ∧ q.Covers i)

theorem apart_of_le {p q : Part} (h : p.start + p.text.length ≤ q.start) : Apart p q := by
  rintro i ⟨⟨-, hp⟩, ⟨hq, -⟩⟩
  omega

end Part

namespace Token

def part? (t : Token) : Option Part :=
  t.offset.map (⟨·, t.content⟩)

def Covers (t : Token) (i : Nat) : Prop :=
  ∃ p, t.part? = some p ∧ p.Covers i

def StandsIn (t : Token) (text : Text) : Prop :=
  ∃ p, t.part? = some p ∧ p.StandsIn 0 text

end Token

namespace Comments

open StringLiteral (IsMark)

/-! ## Strings -/

/-- A string with what follows it. -/
inductive StringAt : Text → Text → Prop
  | short {mark : Char} {body rest : Text} (marks : IsMark mark)
      (closes : closing [mark] false true (body ++ rest) = some (body, rest))
      (single : Text.startsWith (body ++ rest) [mark, mark] = false) : StringAt (mark :: body) rest
  | long {mark : Char} {body rest : Text} (marks : IsMark mark)
      (closes : closing [mark, mark, mark] true true (body ++ rest) = some (body, rest)) :
      StringAt (mark :: mark :: mark :: body) rest

theorem suffix_of_closing {marks text taken rest : Text} {multiline even : Bool}
    (h : closing marks multiline even text = some (taken, rest)) : marks <:+ taken := by
  induction text generalizing even taken with
  | nil => cases h
  | cons c text ih =>
    rcases closing_cases h with ⟨-, rfl, -⟩ | ⟨-, more, rfl, hmore⟩
    · exact suffix_refl _
    · exact (ih hmore).trans (suffix_cons _ _)

/-- Whether marks come next is a matter of as many characters as there are marks. -/
theorem after?_append_eq_none (text : Text) {marks rest : Text} (hlength : marks.length ≤ text.length)
    (h : Text.after? marks (text ++ rest) = none) (rest' : Text) :
    Text.after? marks (text ++ rest') = none := by
  rw [Option.eq_none_iff_forall_ne_some] at h ⊢
  intro left hleft
  have hwhole : marks <+: text ++ rest' := ⟨left, (Text.after?_eq_some_iff.mp hleft).symm⟩
  obtain ⟨between, rfl⟩ := prefix_of_prefix_length_le hwhole (prefix_append text rest') hlength
  exact h (between ++ rest) (Text.after?_eq_some_iff.mpr (append_assoc _ _ _))

theorem closing_append {marks : Text} (hmarks : marks ≠ []) {multiline even : Bool}
    {taken rest : Text} (h : closing marks multiline even (taken ++ rest) = some (taken, rest))
    (rest' : Text) :
    closing marks multiline even (taken ++ rest') = some (taken, rest') := by
  induction taken generalizing even with
  | nil => exact absurd (suffix_nil.mp (suffix_of_closing h)) hmarks
  | cons c taken ih =>
    have hends := (suffix_of_closing h).length_le
    rw [cons_append, closing] at h ⊢
    split at h
    · rename_i left hleft
      cases h
      have heven : even := by
        cases even with
        | true => rfl
        | false => cases hleft
      have hfound : Text.after? (c :: taken) (c :: (taken ++ rest')) = some rest' :=
        Text.after?_eq_some_iff.mpr rfl
      simp only [heven, if_true, hfound]
    · rename_i hopen
      have hopen' : (if even then Text.after? marks (c :: (taken ++ rest')) else none) = none := by
        cases even with
        | true => exact after?_append_eq_none (c :: taken) hends hopen rest'
        | false => rfl
      rw [hopen']
      dsimp only
      split at h
      · cases h
      · rename_i hline
        rw [if_neg hline]
        split at h
        · rename_i taken' left hread
          obtain ⟨hcons, rfl⟩ := Prod.mk.inj (Option.some.inj h)
          obtain rfl := (List.cons.inj hcons).2
          rw [ih hread]
        · cases h

namespace StringAt

variable {taken rest : Text}

theorem ends_marked (h : StringAt taken rest) :
    (∃ mark, IsMark mark ∧ taken.head? = some mark) ∧
      ∃ mark, IsMark mark ∧ taken.getLast? = some mark := by
  cases h with
  | @short mark body _ hmark hcloses hsingle =>
    refine ⟨⟨mark, hmark, rfl⟩, mark, hmark, ?_⟩
    obtain ⟨before, rfl⟩ := suffix_of_closing hcloses
    rw [← cons_append, getLast?_append]
    rfl
  | @long mark body _ hmark hcloses =>
    refine ⟨⟨mark, hmark, rfl⟩, mark, hmark, ?_⟩
    obtain ⟨before, rfl⟩ := suffix_of_closing hcloses
    simp only [← cons_append]
    rw [getLast?_append]
    rfl

theorem of_append (h : StringAt taken (rest ++ ['\n'])) : StringAt taken rest := by
  cases h with
  | @short mark body _ hmark hcloses hsingle =>
    refine .short hmark (closing_append (by simp) hcloses rest) ?_
    rw [← Bool.not_eq_true, Text.startsWith_iff] at hsingle ⊢
    intro hstarts
    apply hsingle
    rw [← append_assoc]
    exact hstarts.trans (prefix_append _ _)
  | long hmark hcloses => exact .long hmark (closing_append (by simp) hcloses rest)

theorem skipped_eq (h : StringAt taken rest) : skipped (taken ++ rest) = some (taken, rest) := by
  cases h with
  | @short mark body _ hmark hcloses hsingle =>
    rw [cons_append]
    simp only [skipped, orElse, StringLiteral.reader_longString hmark hsingle,
      StringLiteral.reader_regularString hmark hsingle, hcloses, Option.map_some]
  | @long mark body _ hmark hcloses =>
    have hread : reader .longString (mark :: mark :: mark :: body ++ rest) =
        some (mark :: mark :: mark :: body, rest) := by
      rcases hmark with rfl | rfl <;>
        simp [reader, eitherMark, orElse, longString, seq, literal, Text.after?, hcloses]
    simp only [skipped, orElse, hread]

theorem of_shortString {mark : Char} (hmark : IsMark mark) {text : Text}
    (h : shortString mark text = some (taken, rest)) : StringAt taken rest := by
  cases text with
  | nil => cases h
  | cons c text =>
    simp only [shortString] at h
    split at h
    · rename_i hopens
      obtain ⟨rfl, hsingle⟩ : c = mark ∧ Text.startsWith text [mark, mark] = false := by
        simpa using hopens
      obtain ⟨⟨body, left⟩, hcloses, heq⟩ := Option.map_eq_some_iff.mp h
      cases heq
      have hdivides := divides_closing _ _ _ hcloses
      rw [hdivides] at hcloses hsingle
      exact .short hmark hcloses hsingle
    · cases h

theorem of_longString {mark : Char} (hmark : IsMark mark) {text : Text}
    (h : longString mark text = some (taken, rest)) : StringAt taken rest := by
  obtain ⟨opening, left, body, hopens, hcloses, rfl⟩ := seq_cases h
  obtain ⟨left', -, heq⟩ := Option.map_eq_some_iff.mp hopens
  cases heq
  have hdivides := divides_closing _ _ _ hcloses
  rw [hdivides] at hcloses
  exact .long hmark hcloses

end StringAt

/-! ## Divisions -/

/-- A text divided into plain characters, strings and comments. The first number is where the text
begins. A mark that makes a string raw belongs to the string. -/
inductive Division : Nat → Text → List Part → List Part → Prop
  | nil (start : Nat) : Division start [] [] []
  | plain {start : Nat} {c : Char} {rest : Text} {strings comments : List Part}
      (plain : isPlain c = true) (more : Division (start + 1) rest strings comments) :
      Division start (c :: rest) strings comments
  | string {start : Nat} {before taken rest : Text} {strings comments : List Part}
      (plain : ∀ c ∈ before, isPlain c = true) (string : StringAt taken rest)
      (more : Division (start + (before ++ taken).length) rest strings comments) :
      Division start (before ++ taken ++ rest) (⟨start, before ++ taken⟩ :: strings) comments
  | comment {start : Nat} {body rest : Text} {strings comments : List Part}
      (line : '\n' ∉ body) (ends : ∀ c ∈ rest.head?, c = '\n')
      (more : Division (start + ('#' :: body).length) rest strings comments) :
      Division start ('#' :: body ++ rest) strings (⟨start, '#' :: body⟩ :: comments)

namespace Division

variable {start : Nat} {text : Text} {strings comments : List Part}

theorem standsIn (h : Division start text strings comments) :
    (∀ p ∈ strings, p.StandsIn start text) ∧ ∀ p ∈ comments, p.StandsIn start text := by
  induction h with
  | nil start => simp
  | @plain start c rest strings comments hplain hmore ih =>
    exact ⟨fun p hp => (ih.1 p hp).append [c], fun p hp => (ih.2 p hp).append [c]⟩
  | @string start before taken rest strings comments hplain hstring hmore ih =>
    exact ⟨forall_mem_cons.mpr ⟨Part.standsIn_append _ _ _, fun p hp => (ih.1 p hp).append _⟩,
      fun p hp => (ih.2 p hp).append _⟩
  | @comment start body rest strings comments hline hends hmore ih =>
    exact ⟨fun p hp => (ih.1 p hp).append _,
      forall_mem_cons.mpr ⟨Part.standsIn_append _ _ _, fun p hp => (ih.2 p hp).append _⟩⟩

theorem apart (h : Division start text strings comments) :
    ∀ s ∈ strings, ∀ c ∈ comments, s.Apart c := by
  induction h with
  | nil start => simp
  | plain hplain hmore ih => exact ih
  | @string start before taken rest strings comments hplain hstring hmore ih =>
    refine forall_mem_cons.mpr ⟨fun c hc => ?_, ih⟩
    exact Part.apart_of_le (hmore.standsIn.2 c hc).1
  | @comment start body rest strings comments hline hends hmore ih =>
    refine fun s hs => forall_mem_cons.mpr ⟨fun i hi => ?_, ih s hs⟩
    exact Part.apart_of_le (hmore.standsIn.1 s hs).1 i hi.symm

theorem exists_covers (h : Division start text strings comments) {i : Nat}
    (hi : text[i]? = some '#') :
    (∃ s ∈ strings, s.Covers (start + i)) ∨ ∃ c ∈ comments, c.Covers (start + i) := by
  induction h generalizing i with
  | nil start => simp at hi
  | @plain start c rest strings comments hplain hmore ih =>
    cases i with
    | zero =>
      obtain rfl : c = '#' := by simpa using hi
      cases hplain
    | succ i =>
      have hlater := ih (i := i) (by simpa using hi)
      rwa [show start + 1 + i = start + (i + 1) by omega] at hlater
  | @string start before taken rest strings comments hplain hstring hmore ih =>
    by_cases hinside : i < (before ++ taken).length
    · exact .inl ⟨_, mem_cons_self, by simp, Nat.add_lt_add_left hinside start⟩
    · rw [getElem?_append_right (by omega)] at hi
      have hlater := ih hi
      rw [Nat.add_assoc, Nat.add_sub_cancel' (by omega)] at hlater
      exact hlater.imp_left fun ⟨s, hs, hcovers⟩ => ⟨s, mem_cons_of_mem _ hs, hcovers⟩
  | @comment start body rest strings comments hline hends hmore ih =>
    by_cases hinside : i < ('#' :: body).length
    · exact .inr ⟨_, mem_cons_self, by simp, Nat.add_lt_add_left hinside start⟩
    · rw [getElem?_append_right (by omega)] at hi
      have hlater := ih hi
      rw [Nat.add_assoc, Nat.add_sub_cancel' (by omega)] at hlater
      exact hlater.imp_right fun ⟨c, hc, hcovers⟩ => ⟨c, mem_cons_of_mem _ hc, hcovers⟩

theorem of_nil (h : Division start [] strings comments) : strings = [] ∧ comments = [] := by
  generalize hempty : ([] : Text) = text at h
  cases h with
  | nil => exact ⟨rfl, rfl⟩
  | plain => cases hempty
  | string hplain hstring hmore =>
    obtain ⟨mark, -, hhead⟩ := hstring.ends_marked.1
    obtain ⟨-, rfl⟩ := append_eq_nil_iff.mp (append_eq_nil_iff.mp hempty.symm).1
    cases hhead
  | comment => cases hempty

/-- What stands before a line end at the end of a text is divided in the same way without it. -/
theorem of_append (h : Division start (text ++ ['\n']) strings comments) :
    Division start text strings comments := by
  -- no string ends with a line end and no comment holds one, so every piece is before it
  have hbefore : ∀ (piece : Text) {rest code : Text}, piece.getLast? ≠ some '\n' → piece ≠ [] →
      piece ++ rest = code ++ ['\n'] → ∃ left, rest = left ++ ['\n'] ∧ code = piece ++ left := by
    intro piece rest code hlast hne heq
    rcases eq_nil_or_concat rest with rfl | ⟨left, c, rfl⟩
    · rw [append_nil] at heq
      rw [heq] at hlast
      simp at hlast
    · rw [concat_eq_append, ← append_assoc] at heq
      obtain ⟨hcode, hline⟩ := append_inj' heq rfl
      exact ⟨left, by rw [concat_eq_append, hline], hcode.symm⟩
  generalize hwhole : text ++ ['\n'] = whole at h
  induction h generalizing text with
  | nil start => simp at hwhole
  | @plain start c rest strings comments hplain hmore ih =>
    cases text with
    | nil =>
      obtain ⟨rfl, rfl⟩ : '\n' = c ∧ [] = rest := by simpa using hwhole
      obtain ⟨rfl, rfl⟩ := hmore.of_nil
      exact .nil start
    | cons d text =>
      obtain ⟨rfl, hrest⟩ := List.cons.inj hwhole
      exact .plain hplain (ih hrest)
  | @string start before taken rest strings comments hplain hstring hmore ih =>
    obtain ⟨mark, hmark, hlast⟩ := hstring.ends_marked.2
    have hpiece : (before ++ taken).getLast? = some mark := by simp [getLast?_append, hlast]
    obtain ⟨left, rfl, rfl⟩ := hbefore (before ++ taken)
      (by rw [hpiece]; simpa using hmark.ne_lineFeed)
      (fun hnil => by simp [hnil] at hpiece) hwhole.symm
    exact .string hplain hstring.of_append (ih rfl)
  | @comment start body rest strings comments hline hends hmore ih =>
    have hpiece : ('#' :: body).getLast? ≠ some '\n' := by
      intro hlast
      have hmem := mem_of_getLast? hlast
      simp [hline] at hmem
    obtain ⟨left, rfl, rfl⟩ := hbefore _ hpiece (by simp) hwhole.symm
    refine .comment hline (fun c hc => hends c ?_) (ih rfl)
    cases left with
    | nil => cases hc
    | cons d left => exact hc

/-- Reading on from a place with some plain text before the divided one. -/
theorem exists_readUpTo (whole : Text) (h : Division start text strings comments) :
    ∀ (before : Text) (c : Cursor) {bound : Nat}, (∀ d ∈ before, isPlain d) →
      c.rest = before ++ text → c.offset + before.length = start → c.rest.length < bound →
      ∀ found, ∃ tokens, readUpTo whole bound c found = .ok (found.reverse ++ tokens) ∧
        tokens.map Token.part? = comments.map some := by
  induction h with
  | nil start =>
    intro before c bound hbefore hrest hstart hbound found
    obtain ⟨left, -, hturn⟩ := readUpTo_plain whole [] hbefore (by simp) hrest hbound found
    exact ⟨[], by rw [hturn, readUpTo_nil rfl, append_nil], rfl⟩
  | @plain start d rest strings comments hplain hmore ih =>
    intro before c bound hbefore hrest hstart hbound found
    refine ih (before ++ [d]) c ?_ (by simp [hrest]) (by simp; omega) hbound found
    exact forall_mem_append.mpr ⟨hbefore, forall_mem_singleton.mpr hplain⟩
  | @string start raw taken rest strings comments hplain hstring hmore ih =>
    intro before c bound hbefore hrest hstart hbound found
    obtain ⟨mark, hmark, hhead⟩ := hstring.ends_marked.1
    have hstop : ∀ d ∈ (taken ++ rest).head?, isPlain d = false := by
      rw [head?_append, hhead]
      rcases hmark with rfl | rfl <;> simp [isPlain]
    have hne : taken ≠ [] := by
      rintro rfl
      cases hhead
    have hall : ∀ d ∈ before ++ raw, isPlain d := forall_mem_append.mpr ⟨hbefore, hplain⟩
    obtain ⟨left, hleft, hturn⟩ :=
      readUpTo_plain whole (taken ++ rest) hall hstop (by simp [hrest]) hbound found
    obtain ⟨left, rfl⟩ : ∃ k, left = k + 1 := ⟨left - 1, by omega⟩
    rw [hturn, readUpTo_skipped (by simp [past, hne]) hstring.skipped_eq]
    have hlength := length_pos_iff.mpr hne
    refine ih [] _ (by simp) rfl ?_ ?_ found
    · simp only [past, length_append, length_nil]
      omega
    · rw [length_append] at hleft
      simp only [past]
      omega
  | @comment start body rest strings comments hline hends hmore ih =>
    intro before c bound hbefore hrest hstart hbound found
    obtain ⟨left, hleft, hturn⟩ := readUpTo_plain whole ('#' :: body ++ rest) hbefore
      (by simp [isPlain]) hrest hbound found
    obtain ⟨left, rfl⟩ : ∃ k, left = k + 1 := ⟨left - 1, by omega⟩
    have hhash : ('#' :: body).head? = some '#' := rfl
    rw [hturn, readUpTo_comment hhash (by simpa using hline) hends rfl]
    generalize hplace : c.past before ('#' :: body ++ rest) = here
    have hoffset : here.offset = start := by rw [← hplace, ← hstart]; rfl
    have hshorter : rest.length < left := by
      rw [length_append, length_cons] at hleft
      omega
    obtain ⟨tokens, hread, hparts⟩ := ih [] (here.past ('#' :: body) rest)
      (by simp) rfl (by simp [past, hoffset]) hshorter
      (here.token .comment ('#' :: body) (here.past ('#' :: body) rest) :: found)
    refine ⟨here.token .comment ('#' :: body) (here.past ('#' :: body) rest) :: tokens, ?_, ?_⟩
    · rw [hread]
      simp
    · rw [map_cons, map_cons, hparts]
      simp [Token.part?, token, Token.content, hoffset]

theorem exists_parseComments (h : Division 0 text strings comments) :
    ∃ tokens, parseComments text = .ok tokens ∧ tokens.map Token.part? = comments.map some :=
  h.exists_readUpTo text [] (ofText text) (by simp) rfl rfl (Nat.lt_succ_self _) []

end Division

end Comments

end GDWorkbench
