import GDWorkbench.Proofs.Format.Provenance
import Mathlib.Data.List.Basic
import Mathlib.Data.List.TakeWhile

/-!
Comments by line. Comments are numbered by counting line feeds, and listed by the lines of the text, which
also end at other characters. So a comment may be listed at a line that does not hold it, and the text that is
taken for the one before it may be any part of that line. All the same every comment is listed, since there
are at least as many lines as line feeds, and listed once: no two comments begin on one line, and whatever the
text before a comment is taken to be, it is blank or not.
-/

namespace GDWorkbench.Comments

open List Text

variable {comments : List Token}

/-! ## Places of comments -/

def startLine (t : Token) : Nat :=
  t.span.line.getD 0

/-- Comments that follow each other in a text that begins on a line. -/
inductive Gathered : Nat → Text → List Token → Prop
  | nil {line : Nat} {rest : Text} : Gathered line rest []
  | skip {line : Nat} {taken rest : Text} {tokens : List Token}
      (more : Gathered (line + taken.count '\n') rest tokens) : Gathered line (taken ++ rest) tokens
  | comment {line : Nat} {token : Token} {rest : Text} {tokens : List Token}
      (starts : token.span.line = some line) (hash : token.content.head? = some '#')
      (oneLine : '\n' ∉ token.content) (ends : ∀ c ∈ rest.head?, c = '\n')
      (more : Gathered line rest tokens) : Gathered line (token.content ++ rest) (token :: tokens)

theorem comment_cases {text taken rest : Text} (h : Lexeme.comment text = some (taken, rest)) :
    taken.head? = some '#' ∧ '\n' ∉ taken ∧ ∀ c ∈ rest.head?, c = '\n' := by
  obtain ⟨first, left, second, hfirst, hsecond, rfl⟩ := Reader.seq_cases h
  obtain ⟨c, rfl, hc, -⟩ := Reader.char_cases hfirst
  obtain rfl : c = '#' := by simpa using hc
  cases hsecond
  refine ⟨rfl, ?_, fun d hd => ?_⟩
  · rw [singleton_append, mem_cons, not_or]
    exact ⟨by decide, fun hmem => by simpa using mem_takeWhile_imp hmem⟩
  · have hstop := head?_dropWhile_not (· != '\n') left
    rw [Option.mem_def.mp hd] at hstop
    simpa using hstop

theorem gathered_of_readUpTo {text : Text} {bound : Nat} {c : Cursor} {found tokens : List Token}
    (h : readUpTo text bound c found = .ok tokens) :
    ∃ more, tokens = found.reverse ++ more ∧ Gathered c.line c.rest more := by
  induction bound generalizing c found with
  | zero =>
    cases h
    exact ⟨[], (append_nil _).symm, .nil⟩
  | succ bound ih =>
    simp only [readUpTo] at h
    split at h
    · cases h
      exact ⟨[], (append_nil _).symm, .nil⟩
    · split at h
      · rename_i taken rest hskipped
        obtain ⟨more, rfl, hmore⟩ := ih h
        rw [divides_skipped hskipped]
        exact ⟨more, rfl, .skip hmore⟩
      · split at h
        · rename_i taken rest hcomment
          obtain ⟨more, rfl, hmore⟩ := ih h
          obtain ⟨hhash, hline, hends⟩ := comment_cases hcomment
          refine ⟨c.token .comment taken (c.past taken rest) :: more, by simp, ?_⟩
          rw [Lexeme.divides_comment hcomment]
          have hsame : (c.past taken rest).line = c.line := by
            simp [Cursor.past, count_eq_zero.mpr hline]
          have hgathered : Gathered c.line ((c.token .comment taken (c.past taken rest)).content ++ rest)
            (c.token .comment taken (c.past taken rest) :: more) :=
            .comment rfl hhash hline hends (hsame ▸ hmore)
          exact hgathered
        · cases h

namespace Gathered

variable {line : Nat} {text : Text} {tokens : List Token}

/-- A comment stands behind a part of the text, and its line is told by the line feeds in that. -/
theorem place_of_mem (h : Gathered line text tokens) {token : Token} (htoken : token ∈ tokens) :
    token.content.head? = some '#' ∧ ∃ before rest, text = before ++ token.content ++ rest ∧
      token.span.line = some (line + before.count '\n') := by
  induction h with
  | nil => cases htoken
  | @skip line taken rest tokens more ih =>
    obtain ⟨hhash, before, rest, rfl, hline⟩ := ih htoken
    refine ⟨hhash, taken ++ before, rest, by simp, ?_⟩
    rw [hline, count_append, Nat.add_assoc]
  | @comment line first rest tokens starts hash oneLine ends more ih =>
    rcases mem_cons.mp htoken with rfl | htoken
    · exact ⟨hash, [], rest, rfl, starts⟩
    · obtain ⟨hhash, before, rest, rfl, hline⟩ := ih htoken
      refine ⟨hhash, first.content ++ before, rest, by simp, ?_⟩
      rw [hline, count_append, count_eq_zero.mpr oneLine, Nat.zero_add]

theorem not_mem_of_mem (h : Gathered line text tokens) {token : Token} (htoken : token ∈ tokens) :
    '\n' ∉ token.content := by
  induction h with
  | nil => cases htoken
  | skip more ih => exact ih htoken
  | comment starts hash oneLine ends more ih =>
    rcases mem_cons.mp htoken with rfl | htoken
    · exact oneLine
    · exact ih htoken

/-- Behind the end of a line there is no comment of that line. -/
theorem lt_of_ends (h : Gathered line text tokens) (hends : ∀ c ∈ text.head?, c = '\n') {token : Token}
    (htoken : token ∈ tokens) : line < startLine token := by
  obtain ⟨hhash, before, rest, rfl, hline⟩ := h.place_of_mem htoken
  rw [startLine, hline, Option.getD_some]
  cases before with
  | nil =>
    rw [nil_append, head?_append, hhash] at hends
    cases hends '#' rfl
  | cons c before =>
    obtain rfl := hends c rfl
    rw [count_cons_self]
    omega

theorem pairwise (h : Gathered line text tokens) :
    tokens.Pairwise fun a b => startLine a < startLine b := by
  induction h with
  | nil => exact .nil
  | skip more ih => exact ih
  | comment starts hash oneLine ends more ih =>
    refine pairwise_cons.mpr ⟨fun later hlater => ?_, ih⟩
    rw [startLine, starts]
    exact more.lt_of_ends ends hlater

end Gathered

/-! ## Lines of the text -/

theorem length_lines_cons {c : Char} {text : Text} (h : c = '\r' → ∀ rest, text ≠ '\n' :: rest) :
    (lines (c :: text)).length =
      if isLineBreak c then (lines text).length + 1 else max 1 (lines text).length := by
  rw [lines]
  · split
    · rfl
    · cases lines text <;> simp
  · exact fun rest hc htext => h hc rest htext

/-- Every line feed ends a line, and what follows is on a further one. -/
theorem count_lt_length_lines (before rest : Text) :
    before.count '\n' < (lines (before ++ '#' :: rest)).length := by
  have hcons {c : Char} {before : Text} (hreturn : ∀ more, c = '\r' → before = '\n' :: more → False)
      (ih : before.count '\n' < (lines (before ++ '#' :: rest)).length) :
      (c :: before).count '\n' < (lines (c :: (before ++ '#' :: rest))).length := by
    have hapart : c = '\r' → ∀ more, before ++ '#' :: rest ≠ '\n' :: more := by
      intro hc more hmore
      cases before with
      | nil => cases hmore
      | cons d before =>
        obtain ⟨rfl, -⟩ := List.cons.inj hmore
        exact hreturn before hc rfl
    rw [length_lines_cons hapart]
    by_cases hc : c = '\n'
    · subst hc
      rw [count_cons_self, if_pos (by decide)]
      omega
    · rw [count_cons_of_ne hc]
      split <;> omega
  induction before using lines.induct with
  | case1 =>
    rw [nil_append, length_lines_cons fun hc => absurd hc (by decide), if_neg (by decide)]
    exact Nat.lt_of_lt_of_le Nat.one_pos (Nat.le_max_left _ _)
  | case2 before ih =>
    simp only [cons_append, lines, length_cons]
    have hcount : ('\r' :: '\n' :: before).count '\n' = before.count '\n' + 1 := by
      rw [count_cons_of_ne (by decide), count_cons_self]
    omega
  | case3 c before hreturn hbreak ih => exact hcons hreturn ih
  | case4 c before hreturn hbreak hlines ih => exact hcons hreturn ih
  | case5 c before hreturn hbreak line more hlines ih => exact hcons hreturn ih

theorem gathered_of_parseComments {code : Text}
    (h : parseComments code = .ok comments) : Gathered 1 code comments := by
  obtain ⟨more, hmore, hgathered⟩ := gathered_of_readUpTo h
  obtain rfl : comments = more := hmore
  exact hgathered

theorem ne_nil_of_mem_byLine {wanted : Text → Bool} {code comment : Text}
    (h : parseComments code = .ok comments) (hcomment : some comment ∈ byLine wanted code comments) :
    comment ≠ [] := by
  obtain ⟨token, htoken, rfl⟩ := exists_of_mem_byLine hcomment
  obtain ⟨hhash, -⟩ := (gathered_of_parseComments h).place_of_mem htoken
  obtain ⟨body, hbody⟩ : ∃ body, token.content = '#' :: body := head?_eq_some_iff.mp hhash
  rw [trimEnd, hbody, Ne, reverse_eq_nil_iff, dropWhile_eq_nil_iff]
  intro hblank
  exact absurd (hblank '#' (by simp)) (by decide)

theorem Gathered.exists_line {code : Text} (h : Gathered 1 code comments)
    {c : Token} (hc : c ∈ comments) :
    ∃ before rest, code = before ++ c.content ++ rest ∧ c.span.line = some (before.count '\n' + 1) ∧
      before.count '\n' < (lines code).length := by
  obtain ⟨hhash, before, rest, rfl, hline⟩ := h.place_of_mem hc
  obtain ⟨body, hbody⟩ : ∃ body, c.content = '#' :: body := head?_eq_some_iff.mp hhash
  refine ⟨before, rest, rfl, by rw [hline, Nat.add_comm], ?_⟩
  rw [hbody, append_assoc]
  exact count_lt_length_lines before (body ++ rest)

/-! ## Entries -/

section Entries

variable {code : Text} {comments : List Token}

theorem length_byLine (wanted : Text → Bool) (code : Text) (comments : List Token) :
    (byLine wanted code comments).length = 1 + (lines code).length := by
  simp [byLine, Nat.add_comm]

theorem byLine_eq_none (wanted : Text → Bool) {i : Nat} (hi : i < 1 + (lines code).length)
    (h : ∀ c ∈ comments, c.span.line ≠ some i) : (byLine wanted code comments)[i]? = some none := by
  cases i with
  | zero => rfl
  | succ i =>
    have hnone : onLine comments (i + 1) = none := by
      rw [onLine, find?_eq_none.mpr fun c hc => by simpa using h c hc]
      rfl
    have hline : i < (lines code).length := by omega
    simp [byLine, getElem?_eq_getElem hline, hnone]

/-- No comment before it begins on its line. -/
theorem onLine_of_mem (hcomments : comments.Pairwise fun a b => a.span.line ≠ b.span.line) {c : Token}
    (hc : c ∈ comments) {n : Nat} (hn : c.span.line = some n) :
    onLine comments n = some (c.content, c.span.column.getD 1) := by
  have hfind : comments.find? (·.span.line = some n) = some c := by
    induction comments with
    | nil => cases hc
    | cons first rest ih =>
      obtain ⟨hfirst, hrest⟩ := pairwise_cons.mp hcomments
      rcases mem_cons.mp hc with rfl | hc
      · rw [find?_cons_of_pos (by simpa using hn)]
      · have hne : first.span.line ≠ some n := hn ▸ hfirst c hc
        rw [find?_cons_of_neg (by simpa using hne), ih hrest hc]
  rw [onLine, hfind]
  rfl

theorem byLine_of_mem (hcomments : comments.Pairwise fun a b => a.span.line ≠ b.span.line) {c : Token}
    (hc : c ∈ comments) {i : Nat} (hi : c.span.line = some (i + 1)) {line : Text}
    (hline : (lines code)[i]? = some line) (wanted : Text → Bool) :
    (byLine wanted code comments)[i + 1]? =
      some (if wanted (line.take (c.span.column.getD 1 - 1)) then some (trimEnd c.content)
        else none) := by
  simp [byLine, hline, onLine_of_mem hcomments hc hi]

/-- The entries of both lists, one at a place. -/
def merged (first second : List (Option Text)) : List Text :=
  (zipWith Option.or first second).filterMap id

/-- Whatever the text before a comment is taken to be, it is in one of the lists. -/
theorem merged_byLine (code : Text) (comments : List Token) :
    merged (standalone code comments) (inline code comments) =
      (range' 0 (lines code).length).filterMap fun i =>
        (onLine comments (i + 1)).map fun found => trimEnd found.1 := by
  rw [← zipIdx_map_snd 0 (lines code), filterMap_map]
  simp only [merged, standalone, inline, byLine, zipWith_cons_cons, zipWith_map,
    zipWith_self, Option.or_none, filterMap_cons, filterMap_map, id]
  refine filterMap_congr fun place _ => ?_
  obtain ⟨line, i⟩ := place
  simp only [Function.comp_apply]
  cases onLine comments (i + 1) with
  | none => rfl
  | some found =>
    obtain ⟨text, column⟩ := found
    cases hblank : allBlank (line.take (column - 1)) <;> simp [hblank]

/-- Looking up the comments line by line gives them in their order. -/
theorem filterMap_onLine (hplaced : ∀ c ∈ comments, c.span.line = some (startLine c))
    (hcomments : comments.Pairwise fun a b => startLine a < startLine b) {first count : Nat}
    (hlines : ∀ c ∈ comments, first < startLine c ∧ startLine c ≤ first + count) :
    ((range' first count).filterMap fun i =>
        (onLine comments (i + 1)).map fun found => trimEnd found.1) = texts comments := by
  induction count generalizing first comments with
  | zero =>
    cases comments with
    | nil => rfl
    | cons c comments =>
      obtain ⟨hfirst, hlast⟩ := hlines c mem_cons_self
      omega
  | succ count ih =>
    rw [range'_succ, filterMap_cons]
    by_cases hnone : ∀ c ∈ comments, startLine c ≠ first + 1
    · have hnext : onLine comments (first + 1) = none := by
        rw [onLine, find?_eq_none.mpr fun c hc => by simpa [hplaced c hc] using hnone c hc]
        rfl
      rw [hnext]
      refine ih hplaced hcomments fun c hc => ?_
      have hne := hnone c hc
      obtain ⟨hfirst, hlast⟩ := hlines c hc
      omega
    · obtain ⟨c, hc, hfirst⟩ : ∃ c ∈ comments, startLine c = first + 1 := by simpa using hnone
      obtain ⟨head, rest, rfl⟩ := exists_cons_of_ne_nil (ne_nil_of_mem hc)
      obtain ⟨hplace, hplaces⟩ := forall_mem_cons.mp hplaced
      obtain ⟨hhead, hrest⟩ := pairwise_cons.mp hcomments
      obtain ⟨hrange, hranges⟩ := forall_mem_cons.mp hlines
      obtain rfl : c = head := by
        refine (mem_cons.mp hc).resolve_right fun hlater => ?_
        have hbefore := hhead c hlater
        omega
      have hnext : onLine (c :: rest) (first + 1) = some (c.content, c.span.column.getD 1) := by
        rw [onLine, find?_cons_of_pos (by simp [hplace, hfirst])]
        rfl
      have hlater : ∀ i ∈ range' (first + 1) count,
          onLine (c :: rest) (i + 1) = onLine rest (i + 1) := by
        intro i hi
        have hi := (mem_range'_1.mp hi).1
        have hne : startLine c ≠ i + 1 := by omega
        rw [onLine, onLine, find?_cons_of_neg (by simpa [hplace] using hne)]
      have hwithin : ∀ d ∈ rest, first + 1 < startLine d ∧ startLine d ≤ first + 1 + count := by
        intro d hd
        have hbefore := hhead d hd
        obtain ⟨-, hlast⟩ := hranges d hd
        omega
      rw [hnext, filterMap_congr fun i hi => by rw [hlater i hi]]
      exact congrArg _ (ih hplaces hrest hwithin)

end Entries

/-- The comments of a text, on lines of their own and behind code, are listed by line. Every comment begins
on a line of its own, counted by line feeds, and is the entry of that line in exactly one of the lists; no
other line has an entry. So both lists together, merged in the order of the lines, hold the comments of the
text. -/
theorem gathered_partition {code : Text} {comments : List Token} (h : parseComments code = .ok comments) :
    (standalone code comments).length = 1 + (Text.lines code).length ∧
      (inline code comments).length = 1 + (Text.lines code).length ∧
      (comments.Pairwise fun a b => a.span.line ≠ b.span.line) ∧
      (∀ c ∈ comments, ∃ before rest n, code = before ++ c.content ++ rest ∧
        n = before.count '\n' + 1 ∧ c.span.line = some n ∧
        ((standalone code comments)[n]? = some (some (Text.trimEnd c.content)) ∧
            (inline code comments)[n]? = some none ∨
          (standalone code comments)[n]? = some none ∧
            (inline code comments)[n]? = some (some (Text.trimEnd c.content)))) ∧
      (∀ i < 1 + (Text.lines code).length, (∀ c ∈ comments, c.span.line ≠ some i) →
        (standalone code comments)[i]? = some none ∧ (inline code comments)[i]? = some none) ∧
      merged (standalone code comments) (inline code comments) = texts comments := by
  have hgathered := gathered_of_parseComments h
  have hplaces (c : Token) (hc : c ∈ comments) := hgathered.exists_line hc
  have hstarts : ∀ c ∈ comments, c.span.line = some (startLine c) ∧
      0 < startLine c ∧ startLine c ≤ 0 + (Text.lines code).length := by
    intro c hc
    obtain ⟨before, rest, -, hline, hcount⟩ := hplaces c hc
    rw [startLine, hline, Option.getD_some]
    exact ⟨rfl, by omega, by omega⟩
  have hapart : comments.Pairwise fun a b => a.span.line ≠ b.span.line := by
    refine hgathered.pairwise.imp_of_mem fun {a b} ha hb hlt heq => ?_
    rw [(hstarts a ha).1, (hstarts b hb).1] at heq
    exact absurd (Option.some.inj heq) (Nat.ne_of_lt hlt)
  refine ⟨length_byLine _ _ _, length_byLine _ _ _, hapart, fun c hc => ?_, fun i hi hnone => ?_, ?_⟩
  · obtain ⟨before, rest, hcode, hline, hcount⟩ := hplaces c hc
    refine ⟨before, rest, _, hcode, rfl, hline, ?_⟩
    have hentry := byLine_of_mem hapart hc hline (getElem?_eq_getElem hcount)
    rw [standalone, inline, hentry, hentry]
    cases Text.allBlank _ with
    | true => exact .inl ⟨rfl, rfl⟩
    | false => exact .inr ⟨rfl, rfl⟩
  · exact ⟨byLine_eq_none _ hi hnone, byLine_eq_none _ hi hnone⟩
  · rw [merged_byLine]
    exact filterMap_onLine (fun c hc => (hstarts c hc).1) hgathered.pairwise fun c hc => (hstarts c hc).2

/-- A form feed ends a line of the text but not one of the tokens, so each comment is looked up one line
early: the second one is taken for an inline comment because `b` stands before it there. -/
def oddLines : Text :=
  "a\x0cb # p\n\t# q\n\n# r".toList

theorem gathered_partition_oddLines :
    ∃ comments, parseComments oddLines = .ok comments ∧
      standalone oddLines comments = [none, none, none, none, some "# r".toList, none] ∧
      inline oddLines comments = [none, some "# p".toList, some "# q".toList, none, none, none] ∧
      merged (standalone oddLines comments) (inline oddLines comments) = texts comments := by
  obtain ⟨comments, hcomments, hstandalone, hinline⟩ :
      ∃ comments, parseComments oddLines = .ok comments ∧
        standalone oddLines comments = [none, none, none, none, some "# r".toList, none] ∧
        inline oddLines comments = [none, some "# p".toList, some "# q".toList, none, none, none] :=
    ⟨_, rfl, by decide +kernel, by decide +kernel⟩
  exact ⟨comments, hcomments, hstandalone, hinline, (gathered_partition hcomments).2.2.2.2.2⟩

end GDWorkbench.Comments
