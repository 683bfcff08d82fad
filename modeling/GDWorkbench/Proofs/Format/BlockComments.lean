import GDWorkbench.Proofs.Comments.Gathering
import GDWorkbench.Proofs.Format.Gaps

/-!
Comments of a block. What a block puts between two of its statements holds the comments that stand there on
lines of their own, each once and in the order of the source, however the empty lines around them are set.
Behind the last statement come the comments up to the line where the block ends. So laying out statements
that are no annotations cannot fail, and no comment of the block is lost or written twice.
-/

namespace GDWorkbench.Format

open List

variable {previous : Int}

/-- The comment on a line of its own as a block writes it. -/
def Context.commentOn (c : Context) (n : Nat) : Option Text :=
  match c.settings.standalone[n]?, c.settings.source[n]? with
  | some (some comment), some line =>
    some (if Text.startsWith line ['#'] then comment else c.margin ++ comment)
  | _, _ => none

/-- The comments on lines of their own strictly between two lines of the source. -/
def Context.commentsBetween (c : Context) (first last : Int) : List Text :=
  (range' (first + 1).toNat (last - (first + 1)).toNat).filterMap c.commentOn

namespace Blanks

theorem texts_nil_cons (lines : List Text) : texts ([] :: lines) = texts lines := rfl

theorem texts_text_cons {line : Text} (h : line ≠ []) (lines : List Text) :
    texts (line :: lines) = line :: texts lines := by
  simp [texts, h]

theorem texts_dropEmpty (lines : List Text) : texts (dropEmpty lines) = texts lines := by
  induction lines with
  | nil => rfl
  | cons line rest ih =>
    by_cases hline : line = []
    · subst hline
      exact ih
    · rw [dropEmpty, dropWhile_cons_of_neg (by simpa using hline)]

theorem texts_dropEmptyEnd (lines : List Text) : texts (dropEmptyEnd lines) = texts lines := by
  have hreverse (xs : List Text) : texts xs.reverse = (texts xs).reverse := filter_reverse ..
  rw [dropEmptyEnd, hreverse, texts_dropEmpty, hreverse, reverse_reverse]

theorem head?_dropEmpty (lines : List Text) : (dropEmpty lines).head? ≠ some [] := by
  intro hhead
  have hkept := head?_dropWhile_not isEmpty lines
  rw [dropEmpty] at hhead
  simp [hhead] at hkept

theorem getLast?_dropEmptyEnd (lines : List Text) : (dropEmptyEnd lines).getLast? ≠ some [] := by
  rw [dropEmptyEnd, getLast?_reverse]
  exact head?_dropEmpty lines.reverse

end Blanks

/-! ## Between two lines of the source -/

section Lines

variable {c : Context} (hlength : c.settings.source.length = c.settings.standalone.length)
  (hcomments : ∀ comment, some comment ∈ c.settings.standalone → comment ≠ [])

include hlength hcomments

theorem exists_commentLines (first count : Nat) :
    ∃ lines, commentLines c first ((c.settings.standalone.drop first).take count) = .ok lines ∧
      Blanks.texts lines = (range' first count).filterMap c.commentOn := by
  induction count generalizing first with
  | zero => exact ⟨[], rfl, rfl⟩
  | succ count ih =>
    obtain ⟨lines, hlines, htexts⟩ := ih (first + 1)
    by_cases hfirst : first < c.settings.standalone.length
    · have hline : first < c.settings.source.length := hlength ▸ hfirst
      have hwritten := getElem?_eq_getElem hline
      have hentry := getElem?_eq_getElem hfirst
      rw [drop_eq_getElem_cons hfirst, take_succ_cons, range'_succ, filterMap_cons]
      have hnext : ((first : Int) + 1) = ((first + 1 : Nat) : Int) := rfl
      have hat : at? c.settings.source first = c.settings.source[first]? := by
        rw [at?, if_neg (by omega), position_natCast]
      cases hcomment : c.settings.standalone[first] with
      | none =>
        refine ⟨[] :: lines, ?_, ?_⟩
        · simp only [commentLines, hnext, hlines, bind, Except.bind]
          rfl
        · rw [Blanks.texts_nil_cons, Context.commentOn, hentry, hcomment]
          exact htexts
      | some comment =>
        have hne : comment ≠ [] := hcomments comment (hcomment ▸ getElem_mem hfirst)
        refine ⟨(if Text.startsWith c.settings.source[first] ['#'] then comment
          else c.margin ++ comment) :: lines, ?_, ?_⟩
        · simp only [commentLines, standaloneComment, hat, hwritten, hnext, hlines, bind, Except.bind]
          rfl
        · rw [Blanks.texts_text_cons (by split <;> simp [hne]), Context.commentOn, hentry, hcomment,
            hwritten, htexts]
    · refine ⟨[], ?_, ?_⟩
      · rw [drop_eq_nil_of_le (by omega), take_nil]
        rfl
      · refine (filterMap_eq_nil_iff.mpr fun n hn => ?_).symm
        have hafter := (mem_range'_1.mp hn).1
        rw [Context.commentOn, getElem?_eq_none (by omega)]

theorem exists_commentBlanks {first : Int} (hfirst : -1 ≤ first) (last : Nat) :
    ∃ lines, blanksBetween c first last = .ok lines ∧
      Blanks.texts lines = c.commentsBetween first last := by
  obtain ⟨start, hstart⟩ := Int.eq_ofNat_of_zero_le (by omega : 0 ≤ first + 1)
  obtain ⟨lines, hlines, htexts⟩ := exists_commentLines hlength hcomments start (last - start)
  have hcount : ((last : Int) - (start : Int)).toNat = last - start := Int.toNat_sub last start
  refine ⟨Blanks.squeeze lines, ?_, ?_⟩
  · rw [blanksBetween, hstart, between_natCast, hcount, drop_take, take_take, Nat.min_self,
      hlines]
    rfl
  · rw [Blanks.texts_squeeze, htexts, Context.commentsBetween, hstart, hcount, Int.toNat_natCast]

end Lines

/-- A block ends at a line of the source or right behind the last one: the lines it leaves to what follows
are lines above its end. -/
theorem dedentLine_nonneg {c : Context} {lines : List Text} (hsource : c.settings.source = [] :: lines)
    (hprevious : -1 ≤ previous) : 0 ≤ dedentLine c previous := by
  obtain ⟨start, hstart⟩ := Int.eq_ofNat_of_zero_le (by omega : 0 ≤ previous + 1)
  rw [dedentLine]
  split
  · omega
  · simp only [hstart]
    set inside := (between c.settings.source (some (start : Int)) none).takeWhile
      fun l => !isDedented c.indent l with hinside
    -- A block that nothing comes before begins with line 0, which is empty and so not indented less.
    have hpast : 0 < start + inside.length := by
      cases start with
      | succ start => omega
      | zero =>
        rw [hinside, between_from, hsource, drop_zero, takeWhile_cons_of_pos (by rfl), length_cons]
        omega
    have hlast : ((start : Int) + inside.length - 1) = ((start + inside.length - 1 : Nat) : Int) := by
      omega
    rw [hlast, position_natCast]
    set before := (c.settings.source.take (start + inside.length - 1 + 1)).reverse with hbefore
    have hlength : before.length ≤ start + inside.length - 1 + 1 := by
      rw [hbefore, length_reverse]
      exact length_take_le _ _
    have htaken : (before.takeWhile Text.allBlank).length ≤ before.length :=
      (takeWhile_sublist _).length_le
    omega

/-! ## Statements -/

/-- What a formatter makes of a statement: the line it begins on, its lines, and the last line of the source
they deal with. -/
structure Passage where
  first : Nat
  lines : List Line
  last : Int

/-- Lines of the source are numbered from 0, and -1 is the least number that a block gives back. -/
structure Passage.IsOf (format : StatementFormatter) (c : Context) (t : Tree) (part : Passage) : Prop where
  kind : ∃ kind span children, t = .node kind span children ∧ kind ≠ .annot
  first : firstLine t = .ok (some part.first)
  formatted : format t c = .ok (part.lines, some part.last)
  last : -1 ≤ part.last

namespace Block

/-- Only annotations wait for the next statement. -/
theorem belongsToNextIn_of_not_isKind (inFunction : Bool) {t : Tree} (h : t.isKind .annot = false) :
    Annotations.belongsToNextIn inFunction t = .ok false := by
  simp [Annotations.belongsToNextIn, Annotations.belongsToNext, h, bind, Except.bind, pure, Except.pure]

theorem makesAbstract_of_not_isKind {t : Tree} (h : t.isKind .annot = false) (following : Option Tree) :
    Annotations.makesAbstract t following = false := by
  cases following with
  | none => rfl
  | some following => simp [Annotations.makesAbstract, h]

/-- The lines of statements, each behind the lines that separate it from the one before. -/
def joined (blanks : List (List Text)) (parts : List Passage) : List Line :=
  (zipWith (fun blank part => separators blank ++ part.lines) blanks parts).flatten

def lastOf (previous : Int) (parts : List Passage) : Int :=
  ((parts.map Passage.last).getLast?).getD previous

theorem lastOf_cons (previous : Int) (part : Passage) (parts : List Passage) :
    lastOf previous (part :: parts) = lastOf part.last parts := by
  simp [lastOf, getLast?_cons]

/-- For each statement, the comments between it and the one before. -/
def commentsBefore (c : Context) (previous : Int) (parts : List Passage) : List (List Text) :=
  zipWith (fun last part => c.commentsBetween last part.first)
    (previous :: parts.map Passage.last) parts

section Statements

variable (inFunction : Bool) {format : StatementFormatter} (body : BodyFormatter) {c : Context}
  (hlength : c.settings.source.length = c.settings.standalone.length)
  (hcomments : ∀ comment, some comment ∈ c.settings.standalone → comment ≠ [])

include hlength hcomments

theorem exists_step {t : Tree} {part : Passage} (ht : part.IsOf format c t)
    (hprevious : -1 ≤ previous) (above : List Line) (before : Option Kind) (following : Option Tree) :
    ∃ blank kind, step inFunction format body c ⟨above, some previous, before, []⟩ t following =
        .ok ⟨above ++ (separators blank ++ part.lines), some part.last, some kind, []⟩ ∧
      Blanks.texts blank = c.commentsBetween previous part.first ∧
      (before = none → blank.head? ≠ some []) := by
  obtain ⟨kind, span, children, hnode, hannot⟩ := ht.kind
  obtain ⟨lines, hlines, htexts⟩ := exists_commentBlanks hlength hcomments hprevious part.first
  have hkind : t.kind = .ok kind := by rw [hnode]; rfl
  have hplain : t.isKind .annot = false := by simp [hnode, Tree.isKind, Tree.kind?, hannot]
  have hbelongs := belongsToNextIn_of_not_isKind inFunction hplain
  have habstract := makesAbstract_of_not_isKind hplain following
  have hstep (blank : List Text)
      (hblank : blanksBefore c ⟨above, some previous, before, []⟩ kind t = .ok blank) :
      step inFunction format body c ⟨above, some previous, before, []⟩ t following =
        .ok ⟨above ++ (separators blank ++ part.lines), some part.last, some kind, []⟩ := by
    rw [step_eq hkind hbelongs, habstract, hblank]
    simp [statement, ht.formatted, bind, Except.bind, pure, Except.pure]
  cases before with
  | none =>
    refine ⟨Blanks.dropEmpty lines, kind, hstep _ ?_, ?_, fun _ => Blanks.head?_dropEmpty lines⟩
    · simp only [blanksBefore, number, ht.first, hlines, bind, Except.bind]
      rfl
    · rw [Blanks.texts_dropEmpty, htexts]
  | some before =>
    refine ⟨Blanks.beforeStatement (forcedBlanks c kind)
      (Blanks.afterStatement (forcedBlanks c before) lines), kind, hstep _ ?_, ?_, by rintro ⟨⟩⟩
    · simp only [blanksBefore, number, ht.first, hlines, bind, Except.bind]
      rfl
    · rw [Blanks.texts_beforeStatement, Blanks.texts_afterStatement, htexts]

theorem exists_steps {ts : List Tree} {parts : List Passage}
    (hparts : Forall₂ (fun t part => Passage.IsOf format c t part) ts parts)
    (hprevious : -1 ≤ previous) (above : List Line) (before : Option Kind) :
    ∃ blanks last, steps inFunction format body c ⟨above, some previous, before, []⟩ ts =
        .ok ⟨above ++ joined blanks parts, some (lastOf previous parts), last, []⟩ ∧
      -1 ≤ lastOf previous parts ∧ blanks.map Blanks.texts = commentsBefore c previous parts ∧
      (before = none → ∀ blank ∈ blanks.head?, blank.head? ≠ some []) := by
  induction hparts generalizing previous above before with
  | nil => exact ⟨[], before, by simp [steps, joined, lastOf], hprevious, rfl, by simp⟩
  | @cons t part ts parts ht hts ih =>
    obtain ⟨blank, kind, hstep, htexts, hfirst⟩ :=
      exists_step inFunction body hlength hcomments ht hprevious above before ts.head?
    obtain ⟨blanks, last, hsteps, hlast, hblanks, -⟩ :=
      ih ht.last (above ++ (separators blank ++ part.lines)) (some kind)
    refine ⟨blank :: blanks, last, ?_, lastOf_cons .. ▸ hlast, ?_, fun h => by simpa using hfirst h⟩
    · simp only [steps, hstep, bind, Except.bind, hsteps, lastOf_cons]
      simp [joined]
    · rw [map_cons, htexts, hblanks]
      rfl

end Statements

end Block

open Block (separators joined lastOf commentsBefore) in
/-- A block of statements that are no annotations is laid out whatever their formatter makes of them, and
its lines are the lines of the statements with the comments of the source between them. -/
theorem block_writes_comments {code : Text} {comments : List Token} {c : Context} {previous : Int}
    {inFunction : Bool} {format : StatementFormatter} {body : BodyFormatter} {statements : List Tree}
    {parts : List Passage} (hcode : parseComments code = .ok comments)
    (hsource : c.settings.source = [] :: Text.lines code)
    (hstandalone : c.settings.standalone = Comments.standalone code comments)
    (hprevious : c.previous = some previous) (hline : -1 ≤ previous)
    (hparts : List.Forall₂ (fun t part => Passage.IsOf format c t part) statements parts) :
    ∃ blanks tail stop, stop = dedentLine c (lastOf previous parts) ∧ -1 ≤ stop - 1 ∧
      block inFunction format body statements c =
        .ok (joined blanks parts ++ separators tail, some (stop - 1)) ∧
      blanks.map Blanks.texts = commentsBefore c previous parts ∧
      Blanks.texts tail = c.commentsBetween (lastOf previous parts) stop ∧
      tail.getLast? ≠ some [] ∧ ∀ blank ∈ blanks.head?, blank.head? ≠ some [] := by
  have hlength : c.settings.source.length = c.settings.standalone.length := by
    rw [hsource, hstandalone, Comments.standalone, Comments.length_byLine, length_cons, Nat.add_comm]
  have hcomments : ∀ comment, some comment ∈ c.settings.standalone → comment ≠ [] := by
    rw [hstandalone]
    exact fun comment => Comments.ne_nil_of_mem_byLine hcode
  obtain ⟨blanks, kind, hsteps, hlast, hblanks, hfirst⟩ :=
    Block.exists_steps inFunction body hlength hcomments hparts hline [] none
  obtain ⟨stop, hstop⟩ := Int.eq_ofNat_of_zero_le (dedentLine_nonneg hsource hlast)
  obtain ⟨tail, htail, htexts⟩ := exists_commentBlanks hlength hcomments hlast stop
  refine ⟨blanks, Blanks.dropEmptyEnd tail, stop, hstop.symm, by omega, ?_, hblanks, ?_,
    Blanks.getLast?_dropEmptyEnd tail, hfirst rfl⟩
  · simp only [block, hprevious, hsteps, number, hstop, htail, bind, Except.bind, nil_append]
    rfl
  · rw [Blanks.texts_dropEmptyEnd, htexts]

/-- A block with a comment between its statements and one behind them; the third is indented less. -/
def notedBlock : Text :=
  "if a:\n\tpass\n\t# p\n\n\n\tpass\n\t# q\n# r\nb".toList

def notedContext : Context :=
  ⟨⟨100, 2, 4, ['\t'], [] :: Text.lines notedBlock,
    Comments.standalone notedBlock ((parseComments notedBlock).toOption.getD []), []⟩, 1, some 1⟩

def passOn (n : Nat) : Tree :=
  .node .passStmt (some ⟨some n, some 2, some n, some 6⟩) []

def passPart (n : Nat) : Passage :=
  ⟨n, [⟨some n, "\tpass".toList⟩], n⟩

theorem block_writes_comments_notedBlock :
    ∃ blanks tail,
      block true (Statement.format (functionBlock 0)) (Statement.body (functionBlock 0))
          [passOn 2, passOn 6] notedContext =
        .ok (Block.joined blanks [passPart 2, passPart 6] ++ Block.separators tail, some 7) ∧
      blanks.map Blanks.texts = [[], ["\t# p".toList]] ∧ Blanks.texts tail = ["\t# q".toList] := by
  have hpart (n : Nat) : (passPart n).IsOf (Statement.format (functionBlock 0)) notedContext (passOn n) :=
    ⟨⟨_, _, _, rfl, by decide⟩, rfl, rfl, by simp only [passPart]; omega⟩
  have hcomments : parseComments notedBlock = .ok ((parseComments notedBlock).toOption.getD []) := rfl
  obtain ⟨blanks, tail, stop, hstop, -, hblock, hblanks, htail, -⟩ :=
    block_writes_comments (c := notedContext) hcomments rfl rfl rfl (by decide)
      (.cons (hpart 2) (.cons (hpart 6) .nil))
  obtain rfl : stop = 8 := hstop
  exact ⟨blanks, tail, hblock, hblanks, htail⟩

end GDWorkbench.Format
