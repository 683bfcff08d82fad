import GDWorkbench.Proofs.Layout.Moments
import GDWorkbench.Proofs.Parse.Indents
import GDWorkbench.Proofs.Parse.Path
import GDWorkbench.Proofs.Parse.Places
import GDWorkbench.Proofs.Parse.Tokens

/-!
Why a text is refused. The layout pass has two faults that no text should lead to: a closing bracket
where none is open, and a line end without a line feed. The parser sees a token before the fault is
looked at, and a bracket too many is of no use to it: the brackets open on the stack are those that the
layout pass counts. So every error comes from a token that the parser has no use for, from a place
where no terminal fits, or from a line that is indented like no block around it.
-/

namespace GDWorkbench

open List Lexicon

variable {e : SyntaxError}

open Parse (Head bracketOf depthOf)

/-! ## Brackets in the layout -/

namespace Layout

def headsOf (tokens : List Token) : List Head :=
  tokens.map fun t => .terminal t.terminal

def IsMade (t : Token) : Prop :=
  t.terminal = .newline ∨ t.terminal = .indent ∨ t.terminal = .dedent

theorem IsMade.bracketOf_eq {t : Token} (h : IsMade t) : bracketOf (.terminal t.terminal) = 0 := by
  rcases h with h | h | h <;> rw [h] <;> rfl

theorem depthOf_of_isMade {tokens : List Token} (h : ∀ t ∈ tokens, IsMade t) :
    depthOf (headsOf tokens) = 0 := by
  induction tokens with
  | nil => rfl
  | cons t tokens ih =>
    have ht := (h t mem_cons_self).bracketOf_eq
    have hrest := ih fun u hu => h u (mem_cons_of_mem t hu)
    simp only [headsOf, map_cons, Parse.depthOf_cons] at hrest ⊢
    omega

theorem Gives.isMade {t u : Token} (h : Gives t u) (ht : t.terminal = .newline) : IsMade u := by
  cases h with
  | self => exact .inl ht
  | indent => exact .inr (.inl rfl)
  | blockEnd => exact .inr (.inr rfl)
  | lineEnd => exact .inl rfl
  | lambdaEnd => exact .inr (.inr rfl)

theorem isMade_closedBefore (l : Layout) (t : Token) : ∀ u ∈ (closedBefore l t).1, IsMade u := by
  unfold closedBefore
  split
  · intro u hu
    rcases closeLambdasAt_cases t _ l u hu with rfl | rfl
    · exact .inl rfl
    · exact .inr (.inr rfl)
  · exact forall_mem_nil _

theorem length_dropLambda (l : Layout) : (dropLambda l).brackets.length = l.brackets.length := by
  unfold dropLambda
  cases l.brackets <;> rfl

theorem length_addLambda (l : Layout) : (addLambda l).length = l.brackets.length := by
  unfold addLambda
  cases l.brackets <;> rfl

theorem length_closeLambdasTo (newline : Token) (width count : Nat) (l : Layout) :
    (closeLambdasTo newline width count l).2.brackets.length = l.brackets.length := by
  induction count generalizing l with
  | zero => rfl
  | succ count ih =>
    rw [closeLambdasTo]
    split
    · exact (ih _).trans (length_dropLambda l)
    · rfl

theorem length_closeLambdasAt (t : Token) (count : Nat) (l : Layout) :
    (closeLambdasAt t count l).2.brackets.length = l.brackets.length := by
  induction count generalizing l with
  | zero => rfl
  | succ count ih => exact (ih _).trans (length_dropLambda l)

theorem length_closedBefore (l : Layout) (t : Token) :
    (closedBefore l t).2.brackets.length = l.brackets.length := by
  unfold closedBefore
  split
  · exact length_closeLambdasAt t _ l
  · rfl

/-- A step hands on its token, or nothing else than line ends and where blocks begin and end, and
counts the brackets that it hands on. -/
structure Step.Counts (s : Step) (l : Layout) (t : Token) : Prop where
  tokens : ∀ u ∈ s.tokens, u = t ∨ IsMade u
  depth : depthOf (headsOf s.tokens) = bracketOf (.terminal t.terminal)
  brackets : s.fault = none →
    (s.layout.brackets.length : Int) = l.brackets.length + bracketOf (.terminal t.terminal)

theorem counts_newline {s : Step} {l : Layout} {t : Token} (ht : t.terminal = .newline)
    (hgives : ∀ u ∈ s.tokens, Gives t u) (hlength : s.layout.brackets.length = l.brackets.length) :
    s.Counts l t := by
  have hzero : bracketOf (.terminal t.terminal) = 0 := IsMade.bracketOf_eq (.inl ht)
  have hmade : ∀ u ∈ s.tokens, IsMade u := fun u hu => (hgives u hu).isMade ht
  refine ⟨fun u hu => .inr (hmade u hu), ?_, fun _ => ?_⟩
  · rw [depthOf_of_isMade hmade, hzero]
  · rw [hlength, hzero, Int.add_zero]

theorem length_newlineOutside (l : Layout) (t : Token) :
    (newlineOutside l t).layout.brackets.length = l.brackets.length := by
  unfold newlineOutside
  cases indentOf t.content with
  | none => rfl
  | some indent =>
    dsimp only
    split <;> rfl

theorem length_newlineInside (l : Layout) (t : Token) :
    (newlineInside l t).layout.brackets.length = l.brackets.length := by
  unfold newlineInside
  cases indentOf t.content with
  | none => rfl
  | some indent =>
    dsimp only
    split
    · split
      · exact length_addLambda l
      · rfl
    · split
      · exact length_closeLambdasTo t _ _ _
      · rfl

section Counts

variable (l : Layout) {t : Token}

theorem counts_ordinary (t : Token) : (ordinary l t).Counts l t := by
  have hmade := isMade_closedBefore l t
  have hlength := length_closedBefore l t
  rw [ordinary_eq]
  generalize closedBefore l t = r at hmade hlength
  obtain ⟨before, l'⟩ := r
  dsimp only at hmade hlength ⊢
  have htokens : ∀ u ∈ before ++ [t], u = t ∨ IsMade u :=
    forall_mem_append.mpr ⟨fun u hu => .inr (hmade u hu), forall_mem_singleton.mpr (.inl rfl)⟩
  have hdepth : depthOf (headsOf (before ++ [t])) = bracketOf (.terminal t.terminal) := by
    have hbefore := depthOf_of_isMade hmade
    unfold headsOf at hbefore ⊢
    rw [map_append, Parse.depthOf_append, hbefore]
    simp [depthOf]
  split
  · rename_i hopens
    refine ⟨htokens, hdepth, fun _ => ?_⟩
    simp [bracketOf, hopens, hlength]
  · rename_i hopens
    split
    · rename_i hcloses
      cases hbrackets : l'.brackets with
      | nil => exact ⟨htokens, hdepth, by rintro ⟨⟩⟩
      | cons count outer =>
        refine ⟨htokens, hdepth, fun _ => ?_⟩
        rw [hbrackets, length_cons] at hlength
        simp only [bracketOf, hopens, hcloses, if_true, if_false, Bool.false_eq_true]
        omega
    · rename_i hcloses
      refine ⟨htokens, hdepth, fun _ => ?_⟩
      simp [bracketOf, hopens, hcloses, hlength]

theorem counts_step (t : Token) : (l.step t).Counts l t := by
  have hseen : ∀ {s : Step}, s.Counts { l with seen := t :: l.seen } t → s.Counts l t :=
    fun h => ⟨h.tokens, h.depth, h.brackets⟩
  unfold step
  dsimp only
  split
  · rename_i ht
    split
    · exact hseen (counts_newline ht (gives_newlineOutside _ t) (length_newlineOutside _ t))
    · exact hseen (counts_newline ht (gives_newlineInside _ t) (length_newlineInside _ t))
  · exact hseen (counts_ordinary _ t)

theorem tokens_of_unmatchedBracket {l : Layout} (hbottom : l.levels.getLast? = some 0)
    (h : (l.step t).fault = some .unmatchedBracket) :
    l.brackets = [] ∧ (l.step t).tokens = [t] ∧ t.terminal.closesBracket := by
  have hcloses : t.terminal.closesBracket := (isDue_step hbottom h).1
  have hnewline : t.terminal ≠ .newline := by
    intro ht
    rw [ht] at hcloses
    cases hcloses
  have hopens : ¬ t.terminal.opensBracket := by
    intro hopens
    cases hterminal : t.terminal <;> rw [hterminal] at hcloses hopens <;> cases hcloses <;> cases hopens
  let seen : Layout := { l with seen := t :: l.seen }
  have hstep : l.step t = ordinary seen t := by
    unfold step
    dsimp only
    rw [if_neg hnewline]
  rw [hstep, ordinary_eq] at h ⊢
  have hlength := length_closedBefore seen t
  simp only [if_neg hopens, if_pos hcloses] at h ⊢
  cases hbrackets : (closedBefore seen t).2.brackets with
  | cons count outer => simp [hbrackets] at h
  | nil =>
    have hnone : l.brackets = [] := by
      rw [hbrackets] at hlength
      exact eq_nil_of_length_eq_zero hlength.symm
    have hbefore : closedBefore seen t = ([], seen) := by
      simp [closedBefore, hcloses, lambdas, seen, hnone, closeLambdasAt]
    refine ⟨hnone, ?_, hcloses⟩
    rw [hbefore]
    rfl

end Counts

end Layout

namespace Parse

variable {q : Progress}

open Layout (headsOf)

/-! ## Handing tokens over -/

/-- The error says that a token is of no use to the state in which the parser meets it, behind tokens
that it has taken from `stack` on. -/
def Refused (stack : Stack) (t : Token) (e : SyntaxError) : Prop :=
  ∃ before now last, shifted stack before = some now ∧ feed now t = .refused last ∧
    last.top.action? t.terminal = none ∧ e = refusal last t

theorem Refused.cons {stack next : Stack} {t u : Token} (h : Refused next u e)
    (hfeed : feed stack t = .shifted next) : Refused stack u e := by
  obtain ⟨before, now, last, hbefore, hrefused⟩ := h
  exact ⟨t :: before, now, last, by rw [shifted, hfeed]; exact hbefore, hrefused⟩

section Take

variable {tokens : List Token} {p : Progress} (hpath : p.stack.IsPath)
  (hend : ∀ t ∈ tokens, t.terminal ≠ .endOfText)

include hpath hend

theorem isPath_of_take (h : take p tokens = .ok q) :
    (q.cursor = p.cursor ∧ q.layout = p.layout) ∧ shifted p.stack tokens = some q.stack ∧
      q.stack.IsPath ∧ q.stack.depth = p.stack.depth + depthOf (headsOf tokens) := by
  induction tokens generalizing p with
  | nil =>
    cases h
    exact ⟨⟨rfl, rfl⟩, rfl, hpath, (Int.add_zero _).symm⟩
  | cons t tokens ih =>
    have hfeed := hpath.feed t
    rw [take] at h
    cases hfed : feed p.stack t with
    | shifted stack =>
      rw [hfed] at h hfeed
      obtain ⟨-, hstack, hdepth⟩ := hfeed
      obtain ⟨hsame, hshifted, hlast, hsum⟩ := ih (p := { p with stack := stack, taken := some t })
        hstack (fun u hu => hend u (mem_cons_of_mem t hu)) h
      refine ⟨hsame, by rw [shifted, hfed]; exact hshifted, hlast, ?_⟩
      simp only [hsum, hdepth, headsOf, map_cons, depthOf_cons]
      omega
    | accepted tree =>
      rw [hfed] at hfeed
      exact absurd hfeed (hend t mem_cons_self)
    | refused stack =>
      rw [hfed] at h
      cases h

theorem exists_refused_of_take (h : take p tokens = .error e) : ∃ t, Refused p.stack t e := by
  induction tokens generalizing p with
  | nil => cases h
  | cons t tokens ih =>
    have hfeed := hpath.feed t
    rw [take] at h
    cases hfed : feed p.stack t with
    | shifted stack =>
      rw [hfed] at h hfeed
      obtain ⟨u, hrefused⟩ := ih (p := { p with stack := stack, taken := some t }) hfeed.2.1
        (fun u hu => hend u (mem_cons_of_mem t hu)) h
      exact ⟨u, hrefused.cons hfed⟩
    | accepted tree =>
      rw [hfed] at hfeed
      exact absurd hfeed (hend t mem_cons_self)
    | refused stack =>
      rw [hfed] at h hfeed
      cases h
      exact ⟨t, [], p.stack, stack, rfl, hfed, hfeed.2, rfl⟩

end Take

theorem exists_refused_of_finish {p : Progress} (hpath : p.stack.IsPath)
    (h : finish p = .error e) : ∃ t, Refused p.stack t e := by
  have hend : ∀ t ∈ p.layout.finish, t.terminal ≠ .endOfText := by
    intro t ht
    rw [(mem_replicate.mp ht).2]
    exact Terminal.noConfusion
  simp only [finish, bind, Except.bind] at h
  cases htake : take p p.layout.finish with
  | error e' =>
    rw [htake] at h
    cases h
    exact exists_refused_of_take hpath hend htake
  | ok q =>
    simp only [htake] at h
    obtain ⟨-, hshifted, hlast, -⟩ := isPath_of_take hpath hend htake
    have hfeed := hlast.feed (endToken q.taken)
    cases hfed : feed q.stack (endToken q.taken) with
    | accepted tree =>
      rw [hfed] at h
      cases h
    | shifted stack =>
      rw [hfed] at hfeed
      exact absurd (terminal_endToken q.taken) hfeed.1
    | refused stack =>
      rw [hfed] at h hfeed
      cases h
      exact ⟨endToken q.taken, p.layout.finish, q.stack, stack, hshifted, hfed, hfeed.2, rfl⟩

/-! ## Turns -/

/-- What holds between two turns. -/
structure Ready (text : Text) (p : Progress) : Prop where
  rest : p.cursor.rest <:+ text
  path : p.stack.IsPath
  /-- The parser and the layout agree on the brackets that are open. -/
  depth : p.stack.depth = p.layout.brackets.length
  sound : ∃ produced, (p.layout.moment produced).Sound
  covered : p.layout.IsCovered

section Turn

variable {text : Text} {p : Progress} {t : Token} {cursor : Cursor}

theorem terminal_of_next {l : Lexicon} {c : Cursor} (h : l.next c = .token t cursor) :
    t.terminal ≠ .endOfText ∧ t.terminal ≠ .indent ∧ t.terminal ≠ .dedent := by
  obtain ⟨ignored, -, hread⟩ := read_of_next h
  refine ⟨fun ht => ?_, fun ht => ?_, fun ht => ?_⟩ <;>
  · rw [ht] at hread
    cases reader_of_spelling hread rfl

theorem ne_endOfText_of_next (h : p.stack.top.lexicon.next p.cursor = .token t cursor) :
    ∀ u ∈ (p.layout.step t).tokens, u.terminal ≠ .endOfText := by
  intro u hu
  rcases (Layout.counts_step p.layout t).tokens u hu with rfl | hmade | hmade | hmade
  · exact (terminal_of_next h).1
  all_goals
    rw [hmade]
    exact Terminal.noConfusion

theorem Ready.turn (hready : Ready text p)
    (hscans : p.stack.top.lexicon.next p.cursor = .token t cursor)
    (htakes : take (p.reading t cursor) (p.layout.step t).tokens = .ok q)
    (hfits : (p.layout.step t).fault = none) : Ready text q := by
  obtain ⟨⟨hcursor, hlayout⟩, -, hpath, hdepth⟩ :=
    isPath_of_take (p := p.reading t cursor) hready.path (ne_endOfText_of_next hscans) htakes
  obtain ⟨ignored, hrest, -⟩ := read_of_next hscans
  obtain ⟨produced, hsound⟩ := hready.sound
  have hplain : Layout.Moment.IsPlain t := (terminal_of_next hscans).2
  have hcounts := Layout.counts_step p.layout t
  dsimp only [Progress.reading] at hcursor hlayout hdepth
  refine ⟨?_, hpath, ?_, ?_, ?_⟩
  · rw [hcursor]
    refine IsSuffix.trans ⟨ignored ++ t.content, ?_⟩ hready.rest
    rw [hrest, append_assoc]
  · rw [hdepth, hcounts.depth, hready.depth, hlayout, hcounts.brackets hfits]
  · rw [hlayout]
    exact ⟨_, Layout.Moment.sound_of_reaches
      (Layout.reaches_step hsound hready.covered hplain hfits) hsound⟩
  · rw [hlayout]
    exact (Layout.follows_step hsound hready.covered hplain).2 hfits

theorem Reached.ready (h : Reached text p) : Ready text p := by
  induction h with
  | start =>
    exact ⟨suffix_rfl, trivial, rfl, ⟨[], Layout.Moment.sound_start⟩, Nat.zero_lt_one⟩
  | turn before scans takes fits ih => exact ih.turn scans takes fits

theorem Ready.getLast? (hready : Ready text p) (hlast : text.getLast? = some '\n')
    (hscans : p.stack.top.lexicon.next p.cursor = .token t cursor) :
    p.cursor.rest.getLast? = some '\n' := by
  have hlength := length_lt_of_next hscans
  obtain ⟨before, hbefore⟩ := hready.rest
  rw [← hbefore] at hlast
  refine (Lexeme.getLast?_of_append hlast).resolve_left fun hempty => ?_
  rw [hempty] at hlength
  exact Nat.not_lt_zero _ hlength

theorem Ready.indentOf (hready : Ready text p) (hlast : text.getLast? = some '\n')
    (hscans : p.stack.top.lexicon.next p.cursor = .token t cursor) (ht : t.terminal = .newline) :
    ∃ indent, Layout.indentOf t.content = some indent ∧ ∀ c ∈ indent, c = '\t' ∨ c = ' ' := by
  obtain ⟨indent, hindent, hblank⟩ := indentOf_of_next (hready.getLast? hlast hscans) hscans ht
  exact ⟨indent, hindent, mem_indent hblank⟩

theorem Ready.refuses_unmatchedBracket (hready : Ready text p)
    (hfault : (p.layout.step t).fault = some .unmatchedBracket) :
    (p.layout.step t).tokens = [t] ∧ ∃ stack, feed p.stack t = .refused stack := by
  obtain ⟨produced, hsound⟩ := hready.sound
  obtain ⟨hbrackets, htokens, hcloses⟩ := Layout.tokens_of_unmatchedBracket hsound.bottom hfault
  refine ⟨htokens, ?_⟩
  have hfeed := hready.path.feed t
  cases hfed : feed p.stack t with
  | refused stack => exact ⟨stack, rfl⟩
  | accepted tree =>
    rw [hfed] at hfeed
    have hend : t.terminal = .endOfText := hfeed
    rw [hend] at hcloses
    cases hcloses
  | shifted stack =>
    rw [hfed] at hfeed
    obtain ⟨-, hpath, hdepth⟩ := hfeed
    have hsign : bracketOf (.terminal t.terminal) = -1 := by
      cases hterminal : t.terminal <;> rw [hterminal] at hcloses <;> first | rfl | cases hcloses
    have hnonneg := hpath.depth_nonneg
    rw [hdepth, hready.depth, hbrackets, hsign] at hnonneg
    cases hnonneg

/-- A turn that gets past the parser has no fault but that of a line that is indented like no block
around it. -/
theorem Ready.fault_cases (hready : Ready text p) (hlast : text.getLast? = some '\n')
    (hscans : p.stack.top.lexicon.next p.cursor = .token t cursor)
    (htakes : take (p.reading t cursor) (p.layout.step t).tokens = .ok q) {fault : Layout.Fault}
    (hfault : (p.layout.step t).fault = some fault) :
    ∃ found expected, fault = .dedent found expected ∧ expected < found := by
  obtain ⟨produced, hsound⟩ := hready.sound
  have hdue := Layout.isDue_step hsound.bottom hfault
  cases fault with
  | dedent found expected => exact ⟨found, expected, rfl, hdue.2.2.2⟩
  | noLineFeed =>
    obtain ⟨indent, hindent, -⟩ := hready.indentOf hlast hscans hdue.1
    rw [Layout.indentOf, if_neg (by simpa using hdue.2)] at hindent
    cases hindent
  | unmatchedBracket =>
    obtain ⟨htokens, stack, hfed⟩ := hready.refuses_unmatchedBracket hfault
    have hreading : feed (p.reading t cursor).stack t = .refused stack := hfed
    rw [htokens, take, hreading] at htakes
    cases htakes

end Turn

/-! ## Whole texts -/

/-- What an error says of a text: the parser has no use for a token, no terminal that could come next
fits what is left, or a line is indented like no block around it. -/
inductive Rejects (text : Text) : SyntaxError → Prop
  | parser {p : Progress} {t : Token} {e : SyntaxError} (reached : Reached text p)
      (refused : Refused p.stack t e) : Rejects text e
  | scanner {p : Progress} {here : Cursor} (reached : Reached text p)
      (stops : p.stack.top.lexicon.next p.cursor = .stuck here) (left : here.rest ≠ [])
      (fits : p.stack.top.lexicon.read here.rest = none) : Rejects text (stuck text p here)
  | layout {p : Progress} {t : Token} {cursor : Cursor} {found expected : Nat}
      (reached : Reached text p)
      (scans : p.stack.top.lexicon.next p.cursor = .token t cursor)
      (faulty : (p.layout.step t).fault = some (.dedent found expected))
      (between : expected < found) : Rejects text (.layout (.dedent found expected))

/-- Reading on ends where all has been read or with an error that says what is wrong. -/
theorem readUpTo_cases {text : Text} (hlast : text.getLast? = some '\n') {bound : Nat} {p : Progress}
    (hreached : Reached text p) (hbound : p.cursor.rest.length < bound) :
    (∃ tree, readUpTo text bound p = .ok tree ∧
        ∃ q, Reached text q ∧ q.stack.top.lexicon.next q.cursor = .finished ∧ finish q = .ok tree) ∨
      ∃ e, readUpTo text bound p = .error e ∧ Rejects text e := by
  induction bound generalizing p with
  | zero => omega
  | succ bound ih =>
    have hready := hreached.ready
    rw [readUpTo]
    cases hscans : p.stack.top.lexicon.next p.cursor with
    | finished =>
      dsimp only
      cases hfinish : finish p with
      | ok tree => exact .inl ⟨tree, rfl, p, hreached, hscans, hfinish⟩
      | error e =>
        obtain ⟨t, hrefused⟩ := exists_refused_of_finish hready.path hfinish
        exact .inr ⟨e, rfl, .parser hreached hrefused⟩
    | stuck here =>
      obtain ⟨hleft, hread⟩ := read_of_stuck hscans
      exact .inr ⟨_, rfl, .scanner hreached hscans hleft hread⟩
    | token t cursor =>
      dsimp only
      have hend := ne_endOfText_of_next hscans
      cases htakes : take (p.reading t cursor) (p.layout.step t).tokens with
      | error e =>
        obtain ⟨u, hrefused⟩ := exists_refused_of_take (p := p.reading t cursor) hready.path hend htakes
        unfold Progress.reading at htakes
        rw [htakes]
        exact .inr ⟨e, rfl, .parser hreached hrefused⟩
      | ok q =>
        cases hfault : (p.layout.step t).fault with
        | some fault =>
          obtain ⟨found, expected, rfl, hbetween⟩ := hready.fault_cases hlast hscans htakes hfault
          unfold Progress.reading at htakes
          rw [htakes]
          exact .inr ⟨_, rfl, .layout hreached hscans hfault hbetween⟩
        | none =>
          have hnext := hreached.turn hscans htakes hfault
          have hshorter := length_lt_of_next hscans
          have hcursor : q.cursor = cursor :=
            (isPath_of_take (p := p.reading t cursor) hready.path hend htakes).1.1
          unfold Progress.reading at htakes
          rw [htakes]
          exact ih hnext (by rw [hcursor]; omega)

end Parse

open Parse

/-- The errors that a text can have, apart from the faults that the layout never runs into. -/
def SyntaxError.isOfText : SyntaxError → Bool
  | .token .. | .character .. | .layout (.dedent ..) => true
  | .layout .unmatchedBracket | .layout .noLineFeed => false

theorem Parse.Rejects.isOfText {text : Text} (h : Rejects text e) : e.isOfText := by
  cases h with
  | parser reached refused =>
    obtain ⟨-, -, last, -, -, -, rfl⟩ := refused
    rfl
  | scanner reached stops left fits =>
    unfold stuck
    dsimp only
    split <;> rfl
  | layout reached scans faulty between => rfl

/-- Parsing gives a tree once all has been read, or else an error that says what is wrong with the text.
On the way the file itself is never closed as a block, every line end has a line feed with only tabs and
blanks behind the last one, and a closing bracket too many is refused by the parser before the layout
pass finds fault with it. -/
theorem parse_fails_only_by_syntax (code : Text) :
    ((∃ tree, parse code = .ok tree ∧
        ∃ p, Reached (code ++ ['\n']) p ∧ p.stack.top.lexicon.next p.cursor = .finished ∧
          finish p = .ok tree) ∨
      ∃ e, parse code = .error e ∧ e.isOfText = true ∧ Rejects (code ++ ['\n']) e) ∧
    ∀ p, Reached (code ++ ['\n']) p →
      p.layout.levels.getLast? = some 0 ∧
      ∀ t cursor, p.stack.top.lexicon.next p.cursor = .token t cursor →
        (t.terminal = .newline → ∃ indent, Layout.indentOf t.content = some indent ∧
          ∀ c ∈ indent, c = '\t' ∨ c = ' ') ∧
        ((p.layout.step t).fault = some .unmatchedBracket →
          (p.layout.step t).tokens = [t] ∧ ∃ stack, feed p.stack t = .refused stack) := by
  have hlast : (code ++ ['\n']).getLast? = some '\n' := by simp
  refine ⟨?_, fun p hreached => ?_⟩
  · rcases readUpTo_cases hlast .start (Nat.lt_succ_self _) with htree | ⟨e, he, hrejects⟩
    · exact .inl htree
    · exact .inr ⟨e, he, hrejects.isOfText, hrejects⟩
  · have hready := hreached.ready
    obtain ⟨produced, hsound⟩ := hready.sound
    exact ⟨hsound.bottom, fun t cursor hscans =>
      ⟨hready.indentOf hlast hscans, hready.refuses_unmatchedBracket⟩⟩

end GDWorkbench
