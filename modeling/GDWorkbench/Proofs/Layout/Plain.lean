import GDWorkbench.Proofs.Layout.Moments

/-!
Layout without lambdas. Where no lambda begins, blocks come from indentation alone: a line end in brackets
means nothing, and any other one opens a block or closes some, by the width of the next line. `Plain` is the
pass that does just that. On a stream without `func` layout does the same, token by token, but for the end of a
block at a line end: it has no text, and the line end comes once more behind it.
-/

namespace GDWorkbench.Layout

open List

/-! ## The plain pass -/

/-- What the plain pass writes: what it has read, starts and ends of blocks at a line end, and the ends of the
blocks that are open at last. -/
inductive Piece where
  | read (t : Token)
  | blockStart (newline : Token) (indent : Text)
  | blockEnd (newline : Token) (indent : Text)
  | finalEnd

namespace Piece

def token : Piece → Token
  | read t => t
  | blockStart newline indent => newline.borrow .indent indent
  | blockEnd newline indent => newline.borrow .dedent indent
  | finalEnd => finalBlockEnd

/-- The end of a block without text, and its line end once more. All else stays as it is. -/
def doubled : Piece → List Token
  | blockEnd newline _ => [Layout.blockEnd newline, newline]
  | piece => [piece.token]

end Piece

structure Plain where
  levels : List Nat
  /-- How many brackets are open. -/
  depth : Int

namespace Plain

structure Step where
  pieces : List Piece
  state : Plain
  fault : Option Fault

def closeTo (newline : Token) (indent : Text) : List Nat → List Piece × List Nat
  | [] => ([], [])
  | top :: outer =>
    if indentWidth indent < top then
      let (pieces, left) := closeTo newline indent outer
      (.blockEnd newline indent :: pieces, left)
    else ([], top :: outer)

def newline (p : Plain) (t : Token) : Step :=
  if 0 < p.depth then ⟨[], p, none⟩
  else match indentOf t.content with
    | none => ⟨[.read t], p, some .noLineFeed⟩
    | some indent =>
      let width := indentWidth indent
      if p.levels.headD 0 < width then
        ⟨[.read t, .blockStart t indent], { p with levels := width :: p.levels }, none⟩
      else
        let (pieces, left) := closeTo t indent p.levels
        ⟨.read t :: pieces, { p with levels := left },
          if width = left.headD 0 then none else some (.dedent width (left.headD 0))⟩

def step (p : Plain) (t : Token) : Step :=
  if t.terminal = .newline then p.newline t
  else if t.terminal.opensBracket then ⟨[.read t], { p with depth := p.depth + 1 }, none⟩
  else if t.terminal.closesBracket then
    ⟨[.read t], { p with depth := p.depth - 1 }, if p.depth - 1 < 0 then some .unmatchedBracket else none⟩
  else ⟨[.read t], p, none⟩

structure Run where
  pieces : List Piece
  state : Plain
  fault : Option Fault

/-- At the end all blocks are closed but the outermost one. -/
def runFrom (p : Plain) : List Token → Run
  | [] => ⟨replicate (p.levels.length - 1) .finalEnd, { p with levels := p.levels.getLast?.toList }, none⟩
  | t :: rest =>
    let s := p.step t
    match s.fault with
    | some fault => ⟨s.pieces, s.state, fault⟩
    | none =>
      let r := runFrom s.state rest
      { r with pieces := s.pieces ++ r.pieces }

def run (tokens : List Token) : Run :=
  runFrom ⟨[0], 0⟩ tokens

end Plain

/-! ## Headers and ends of blocks -/

theorem exists_kwFunc_of_endsHeaderFrom {part : HeaderPart} {tokens : List Token}
    (h : endsHeaderFrom part tokens) (hpart : part ≠ .complete) :
    ∃ t ∈ tokens, t.terminal = .kwFunc := by
  induction tokens generalizing part with
  | nil => cases part <;> first | exact absurd rfl hpart | cases h
  | cons t before ih =>
    by_cases ht : t.terminal = .kwFunc
    · exact ⟨t, mem_cons_self, ht⟩
    have hnext : ∃ later, part.next t = some later ∧ endsHeaderFrom later before := by
      cases part <;> first | exact absurd rfl hpart | (
        rw [endsHeaderFrom] at h
        split at h
        · exact ⟨_, ‹_›, h⟩
        · cases h
        · rintro ⟨⟩)
    obtain ⟨later, hlater, h⟩ := hnext
    have hcomplete : later ≠ .complete := by
      rintro rfl
      revert hlater
      fun_cases HeaderPart.next part t <;> simp_all
    obtain ⟨u, hu, hfunc⟩ := ih h hcomplete
    exact ⟨u, mem_cons_of_mem t hu, hfunc⟩

/-- No lambda is open, and none has begun. -/
structure IsQuiet (l : Layout) : Prop where
  bottom : l.levels.getLast? = some 0
  brackets : ∀ n ∈ l.brackets, n = 0
  seen : ∀ t ∈ l.seen, t.terminal ≠ .kwFunc

theorem IsQuiet.lambdas {l : Layout} (h : l.IsQuiet) : l.lambdas = 0 := by
  obtain ⟨levels, brackets, seen, after⟩ := l
  cases brackets with
  | nil => rfl
  | cons n outer => exact h.brackets n mem_cons_self

theorem IsQuiet.not_endsHeader {l : Layout} (h : l.IsQuiet) : endsHeader l.seen = false := by
  refine Bool.eq_false_iff.mpr fun hheader => ?_
  obtain ⟨t, ht, hfunc⟩ := exists_kwFunc_of_endsHeaderFrom hheader (by decide)
  exact h.seen t ht hfunc

theorem closeTo_eq_plain (newline : Token) (indent : Text) (levels : List Nat) :
    closeTo newline (indentWidth indent) levels =
      ((Plain.closeTo newline indent levels).1.flatMap Piece.doubled,
        (Plain.closeTo newline indent levels).2) := by
  induction levels with
  | nil => rfl
  | cons top outer ih =>
    by_cases hwidth : indentWidth indent < top
    · simp [closeTo, Plain.closeTo, hwidth, ih, Piece.doubled]
    · simp [closeTo, Plain.closeTo, hwidth]

/-- Blocks are never closed down to less than the outermost one. -/
theorem getLast?_closeTo (newline : Token) (indent : Text) {levels : List Nat}
    (h : levels.getLast? = some 0) : (Plain.closeTo newline indent levels).2.getLast? = some 0 := by
  induction levels with
  | nil => cases h
  | cons top outer ih =>
    by_cases hwidth : indentWidth indent < top
    · cases outer with
      | nil =>
        obtain rfl : top = 0 := Option.some.inj h
        exact absurd hwidth (Nat.not_lt_zero _)
      | cons below outer => simpa [Plain.closeTo, hwidth] using ih (getLast?_cons_cons.symm.trans h)
    · simpa [Plain.closeTo, hwidth] using h

/-! ## Steps and runs -/

/-- A step gives what the plain step gives, with ends of blocks doubled, and leads to the same state. -/
structure Step.Doubles (s : Step) (p : Plain.Step) : Prop where
  tokens : s.tokens = p.pieces.flatMap Piece.doubled
  state : ⟨s.layout.levels, depthAt s.layout s.fault⟩ = p.state
  fault : s.fault = p.fault
  quiet : s.layout.IsQuiet

def plain (l : Layout) : Plain :=
  ⟨l.levels, l.brackets.length⟩

section

variable {l : Layout} {t : Token} (hl : l.IsQuiet)

include hl

theorem doubles_newlineOutside (houtside : l.brackets = []) :
    (newlineOutside l t).Doubles (l.plain.newline t) := by
  have hdepth : ¬ 0 < l.plain.depth := by simp [plain, houtside]
  unfold newlineOutside Plain.newline
  rw [if_neg hdepth]
  cases indentOf t.content with
  | none => exact ⟨rfl, rfl, rfl, hl.bottom, hl.brackets, hl.seen⟩
  | some indent =>
    have hlevel : l.plain.levels.headD 0 = l.level := rfl
    dsimp only
    rw [hlevel]
    by_cases hwidth : l.level < indentWidth indent
    · rw [if_pos hwidth, if_pos hwidth]
      refine ⟨rfl, rfl, rfl, ?_, hl.brackets, hl.seen⟩
      simp [getLast?_cons, hl.bottom]
    · rw [if_neg hwidth, if_neg hwidth, closeTo_eq_plain]
      refine ⟨rfl, ?_, rfl, getLast?_closeTo t indent hl.bottom, hl.brackets, hl.seen⟩
      dsimp only
      split <;> rfl

theorem doubles_newlineInside (hinside : l.brackets ≠ []) (hfeed : '\n' ∈ t.content) :
    (newlineInside l t).Doubles (l.plain.newline t) := by
  have hdepth : 0 < l.plain.depth := by
    have := length_pos_of_ne_nil hinside
    simp only [plain]
    omega
  have hdrops : newlineInside l t = ⟨[], l, none⟩ := by
    simp [newlineInside, indentOf, hfeed, hl.lambdas, hl.not_endsHeader]
  rw [hdrops, Plain.newline, if_pos hdepth]
  exact ⟨rfl, rfl, rfl, hl⟩

theorem doubles_ordinary (hnewline : t.terminal ≠ .newline) :
    (ordinary l t).Doubles (l.plain.step t) := by
  have hnone : closedBefore l t = ([], l) := by
    rw [closedBefore, hl.lambdas]
    split <;> rfl
  rw [ordinary_eq, hnone, Plain.step, if_neg hnewline]
  dsimp only
  split
  · exact ⟨rfl, by simp [plain, depthAt], rfl, hl.bottom, forall_mem_cons.mpr ⟨rfl, hl.brackets⟩, hl.seen⟩
  · split
    · cases hbrackets : l.brackets with
      | nil =>
        exact ⟨rfl, by simp [plain, depthAt, hbrackets], by simp [plain, hbrackets], hl.bottom,
          forall_mem_nil _, hl.seen⟩
      | cons n outer =>
        have houter : ∀ n ∈ outer, n = 0 := fun m hm =>
          hl.brackets m (hbrackets ▸ mem_cons_of_mem n hm)
        exact ⟨rfl, by simp [plain, depthAt, hbrackets], by simp [plain, hbrackets], hl.bottom,
          houter, hl.seen⟩
    · exact ⟨rfl, rfl, rfl, hl.bottom, hl.brackets, hl.seen⟩

theorem doubles_step (hfunc : t.terminal ≠ .kwFunc) (hfeed : t.terminal = .newline → '\n' ∈ t.content) :
    (l.step t).Doubles (l.plain.step t) := by
  have hquiet : IsQuiet { l with seen := t :: l.seen } :=
    ⟨hl.bottom, hl.brackets, forall_mem_cons.mpr ⟨hfunc, hl.seen⟩⟩
  unfold Layout.step
  split
  · rename_i hnewline
    have hplain : l.plain.step t = l.plain.newline t := if_pos hnewline
    rw [hplain]
    dsimp only
    split
    · rename_i hempty
      exact doubles_newlineOutside hquiet (isEmpty_iff.mp hempty)
    · rename_i hopen
      exact doubles_newlineInside hquiet (fun hnil => hopen (isEmpty_iff.mpr hnil)) (hfeed hnewline)
  · rename_i hnewline
    exact doubles_ordinary hquiet hnewline

theorem runFrom_eq_plain {tokens : List Token} (hfunc : ∀ t ∈ tokens, t.terminal ≠ .kwFunc)
    (hfeed : ∀ t ∈ tokens, t.terminal = .newline → '\n' ∈ t.content) :
    runFrom l tokens =
      ⟨(l.plain.runFrom tokens).pieces.flatMap Piece.doubled, (l.plain.runFrom tokens).state.levels,
        (l.plain.runFrom tokens).state.depth, (l.plain.runFrom tokens).fault⟩ := by
  induction tokens generalizing l with
  | nil => simp [runFrom, Plain.runFrom, finish, plain, hl.bottom, Piece.doubled, Piece.token, flatMap_replicate]
  | cons t rest ih =>
    have hstep := doubles_step hl (hfunc t mem_cons_self) (hfeed t mem_cons_self)
    have hstate := hstep.state
    rw [hstep.fault] at hstate
    rw [runFrom, Plain.runFrom, hstep.fault]
    cases hfault : (l.plain.step t).fault with
    | some fault =>
      rw [hfault] at hstate
      simp [hstep.tokens, ← hstate]
    | none =>
      rw [hfault] at hstate
      have hrest := ih hstep.quiet (fun u hu => hfunc u (mem_cons_of_mem t hu))
        fun u hu => hfeed u (mem_cons_of_mem t hu)
      have hplain : (l.step t).layout.plain = (l.plain.step t).state := hstate
      rw [hplain] at hrest
      simp [hrest, hstep.tokens]

end

/-- On a stream without lambdas layout is the plain pass with ends of blocks doubled: it fails where the plain
pass fails and in the same way, and it ends with the same blocks and brackets open. -/
theorem run_eq_plain {tokens : List Token} (hfunc : ∀ t ∈ tokens, t.terminal ≠ .kwFunc)
    (hfeed : ∀ t ∈ tokens, t.terminal = .newline → '\n' ∈ t.content) :
    run tokens =
      ⟨(Plain.run tokens).pieces.flatMap Piece.doubled, (Plain.run tokens).state.levels,
        (Plain.run tokens).state.depth, (Plain.run tokens).fault⟩ :=
  runFrom_eq_plain ⟨rfl, forall_mem_nil _, forall_mem_nil _⟩ hfunc hfeed

/-- A block with a bracket over two lines in it, and a line that closes the block with a wrong width. -/
def blockStream : List Token :=
  [(Terminal.kwIf, "if"), (.colon, ":"), (.newline, "\n\t"), (.leftParen, "("), (.newline, "\n"),
    (.rightParen, ")"), (.newline, "\n\t\t"), (.kwPass, "pass"), (.newline, "\n  ")].map
      fun (terminal, text) => ⟨terminal, some text.toList, Span.nowhere, none⟩

theorem run_eq_plain_blocks :
    (∀ t ∈ blockStream, t.terminal ≠ .kwFunc) ∧
      (∀ t ∈ blockStream, t.terminal = .newline → '\n' ∈ t.content) ∧
      (run blockStream).fault = some (.dedent 2 0) ∧
      (run blockStream).tokens = (Plain.run blockStream).pieces.flatMap Piece.doubled ∧
      ((Plain.run blockStream).pieces.map (Piece.token · |>.terminal)) =
        [.kwIf, .colon, .newline, .indent, .leftParen, .rightParen, .newline, .indent, .kwPass, .newline,
          .dedent, .dedent] := by
  have hfunc : ∀ t ∈ blockStream, t.terminal ≠ .kwFunc := by decide
  have hfeed : ∀ t ∈ blockStream, t.terminal = .newline → '\n' ∈ t.content := by decide
  have hplain : (Plain.run blockStream).fault = some (.dedent 2 0) := by decide
  have hrun := run_eq_plain hfunc hfeed
  exact ⟨hfunc, hfeed, (congrArg Run.fault hrun).trans hplain, congrArg Run.tokens hrun, by decide⟩

end GDWorkbench.Layout
