import GDWorkbench.Proofs.Parse.Failures

/-!
The tokens of a text. What the scanner can read depends on what has been parsed, so the tokens are those
of a run: `scanned` are the ones that the scanner reads while a text is parsed, and `stream` the ones
that the layout makes of them and hands to the parser.

A text that is parsed has been read from its first character to its last: the scanned tokens and the
pieces that are ignored between them follow each other without a gap. And its tree is what the stream
alone leads to, since the parser shifts all of it.
-/

namespace GDWorkbench

variable {pieces : List Token}

/-! ## Pieces of a text -/

/-- Pieces that follow each other from one place to another, each read with some lexicon. -/
inductive Lexed : Cursor → List Token → Cursor → Prop
  | nil (c : Cursor) : Lexed c [] c
  | cons {c stop : Cursor} {l : Lexicon} {terminal : Terminal} {taken rest : Text}
      {pieces : List Token} (read : l.read c.rest = some (terminal, taken, rest))
      (more : Lexed (c.past taken rest) pieces stop) :
      Lexed c (c.token terminal taken (c.past taken rest) :: pieces) stop

namespace Lexed

theorem append {c here stop : Cursor} {first second : List Token} (hfirst : Lexed c first here)
    (hsecond : Lexed here second stop) : Lexed c (first ++ second) stop := by
  induction hfirst with
  | nil c => exact hsecond
  | cons read more ih => exact .cons read (ih hsecond)

/-- A piece begins on the line where the pieces before it end, or further down. -/
theorem le_line {c stop : Cursor} (h : Lexed c pieces stop) :
    ∀ t ∈ pieces, ∃ line, t.span.line = some line ∧ c.line ≤ line := by
  induction h with
  | nil c => simp
  | @cons c stop l terminal taken rest pieces read more ih =>
    intro t ht
    rcases List.mem_cons.mp ht with rfl | ht
    · exact ⟨c.line, rfl, Nat.le_refl _⟩
    · obtain ⟨line, hline, hle⟩ := ih t ht
      exact ⟨line, hline, Nat.le_trans (Nat.le_add_right _ _) hle⟩

end Lexed

namespace Lexicon

variable {l : Lexicon}

/-- The scanner passes over pieces that are ignored up to the next token. -/
theorem lexed_of_next {c stop : Cursor} {t : Token} (h : l.next c = .token t stop) :
    ∃ ignored, (∀ u ∈ ignored, u.terminal.isIgnored) ∧ t.terminal.isIgnored = false ∧
      Lexed c (ignored ++ [t]) stop := by
  have hcomes := comesTo_of_next h
  clear h
  generalize hfound : Scanned.token t stop = found at hcomes
  induction hcomes with
  | finished => cases hfound
  | stuck => cases hfound
  | token read kept =>
    cases hfound
    exact ⟨[], by simp, kept, .cons read (.nil _)⟩
  | ignored read ignored more ih =>
    obtain ⟨pieces, hall, ht, hlexed⟩ := ih hfound
    exact ⟨_ :: pieces, List.forall_mem_cons.mpr ⟨ignored, hall⟩, ht, .cons read hlexed⟩

theorem lexed_of_finished {c : Cursor} (h : l.next c = .finished) :
    ∃ ignored stop, (∀ u ∈ ignored, u.terminal.isIgnored) ∧ Lexed c ignored stop ∧
      stop.rest = [] := by
  have hcomes := comesTo_of_next h
  clear h
  generalize hfound : Scanned.finished = found at hcomes
  induction hcomes with
  | @finished c ends => exact ⟨[], c, by simp, .nil c, ends⟩
  | stuck => cases hfound
  | token => cases hfound
  | ignored read ignored more ih =>
    obtain ⟨pieces, stop, hall, hlexed, hstop⟩ := ih hfound
    exact ⟨_ :: pieces, stop, List.forall_mem_cons.mpr ⟨ignored, hall⟩, .cons read hlexed, hstop⟩

end Lexicon

namespace Parse

variable {text code : Text} {bound : Nat} {p : Progress} {tree : Tree}

/-! ## Tokens of a run -/

def scannedUpTo : Nat → Progress → List Token
  | 0, _ => []
  | bound + 1, p =>
    match p.stack.top.lexicon.next p.cursor with
    | .finished | .stuck _ => []
    | .token t cursor =>
      t :: match take (p.reading t cursor) (p.layout.step t).tokens, (p.layout.step t).fault with
        | .ok q, none => scannedUpTo bound q
        | _, _ => []

/-- The tokens that the scanner reads while a text is parsed. A last line end is added to the text. -/
def scanned (code : Text) : List Token :=
  let text := code ++ ['\n']
  scannedUpTo (text.length + 1) ⟨Cursor.ofText text, Layout.start, [], none, none⟩

def stream (code : Text) : List Token :=
  (Layout.run (scanned code)).tokens

/-- How a tree comes about from a place on. -/
structure Completes (bound : Nat) (p : Progress) (tree : Tree) : Prop where
  /-- All of the text is read. -/
  lexed : ∃ pieces stop, Lexed p.cursor pieces stop ∧ stop.rest = [] ∧
    pieces.filter (fun t => !t.terminal.isIgnored) = scannedUpTo bound p
  faultless : (p.layout.runFrom (scannedUpTo bound p)).fault = none
  /-- All that the layout hands on is shifted, and the end completes the tree. -/
  shifted : ∃ stack last,
    shifted p.stack (p.layout.runFrom (scannedUpTo bound p)).tokens = some stack ∧
      last.terminal = .endOfText ∧ feed stack last = .accepted tree

theorem filter_ignored (h : ∀ u ∈ pieces, u.terminal.isIgnored) :
    pieces.filter (fun t => !t.terminal.isIgnored) = [] := by
  rw [List.filter_eq_nil_iff]
  intro u hu
  simp [h u hu]

theorem completes_of_finish (hready : Ready text p) (hscans : p.stack.top.lexicon.next p.cursor = .finished)
    (h : finish p = .ok tree) : Completes (bound + 1) p tree := by
  have hscanned : scannedUpTo (bound + 1) p = [] := by rw [scannedUpTo, hscans]
  obtain ⟨ignored, stop, hignored, hlexed, hstop⟩ := Lexicon.lexed_of_finished hscans
  refine ⟨⟨ignored, stop, hlexed, hstop, ?_⟩, ?_, ?_⟩
  · rw [hscanned, filter_ignored hignored]
  · rw [hscanned]
    rfl
  · have hend : ∀ t ∈ p.layout.finish, t.terminal ≠ .endOfText := by
      intro t ht
      rw [(List.mem_replicate.mp ht).2]
      exact Terminal.noConfusion
    simp only [finish, bind, Except.bind] at h
    cases htake : take p p.layout.finish with
    | error e =>
      rw [htake] at h
      cases h
    | ok q =>
      simp only [htake] at h
      obtain ⟨-, hshifted, -, -⟩ := isPath_of_take hready.path hend htake
      refine ⟨q.stack, endToken q.taken, by rw [hscanned]; exact hshifted, terminal_endToken _, ?_⟩
      cases hfed : feed q.stack (endToken q.taken) with
      | accepted found =>
        rw [hfed] at h
        cases h
        rfl
      | shifted stack =>
        rw [hfed] at h
        cases h
      | refused stack =>
        rw [hfed] at h
        cases h

theorem completes_of_readUpTo (hreached : Reached text p) (hbound : p.cursor.rest.length < bound)
    (h : readUpTo text bound p = .ok tree) : Completes bound p tree := by
  induction bound generalizing p with
  | zero => omega
  | succ bound ih =>
    have hready := hreached.ready
    rw [readUpTo] at h
    cases hscans : p.stack.top.lexicon.next p.cursor with
    | finished =>
      rw [hscans] at h
      exact completes_of_finish hready hscans h
    | stuck here =>
      rw [hscans] at h
      cases h
    | token t cursor =>
      simp only [hscans] at h
      cases htakes : take (p.reading t cursor) (p.layout.step t).tokens with
      | error e =>
        unfold Progress.reading at htakes
        rw [htakes] at h
        cases h
      | ok q =>
        have hreading := htakes
        unfold Progress.reading at hreading
        rw [hreading] at h
        cases hfault : (p.layout.step t).fault with
        | some fault =>
          rw [hfault] at h
          cases h
        | none =>
          simp only [hfault] at h
          obtain ⟨⟨hcursor, hlayout⟩, htaken, -, -⟩ :=
            isPath_of_take (p := p.reading t cursor) hready.path (ne_endOfText_of_next hscans) htakes
          dsimp only [Progress.reading] at hcursor hlayout htaken
          have hshorter := Lexicon.length_lt_of_next hscans
          obtain ⟨⟨pieces, stop, hpieces, hstop, hfilter⟩, hfaultless, stack, last, hshifted, hlast⟩ :=
            ih (hreached.turn hscans htakes hfault) (by rw [hcursor]; omega) h
          obtain ⟨ignored, hignored, ht, hlexed⟩ := Lexicon.lexed_of_next hscans
          rw [hcursor] at hpieces
          rw [hlayout] at hfaultless hshifted
          have hscanned : scannedUpTo (bound + 1) p = t :: scannedUpTo bound q := by
            simp only [scannedUpTo, hscans, htakes, hfault]
          have hrun : p.layout.runFrom (t :: scannedUpTo bound q) =
              { (p.layout.step t).layout.runFrom (scannedUpTo bound q) with
                tokens := (p.layout.step t).tokens ++
                  ((p.layout.step t).layout.runFrom (scannedUpTo bound q)).tokens } := by
            rw [Layout.runFrom, hfault]
          refine ⟨⟨_, stop, hlexed.append hpieces, hstop, ?_⟩, ?_, stack, last, ?_, hlast⟩
          · rw [hscanned, List.filter_append, List.filter_append, filter_ignored hignored, hfilter]
            simp [ht]
          · rw [hscanned, hrun]
            exact hfaultless
          · rw [hscanned, hrun, shifted_append, htaken, Option.bind_some]
            exact hshifted

theorem completes_of_parse (h : parse code = .ok tree) : Completes ((code ++ ['\n']).length + 1)
      ⟨Cursor.ofText (code ++ ['\n']), Layout.start, [], none, none⟩ tree :=
  completes_of_readUpTo .start (Nat.lt_succ_self _) h

theorem fault_scanned (h : parse code = .ok tree) : (Layout.run (scanned code)).fault = none :=
  (completes_of_parse h).faultless

theorem shifted_stream (h : parse code = .ok tree) :
    ∃ stack last, shifted [] (stream code) = some stack ∧ last.terminal = .endOfText ∧
      feed stack last = .accepted tree :=
  (completes_of_parse h).shifted

/-- The scanned tokens are what is left of the pieces of the text once some are ignored. -/
theorem lexed_scanned (h : parse code = .ok tree) :
    ∃ pieces stop, Lexed (Cursor.ofText (code ++ ['\n'])) pieces stop ∧ stop.rest = [] ∧
      pieces.filter (fun t => !t.terminal.isIgnored) = scanned code :=
  (completes_of_parse h).lexed

end Parse

end GDWorkbench
