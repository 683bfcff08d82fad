import GDWorkbench.Proofs.Parse.Frames

/-!
Every token of a tree stands in the text. The tokens that the layout makes up for line ends and blocks
are marks of the grammar: no production keeps them.
-/

namespace GDWorkbench

open List GDWorkbench.Tree

/-- Some lexicon reads the token at the beginning of some text. -/
def Token.IsScanned (t : Token) : Prop :=
  ∃ (l : Lexicon) (rest : Text), l.read (t.content ++ rest) = some (t.terminal, t.content, rest)

theorem Lexed.isScanned {c stop : Cursor} {pieces : List Token} (h : Lexed c pieces stop) :
    ∀ t ∈ pieces, t.IsScanned := by
  induction h with
  | nil c => exact forall_mem_nil _
  | @cons c stop l terminal taken rest pieces read more ih =>
    refine forall_mem_cons.mpr ⟨⟨l, rest, ?_⟩, ih⟩
    rw [Lexicon.divides_read read] at read
    exact read

theorem Layout.mem_of_mem_runFrom {l : Layout} {tokens : List Token} {u : Token}
    (h : u ∈ (l.runFrom tokens).tokens) : u ∈ tokens ∨ IsMade u := by
  induction tokens generalizing l with
  | nil =>
    rw [(mem_replicate.mp h).2]
    exact .inr (.inr (.inr rfl))
  | cons t tokens ih =>
    rw [runFrom] at h
    have hstep := (counts_step l t).tokens u
    cases hfault : (l.step t).fault with
    | some fault =>
      simp only [hfault] at h
      exact (hstep h).imp_left (mem_cons.mpr <| .inl ·)
    | none =>
      simp only [hfault] at h
      rcases mem_append.mp h with h | h
      · exact (hstep h).imp_left (mem_cons.mpr <| .inl ·)
      · exact (ih h).imp_left (mem_cons_of_mem t)

namespace Parse

def keepsLayout : Symbol → Bool
  | .leaf .newline | .leaf .indent | .leaf .dedent => true
  | _ => false

theorem keepsLayout_of_mem (head : Nonterminal) :
    ∀ p ∈ head.productions, ∀ s ∈ p.symbols, keepsLayout s = false := by
  revert head
  decide +kernel

/-- The tokens in the trees of a frame are tokens of its word. -/
structure HoldsTokens (frame : Frame) (word : List Token) : Prop where
  mem : ∀ t ∈ tokensAll frame.trees, t ∈ word
  terminal : ∀ t, frame.head = .terminal t → ∀ u ∈ tokensAll frame.trees, u.terminal = t
  kept : ∀ n, frame.head = .nonterminal n → ∀ u ∈ tokensAll frame.trees, ¬ Layout.IsMade u

theorem HoldsTokens.of_keep {symbol : Symbol} {frame : Frame} {word : List Token}
    (h : HoldsTokens frame word) (hhead : headOf symbol = frame.head)
    (hkeeps : keepsLayout symbol = false) :
    ∀ u ∈ tokensAll (keep (symbol, frame)), u ∈ word ∧ ¬ Layout.IsMade u := by
  cases symbol with
  | mark t => exact forall_mem_nil _
  | leaf t =>
    refine fun u hu => ⟨h.mem u hu, fun hmade => ?_⟩
    unfold Layout.IsMade at hmade
    rw [h.terminal t hhead.symm u hu] at hmade
    rcases hmade with rfl | rfl | rfl <;> cases hkeeps
  | node k => exact fun u hu => ⟨h.mem u hu, h.kept _ hhead.symm u hu⟩
  | part f => exact fun u hu => ⟨h.mem u hu, h.kept _ hhead.symm u hu⟩

theorem tokens_frames {frames : List (Symbol × Frame)} {words : List (List Token)}
    (h : Forall₂ (fun f word => HoldsTokens f.2 word) frames words)
    (hheads : ∀ f ∈ frames, headOf f.1 = f.2.head)
    (hkeeps : ∀ f ∈ frames, keepsLayout f.1 = false) :
    ∀ u ∈ tokensAll (frames.flatMap keep), u ∈ words.flatten ∧ ¬ Layout.IsMade u := by
  induction h with
  | nil => exact forall_mem_nil _
  | @cons f word frames words hframe hframes ih =>
    obtain ⟨hhead, hheads⟩ := forall_mem_cons.mp hheads
    obtain ⟨hkeep, hkeeps⟩ := forall_mem_cons.mp hkeeps
    intro u hu
    rw [flatMap_cons, tokensAll_append] at hu
    rw [flatten_cons]
    rcases mem_append.mp hu with hu | hu
    · exact (hframe.of_keep hhead hkeep u hu).imp_left (mem_append_left _)
    · exact (ih hheads hkeeps u hu).imp_left (mem_append_right _)

theorem tracks_tokens : Tracks HoldsTokens where
  shift state t := by
    have htokens : tokensAll [.token t] = [t] := rfl
    refine ⟨by simp [htokens], fun terminal h u hu => ?_, nofun⟩
    obtain rfl : u = t := by simpa [htokens] using hu
    exact Head.terminal.inj h
  complete := by
    intro head p hp frames words hsymbols hheads hwords target
    have hall := tokens_frames hwords hheads fun f hf =>
      keepsLayout_of_mem head p hp f.1 (hsymbols ▸ mem_map_of_mem hf)
    rw [← tokensAll_build p.build _ (extentOf frames)] at hall
    exact ⟨fun t ht => (hall t ht).1, nofun, fun _ _ t ht => (hall t ht).2⟩

/-- Every token of a tree has been scanned, is not ignored, and is none that the layout makes up. -/
theorem isKept_of_parse {code : Text} {tree : Tree} (h : parse code = .ok tree) :
    ∀ t ∈ tree.tokens, t.IsScanned ∧ t.terminal.isIgnored = false ∧ ¬ Layout.IsMade t := by
  obtain ⟨state, extent, hholds⟩ := tracks_tokens.parse h
  obtain ⟨pieces, stop, hlexed, -, hscanned⟩ := lexed_scanned h
  intro t ht
  have hmem : t ∈ tokensAll [tree] := by simpa [tokensAll] using ht
  have hmade := hholds.kept _ rfl t hmem
  have ht : t ∈ scanned code := (Layout.mem_of_mem_runFrom (hholds.mem t hmem)).resolve_right hmade
  rw [← hscanned] at ht
  obtain ⟨ht, hignored⟩ := mem_filter.mp ht
  exact ⟨hlexed.isScanned t ht, by simpa using hignored, hmade⟩

theorem isScanned_of_parse {code : Text} {tree : Tree} (h : parse code = .ok tree) :
    ∀ t ∈ tree.tokens, t.IsScanned :=
  fun t ht => (isKept_of_parse h t ht).1

end Parse

end GDWorkbench
