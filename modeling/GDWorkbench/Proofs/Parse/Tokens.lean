import GDWorkbench.Parse
import GDWorkbench.Proofs.Scan.Advance

/-!
Where the tokens of a tree come from. The parser puts no token into a tree that it was not handed,
the layout hands on what the scanner read or tokens with part of its text, and the scanner reads
from the text. So what holds of every token with a text from the rest of the source, and of those
that stand for no text, holds of every token that reading on adds to a tree.
-/

namespace GDWorkbench

open List Parse.Stack

variable {t : Token}

namespace Tree

theorem mem_tokensAll {trees : List Tree} : t ∈ tokensAll trees ↔ ∃ tree ∈ trees, t ∈ tree.tokens := by
  induction trees with
  | nil => simp [tokensAll]
  | cons tree trees ih => simp [tokensAll, ih]

theorem tokensAll_append (first second : List Tree) :
    tokensAll (first ++ second) = tokensAll first ++ tokensAll second := by
  induction first with
  | nil => rfl
  | cons tree first ih => simp [tokensAll, ih]

end Tree

namespace Layout

/-- The tokens that the layout can make of one. -/
inductive Gives (t : Token) : Token → Prop
  | self : Gives t t
  | indent {indent : Text} (h : indentOf t.content = some indent) : Gives t (t.borrow .indent indent)
  | blockEnd : Gives t (blockEnd t)
  /-- The end of a lambda that a line end, if there is none, comes before. -/
  | lineEnd : Gives t (t.borrow .newline noText)
  | lambdaEnd : Gives t (t.borrow .dedent noText)

theorem gives_closeTo (newline : Token) (width : Nat) (levels : List Nat) :
    ∀ u ∈ (closeTo newline width levels).1, Gives newline u := by
  induction levels with
  | nil => exact forall_mem_nil _
  | cons top outer ih =>
    rw [closeTo]
    split
    · exact forall_mem_cons.mpr ⟨.blockEnd, forall_mem_cons.mpr ⟨.self, ih⟩⟩
    · exact forall_mem_nil _

theorem gives_closeLambdasTo (newline : Token) (width count : Nat) (l : Layout) :
    ∀ u ∈ (closeLambdasTo newline width count l).1, Gives newline u := by
  induction count generalizing l with
  | zero => exact forall_mem_nil _
  | succ count ih =>
    rw [closeLambdasTo]
    split
    · refine forall_mem_cons.mpr ⟨.blockEnd, ?_⟩
      dsimp only
      split
      · exact ih _
      · exact forall_mem_cons.mpr ⟨.self, ih _⟩
    · exact forall_mem_nil _

theorem closeLambdasAt_cases (t : Token) (count : Nat) (l : Layout) :
    ∀ u ∈ (closeLambdasAt t count l).1, u = t.borrow .newline noText ∨ u = t.borrow .dedent noText := by
  induction count generalizing l with
  | zero => exact forall_mem_nil _
  | succ count ih =>
    rw [closeLambdasAt]
    refine forall_mem_append.mpr ⟨?_, forall_mem_cons.mpr ⟨.inr rfl, ih _⟩⟩
    split
    · exact forall_mem_nil _
    · exact forall_mem_singleton.mpr (.inl rfl)

theorem gives_newlineOutside (l : Layout) (t : Token) :
    ∀ u ∈ (newlineOutside l t).tokens, Gives t u := by
  unfold newlineOutside
  cases hindent : indentOf t.content with
  | none => exact forall_mem_singleton.mpr .self
  | some indent =>
    dsimp only
    split
    · exact forall_mem_cons.mpr ⟨.self, forall_mem_singleton.mpr (.indent hindent)⟩
    · exact forall_mem_cons.mpr ⟨.self, gives_closeTo t _ _⟩

theorem gives_newlineInside (l : Layout) (t : Token) :
    ∀ u ∈ (newlineInside l t).tokens, Gives t u := by
  unfold newlineInside
  cases hindent : indentOf t.content with
  | none => exact forall_mem_nil _
  | some indent =>
    dsimp only
    split
    · split
      · exact forall_mem_cons.mpr ⟨.self, forall_mem_singleton.mpr (.indent hindent)⟩
      · exact forall_mem_nil _
    · split
      · exact forall_mem_cons.mpr ⟨.self, gives_closeLambdasTo t _ _ _⟩
      · exact forall_mem_nil _

theorem gives_ordinary (l : Layout) (t : Token) : ∀ u ∈ (ordinary l t).tokens, Gives t u := by
  have hclose (b : Bool) :
      ∀ u ∈ (if b then closeLambdasAt t l.lambdas l else ([], l)).1 ++ [t], Gives t u := by
    refine forall_mem_append.mpr ⟨?_, forall_mem_singleton.mpr .self⟩
    split
    · intro u hu
      rcases closeLambdasAt_cases t _ _ u hu with rfl | rfl
      · exact .lineEnd
      · exact .lambdaEnd
    · exact forall_mem_nil _
  intro u hu
  apply hclose (t.terminal.closesBracket || t.terminal = .comma)
  simp only [ordinary] at hu
  split at hu
  · exact hu
  · split at hu
    · split at hu <;> exact hu
    · exact hu

theorem gives_step (l : Layout) (t : Token) : ∀ u ∈ (l.step t).tokens, Gives t u := by
  unfold step
  dsimp only
  split
  · split
    · exact gives_newlineOutside _ t
    · exact gives_newlineInside _ t
  · exact gives_ordinary _ t

/-- The text of a token that the layout makes is part of the text it is made of, or stands for none. -/
theorem Gives.content {u : Token} (h : Gives t u) : u.content <:+: t.content ∨ u.content = noText := by
  cases h with
  | self => exact .inl (infix_refl _)
  | @indent indent hindent =>
    unfold indentOf at hindent
    split at hindent
    · cases hindent
      left
      rw [← reverse_infix]
      simpa [Token.content, Token.borrow] using ( takeWhile_prefix _).isInfix
    · cases hindent
  | blockEnd => exact .inl nil_infix
  | lineEnd => exact .inr rfl
  | lambdaEnd => exact .inr rfl

theorem Gives.line_eq {u : Token} (h : Gives t u) : u.span.line = t.span.line := by
  cases h <;> rfl

end Layout

namespace Parse

variable {stack : Stack} {tree : Tree} {head : Nonterminal} {p : Progress} {tokens : List Token} {text : Text}
  {bound : Nat}

variable {P : Token → Prop}

def Stack.Holds (P : Token → Prop) (stack : Stack) : Prop :=
  ∀ frame ∈ stack, ∀ t ∈ Tree.tokensAll frame.trees, P t

theorem Stack.Holds.push (h : stack.Holds P) (target : Nat) (ht : P t) : (stack.push target t).Holds P := by
  intro frame hframe u hu
  rcases mem_cons.mp hframe with rfl | hframe
  · obtain rfl : u = t := by simpa [Tree.tokensAll, Tree.tokens] using hu
    exact ht
  · exact h frame hframe u hu

theorem mem_of_pop? {symbols : List Symbol} {rest : Stack} {taken frames : List (Symbol × Frame)}
    (h : pop? symbols stack taken = some (frames, rest)) :
    (∀ f ∈ frames, f ∈ taken ∨ f.2 ∈ stack) ∧ ∀ f ∈ rest, f ∈ stack := by
  fun_induction pop? symbols stack taken with
  | case1 stack taken =>
    cases h
    exact ⟨fun f hf => .inl hf, fun f hf => hf⟩
  | case2 => cases h
  | case3 taken s symbols frame stack heq ih =>
    obtain ⟨hframes, hrest⟩ := ih h
    refine ⟨fun f hf => ?_, fun f hf => mem_cons_of_mem _ (hrest f hf)⟩
    rcases hframes f hf with hf | hf
    · rcases mem_cons.mp hf with rfl | hf
      · exact .inr mem_cons_self
      · exact .inl hf
    · exact .inr (mem_cons_of_mem _ hf)
  | case4 => cases h

theorem mem_of_keep {f : Symbol × Frame} (h : tree ∈ keep f) : tree ∈ f.2.trees := by
  obtain ⟨s, frame⟩ := f
  cases s <;> first | exact h | simp [keep] at h

theorem tokens_locate (extent : Option Span) (tree : Tree) :
    (locate extent tree).tokens = tree.tokens := by
  cases tree with
  | token t => rfl
  | node k span children => cases span <;> rfl

theorem tokensAll_build (b : Build) (kept : List Tree) (extent : Option Span) :
    Tree.tokensAll (build b kept extent).1 = Tree.tokensAll kept := by
  unfold build
  split <;> simp [Tree.tokensAll, Tree.tokens, tokens_locate]

theorem reduce?_cases {next : Stack} {p : Production} (h : stack.reduce? head p = some next) :
    ∃ frames rest target, pop? p.symbols.reverse stack [] = some (frames, rest) ∧
      next = ⟨target, .nonterminal head, (build p.build (frames.flatMap keep) (extentOf frames)).1,
        (build p.build (frames.flatMap keep) (extentOf frames)).2⟩ :: rest := by
  obtain ⟨⟨frames, rest⟩, hpop, h⟩ := Option.bind_eq_some_iff.mp h
  obtain ⟨target, -, h⟩ := Option.bind_eq_some_iff.mp h
  exact ⟨frames, rest, target, hpop, (Option.some.inj h).symm⟩

theorem Stack.Holds.reduce? {next : Stack} (h : stack.Holds P)
    {p : Production} (hnext : stack.reduce? head p = some next) : next.Holds P := by
  obtain ⟨frames, rest, target, hpop, rfl⟩ := reduce?_cases hnext
  obtain ⟨hframes, hrest⟩ := mem_of_pop? hpop
  intro frame hframe t ht
  rcases mem_cons.mp hframe with rfl | hframe
  · rw [tokensAll_build, Tree.mem_tokensAll] at ht
    obtain ⟨tree, htree, ht⟩ := ht
    obtain ⟨f, hf, htree⟩ := mem_flatMap.mp htree
    rcases hframes f hf with hf | hf
    · simp at hf
    · exact h f.2 hf t (Tree.mem_tokensAll.mpr ⟨tree, mem_of_keep htree, ht⟩)
  · exact h frame (hrest frame hframe) t ht

/-- The property of the tokens on the stack passes on to what a token leads to. -/
def Fed.Holds (P : Token → Prop) : Fed → Prop
  | .shifted stack | .refused stack => stack.Holds P
  | .accepted tree => ∀ t ∈ tree.tokens, P t

theorem Stack.Holds.feed {stack : Stack} (h : stack.Holds P) {t : Token} (ht : P t) :
    (feed stack t).Holds P := by
  have hbound : ∀ (bound : Nat) (stack : Stack), stack.Holds P →
      (feedUpTo bound stack t).Holds P := by
    intro bound
    induction bound with
    | zero => exact fun stack h => h
    | succ bound ih =>
      intro stack h
      simp only [feedUpTo]
      split
      · exact h
      · exact h.push _ ht
      · split
        · exact h
        · rename_i next hnext
          have hreduced := h.reduce? hnext
          split
          · rename_i tree _ _
            intro u hu
            exact hreduced _ mem_cons_self u (Tree.mem_tokensAll.mpr ⟨tree, by simp, hu⟩)
          · exact ih _ hreduced
  exact hbound _ stack h

theorem holds_of_take {q : Progress} (h : p.stack.Holds P)
    (htokens : ∀ t ∈ tokens, P t) (hq : take p tokens = .ok q) :
    q.stack.Holds P ∧ q.cursor = p.cursor := by
  induction tokens generalizing p with
  | nil =>
    cases hq
    exact ⟨h, rfl⟩
  | cons t tokens ih =>
    have hfeed := h.feed (htokens t mem_cons_self)
    simp only [take] at hq
    split at hq
    · rename_i stack heq
      rw [heq] at hfeed
      exact ih (p := { p with stack := stack, taken := some t }) hfeed
        (fun u hu => htokens u (mem_cons_of_mem t hu)) hq
    · cases hq
      exact ⟨h, rfl⟩
    · cases hq

/-- The end of the text has no text, and neither have the ends of the blocks it closes. -/
theorem holds_of_finish (hempty : ∀ t : Token, t.content = [] → P t)
    (h : p.stack.Holds P) (htree : finish p = .ok tree) : ∀ t ∈ tree.tokens, P t := by
  have hclosing : ∀ t ∈ p.layout.finish, P t := by
    intro t ht
    rw [Layout.finish, mem_replicate] at ht
    exact hempty t (by rw [ht.2]; rfl)
  simp only [finish, bind, Except.bind] at htree
  split at htree
  · cases htree
  · rename_i q hq
    have hlast : P (endToken q.taken) := by
      apply hempty
      unfold endToken
      split <;> rfl
    have hfeed := (holds_of_take h hclosing hq).1.feed hlast
    split at htree
    · rename_i heq
      cases htree
      rw [heq] at hfeed
      exact hfeed
    · cases htree
    · cases htree

/-- What holds of the tokens on the stack, of every token with a text from the rest of the source
and of those that stand for no text, holds of all tokens of the tree. -/
theorem holds_of_readUpTo (hnone : ∀ t : Token, t.content = Layout.noText → P t)
    (hrest : ∀ t : Token, t.content <:+: p.cursor.rest → P t)
    (h : p.stack.Holds P) (htree : readUpTo text bound p = .ok tree) :
    ∀ t ∈ tree.tokens, P t := by
  have hempty : ∀ t : Token, t.content = [] → P t := fun t ht => hrest t (ht ▸ nil_infix)
  induction bound generalizing p with
  | zero => exact holds_of_finish hempty h htree
  | succ bound ih =>
    simp only [readUpTo] at htree
    split at htree
    · exact holds_of_finish hempty h htree
    · cases htree
    · rename_i t cursor hnext
      obtain ⟨ignored, hsplit, -⟩ := Lexicon.read_of_next hnext
      have hmade : ∀ u ∈ (p.layout.step t).tokens, P u := by
        intro u hu
        rcases (Layout.gives_step p.layout t u hu).content with hu | hu
        · exact hrest u (hu.trans ⟨ignored, cursor.rest, by rw [hsplit, append_assoc]⟩)
        · exact hnone u hu
      split at htree
      · cases htree
      · rename_i q hq
        obtain ⟨hstack, hcursor⟩ := holds_of_take
          (p := { p with cursor := cursor, layout := (p.layout.step t).layout, scanned := some t })
          h hmade hq
        split at htree
        · cases htree
        · apply ih _ hstack htree
          intro u hu
          rw [hcursor] at hu
          exact hrest u (hu.trans ⟨ignored ++ t.content, [], by rw [hsplit]; simp⟩)

end Parse

end GDWorkbench
