import GDWorkbench.Proofs.Parse.Stream
import GDWorkbench.Proofs.Parse.Tokens

/-!
What a tree owes to its tokens. Every frame of the parser's stack stands for a word: the tokens from
which it was built. A relation between frames and words that holds of a shifted token, and that every
production carries over from its symbols to the whole, holds of all frames. So it holds of the tree of
a text and the whole stream of its tokens.
-/

namespace GDWorkbench.Parse

variable {word : List Token}

/-- A relation between what has been built and the tokens it was built from. -/
structure Tracks (R : Frame → List Token → Prop) : Prop where
  shift (state : Nat) (t : Token) : R ⟨state, .terminal t.terminal, [.token t], some t.span⟩ [t]
  complete {head : Nonterminal} {p : Production} (hp : p ∈ head.productions)
    {frames : List (Symbol × Frame)} {words : List (List Token)}
    (hsymbols : frames.map Prod.fst = p.symbols) (hheads : ∀ f ∈ frames, headOf f.1 = f.2.head)
    (hwords : List.Forall₂ (fun f word => R f.2 word) frames words) (target : Nat) :
    R ⟨target, .nonterminal head, (build p.build (frames.flatMap keep) (extentOf frames)).1,
      (build p.build (frames.flatMap keep) (extentOf frames)).2⟩ words.flatten

/-- A stack with the tokens it was built from. -/
inductive Stack.Spells (R : Frame → List Token → Prop) : Stack → List Token → Prop
  | nil : Spells R [] []
  | cons {frame : Frame} {word : List Token} {below : Stack} {before : List Token}
      (frame_spells : R frame word) (below_spells : Spells R below before) :
      Spells R (frame :: below) (before ++ word)

variable {R : Frame → List Token → Prop}

theorem Stack.Spells.pop? {symbols : List Symbol} {stack rest : Stack}
    {taken frames : List (Symbol × Frame)} {words : List (List Token)}
    (h : stack.Spells R word) (hwords : List.Forall₂ (fun f word => R f.2 word) taken words)
    (hheads : ∀ f ∈ taken, headOf f.1 = f.2.head)
    (hpop : Stack.pop? symbols stack taken = some (frames, rest)) :
    ∃ before all, rest.Spells R before ∧ List.Forall₂ (fun f word => R f.2 word) frames all ∧
      before ++ all.flatten = word ++ words.flatten ∧
      frames.map Prod.fst = symbols.reverse ++ taken.map Prod.fst ∧
      ∀ f ∈ frames, headOf f.1 = f.2.head := by
  induction symbols generalizing stack taken word words with
  | nil =>
    cases hpop
    exact ⟨word, words, h, hwords, rfl, rfl, hheads⟩
  | cons symbol symbols ih =>
    cases h with
    | nil => cases hpop
    | @cons frame last below before hframe hbelow =>
      rw [Stack.pop?] at hpop
      split at hpop
      · rename_i hhead
        obtain ⟨before, all, hrest, hall, hword, hsymbols, hheads⟩ :=
          ih hbelow (.cons hframe hwords) (List.forall_mem_cons.mpr ⟨hhead, hheads⟩) hpop
        exact ⟨before, all, hrest, hall, by simpa using hword, by simpa using hsymbols, hheads⟩
      · cases hpop

theorem Stack.Spells.reduce? (hR : Tracks R) {stack next : Stack}
    (h : stack.Spells R word) {head : Nonterminal} {p : Production} (hp : p ∈ head.productions)
    (hnext : stack.reduce? head p = some next) : next.Spells R word := by
  obtain ⟨frames, rest, target, hpop, rfl⟩ := reduce?_cases hnext
  obtain ⟨before, all, hrest, hall, hword, hsymbols, hheads⟩ := h.pop? .nil (by simp) hpop
  have hframe := hR.complete hp (by simpa using hsymbols) hheads hall target
  have hwhole : before ++ all.flatten = word := by simpa using hword
  rw [← hwhole]
  exact .cons hframe hrest

/-- A token that is shifted adds itself to the word, and one that completes the tree adds nothing. -/
def Fed.Spells (R : Frame → List Token → Prop) (word : List Token) (t : Token) : Fed → Prop
  | .shifted stack => stack.Spells R (word ++ [t])
  | .accepted tree => ∃ state extent, R ⟨state, .nonterminal (.node .start), [tree], extent⟩ word
  | .refused _ => True

theorem Stack.Spells.feed (hR : Tracks R) {stack : Stack}
    (h : stack.Spells R word) (t : Token) : (feed stack t).Spells R word t := by
  have hbound : ∀ (bound : Nat) (now : Stack), now.Spells R word →
      (feedUpTo bound now t).Spells R word t := by
    intro bound
    induction bound with
    | zero => exact fun now h => trivial
    | succ bound ih =>
      intro now h
      rw [feedUpTo]
      cases haction : now.top.action? t.terminal with
      | none => trivial
      | some action =>
        cases action with
        | shift target => exact .cons (hR.shift target t) h
        | reduce head p =>
          rw [top_eq] at haction
          have hp := (Automaton.known_of_action? haction).1
          cases hreduce : now.reduce? head p with
          | none =>
            simp only [hreduce]
            trivial
          | some next =>
            have hspells := h.reduce? hR hp hreduce
            simp only [hreduce]
            split
            · rename_i state frameHead tree extent
              obtain ⟨frames, rest, target, -, hnext⟩ := reduce?_cases hreduce
              obtain ⟨hframe, -⟩ := List.cons.inj hnext
              obtain rfl : frameHead = .nonterminal (.node .start) := congrArg Frame.head hframe
              cases hspells with
              | @cons _ last _ before hlast hbelow =>
                cases hbelow
                exact ⟨state, extent, hlast⟩
            · exact ih next hspells
  exact hbound _ stack h

theorem Stack.Spells.shifted (hR : Tracks R) {stack next : Stack} {word tokens : List Token}
    (h : stack.Spells R word) (hnext : shifted stack tokens = some next) :
    next.Spells R (word ++ tokens) := by
  induction tokens generalizing stack word with
  | nil =>
    cases hnext
    simpa using h
  | cons t tokens ih =>
    have hfeed := h.feed hR t
    rw [Parse.shifted] at hnext
    split at hnext
    · rename_i heq
      rw [heq] at hfeed
      simpa using ih hfeed hnext
    · cases hnext

/-- What is carried over by every production holds of the tree of a text and its stream. -/
theorem Tracks.parse (hR : Tracks R) {code : Text} {tree : Tree} (h : parse code = .ok tree) :
    ∃ state extent, R ⟨state, .nonterminal (.node .start), [tree], extent⟩ (stream code) := by
  obtain ⟨stack, last, hshifted, -, haccepted⟩ := shifted_stream h
  have hspells := Stack.Spells.nil.shifted hR hshifted
  have hfeed := hspells.feed hR last
  rw [haccepted] at hfeed
  exact hfeed

end GDWorkbench.Parse
