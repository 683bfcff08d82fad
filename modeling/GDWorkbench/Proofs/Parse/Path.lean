import GDWorkbench.Proofs.Grammar.Ladder
import GDWorkbench.Proofs.Parse.Knowledge
import GDWorkbench.Parse
import Mathlib.Algebra.Ring.Int.Defs

/-!
The stack of the parser is a path of the automaton: every frame stands where its symbol leads from the
state below. What a state knows of a production is therefore what the frames on top of the stack are.

Three things follow. A production that is complete can always be taken off the stack. No more brackets
are closed on the stack than opened, since the productions of the grammar close no bracket that they
have not opened. And a token is refused only where the state has no use for it.
-/

namespace GDWorkbench.Parse

open List Stack

variable {stack : Stack} {head : Nonterminal} {p : Production} {t : Terminal} {read : List Head}

open Automaton

def Stack.number : Stack → Nat
  | [] => 0
  | frame :: _ => frame.state

theorem top_eq (stack : Stack) : stack.top = state stack.number := by
  cases stack <;> rfl

def Stack.IsPath : Stack → Prop
  | [] => True
  | frame :: below => (top below).next? frame.head = some frame.state ∧ IsPath below

def Stack.heads (stack : Stack) : List Head :=
  stack.map Frame.head

theorem lt_mostSymbols_of_known {left number : Nat} {x : Head}
    (h : ⟨head, x :: read⟩ ∈ known left number) : left < mostSymbols := by
  obtain ⟨p, hp, rest, rfl, hsymbols⟩ := exists_of_known h
  have hlength := length_symbols_le head p hp
  rw [← length_map (f := headOf), hsymbols] at hlength
  simp at hlength
  omega

/-- The frames of what has been read of a production are on top of the stack, and below them is a state
where the production can begin. -/
theorem Stack.IsPath.exists_spelled (hpath : stack.IsPath) {left : Nat} {x : Head}
    (hknown : ⟨head, x :: read⟩ ∈ known left stack.number) :
    ∃ above below : Stack, stack = above ++ below ∧ above.heads = x :: read ∧ below.IsPath ∧
      ∃ target, below.top.goto? head = some target := by
  -- one symbol is taken off at a time, from the last one read to the first
  have hleft := lt_mostSymbols_of_known hknown
  induction read generalizing stack left x with
  | nil =>
    cases stack with
    | nil => exact absurd hknown (not_known_first hleft)
    | cons frame below =>
      obtain ⟨hnext, hbelow⟩ := hpath
      rw [top_eq] at hnext
      obtain ⟨hhead, hgoto⟩ := exists_goto?_of_next? hleft hnext hknown
      refine ⟨[frame], below, rfl, congrArg ([·]) hhead, hbelow, ?_⟩
      rwa [top_eq, goto?_state]
  | cons y read ih =>
    cases stack with
    | nil => exact absurd hknown (not_known_first hleft)
    | cons frame below =>
      obtain ⟨hnext, hbelow⟩ := hpath
      rw [top_eq] at hnext
      obtain ⟨hhead, hbefore⟩ := known_of_next? hleft hnext hknown
      obtain ⟨above, rest, rfl, hheads, hrest⟩ := ih hbelow hbefore (lt_mostSymbols_of_known hbefore)
      exact ⟨frame :: above, rest, rfl, congrArg₂ (· :: ·) hhead hheads, hrest⟩

theorem Stack.IsPath.exists_spelled_of_action? (hpath : stack.IsPath)
    (h : (state stack.number).action? t = some (.reduce head p)) :
    ∃ above below : Stack, stack = above ++ below ∧ above.heads = (p.symbols.map headOf).reverse ∧
      below.IsPath ∧ ∃ target, below.top.goto? head = some target := by
  obtain ⟨-, hknown, hempty, -⟩ := known_of_action? h
  unfold Progress.of at hknown
  cases hread : (p.symbols.map headOf).reverse with
  | nil =>
    refine ⟨[], stack, rfl, rfl, hpath, ?_⟩
    rw [top_eq, goto?_state]
    exact hempty (by simpa using hread)
  | cons x read =>
    rw [hread] at hknown
    exact hpath.exists_spelled hknown

theorem pop?_append {symbols : List Symbol} {above : Stack}
    (h : above.heads = symbols.map headOf) (below : Stack) (taken : List (Symbol × Frame)) :
    ∃ frames, Stack.pop? symbols (above ++ below) taken = some (frames, below) := by
  induction symbols generalizing above taken with
  | nil =>
    obtain rfl : above = [] := map_eq_nil_iff.mp h
    exact ⟨taken, rfl⟩
  | cons symbol symbols ih =>
    obtain ⟨frame, above, rfl, hframe, habove⟩ := map_eq_cons_iff.mp h
    obtain ⟨frames, hpop⟩ := ih habove ((symbol, frame) :: taken)
    refine ⟨frames, ?_⟩
    rw [cons_append, Stack.pop?, if_pos hframe.symm, hpop]

/-- A production replaces the frames of its symbols by one frame. -/
inductive Reduces (head : Nonterminal) (p : Production) : Stack → Stack → Prop
  | intro {above below : Stack} {frame : Frame}
      (spelled : above.heads = (p.symbols.map headOf).reverse)
      (made : frame.head = .nonterminal head) (path : below.IsPath)
      (next : below.top.goto? head = some frame.state) :
      Reduces head p (above ++ below) (frame :: below)

theorem Stack.IsPath.exists_reduces (hpath : stack.IsPath) (h : stack.top.action? t = some (.reduce head p)) :
    ∃ next, stack.reduce? head p = some next ∧ Reduces head p stack next := by
  rw [top_eq] at h
  obtain ⟨above, below, rfl, hheads, hbelow, target, hgoto⟩ := hpath.exists_spelled_of_action? h
  have hreversed : above.heads = p.symbols.reverse.map headOf := by rw [hheads, map_reverse]
  obtain ⟨frames, hpop⟩ := pop?_append hreversed below []
  let made := build p.build (frames.flatMap keep) (extentOf frames)
  refine ⟨⟨target, .nonterminal head, made.1, made.2⟩ :: below, ?_, .intro hheads rfl hbelow hgoto⟩
  simp only [reduce?, hpop, hgoto, bind, Option.bind]
  rfl

theorem Reduces.isPath {next : Stack} (h : Reduces head p stack next) : next.IsPath := by
  obtain ⟨-, hmade, hpath, hnext⟩ := h
  refine ⟨?_, hpath⟩
  rw [hmade]
  exact hnext

/-! ## Brackets -/

def bracketOf : Head → Int
  | .terminal t => if t.opensBracket then 1 else if t.closesBracket then -1 else 0
  | .nonterminal _ => 0

def depthOf (heads : List Head) : Int :=
  (heads.map bracketOf).sum

@[simp]
theorem depthOf_cons (x : Head) (heads : List Head) :
    depthOf (x :: heads) = bracketOf x + depthOf heads :=
  rfl

@[simp]
theorem depthOf_append (first second : List Head) :
    depthOf (first ++ second) = depthOf first + depthOf second := by
  simp [depthOf]

theorem depthOf_reverse (heads : List Head) : depthOf heads.reverse = depthOf heads := by
  induction heads with
  | nil => rfl
  | cons x heads ih =>
    rw [reverse_cons, depthOf_append, ih]
    simp [depthOf]
    omega

/-- A production closes the brackets that it opens, and no other one on the way. -/
theorem balanced_productions (head : Nonterminal) :
    ∀ p ∈ head.productions, depthOf (p.symbols.map headOf) = 0 ∧
      ∀ dot ≤ p.symbols.length, 0 ≤ depthOf ((p.symbols.take dot).map headOf) := by
  revert head
  decide +kernel

theorem depthOf_nonneg_of_known {left number : Nat}
    (h : ⟨head, read⟩ ∈ known left number) : 0 ≤ depthOf read := by
  obtain ⟨p, hp, rest, rfl, hsymbols⟩ := exists_of_known h
  have hlength : read.length ≤ p.symbols.length := by
    rw [← length_map (f := headOf), hsymbols]
    simp
  have htake : (p.symbols.take read.length).map headOf = read.reverse := by
    rw [map_take, hsymbols, ← length_reverse, take_left]
  rw [← depthOf_reverse, ← htake]
  exact (balanced_productions head p hp).2 _ hlength

def Stack.depth (stack : Stack) : Int :=
  depthOf stack.heads

/-- The stack never holds more closing brackets than opening ones. -/
theorem Stack.IsPath.depth_nonneg (hpath : stack.IsPath) : 0 ≤ stack.depth := by
  -- below what has been read of a production is a shorter path
  induction hlength : stack.length using Nat.strongRecOn generalizing stack with
  | ind length ih =>
    cases stack with
    | nil => exact Int.le_refl 0
    | cons frame below =>
      obtain ⟨hnext, hbelow⟩ := id hpath
      cases hhead : frame.head with
      | nonterminal head =>
        have hrest := ih below.length (by rw [← hlength]; exact Nat.lt_succ_self _) hbelow rfl
        simpa [depth, Stack.heads, hhead, bracketOf] using hrest
      | terminal t =>
        rw [top_eq, hhead] at hnext
        obtain ⟨-, left, head, x, read, hknown⟩ := exists_known_of_shift? hnext
        obtain ⟨above, rest, hstack, hheads, hrest, -⟩ := hpath.exists_spelled hknown
        have hread := depthOf_nonneg_of_known hknown
        have hshorter : rest.length < length := by
          have habove := congrArg List.length hheads
          simp only [Stack.heads, length_map, length_cons] at habove
          rw [← hlength, hstack, length_append]
          omega
        have hdepth := ih rest.length hshorter hrest rfl
        rw [hstack, depth, Stack.heads, map_append, depthOf_append]
        unfold Stack.heads at hheads
        rw [hheads]
        unfold depth Stack.heads at hdepth
        omega

theorem Reduces.depth_eq (hp : p ∈ head.productions)
    {next : Stack} (h : Reduces head p stack next) : next.depth = stack.depth := by
  obtain ⟨hspelled, hmade, -, -⟩ := h
  have hzero := (balanced_productions head p hp).1
  unfold Stack.heads at hspelled
  simp [depth, Stack.heads, hmade, bracketOf, hspelled, depthOf_reverse, hzero]

/-! ## Feeding -/

theorem shift?_of_action? {s : State} {target : Nat}
    (h : s.action? t = some (.shift target)) : s.shift? t = some target := by
  unfold State.action? at h
  split at h
  · rename_i found hfound
    obtain rfl : found = target := by simpa using h
    exact hfound
  · obtain ⟨found, hfound, hreduce⟩ := Option.map_eq_some_iff.mp h
    cases hreduce

def Stack.weight (stack : Stack) : Nat :=
  weightOf stack.heads + (row stack.number).weight

theorem Stack.weight_lt (stack : Stack) : stack.weight < feedBound stack := by
  have hframes := weightOf_le stack.heads
  have hrow : (row stack.number).weight ≤ skipWeight := by
    unfold Row.weight
    split <;> simp
  simp only [Stack.heads, length_map, skipWeight] at hframes hrow
  simp only [Stack.weight, Stack.heads, feedBound]
  omega

theorem Reduces.weight_lt {next : Stack} (h : Reduces head p stack next)
    (haction : stack.top.action? t = some (.reduce head p)) : next.weight < stack.weight := by
  rw [top_eq] at haction
  obtain ⟨hspelled, hmade, -, hnext⟩ := h
  rw [top_eq] at hnext
  have hlighter := weight_lt_of_action? haction hnext
  unfold Stack.heads at hspelled
  simp only [Stack.weight, Stack.heads, Stack.number, map_cons, map_append, hspelled,
    hmade, weightOf_cons, weightOf_append, weightOf_reverse] at hlighter ⊢
  omega

def Fed.Follows (stack : Stack) (t : Token) : Fed → Prop
  | .shifted next =>
    t.terminal ≠ .endOfText ∧ next.IsPath ∧
      next.depth = stack.depth + bracketOf (.terminal t.terminal)
  | .accepted _ => t.terminal = .endOfText
  | .refused next => next.IsPath ∧ next.top.action? t.terminal = none

theorem Stack.IsPath.feed {stack : Stack} (hpath : stack.IsPath) (t : Token) :
    (feed stack t).Follows stack t := by
  have hbound : ∀ (bound : Nat) (now : Stack), now.IsPath → now.depth = stack.depth →
      now.weight < bound → (feedUpTo bound now t).Follows stack t := by
    intro bound
    induction bound with
    | zero =>
      intro now _ _ hweight
      omega
    | succ bound ih =>
      intro now hpath hdepth hweight
      rw [feedUpTo]
      cases haction : now.top.action? t.terminal with
      | none => exact ⟨hpath, haction⟩
      | some action =>
        cases action with
        | shift target =>
          have hshift := shift?_of_action? haction
          refine ⟨?_, ⟨hshift, hpath⟩, ?_⟩
          · rw [top_eq] at hshift
            exact (exists_known_of_shift? hshift).1
          · rw [← hdepth, Int.add_comm]
            rfl
        | reduce head p =>
          obtain ⟨next, hreduce, hreduces⟩ := hpath.exists_reduces haction
          rw [top_eq] at haction
          obtain ⟨hproduction, -, -, hstart⟩ := known_of_action? haction
          have hsame := hreduces.depth_eq hproduction
          rw [← top_eq] at haction
          have hlighter := hreduces.weight_lt haction
          simp only [hreduce]
          split
          · exact hstart rfl
          · exact ih next hreduces.isPath (hsame.trans hdepth) (by omega)
  exact hbound _ stack hpath rfl stack.weight_lt

end GDWorkbench.Parse
