import GDWorkbench.Proofs.Parse.Conformance
import GDWorkbench.Proofs.Parse.Scanned
import GDWorkbench.Proofs.Scan.LastLineFeed
import GDWorkbench.Shape

/-!
Whether a file ends with a line feed does not matter, unless its last line is joined to the one that is
not there. A file and the same file with a line feed behind it are parsed alike turn by turn, up to the
line end that both end with. From there on the stacks differ in the texts of line ends at most, and no
production keeps these.
-/

namespace GDWorkbench

open List GDWorkbench.Tree

/-- Tokens that say the same to the parser. What the text of a line end is says nothing to it. -/
structure Token.Alike (t u : Token) : Prop where
  terminal_eq : t.terminal = u.terminal
  content_eq : t.terminal ≠ .newline → t.content = u.content

theorem Token.Alike.refl (t : Token) : t.Alike t :=
  ⟨rfl, fun _ => rfl⟩

/-! ## The layout -/

namespace Layout

theorem alike_newline {t u : Token} (ht : t.terminal = .newline) (hu : u.terminal = .newline) :
    t.Alike u :=
  ⟨ht.trans hu.symm, fun h => absurd ht h⟩

theorem alike_blockEnd (t u : Token) : (blockEnd t).Alike (blockEnd u) :=
  ⟨rfl, fun _ => rfl⟩

section LineEnds

variable {t u : Token} (h : t.Alike u)

include h

theorem alike_closeTo (width : Nat) (levels : List Nat) :
    Forall₂ Token.Alike (closeTo t width levels).1 (closeTo u width levels).1 ∧
      (closeTo t width levels).2 = (closeTo u width levels).2 := by
  induction levels with
  | nil => exact ⟨.nil, rfl⟩
  | cons top outer ih =>
    simp only [closeTo]
    split
    · exact ⟨.cons (alike_blockEnd t u) (.cons h ih.1), ih.2⟩
    · exact ⟨.nil, rfl⟩

theorem alike_closeLambdasTo (width count : Nat) {l m : Layout} (hlevels : l.levels = m.levels) :
    Forall₂ Token.Alike (closeLambdasTo t width count l).1 (closeLambdasTo u width count m).1 ∧
      (closeLambdasTo t width count l).2.levels = (closeLambdasTo u width count m).2.levels := by
  induction count generalizing l m with
  | zero => exact ⟨.nil, hlevels⟩
  | succ count ih =>
    have hlevel : l.level = m.level := by rw [level, level, hlevels]
    simp only [closeLambdasTo, hlevel]
    split
    · obtain ⟨htokens, hlevels⟩ := ih (l := { dropLambda l with afterNewline := count != 0 })
        (m := { dropLambda m with afterNewline := count != 0 }) (congrArg tail hlevels)
      refine ⟨.cons (alike_blockEnd t u) ?_, hlevels⟩
      split
      · exact htokens
      · exact .cons h htokens
    · exact ⟨.nil, hlevels⟩

end LineEnds

/-- A line end with no indentation behind it is made the same, whatever comes before. -/
theorem alike_step (l : Layout) {t u : Token} (ht : t.terminal = .newline)
    (hu : u.terminal = .newline) (htext : indentOf t.content = some [])
    (hutext : indentOf u.content = some []) :
    Forall₂ Token.Alike (l.step t).tokens (l.step u).tokens ∧
      (l.step t).layout.levels = (l.step u).layout.levels ∧ (l.step t).fault = (l.step u).fault := by
  have halike := alike_newline ht hu
  have hwidth : indentWidth [] = 0 := rfl
  simp only [step, ht, hu, if_true]
  split
  · obtain ⟨htokens, hlevels⟩ := alike_closeTo halike 0 l.levels
    simp only [newlineOutside, htext, hutext, hwidth, Nat.not_lt_zero, if_false, hlevels]
    exact ⟨.cons halike htokens, trivial, trivial⟩
  · simp only [newlineInside, htext, hutext, hwidth, Nat.not_lt_zero, if_false, lambdas]
    split
    · obtain ⟨htokens, hlevels⟩ := alike_closeLambdasTo halike 0 (l.brackets.headD 0)
        (l := ⟨l.levels, l.brackets, t :: l.seen, true⟩)
        (m := ⟨l.levels, l.brackets, u :: l.seen, true⟩) rfl
      exact ⟨.cons halike htokens, hlevels, rfl⟩
    · exact ⟨.nil, rfl, rfl⟩

end Layout

namespace Parse

variable {stack stack' : Stack} {head : Nonterminal} {p : Progress}

/-! ## Stacks -/

/-- Frames that differ in the text of a line end or in places at most. -/
structure Frame.Alike (f g : Frame) : Prop where
  state_eq : f.state = g.state
  head_eq : f.head = g.head
  shapes_eq : f.head ≠ .terminal .newline → shapes f.trees = shapes g.trees

theorem Frame.Alike.refl (f : Frame) : f.Alike f :=
  ⟨rfl, rfl, fun _ => rfl⟩

theorem Frame.Alike.symm {f g : Frame} (h : f.Alike g) : g.Alike f :=
  ⟨h.state_eq.symm, h.head_eq.symm, fun hg => (h.shapes_eq (h.head_eq ▸ hg)).symm⟩

abbrev Stack.Alike : Stack → Stack → Prop :=
  Forall₂ Frame.Alike

theorem Stack.Alike.refl (stack : Stack) : stack.Alike stack :=
  forall₂_same.mpr fun f _ => .refl f

theorem Stack.Alike.symm (h : stack.Alike stack') : stack'.Alike stack :=
  h.flip.imp fun _ _ => Frame.Alike.symm

/-- Frames taken off two stacks for the same symbol, which is not a line end that is kept. -/
structure Matches (f g : Symbol × Frame) : Prop where
  symbol_eq : f.1 = g.1
  kept : f.1 ≠ .leaf .newline
  head_eq : headOf f.1 = f.2.head
  alike : f.2.Alike g.2

theorem Matches.shapes_keep {f g : Symbol × Frame} (h : Matches f g) :
    shapes (keep f) = shapes (keep g) := by
  obtain ⟨symbol, f⟩ := f
  obtain ⟨symbol', g⟩ := g
  obtain ⟨rfl, hkept, hhead, -, -, hshapes⟩ := h
  have hne : symbol ≠ .mark .newline → f.head ≠ .terminal .newline := by
    intro hmark hnewline
    rw [hnewline] at hhead
    cases symbol with
    | mark t => exact hmark (by rw [Head.terminal.inj hhead])
    | leaf t => exact hkept (by rw [Head.terminal.inj hhead])
    | node k => cases hhead
    | part f => cases hhead
  cases symbol with
  | mark t => rfl
  | leaf t => exact hshapes (hne nofun)
  | node k => exact hshapes (hne nofun)
  | part f => exact hshapes (hne nofun)

theorem shapes_append (first second : List Tree) :
    shapes (first ++ second) = shapes first ++ shapes second := by
  induction first with
  | nil => rfl
  | cons t first ih => simp [shapes, ih]

theorem shapes_flatMap_keep {frames frames' : List (Symbol × Frame)}
    (h : Forall₂ Matches frames frames') :
    shapes (frames.flatMap keep) = shapes (frames'.flatMap keep) := by
  induction h with
  | nil => rfl
  | cons hfirst _ ih => simp only [flatMap_cons, shapes_append, hfirst.shapes_keep, ih]

theorem Stack.Alike.pop? {symbols : List Symbol} (hsymbols : .leaf .newline ∉ symbols)
    (h : stack.Alike stack') {taken taken' : List (Symbol × Frame)}
    (htaken : Forall₂ Matches taken taken') :
    Option.Rel (fun f g => Forall₂ Matches f.1 g.1 ∧ Stack.Alike f.2 g.2)
      (Stack.pop? symbols stack taken) (Stack.pop? symbols stack' taken') := by
  induction symbols generalizing stack stack' taken taken' with
  | nil => exact .some ⟨htaken, h⟩
  | cons symbol symbols ih =>
    cases h with
    | nil => exact .none
    | cons hframe hbelow =>
      have hsymbol : symbol ≠ .leaf .newline := fun h => hsymbols (h ▸ mem_cons_self)
      simp only [Stack.pop?, ← hframe.head_eq]
      split
      · rename_i hhead
        exact ih (fun h => hsymbols (mem_cons_of_mem symbol h)) hbelow
          (.cons ⟨rfl, hsymbol, hhead, hframe⟩ htaken)
      · exact .none

theorem Stack.Alike.top_eq (h : stack.Alike stack') : stack.top = stack'.top := by
  cases h with
  | nil => rfl
  | cons hframe _ => rw [Parse.top_eq, Parse.top_eq, number, number, hframe.state_eq]

theorem shapes_locate (extent extent' : Option Span) {t u : Tree} (h : t.shape = u.shape) :
    (locate extent t).shape = (locate extent' u).shape := by
  have hlocate (extent : Option Span) (t : Tree) : (locate extent t).shape = t.shape := by
    cases t with
    | token t => rfl
    | node k span cs => cases span <;> rfl
  rw [hlocate, hlocate, h]

theorem length_shapes (trees : List Tree) : (shapes trees).length = trees.length := by
  induction trees with
  | nil => rfl
  | cons t trees ih => simp [shapes, ih]

theorem shapes_build (b : Build) {kept kept' : List Tree}
    (h : shapes kept = shapes kept') (extent extent' : Option Span) :
    shapes (build b kept extent).1 = shapes (build b kept' extent').1 := by
  have hlength : kept.length = kept'.length := by rw [← length_shapes, h, length_shapes]
  cases b with
  | splice => exact h
  | node k => simp [build, shapes, shape, h]
  | collapse k =>
    by_cases hone : kept.length = 1
    · obtain ⟨t, rfl⟩ := length_eq_one_iff.mp hone
      obtain ⟨u, rfl⟩ := length_eq_one_iff.mp (hlength ▸ hone)
      have hshape : t.shape = u.shape := by simpa [shapes] using h
      simp only [trees_build_collapse_one, shapes, shapes_locate extent extent' hshape]
    · rw [trees_build_collapse hone, trees_build_collapse (hlength ▸ hone)]
      simp [shapes, shape, h]

theorem Stack.Alike.reduce? (h : stack.Alike stack') {p : Production} (hp : p ∈ head.productions) :
    Option.Rel Stack.Alike (stack.reduce? head p) (stack'.reduce? head p) := by
  have hsymbols : .leaf .newline ∉ p.symbols.reverse := by
    intro hmem
    cases keepsLayout_of_mem head p hp _ (mem_reverse.mp hmem)
  have hpop := h.pop? hsymbols Forall₂.nil
  unfold Stack.reduce?
  revert hpop
  generalize Stack.pop? p.symbols.reverse stack [] = x
  generalize Stack.pop? p.symbols.reverse stack' [] = y
  intro hpop
  cases hpop with
  | none => exact .none
  | @some f g hpop =>
    obtain ⟨hframes, hrest⟩ := hpop
    simp only [bind, Option.bind, hrest.top_eq]
    cases g.2.top.goto? head with
    | none => exact .none
    | some target =>
      have hshapes := shapes_build p.build (shapes_flatMap_keep hframes) (extentOf f.1) (extentOf g.1)
      exact .some (.cons ⟨rfl, rfl, fun _ => hshapes⟩ hrest)

def Fed.Alike : Fed → Fed → Prop
  | .shifted stack, .shifted stack' => stack.Alike stack'
  | .accepted tree, .accepted tree' => tree.shape = tree'.shape
  | .refused _, .refused _ => True
  | _, _ => False

def Stack.IsWhole (head : Nonterminal) (stack : Stack) (tree : Tree) : Prop :=
  head = .node .start ∧ ∃ state frameHead extent, stack = [⟨state, frameHead, [tree], extent⟩]

theorem feedUpTo_reduce {next : Stack} {t : Token} {p : Production}
    (haction : stack.top.action? t.terminal = some (.reduce head p))
    (hnext : stack.reduce? head p = some next) (bound : Nat) :
    (∃ tree, next.IsWhole head tree ∧ feedUpTo (bound + 1) stack t = .accepted tree) ∨
      (¬ ∃ tree, next.IsWhole head tree) ∧
        feedUpTo (bound + 1) stack t = feedUpTo bound next t := by
  simp only [feedUpTo, haction, hnext]
  split
  · rename_i state frameHead tree extent
    exact .inl ⟨tree, ⟨rfl, state, frameHead, extent, rfl⟩, rfl⟩
  · rename_i hno
    refine .inr ⟨?_, rfl⟩
    rintro ⟨tree, hhead, state, frameHead, extent, hstack⟩
    exact hno state frameHead tree extent hhead hstack

theorem Stack.IsWhole.unique {tree tree' : Tree}
    (h : stack.IsWhole head tree) (h' : stack.IsWhole head tree') : tree = tree' := by
  obtain ⟨-, state, frameHead, extent, rfl⟩ := h
  obtain ⟨-, state', frameHead', extent', h'⟩ := h'
  simp_all

theorem head_of_reduce? {next : Stack} {p : Production}
    (h : stack.reduce? head p = some next) : ∀ f ∈ next.head?, f.head = .nonterminal head := by
  obtain ⟨frames, rest, target, -, rfl⟩ := reduce?_cases h
  intro f hf
  cases hf
  rfl

theorem Stack.Alike.isWhole (h : stack.Alike stack')
    (hhead : ∀ f ∈ stack.head?, f.head = .nonterminal head) {tree : Tree}
    (hwhole : stack.IsWhole head tree) :
    ∃ tree', stack'.IsWhole head tree' ∧ tree.shape = tree'.shape := by
  obtain ⟨hstart, state, frameHead, extent, rfl⟩ := hwhole
  obtain ⟨⟨state', frameHead', trees', extent'⟩, below', hframe, hbelow, rfl⟩ :=
    forall₂_cons_left_iff.mp h
  obtain rfl := forall₂_nil_left_iff.mp hbelow
  obtain rfl : frameHead = .nonterminal head := hhead _ rfl
  have hshapes : [tree.shape] = shapes trees' := hframe.shapes_eq nofun
  obtain ⟨tree', rfl⟩ : ∃ tree', trees' = [tree'] := by
    apply length_eq_one_iff.mp
    rw [← length_shapes, ← hshapes]
    rfl
  exact ⟨tree', ⟨hstart, state', frameHead', extent', rfl⟩, (List.cons.inj hshapes).1⟩

theorem Stack.Alike.feed {stack stack' : Stack} (h : stack.Alike stack') {t u : Token}
    (htu : t.Alike u) : (feed stack t).Alike (feed stack' u) := by
  have hbound : feedBound stack = feedBound stack' := by rw [feedBound, feedBound, h.length_eq]
  unfold Parse.feed
  rw [hbound]
  generalize feedBound stack' = bound
  clear hbound
  induction bound generalizing stack stack' with
  | zero => trivial
  | succ bound ih =>
    have htop := h.top_eq
    cases haction : stack.top.action? t.terminal with
    | none =>
      simp only [feedUpTo, ← htop, ← htu.terminal_eq, haction]
      trivial
    | some action =>
      cases action with
      | shift target =>
        simp only [feedUpTo, ← htop, ← htu.terminal_eq, haction]
        refine .cons ⟨rfl, congrArg Head.terminal htu.terminal_eq, fun hne => ?_⟩ h
        have hcontent := htu.content_eq fun hnewline => hne (congrArg Head.terminal hnewline)
        simp [shapes, shape, htu.terminal_eq, hcontent]
      | reduce head p =>
        have haction' := haction
        rw [htop, htu.terminal_eq] at haction'
        have hknown := haction
        rw [Parse.top_eq] at hknown
        have hreduce := h.reduce? (Automaton.known_of_action? hknown).1
        cases hnext : stack.reduce? head p with
        | none =>
          rw [hnext] at hreduce
          cases hnext' : stack'.reduce? head p with
          | none =>
            simp only [feedUpTo, haction, haction', hnext, hnext']
            trivial
          | some next' =>
            rw [hnext'] at hreduce
            cases hreduce
        | some next =>
          rw [hnext] at hreduce
          cases hnext' : stack'.reduce? head p with
          | none =>
            rw [hnext'] at hreduce
            cases hreduce
          | some next' =>
            rw [hnext'] at hreduce
            obtain ⟨halike⟩ := hreduce
            rcases feedUpTo_reduce haction hnext bound with ⟨tree, hwhole, hfed⟩ | ⟨hno, hfed⟩
            · obtain ⟨tree', hwhole', hshape⟩ := halike.isWhole (head_of_reduce? hnext) hwhole
              rcases feedUpTo_reduce haction' hnext' bound with ⟨tree'', hwhole'', hfed'⟩ | ⟨hno', -⟩
              · obtain rfl := hwhole'.unique hwhole''
                rw [hfed, hfed']
                exact hshape
              · exact absurd ⟨tree', hwhole'⟩ hno'
            · rcases feedUpTo_reduce haction' hnext' bound with ⟨tree', hwhole', -⟩ | ⟨-, hfed'⟩
              · obtain ⟨tree, hwhole, -⟩ := halike.symm.isWhole (head_of_reduce? hnext') hwhole'
                exact absurd ⟨tree, hwhole⟩ hno
              · rw [hfed, hfed']
                exact ih halike

/-! ## Runs -/

/-- Both results are missing, or there are both and they are related. -/
def Accord {ε α β : Type} (R : α → β → Prop) : Except ε α → Except ε β → Prop
  | .ok a, .ok b => R a b
  | .error _, .error _ => True
  | _, _ => False

theorem accord_take {q : Progress} {tokens tokens' : List Token}
    (htokens : Forall₂ Token.Alike tokens tokens') (hstack : p.stack.Alike q.stack) :
    Accord (fun p' q' => p'.stack.Alike q'.stack) (take p tokens) (take q tokens') := by
  induction htokens generalizing p q with
  | nil => exact hstack
  | @cons t u tokens tokens' htu _ ih =>
    have hfeed := hstack.feed htu
    simp only [take]
    cases hp : feed p.stack t <;> cases hq : feed q.stack u <;> rw [hp, hq] at hfeed <;>
      first
      | exact hfeed.elim
      | exact ih hfeed
      | exact hstack
      | trivial

theorem Accord.bind {ε α β γ δ : Type} {R : α → β → Prop} {S : γ → δ → Prop} {x : Except ε α}
    {y : Except ε β} {f : α → Except ε γ} {g : β → Except ε δ} (h : Accord R x y)
    (hfg : ∀ a b, x = .ok a → y = .ok b → R a b → Accord S (f a) (g b)) :
    Accord S (x >>= f) (y >>= g) := by
  cases x <;> cases y
  · trivial
  · exact h.elim
  · exact h.elim
  · exact hfg _ _ rfl rfl h

theorem alike_endToken (last last' : Option Token) : (endToken last).Alike (endToken last') := by
  have hcontent (last : Option Token) : (endToken last).content = [] := by
    unfold endToken
    split <;> rfl
  exact ⟨by rw [terminal_endToken, terminal_endToken], fun _ => by rw [hcontent, hcontent]⟩

theorem accord_finish {q : Progress} (hstack : p.stack.Alike q.stack)
    (hlevels : p.layout.levels = q.layout.levels) :
    Accord (fun t u => t.shape = u.shape) (finish p) (finish q) := by
  have hfinish : Forall₂ Token.Alike p.layout.finish q.layout.finish := by
    rw [Layout.finish, Layout.finish, hlevels]
    exact forall₂_same.mpr fun t _ => .refl t
  refine (accord_take hfinish hstack).bind fun p' q' _ _ halike => ?_
  have hfeed := Stack.Alike.feed halike (alike_endToken p'.taken q'.taken)
  cases hp : feed p'.stack (endToken p'.taken) <;> cases hq : feed q'.stack (endToken q'.taken) <;>
    rw [hp, hq] at hfeed <;> simp only [hp, hq] <;>
    first
    | exact hfeed.elim
    | exact hfeed
    | trivial

def Progress.stretched (p : Progress) : Progress :=
  { p with cursor := p.cursor.stretched }

theorem take_stretched (p : Progress) (tokens : List Token) :
    take p.stretched tokens = (take p tokens).map Progress.stretched := by
  induction tokens generalizing p with
  | nil => rfl
  | cons t tokens ih =>
    simp only [take]
    cases hfeed : feed p.stack t with
    | shifted stack =>
      have hfeed' : feed p.stretched.stack t = .shifted stack := hfeed
      simp only [hfeed']
      exact ih { p with stack := stack, taken := some t }
    | accepted tree =>
      have hfeed' : feed p.stretched.stack t = .accepted tree := hfeed
      simp only [hfeed']
      rfl
    | refused stack =>
      have hfeed' : feed p.stretched.stack t = .refused stack := hfeed
      simp only [hfeed']
      rfl

theorem accord_stretched (p : Progress) (tokens : List Token) :
    Accord (fun q q' => q' = q.stretched) (take p tokens) (take p.stretched tokens) := by
  rw [take_stretched]
  cases take p tokens with
  | error e => trivial
  | ok q => rfl

/-- The passes come to a place where the rest of the file is a line join, or something ignored before
one, so that the line feed at its end ends no line. -/
def EndsInJoin (text : Text) : Prop :=
  ∃ p, Reached text p ∧ p.cursor.rest ≠ [] ∧ p.stack.top.lexicon.next p.cursor = .finished

theorem readUpTo_of_rest (h : p.cursor.rest = []) (text : Text) (bound : Nat) :
    readUpTo text bound p = finish p := by
  cases bound with
  | zero => rfl
  | succ bound =>
    have hnext : p.stack.top.lexicon.next p.cursor = .finished := by
      simp [Lexicon.next, Lexicon.nextUpTo, h]
    simp only [readUpTo, hnext]

theorem readUpTo_turn {t : Token} {stop : Cursor}
    (hscans : p.stack.top.lexicon.next p.cursor = .token t stop) (text : Text) (bound : Nat) :
    readUpTo text (bound + 1) p = take (p.reading t stop) (p.layout.step t).tokens >>= fun q =>
      match (p.layout.step t).fault with
      | some fault => .error (.layout fault)
      | none => readUpTo text bound q := by
  simp only [readUpTo, hscans, Progress.reading]
  cases take _ (p.layout.step t).tokens <;> rfl

/-- A file and the same file with another line feed go through the same turns up to the last one. -/
theorem accord_readUpTo {text : Text} (hjoin : ¬ EndsInJoin text)
    (hreached : Reached text p) (hlast : p.cursor.rest.getLast? = some '\n') {bound bound' : Nat}
    (hbound : p.cursor.rest.length < bound) (hbound' : p.cursor.rest.length + 1 < bound')
    (text' : Text) :
    Accord (fun t u => t.shape = u.shape) (readUpTo text bound p)
      (readUpTo text' bound' p.stretched) := by
  induction bound generalizing p bound' with
  | zero => exact absurd hbound (Nat.not_lt_zero _)
  | succ bound ih =>
    obtain ⟨bound', rfl⟩ : ∃ b, bound' = b + 1 := ⟨bound' - 1, by omega⟩
    have hscans := p.stack.top.lexicon.stretches_next hlast
    cases hnext : p.stack.top.lexicon.next p.cursor with
    | finished =>
      refine absurd ⟨p, hreached, fun hempty => ?_, hnext⟩ hjoin
      rw [hempty] at hlast
      cases hlast
    | stuck here =>
      rw [hnext] at hscans
      generalize hnext' : p.stack.top.lexicon.next p.cursor.stretched = found at hscans
      cases hscans with
      | stuck _ here' =>
        have hstuck : p.stretched.stack.top.lexicon.next p.stretched.cursor = .stuck here' := hnext'
        simp only [readUpTo, hnext, hstuck]
        trivial
    | token t stop =>
      have hshorter := Lexicon.length_lt_of_next hnext
      rw [hnext] at hscans
      generalize hnext' : p.stack.top.lexicon.next p.cursor.stretched = found at hscans
      rw [readUpTo_turn hnext]
      cases hscans with
      | token _ goes_on =>
        rw [readUpTo_turn (p := p.stretched) hnext']
        refine (accord_stretched (p.reading t stop) (p.layout.step t).tokens).bind ?_
        rintro q _ hq - rfl
        have hcursor : q.cursor = stop := (same_of_take hq).1
        change Accord _ (match (p.layout.step t).fault with | some fault => _ | none => _)
          (match (p.layout.step t).fault with | some fault => _ | none => _)
        cases hfault : (p.layout.step t).fault with
        | some fault => trivial
        | none =>
          exact ih (hreached.turn hnext hq hfault) (hcursor ▸ goes_on) (by rw [hcursor]; omega)
            (by rw [hcursor]; omega)
      | @lineEnd _ u _ stop' ends ends' terminal_eq terminal_eq' indent indent' =>
        rw [readUpTo_turn (p := p.stretched) hnext']
        obtain ⟨htokens, hlevels, hfault⟩ :=
          Layout.alike_step p.layout terminal_eq terminal_eq' indent indent'
        have hstack : Stack.Alike (p.reading t stop).stack (p.stretched.reading u stop').stack :=
          .refl p.stack
        refine (accord_take htokens hstack).bind fun q q' hq hq' halike => ?_
        obtain ⟨hcursor, hlayout⟩ := same_of_take hq
        obtain ⟨hcursor', hlayout'⟩ := same_of_take hq'
        change Accord _ (match (p.layout.step t).fault with | some fault => _ | none => _)
          (match (p.layout.step u).fault with | some fault => _ | none => _)
        rw [← hfault]
        cases (p.layout.step t).fault with
        | some fault => trivial
        | none =>
          dsimp only
          rw [readUpTo_of_rest (hcursor ▸ ends), readUpTo_of_rest (hcursor' ▸ ends')]
          exact accord_finish halike (by rw [hlayout, hlayout']; exact hlevels)

/-- Where a file is said to end in a line join, a backslash is all that its last line ends with. -/
theorem EndsInJoin.endsJoined {code : Text} (h : EndsInJoin (code ++ ['\n'])) :
    code.EndsJoined := by
  obtain ⟨p, hreached, hrest, hnext⟩ := h
  obtain ⟨before, hbefore⟩ := hreached.ready.rest
  have hlast : p.cursor.rest.getLast? = some '\n' := by
    have hwhole : (before ++ p.cursor.rest).getLast? = some '\n' := by
      rw [hbefore]
      exact getLast?_concat
    exact (Lexeme.getLast?_of_append hwhole).resolve_left hrest
  obtain ⟨line, hline, hjoined⟩ := Lexicon.endsJoined_of_next hlast hnext
  rw [hline, ← append_assoc] at hbefore
  rw [← (append_inj' hbefore rfl).1]
  exact hjoined.append before

end Parse

open Parse (EndsInJoin)

/-- A line feed that is missing at the end of a file makes no difference to its tree, or to whether it
has one, unless the file ends in a line join. -/
theorem parse_append_lineFeed {code : Text} (h : ¬ EndsInJoin (code ++ ['\n'])) :
    (∃ t u, parse code = .ok t ∧ parse (code ++ ['\n']) = .ok u ∧ t.shape = u.shape) ∨
      ∃ e f, parse code = .error e ∧ parse (code ++ ['\n']) = .error f := by
  have hlast : (code ++ ['\n']).getLast? = some '\n' := getLast?_concat
  have haccord : Parse.Accord (fun t u => t.shape = u.shape) (parse code) (parse (code ++ ['\n'])) :=
    Parse.accord_readUpTo h .start hlast (Nat.lt_succ_self _) (by simp [Cursor.ofText]) _
  cases hcode : parse code <;> cases hmore : parse (code ++ ['\n']) <;> rw [hcode, hmore] at haccord
  · exact .inr ⟨_, _, rfl, rfl⟩
  · exact haccord.elim
  · exact haccord.elim
  · exact .inl ⟨_, _, rfl, rfl, haccord⟩

/-- Two blocks that only the end of the file closes. -/
theorem parse_append_lineFeed_blocks :
    let code := "func f():\n\tif x:\n\t\tpass".toList
    ¬ EndsInJoin (code ++ ['\n']) ∧
      ((∃ t u, parse code = .ok t ∧ parse (code ++ ['\n']) = .ok u ∧ t.shape = u.shape) ∨
        ∃ e f, parse code = .error e ∧ parse (code ++ ['\n']) = .error f) := by
  intro code
  have hjoin : ¬ EndsInJoin (code ++ ['\n']) := by
    intro h
    obtain ⟨before, behind, hcode, -⟩ := h.endsJoined
    have hmem : '\\' ∈ code := by simp [hcode]
    exact absurd hmem (by decide)
  exact ⟨hjoin, parse_append_lineFeed hjoin⟩

/-- A body is not complete while its line goes on, and the line feed that would end the line is what the
line join takes. -/
theorem parse_joined_end :
    let code := "func f(): pass\\".toList
    (parse code).isOk = false ∧ (parse (code ++ ['\n'])).isOk = true := by
  decide +kernel

end GDWorkbench
