import GDWorkbench.Proofs.Parse.Frames

/-!
A tree is in reading order. Its tokens are tokens of the stream, in the order of the stream and each as
often as it stands there. And lines go down the text: no child begins above its parent, and no child
above an earlier sibling.

Some tokens have no line, such as the ends of blocks that only the end of a text closes. They come last,
so a line that is missing counts as one below all others.
-/

namespace GDWorkbench

open List

/-- The first line is there and not below the second, unless the second is missing. -/
def Line.NotBelow (a b : Option Nat) : Prop :=
  ∀ n, b = some n → ∃ m, a = some m ∧ m ≤ n

namespace Line

theorem NotBelow.refl (a : Option Nat) : NotBelow a a :=
  fun n h => ⟨n, h, Nat.le_refl n⟩

theorem notBelow_none (a : Option Nat) : NotBelow a none :=
  nofun

theorem NotBelow.eq_none {b : Option Nat} (h : NotBelow none b) : b = none := by
  cases b with
  | none => rfl
  | some n =>
    obtain ⟨m, hm, -⟩ := h n rfl
    cases hm

theorem NotBelow.le {a b : Option Nat} (h : NotBelow a b) {m n : Nat} (ha : a = some m)
    (hb : b = some n) : m ≤ n := by
  obtain ⟨m', hm', hle⟩ := h n hb
  obtain rfl : m = m' := Option.some.inj (ha.symm.trans hm')
  exact hle

end Line

/-! ## Lines of a stream -/

def Descends (tokens : List Token) : Prop :=
  tokens.Pairwise fun t u => Line.NotBelow t.span.line u.span.line

theorem Lexed.descends {c stop : Cursor} {pieces : List Token} (h : Lexed c pieces stop) :
    Descends pieces := by
  induction h with
  | nil c => exact .nil
  | @cons c stop l terminal taken rest pieces read more ih =>
    refine .cons (fun t ht n hn => ?_) ih
    obtain ⟨line, hline, hle⟩ := more.le_line t ht
    obtain rfl : line = n := Option.some.inj (hline.symm.trans hn)
    exact ⟨c.line, rfl, Nat.le_trans (Nat.le_add_right _ _) hle⟩

namespace Layout

variable {tokens : List Token}

/-- What a run hands on stands on the lines of the tokens it was given, or nowhere. -/
theorem line_mem_runFrom (l : Layout) :
    ∀ u ∈ (l.runFrom tokens).tokens, u.span.line = none ∨ ∃ t ∈ tokens, u.span.line = t.span.line := by
  induction tokens generalizing l with
  | nil =>
    intro u hu
    rw [(mem_replicate.mp hu).2]
    exact .inl rfl
  | cons t tokens ih =>
    have hstep : ∀ u ∈ (l.step t).tokens, u.span.line = none ∨
        ∃ v ∈ t :: tokens, u.span.line = v.span.line :=
      fun u hu => .inr ⟨t, mem_cons_self, (gives_step l t u hu).line_eq⟩
    intro u hu
    rw [runFrom] at hu
    split at hu
    · exact hstep u hu
    · rcases mem_append.mp hu with hu | hu
      · exact hstep u hu
      · refine (ih _ u hu).imp_right ?_
        rintro ⟨v, hv, hline⟩
        exact ⟨v, mem_cons_of_mem t hv, hline⟩

theorem descends_runFrom (h : Descends tokens) (l : Layout) : Descends (l.runFrom tokens).tokens := by
  induction tokens generalizing l with
  | nil => exact pairwise_replicate.mpr (.inr (Line.NotBelow.refl _))
  | cons t tokens ih =>
    obtain ⟨hfirst, hrest⟩ := pairwise_cons.mp h
    have hline : ∀ u ∈ (l.step t).tokens, u.span.line = t.span.line :=
      fun u hu => (gives_step l t u hu).line_eq
    have hstep : Descends (l.step t).tokens := by
      refine pairwise_of_forall_mem_list fun u hu v hv => ?_
      rw [hline u hu, hline v hv]
      exact .refl _
    rw [runFrom]
    split
    · exact hstep
    · refine pairwise_append.mpr ⟨hstep, ih hrest _, fun u hu v hv => ?_⟩
      rw [hline u hu]
      rcases line_mem_runFrom _ v hv with hv | ⟨w, hw, hv⟩
      · rw [hv]
        exact Line.notBelow_none _
      · rw [hv]
        exact hfirst w hw

end Layout

namespace Parse

theorem descends_stream {code : Text} {tree : Tree} (h : parse code = .ok tree) :
    Descends (stream code) := by
  obtain ⟨pieces, stop, hlexed, -, hscanned⟩ := lexed_scanned h
  have hpieces : Descends (scanned code) := by
    rw [← hscanned]
    exact hlexed.descends.filter _
  exact Layout.descends_runFrom hpieces _

end Parse

/-! ## Lines of a tree -/

namespace Tree

def line? (t : Tree) : Option Nat :=
  t.span?.bind Span.line

/-- No child begins above its parent or above an earlier sibling, throughout the tree. Where a child has
a line, so has its parent. -/
inductive IsOrdered : Tree → Prop
  | token (t : Token) : IsOrdered (.token t)
  | node {kind : Kind} {span : Option Span} {children : List Tree}
      (parent : ∀ child ∈ children, Line.NotBelow (span.bind Span.line) child.line?)
      (siblings : children.Pairwise fun a b => ∀ m n, a.line? = some m → b.line? = some n → m ≤ n)
      (each : ∀ child ∈ children, IsOrdered child) : IsOrdered (.node kind span children)

end Tree

namespace Parse

variable {trees : List Tree} {extent : Option Span} {word : List Token}

/-- Trees with the place they cover, in the order of the tokens they are made of. -/
structure Ordered (trees : List Tree) (extent : Option Span) (word : List Token) : Prop where
  tokens : (Tree.tokensAll trees).Sublist word
  each : ∀ tree ∈ trees, tree.IsOrdered
  siblings : trees.Pairwise fun a b => ∀ m n, a.line? = some m → b.line? = some n → m ≤ n
  /-- A tree begins where one of the tokens does. -/
  lines : ∀ tree ∈ trees, ∀ n, tree.line? = some n → ∃ t ∈ word, t.span.line = some n
  begins : ∀ tree ∈ trees, Line.NotBelow (extent.bind Span.line) tree.line?
  extent : ∀ span, extent = some span → ∃ t ∈ word, t.span.line = span.line

theorem ordered_nil (word : List Token) : Ordered [] none word where
  tokens := nil_sublist _
  each := forall_mem_nil _
  siblings := .nil
  lines := forall_mem_nil _
  begins := forall_mem_nil _
  extent := nofun

theorem ordered_token (t : Token) : Ordered [.token t] (some t.span) [t] where
  tokens := .refl _
  each := forall_mem_singleton.mpr (.token t)
  siblings := pairwise_singleton _ _
  lines := forall_mem_singleton.mpr fun n hn => ⟨t, mem_cons_self, hn⟩
  begins := forall_mem_singleton.mpr (.refl _)
  extent := by
    intro span hspan
    cases hspan
    exact ⟨t, mem_cons_self, rfl⟩

theorem Ordered.drop (h : Ordered trees extent word) : Ordered [] extent word :=
  { ordered_nil word with
    begins := forall_mem_nil _
    extent := h.extent }

def join : Option Span → Option Span → Option Span
  | none, later => later
  | some first, none => some first
  | some first, some later => some (first.upTo later)

theorem extentOf_cons (f : Symbol × Frame) (frames : List (Symbol × Frame)) :
    extentOf (f :: frames) = join f.2.extent (extentOf frames) := by
  rw [extentOf]
  cases f.2.extent <;> cases extentOf frames <;> rfl

theorem Ordered.append {first second : List Tree} {a b : Option Span} {before after : List Token}
    (hfirst : Ordered first a before) (hsecond : Ordered second b after)
    (hword : Descends (before ++ after)) :
    Ordered (first ++ second) (join a b) (before ++ after) := by
  obtain ⟨-, -, hacross⟩ := pairwise_append.mp hword
  -- what covers nothing has no line, so the whole begins where the first part does if that has a place
  have hbegins : ∀ tree ∈ second, ∀ s, a = some s → Line.NotBelow s.line tree.line? := by
    intro tree htree s hs n hn
    obtain ⟨t, ht, htline⟩ := hfirst.extent s hs
    obtain ⟨u, hu, huline⟩ := hsecond.lines tree htree n hn
    exact htline ▸ hacross t ht u hu n huline
  refine ⟨?_, ?_, ?_, ?_, ?_, ?_⟩
  · rw [Tree.tokensAll_append]
    exact hfirst.tokens.append hsecond.tokens
  · exact forall_mem_append.mpr ⟨hfirst.each, hsecond.each⟩
  · refine pairwise_append.mpr ⟨hfirst.siblings, hsecond.siblings, ?_⟩
    intro tree htree other hother m n hm hn
    obtain ⟨t, ht, htline⟩ := hfirst.lines tree htree m hm
    obtain ⟨u, hu, huline⟩ := hsecond.lines other hother n hn
    exact (hacross t ht u hu).le htline huline
  · refine forall_mem_append.mpr ⟨fun tree htree n hn => ?_, fun tree htree n hn => ?_⟩
    · obtain ⟨t, ht, hline⟩ := hfirst.lines tree htree n hn
      exact ⟨t, mem_append_left _ ht, hline⟩
    · obtain ⟨t, ht, hline⟩ := hsecond.lines tree htree n hn
      exact ⟨t, mem_append_right _ ht, hline⟩
  · refine forall_mem_append.mpr ⟨fun tree htree => ?_, fun tree htree => ?_⟩
    · have h := hfirst.begins tree htree
      cases a with
      | none =>
        rw [h.eq_none]
        exact Line.notBelow_none _
      | some s => cases b <;> exact h
    · cases a with
      | none => exact hsecond.begins tree htree
      | some s => cases b <;> exact hbegins tree htree s rfl
  · intro span hspan
    cases a with
    | none =>
      obtain ⟨t, ht, hline⟩ := hsecond.extent span hspan
      exact ⟨t, mem_append_right _ ht, hline⟩
    | some s =>
      obtain ⟨t, ht, hline⟩ := hfirst.extent s rfl
      refine ⟨t, mem_append_left _ ht, ?_⟩
      cases b <;> cases hspan <;> exact hline

theorem Ordered.node
    (h : Ordered trees extent word) (k : Kind) : Ordered [.node k extent trees] extent word where
  tokens := by simpa [Tree.tokensAll, Tree.tokens] using h.tokens
  each := forall_mem_singleton.mpr (.node h.begins h.siblings h.each)
  siblings := pairwise_singleton _ _
  lines := by
    refine forall_mem_singleton.mpr fun n hn => ?_
    obtain ⟨span, hspan, hline⟩ := Option.bind_eq_some_iff.mp hn
    obtain ⟨t, ht, htline⟩ := h.extent span hspan
    exact ⟨t, ht, htline.trans hline⟩
  begins := forall_mem_singleton.mpr (.refl _)
  extent := h.extent

theorem Ordered.token {t : Token}
    (h : Ordered [.token t] extent word) : Ordered [.token t] (some t.span) word :=
  { h with
    begins := forall_mem_singleton.mpr (.refl _)
    extent := by
      intro span hspan
      cases hspan
      exact ⟨t, h.tokens.subset (by simp [Tree.tokensAll, Tree.tokens]), rfl⟩ }

/-- A node without a place is given one. Nothing in it has a line. -/
theorem Ordered.locate {tree : Tree} {extent : Option Span} {word : List Token}
    (h : Ordered [tree] extent word) : Ordered [locate extent tree] extent word := by
  cases tree with
  | token t => exact h
  | node k span children =>
    cases span with
    | some span => exact h
    | none =>
      cases h.each _ mem_cons_self with
      | node hparent hsiblings heach =>
        refine { h with
          tokens := by simpa [Tree.tokensAll, tokens_locate] using h.tokens
          each := ?_
          siblings := pairwise_singleton _ _
          lines := ?_
          begins := forall_mem_singleton.mpr (.refl _) }
        · refine forall_mem_singleton.mpr (.node (fun child hchild => ?_) hsiblings heach)
          rw [(hparent child hchild).eq_none]
          exact Line.notBelow_none _
        · refine forall_mem_singleton.mpr fun n hn => ?_
          obtain ⟨span, hspan, hline⟩ := Option.bind_eq_some_iff.mp hn
          obtain ⟨t, ht, htline⟩ := h.extent span hspan
          exact ⟨t, ht, htline.trans hline⟩

theorem Ordered.build {kept : List Tree} {extent : Option Span} {word : List Token}
    (h : Ordered kept extent word) (b : Build) :
    Ordered (build b kept extent).1 (build b kept extent).2 word := by
  unfold Parse.build
  split
  · exact h
  · exact h.node _
  · exact h.token
  · exact h.locate
  · exact h.node _

theorem Ordered.frames {frames : List (Symbol × Frame)} {words : List (List Token)}
    (h : Forall₂ (fun f word => Descends word → Ordered f.2.trees f.2.extent word) frames words)
    (hword : Descends words.flatten) :
    Ordered (frames.flatMap keep) (extentOf frames) words.flatten := by
  induction h with
  | nil => exact ordered_nil _
  | @cons f word frames words hframe hframes ih =>
    obtain ⟨hfirst, hrest, -⟩ := pairwise_append.mp hword
    have hordered := hframe hfirst
    have hkept : Ordered (keep f) f.2.extent word := by
      obtain ⟨symbol, frame⟩ := f
      cases symbol with
      | mark t => exact hordered.drop
      | leaf t => exact hordered
      | node k => exact hordered
      | part f => exact hordered
    rw [extentOf_cons]
    exact hkept.append (ih hrest) hword

theorem tracks_ordered :
    Tracks fun frame word => Descends word → Ordered frame.trees frame.extent word where
  shift state t _ := ordered_token t
  complete := by
    intro head p hp frames words hsymbols hheads hwords target hword
    exact (Ordered.frames hwords hword).build _

/-- The tokens of a tree are tokens of the stream in their order, and lines go down the tree and its
siblings. -/
theorem parse_keeps_order {code : Text} {tree : Tree} (h : parse code = .ok tree) :
    tree.tokens.Sublist (stream code) ∧ tree.IsOrdered := by
  obtain ⟨state, extent, hordered⟩ := tracks_ordered.parse h
  have hwhole := hordered (descends_stream h)
  refine ⟨?_, hwhole.each tree mem_cons_self⟩
  simpa [Tree.tokensAll] using hwhole.tokens

/-- A lambda in brackets whose body ends at a comma, so that the layout closes it with a token that
borrows the place of the comma. -/
def lambdaInBrackets : Text :=
  "func f():\n\tvar x = [func():\n\t\tpass # a\n\t, 1]\n".toList

theorem parse_keeps_order_lambda :
    ∃ tree, parse lambdaInBrackets = .ok tree ∧
      tree.tokens.Sublist (stream lambdaInBrackets) ∧ tree.IsOrdered := by
  have hparses : (parse lambdaInBrackets).isOk = true := by decide +kernel
  cases h : parse lambdaInBrackets with
  | error e =>
    rw [h] at hparses
    cases hparses
  | ok tree => exact ⟨tree, rfl, parse_keeps_order h⟩

end Parse

end GDWorkbench
