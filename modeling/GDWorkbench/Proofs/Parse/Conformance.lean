import GDWorkbench.Proofs.Parse.Frames

/-!
Trees conform to the grammar. The children of a node, each taken for its kind or its terminal, are an
expansion of a rule for that kind of node: a choice is made wherever the rule leaves one, fragments
stand for what they expand to, a rule that hands on its only piece stands for that piece, and terminals
that carry no information are dropped unless the rule keeps all of its tokens.

A repetition belongs to the rule that it is written in and keeps tokens as that rule does. The one
exception are the dotted names behind `extends`: two rules share them, one of which keeps its tokens
and one does not, and the dots are dropped in both.
-/

namespace GDWorkbench

open List Item GDWorkbench.Tree

/-- What a tree is as a child. -/
inductive Label where
  | leaf (terminal : Terminal)
  | node (kind : Kind)
  deriving DecidableEq, Repr

def Tree.label : Tree → Label
  | .token t => .leaf t.terminal
  | .node k _ _ => .node k

/-! ## Which tokens a rule keeps -/

/-- Terminals without a name of their own, and those of the layout. A rule drops them unless it keeps
all of its tokens. -/
def Terminal.isFiltered : Terminal → Bool
  | .newline | .indent | .dedent => true
  | .kwSet | .kwGet => false
  | t => t.spelling.isSome

def Kind.keepsTokens : Kind → Bool
  | .classnameExtendsStmt | .propertyDelegateSet | .propertyDelegateGet | .testPattern | .orPattern
  | .andPattern | .notPattern | .bitwOrPattern | .bitwXorPattern | .bitwAndPattern | .shiftPattern
  | .arithPattern | .mdrPattern | .negPattern | .bitwNotPattern | .attrPattern | .actualTypeCast
  | .testExpr | .aslessTestExpr | .orTest | .aslessOrTest | .andTest | .aslessAndTest
  | .aslessActualNotTest | .contentTest | .aslessContentTest | .bitwOr | .aslessBitwOr | .bitwXor
  | .aslessBitwXor | .bitwAnd | .aslessBitwAnd | .shiftExpr | .aslessShiftExpr | .arithExpr
  | .aslessArithExpr | .mdrExpr | .aslessMdrExpr | .aslessActualNegExpr | .aslessActualBitwNot
  | .powExpr | .aslessPowExpr | .typeTest | .aslessTypeTest | .awaitExpr | .path
  | .uniqueNodePath => true
  | _ => false

/-- As `Kind.keepsTokens` for the fragments that are rules. A repetition has no say of its own. -/
def Fragment.asWritten : Fragment → Option Bool
  | .assnmntOp | .contentTestOp | .compOp | .attr => some true
  | .classStmt | .simpleClassStmt | .varTyped | .forIteratorVarTyped | .classBody
  | .propertyDelegates | .funcSuite | .funcBody | .funcStmt | .simpleFuncStmt | .matchBody
  | .callArglist | .plusAtom | .lambdaSuite | .lambdaBody | .standaloneLambdaStmt => some false
  | _ => none

def Fragment.keepsTokens (f : Fragment) : Option Bool :=
  if f = .dottedNames then some false else f.asWritten

/-! ## Expansions -/

def Build.labels : Build → List Label → List Label
  | .splice, labels => labels
  | .node k, _ => [.node k]
  | .collapse k, labels => if labels.length = 1 then labels else [.node k]

def Build.Makes (k : Kind) (labels : List Label) : Build → Prop
  | .splice => False
  | .node j => j = k
  | .collapse j => j = k ∧ labels.length ≠ 1

/-- The labels that a terminal leaves in a rule that keeps all of its tokens, or does not. -/
def Terminal.labels (full : Bool) (t : Terminal) : List Label :=
  if full || !t.isFiltered then [.leaf t] else []

mutual

/-- Labels that the items of a rule can stand for. `keeps` says which fragments keep all of their
tokens, and `full` whether the rule around the items does. -/
inductive Spells (keeps : Fragment → Option Bool) : Bool → List Item → List Label → Prop
  | nil (full : Bool) : Spells keeps full [] []
  | terminal {full : Bool} {item : Item} {t : Terminal} {items : List Item} {rest : List Label}
      (item_eq : item = .mark t ∨ item = .leaf t) (more : Spells keeps full items rest) :
      Spells keeps full (item :: items) (t.labels full ++ rest)
  | node {full : Bool} {k : Kind} {items : List Item} {first rest : List Label}
      (one : Yields keeps k.keepsTokens (.node k) first) (more : Spells keeps full items rest) :
      Spells keeps full (.node k :: items) (first ++ rest)
  | part {full : Bool} {f : Fragment} {items : List Item} {first rest : List Label}
      (one : Yields keeps ((keeps f).getD full) (.part f) first)
      (more : Spells keeps full items rest) : Spells keeps full (.part f :: items) (first ++ rest)
  | choice {full : Bool} {alternatives : List (List Item)} {chosen items : List Item}
      {first rest : List Label} (mem : chosen ∈ alternatives) (one : Spells keeps full chosen first)
      (more : Spells keeps full items rest) :
      Spells keeps full (.choice alternatives :: items) (first ++ rest)

/-- Labels that one symbol can stand for. -/
inductive Yields (keeps : Fragment → Option Bool) : Bool → Nonterminal → List Label → Prop
  | intro {full : Bool} {head : Nonterminal} {a : Alternative} {labels : List Label}
      (mem : a ∈ head.alternatives) (spells : Spells keeps full a.items labels) :
      Yields keeps full head (a.build.labels labels)

end

/-- The labels are an expansion of a rule that makes a node of the kind. -/
def Kind.Expands (keeps : Fragment → Option Bool) (k : Kind) (labels : List Label) : Prop :=
  ∃ rule : Kind, ∃ a ∈ rule.alternatives,
    a.build.Makes k labels ∧ Spells keeps rule.keepsTokens a.items labels

/-- The children of every node are an expansion of a rule for it. -/
inductive Tree.Conforms (keeps : Fragment → Option Bool) : Tree → Prop
  | token (t : Token) : Conforms keeps (.token t)
  | node {k : Kind} {span : Option Span} {children : List Tree}
      (expands : k.Expands keeps (children.map label))
      (each : ∀ child ∈ children, Conforms keeps child) : Conforms keeps (.node k span children)

/-! ## Expansions and productions -/

def Symbol.item : Symbol → Item
  | .mark t => .mark t
  | .leaf t => .leaf t
  | .node k => .node k
  | .part f => .part f

section Expansions

variable {keeps : Fragment → Option Bool} {full : Bool}

theorem Spells.append {first second : List Item} {labels rest : List Label}
    (hfirst : Spells keeps full first labels) (hsecond : Spells keeps full second rest) :
    Spells keeps full (first ++ second) (labels ++ rest) := by
  induction first generalizing labels with
  | nil =>
    cases hfirst
    exact hsecond
  | cons item first ih =>
    cases hfirst with
    | terminal hitem hmore => simpa using Spells.terminal hitem (ih hmore)
    | node hone hmore => simpa using Spells.node hone (ih hmore)
    | part hone hmore => simpa using Spells.part hone (ih hmore)
    | choice hmem hone hmore => simpa using Spells.choice hmem hone (ih hmore)

theorem Spells.split (first : List Item) {second : List Item} {labels : List Label}
    (h : Spells keeps full (first ++ second) labels) :
    ∃ before after, labels = before ++ after ∧ Spells keeps full first before ∧
      Spells keeps full second after := by
  induction first generalizing labels with
  | nil => exact ⟨[], labels, rfl, .nil full, h⟩
  | cons item first ih =>
    cases h with
    | terminal hitem hmore =>
      obtain ⟨before, after, rfl, hbefore, hafter⟩ := ih hmore
      exact ⟨_, after, (append_assoc _ _ _).symm, .terminal hitem hbefore, hafter⟩
    | node hone hmore =>
      obtain ⟨before, after, rfl, hbefore, hafter⟩ := ih hmore
      exact ⟨_, after, (append_assoc _ _ _).symm, .node hone hbefore, hafter⟩
    | part hone hmore =>
      obtain ⟨before, after, rfl, hbefore, hafter⟩ := ih hmore
      exact ⟨_, after, (append_assoc _ _ _).symm, .part hone hbefore, hafter⟩
    | choice hmem hone hmore =>
      obtain ⟨before, after, rfl, hbefore, hafter⟩ := ih hmore
      exact ⟨_, after, (append_assoc _ _ _).symm, .choice hmem hone hbefore, hafter⟩

mutual

/-- What the symbols of a production stand for, the item stands for that they are an expansion of. -/
theorem spells_of_mem_expand (item : Item) {symbols : List Symbol} {labels : List Label}
    (hmem : symbols ∈ item.expand) (h : Spells keeps full (symbols.map Symbol.item) labels) :
    Spells keeps full [item] labels := by
  cases item with
  | mark t =>
    obtain rfl : symbols = [.mark t] := by simpa [expand] using hmem
    exact h
  | leaf t =>
    obtain rfl : symbols = [.leaf t] := by simpa [expand] using hmem
    exact h
  | node k =>
    obtain rfl : symbols = [.node k] := by simpa [expand] using hmem
    exact h
  | part f =>
    obtain rfl : symbols = [.part f] := by simpa [expand] using hmem
    exact h
  | choice alternatives =>
    rw [expand] at hmem
    obtain ⟨chosen, hchosen, hspells⟩ := exists_of_mem_expandChoice alternatives hmem h
    simpa using Spells.choice hchosen hspells (.nil full)

theorem exists_of_mem_expandChoice (alternatives : List (List Item)) {symbols : List Symbol}
    {labels : List Label} (hmem : symbols ∈ expandChoice alternatives)
    (h : Spells keeps full (symbols.map Symbol.item) labels) :
    ∃ chosen ∈ alternatives, Spells keeps full chosen labels := by
  cases alternatives with
  | nil => simp [expandChoice] at hmem
  | cons items rest =>
    rw [expandChoice, mem_append] at hmem
    rcases hmem with hmem | hmem
    · exact ⟨items, mem_cons_self, spells_of_mem_expandAll items hmem h⟩
    · obtain ⟨chosen, hchosen, hspells⟩ := exists_of_mem_expandChoice rest hmem h
      exact ⟨chosen, mem_cons_of_mem items hchosen, hspells⟩

theorem spells_of_mem_expandAll (items : List Item) {symbols : List Symbol} {labels : List Label}
    (hmem : symbols ∈ expandAll items)
    (h : Spells keeps full (symbols.map Symbol.item) labels) : Spells keeps full items labels := by
  cases items with
  | nil =>
    obtain rfl : symbols = [] := by simpa [expandAll] using hmem
    exact h
  | cons item rest =>
    simp only [expandAll, mem_flatMap, mem_map] at hmem
    obtain ⟨head, hhead, tail, htail, rfl⟩ := hmem
    rw [map_append] at h
    obtain ⟨before, after, rfl, hbefore, hafter⟩ := h.split _
    exact (spells_of_mem_expand item hhead hbefore).append (spells_of_mem_expandAll rest htail hafter)

end

end Expansions

/-! ## Marks and leaves -/

/-- A mark is dropped and a leaf is kept, as the rule around them has it. -/
def Symbol.agrees (full : Bool) : Symbol → Bool
  | .mark t => !full && t.isFiltered
  | .leaf t => full || !t.isFiltered
  | .node _ | .part _ => true

def Fragment.agrees (full : Bool) (f : Fragment) : Bool :=
  (Nonterminal.part f).productions.all fun p => p.symbols.all (Symbol.agrees full)

def Symbol.fits (full : Bool) : Symbol → Bool
  | .part f => f.agrees (f.keepsTokens.getD full)
  | s => s.agrees full

def Nonterminal.Fits (full : Bool) : Nonterminal → Prop
  | .node k => full = k.keepsTokens
  | .part f => full = f.keepsTokens.getD full ∧ f.agrees full = true

theorem fits_symbols {head : Nonterminal} {full : Bool} (hfits : head.Fits full) :
    ∀ p ∈ head.productions, ∀ s ∈ p.symbols, s.fits full := by
  cases head with
  | node k =>
    subst hfits
    revert k
    decide +kernel
  | part f =>
    obtain ⟨hown, hagrees⟩ := hfits
    revert f full
    decide +kernel

theorem exists_alternative {head : Nonterminal} {p : Production} (hp : p ∈ head.productions) :
    ∃ a ∈ head.alternatives, p.build = a.build ∧ p.symbols ∈ expandAll a.items := by
  obtain ⟨a, ha, hp⟩ := mem_flatMap.mp hp
  obtain ⟨symbols, hsymbols, rfl⟩ := mem_map.mp hp
  exact ⟨a, ha, rfl, hsymbols⟩

theorem build_part (f : Fragment) : ∀ p ∈ (Nonterminal.part f).productions, p.build = .splice := by
  have hsplice : ∀ f : Fragment, ∀ a ∈ (Nonterminal.part f).alternatives, a.build = .splice := by
    decide +kernel
  intro p hp
  obtain ⟨a, ha, hbuild, -⟩ := exists_alternative hp
  exact hbuild.trans (hsplice f a ha)

namespace Parse

/-! ## What the parser builds -/

/-- The trees of a frame conform, and they are what its symbol can stand for. -/
structure Frame.Conforms (frame : Frame) : Prop where
  each : ∀ tree ∈ frame.trees, tree.Conforms Fragment.keepsTokens
  terminal : ∀ t, frame.head = .terminal t → frame.trees.map label = [.leaf t]
  nonterminal : ∀ head, frame.head = .nonterminal head → ∀ full, head.Fits full →
    Yields Fragment.keepsTokens full head (frame.trees.map label)

theorem spells_frames {full : Bool} {frames : List (Symbol × Frame)}
    (hframes : ∀ f ∈ frames, f.2.Conforms) (hheads : ∀ f ∈ frames, headOf f.1 = f.2.head)
    (hfits : ∀ f ∈ frames, f.1.fits full) :
    Spells Fragment.keepsTokens full ((frames.map Prod.fst).map Symbol.item)
      ((frames.flatMap keep).map label) := by
  induction frames with
  | nil => exact .nil full
  | cons f frames ih =>
    obtain ⟨hframe, hframes⟩ := forall_mem_cons.mp hframes
    obtain ⟨hhead, hheads⟩ := forall_mem_cons.mp hheads
    obtain ⟨hfit, hfits⟩ := forall_mem_cons.mp hfits
    have hmore := ih hframes hheads hfits
    obtain ⟨symbol, frame⟩ := f
    rw [flatMap_cons, map_append]
    cases symbol with
    | mark t =>
      obtain ⟨rfl, hfiltered⟩ : full = false ∧ t.isFiltered := by
        simpa [Symbol.fits, Symbol.agrees] using hfit
      have hlabels : t.labels false = [] := by simp [Terminal.labels, hfiltered]
      have hspells := Spells.terminal (t := t) (.inl rfl) hmore
      rw [hlabels] at hspells
      exact hspells
    | leaf t =>
      have hlabels : t.labels full = [.leaf t] := if_pos hfit
      have hspells := Spells.terminal (t := t) (.inr rfl) hmore
      rw [hlabels, ← hframe.terminal t hhead.symm] at hspells
      exact hspells
    | node k => exact .node (hframe.nonterminal _ hhead.symm _ rfl) hmore
    | part f =>
      refine .part (hframe.nonterminal _ hhead.symm _ ⟨?_, hfit⟩) hmore
      cases f.keepsTokens <;> rfl

theorem label_locate (extent : Option Span) (tree : Tree) :
    (locate extent tree).label = tree.label := by
  cases tree with
  | token t => rfl
  | node k span children => cases span <;> rfl

theorem trees_build_collapse_one (k : Kind) (tree : Tree) (extent : Option Span) :
    (build (.collapse k) [tree] extent).1 = [locate extent tree] := by
  cases tree <;> rfl

theorem trees_build_collapse {kept : List Tree} (h : kept.length ≠ 1) (k : Kind)
    (extent : Option Span) : (build (.collapse k) kept extent).1 = [.node k extent kept] := by
  match kept with
  | [] => rfl
  | [tree] => exact absurd rfl h
  | first :: _ :: _ => cases first <;> rfl

theorem label_build (b : Build) (kept : List Tree) (extent : Option Span) :
    (build b kept extent).1.map label = b.labels (kept.map label) := by
  cases b with
  | splice => rfl
  | node k => rfl
  | collapse k =>
    by_cases hone : kept.length = 1
    · obtain ⟨tree, rfl⟩ := length_eq_one_iff.mp hone
      rw [trees_build_collapse_one, map_singleton, label_locate]
      rfl
    · rw [trees_build_collapse hone, Build.labels, length_map, if_neg hone]
      rfl

theorem conforms_locate {keeps : Fragment → Option Bool} {tree : Tree} (h : tree.Conforms keeps)
    (extent : Option Span) : (locate extent tree).Conforms keeps := by
  cases h with
  | token t => exact .token t
  | @node k span children hexpands heach => cases span <;> exact .node hexpands heach

theorem conforms_build {keeps : Fragment → Option Bool} {rule : Kind} {a : Alternative}
    (ha : a ∈ rule.alternatives) {kept : List Tree}
    (hspells : Spells keeps rule.keepsTokens a.items (kept.map label))
    (hkept : ∀ tree ∈ kept, tree.Conforms keeps) (extent : Option Span) :
    ∀ tree ∈ (build a.build kept extent).1, tree.Conforms keeps := by
  have hnode : ∀ k, a.build.Makes k (kept.map label) →
      ∀ tree ∈ [Tree.node k extent kept], tree.Conforms keeps := fun k hmakes =>
    forall_mem_singleton.mpr (.node ⟨rule, a, ha, hmakes, hspells⟩ hkept)
  cases hbuild : a.build with
  | splice => exact hkept
  | node k => exact hnode k (hbuild ▸ rfl)
  | collapse k =>
    by_cases hone : kept.length = 1
    · obtain ⟨tree, rfl⟩ := length_eq_one_iff.mp hone
      rw [trees_build_collapse_one]
      exact forall_mem_singleton.mpr (conforms_locate (hkept _ mem_cons_self) extent)
    · rw [trees_build_collapse hone]
      refine hnode k ?_
      rw [hbuild]
      exact ⟨rfl, by rwa [length_map]⟩

theorem tracks_conforms : Tracks fun frame _ => frame.Conforms where
  shift state t :=
    { each := forall_mem_singleton.mpr (.token t)
      terminal := by
        intro terminal h
        cases h
        rfl
      nonterminal := nofun }
  complete := by
    intro head p hp frames words hsymbols hheads hwords target
    have hframes : ∀ f ∈ frames, f.2.Conforms := by
      intro f hf
      obtain ⟨i, hi, rfl⟩ := getElem_of_mem hf
      exact (forall₂_iff_get.mp hwords).2 i hi (by rwa [← hwords.length_eq])
    have hspells : ∀ full, head.Fits full → Spells Fragment.keepsTokens full
        (p.symbols.map Symbol.item) ((frames.flatMap keep).map label) := by
      intro full hfits
      rw [← hsymbols]
      refine spells_frames hframes hheads fun f hf => fits_symbols hfits p hp _ ?_
      exact hsymbols ▸ mem_map_of_mem hf
    obtain ⟨a, ha, hbuild, hexpand⟩ := exists_alternative hp
    refine ⟨?_, nofun, ?_⟩
    · have hkept : ∀ tree ∈ frames.flatMap keep, tree.Conforms Fragment.keepsTokens := by
        intro tree htree
        obtain ⟨f, hf, htree⟩ := mem_flatMap.mp htree
        exact (hframes f hf).each tree (mem_of_keep htree)
      cases head with
      | node rule =>
        rw [hbuild]
        exact conforms_build ha (spells_of_mem_expandAll a.items hexpand (hspells _ rfl)) hkept _
      | part f =>
        rw [build_part f p hp]
        exact hkept
    · intro head' hhead full hfits
      cases hhead
      rw [label_build, hbuild]
      exact .intro ha (spells_of_mem_expandAll a.items hexpand (hspells full hfits))

/-- The root of a tree is that of a whole text, and the children of every node are an expansion of a
rule of the grammar for it. -/
theorem parse_conforms {code : Text} {tree : Tree} (h : parse code = .ok tree) :
    tree.kind? = some .start ∧ tree.Conforms Fragment.keepsTokens := by
  obtain ⟨state, extent, hframe⟩ := tracks_conforms.parse h
  refine ⟨?_, hframe.each tree mem_cons_self⟩
  have hyields := hframe.nonterminal _ rfl _ rfl
  have hlabel : tree.label = .node .start := by
    generalize hlabels : [tree].map Tree.label = labels at hyields
    cases hyields with
    | intro hmem hspells =>
      obtain rfl := mem_singleton.mp hmem
      exact (List.cons.inj hlabels).1
  cases tree with
  | token t => cases hlabel
  | node k span children =>
    cases hlabel
    rfl

/-- A class with a dotted base and an expression from every ladder. -/
def dottedClass : Text :=
  "class_name A extends B.C\nvar x = 1 + y.z if not a is B else [-c, d as E]\n".toList

theorem parse_conforms_dottedClass :
    ∃ tree, parse dottedClass = .ok tree ∧ tree.kind? = some .start ∧
      tree.Conforms Fragment.keepsTokens := by
  have hparses : (parse dottedClass).isOk = true := by decide +kernel
  cases h : parse dottedClass with
  | error e =>
    rw [h] at hparses
    cases hparses
  | ok tree => exact ⟨tree, rfl, parse_conforms h⟩

/-! ## Dots that are dropped -/

section Inversion

variable {keeps : Fragment → Option Bool} {full : Bool} {items : List Item} {labels : List Label}

theorem exists_of_spells_terminal {item : Item} {t : Terminal}
    (hitem : item = .mark t ∨ item = .leaf t) (h : Spells keeps full (item :: items) labels) :
    ∃ rest, labels = t.labels full ++ rest ∧ Spells keeps full items rest := by
  cases h with
  | terminal hsame hmore =>
    rcases hitem with rfl | rfl
    all_goals
      rcases hsame with hsame | hsame
      all_goals cases hsame
      exact ⟨_, rfl, hmore⟩
  | node => simp at hitem
  | part => simp at hitem
  | choice => simp at hitem

theorem exists_of_spells_choice {alternatives : List (List Item)}
    (h : Spells keeps full (.choice alternatives :: items) labels) :
    ∃ chosen ∈ alternatives, ∃ first rest, labels = first ++ rest ∧
      Spells keeps full chosen first ∧ Spells keeps full items rest := by
  cases h with
  | terminal hitem => simp at hitem
  | choice hmem hone hmore => exact ⟨_, hmem, _, _, rfl, hone, hmore⟩

end Inversion

/-- As the rules are written, dotted names with their tokens end with a dot and a name. -/
theorem exists_of_yields_dottedNames {labels : List Label}
    (h : Yields Fragment.asWritten true (.part .dottedNames) labels) :
    ∃ before, labels = before ++ [Label.leaf .dot, .leaf .identifier] := by
  cases h with
  | @intro _ _ a labels hmem hspells =>
    obtain ⟨items, rfl⟩ : ∃ items, a = .splice (items ++ [Item.mark .dot, .leaf .identifier]) := by
      rcases mem_cons.mp hmem with rfl | hmem
      · exact ⟨[], rfl⟩
      · obtain rfl := mem_singleton.mp hmem
        exact ⟨[.part .dottedNames], rfl⟩
    obtain ⟨before, after, rfl, -, hafter⟩ := Spells.split _ hspells
    obtain ⟨rest, rfl, hrest⟩ := exists_of_spells_terminal (.inl rfl) hafter
    obtain ⟨rest, rfl, hnone⟩ := exists_of_spells_terminal (.inr rfl) hrest
    cases hnone
    exact ⟨before, rfl⟩

theorem exists_of_spells_dottedNames {labels : List Label}
    (h : Spells Fragment.asWritten true [.many .dottedNames] labels) :
    labels = [] ∨ ∃ before, labels = before ++ [Label.leaf .dot, .leaf .identifier] := by
  obtain ⟨chosen, hchosen, first, rest, rfl, hfirst, hrest⟩ := exists_of_spells_choice h
  cases hrest
  rw [append_nil]
  rcases mem_cons.mp hchosen with rfl | hchosen
  · right
    cases hfirst with
    | terminal hitem => simp at hitem
    | part hone hmore =>
      cases hmore
      rw [append_nil]
      exact exists_of_yields_dottedNames hone
  · obtain rfl := mem_singleton.mp hchosen
    cases hfirst
    exact .inl rfl

theorem build_string : ∀ a ∈ Kind.string.alternatives, a.build = .node .string := by decide +kernel

theorem length_of_spells_base {labels : List Label}
    (h : Spells Fragment.asWritten true [.choice [[.leaf .identifier], [.node .string]]] labels) :
    labels.length = 1 := by
  obtain ⟨chosen, hchosen, first, rest, rfl, hfirst, hrest⟩ := exists_of_spells_choice h
  cases hrest
  rw [append_nil]
  rcases mem_cons.mp hchosen with rfl | hchosen
  · obtain ⟨rest, rfl, hnone⟩ := exists_of_spells_terminal (.inr rfl) hfirst
    cases hnone
    rfl
  · obtain rfl := mem_singleton.mp hchosen
    cases hfirst with
    | terminal hitem => simp at hitem
    | node hone hmore =>
      cases hmore
      cases hone with
      | intro hmem hspells =>
        rw [build_string _ hmem]
        rfl

theorem rule_classnameExtendsStmt (rule : Kind) :
    ∀ a ∈ rule.alternatives, a.build = .node .classnameExtendsStmt ∨
      a.build = .collapse .classnameExtendsStmt → rule = .classnameExtendsStmt := by
  revert rule
  decide +kernel

/-- As the rules are written, a class that extends a dotted name would have to show the dots. -/
theorem not_expands_without_dots :
    ¬ Kind.classnameExtendsStmt.Expands Fragment.asWritten
      [.leaf .kwClassName, .leaf .identifier, .leaf .kwExtends, .leaf .identifier,
        .leaf .identifier] := by
  rintro ⟨rule, a, ha, hmakes, hspells⟩
  obtain rfl : rule = .classnameExtendsStmt := by
    refine rule_classnameExtendsStmt rule a ha ?_
    cases hbuild : a.build with
    | splice => simp [hbuild, Build.Makes] at hmakes
    | node k => simp_all [Build.Makes]
    | collapse k => simp_all [Build.Makes]
  obtain rfl := mem_singleton.mp ha
  let before : List Item := [.leaf .kwClassName, .leaf .identifier, .leaf .kwExtends,
    .choice [[.leaf .identifier], [.node .string]]]
  obtain ⟨base, dotted, hlabels, hbase, hdotted⟩ := Spells.split before hspells
  rcases exists_of_spells_dottedNames hdotted with rfl | ⟨before, rfl⟩
  · obtain ⟨first, rfl, hfirst⟩ := exists_of_spells_terminal (.inr rfl) hbase
    obtain ⟨second, rfl, hsecond⟩ := exists_of_spells_terminal (.inr rfl) hfirst
    obtain ⟨third, rfl, hthird⟩ := exists_of_spells_terminal (.inr rfl) hsecond
    have hlength := congrArg length hlabels
    rw [append_nil] at hlength
    change 5 = third.length + 3 at hlength
    rw [length_of_spells_base hthird] at hlength
    cases hlength
  · have hsuffix := suffix_append (base ++ before) [Label.leaf .dot, .leaf .identifier]
    rw [append_assoc, ← hlabels] at hsuffix
    revert hsuffix
    decide

def headLabels : Except SyntaxError Tree → List Label
  | .ok (.node .start _ [.node .classnameExtendsStmt _ children]) => children.map label
  | _ => []

/-- The dots of a dotted base are nowhere in the tree, though the rule keeps its tokens. -/
theorem not_conforms_asWritten :
    ∃ tree, parse "class_name A extends B.C".toList = .ok tree ∧ tree.kind? = some .start ∧
      ¬ tree.Conforms Fragment.asWritten := by
  have hlabels : headLabels (parse "class_name A extends B.C".toList) =
      [.leaf .kwClassName, .leaf .identifier, .leaf .kwExtends, .leaf .identifier,
        .leaf .identifier] := by decide +kernel
  unfold headLabels at hlabels
  split at hlabels
  · rename_i span inner children hparse
    refine ⟨_, hparse, rfl, fun hconforms => ?_⟩
    cases hconforms with
    | node hexpands heach =>
      cases heach _ mem_cons_self with
      | node hexpands heach =>
        rw [hlabels] at hexpands
        exact not_expands_without_dots hexpands
  · cases hlabels

end Parse

end GDWorkbench
