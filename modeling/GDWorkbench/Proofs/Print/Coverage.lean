import GDWorkbench.Proofs.Parse.Parts
import GDWorkbench.Proofs.Print.Core
import Mathlib.Data.List.Induction

/-!
Printing covers the grammar: an expression or an annotation without lambdas has a text on one line. What
printing counts on is there by the rules: as many children as it looks at, and words where it asks for the
text of a token.
-/

namespace GDWorkbench

open List GDWorkbench.Tree Templates

variable {k : Kind} {labels : List Label} {ps : Parts} {i : Nat}

/-! ## Children that are there -/

/-- The kinds of nodes in expressions and annotations. -/
def Kind.isPrinted (k : Kind) : Bool :=
  k.isExpression || k = .expr || k = .annot || k = .annotationArgs

def Label.isPrinted : Label → Bool
  | .node k => k.isPrinted
  | .leaf _ => true

def Label.isWord : Label → Bool
  | .node _ => false
  | .leaf _ => true

/-- Kinds of rules that hand on their only part. -/
def Kind.isHandedOn : Kind → Bool
  | .typeCast | .notTest | .aslessNotTest | .negExpr | .aslessNegExpr | .bitwNot | .aslessBitwNot
  | .callExpr | .attrExpr | .atom | .literal => true
  | _ => false

/-- How many children printing looks at for sure. -/
def Kind.needed : Kind → Nat
  | .notInOp | .trailingComma | .array | .dict | .annotationArgs | .awaitExpr => 0
  | .aslessActualNotTest | .aslessActualNegExpr | .aslessActualBitwNot | .subscrExpr | .cDictElement
  | .eqDictElement => 2
  | _ => 1

theorem Place.Row.length_le {rest : Place} {front : List Place} (h : rest.Row front labels) :
    front.length ≤ labels.length := by
  induction h with
  | rest => exact Nat.zero_le _
  | place _ _ ih => exact Nat.succ_le_succ ih

namespace Kind.Expands

theorem needed_le (h : k.Expands Fragment.keepsTokens labels) (hk : k.isPrinted)
    (hlambda : k ≠ .lambda) : k.isHandedOn = false ∧ k.needed ≤ labels.length := by
  have hmakers : ∀ k : Kind, k.isPrinted → k ≠ .lambda → ∀ a ∈ k.makers,
      ∀ s ∈ table.ofItems k.rule.keepsTokens a.items,
        (k.isHandedOn = false ∧ k.needed ≤ s.front.length) ∨
          a.build = .collapse k ∧ s.front.length = 1 ∧ s.rest.isEmpty := by
    decide +kernel
  obtain ⟨a, ha, hmakes, hspells⟩ := h.exists_maker
  obtain ⟨s, hs, hfits⟩ := fits_of_spells isClosed_table hspells
  rcases hmakers k hk hlambda a ha s hs with ⟨hnot, hneeded⟩ | ⟨hbuild, hone, hempty⟩
  · exact ⟨hnot, hneeded.trans hfits.length_le⟩
  · rw [hbuild] at hmakes
    exact absurd ((hfits.length_eq hempty).trans hone) hmakes.2

theorem isPrinted (h : k.Expands Fragment.keepsTokens labels) (hk : k.isPrinted)
    (hlambda : k ≠ .lambda) : ∀ l ∈ labels, l.isPrinted := by
  let symbols : SymbolSet := fun full head =>
    expressionSymbols full head || head = .node .annotationArgs || head = .part .moreAnnotationArgs
  have hclosed : symbols.IsClosed (·.isPrinted) := by decide +kernel
  have hmakers : ∀ k : Kind, k.isPrinted → k ≠ .lambda → ∀ a ∈ k.makers,
      Item.allStayIn symbols (·.isPrinted) k.rule.keepsTokens a.items := by
    decide +kernel
  exact hclosed.of_expands (hmakers k hk hlambda) h

theorem isWord_path (h : Kind.path.Expands Fragment.keepsTokens labels) :
    ∀ l ∈ labels, l.isWord := by
  have hclosed : SymbolSet.IsClosed (fun _ head => head = .part .pathSteps) (·.isWord) := by
    decide +kernel
  exact hclosed.of_expands (by decide +kernel) h

theorem isWord_awaits (h : Kind.awaitExpr.Expands Fragment.keepsTokens labels) :
    ∃ words last, labels = words ++ [last] ∧ ∀ l ∈ words, l.isWord := by
  have hclosed : SymbolSet.IsClosed (fun _ head => head = .part .awaits) (·.isWord) := by
    decide +kernel
  obtain ⟨a, ha, -, hspells⟩ := h.exists_maker
  obtain rfl := mem_singleton.mp ha
  cases hspells with
  | terminal hitem => rcases hitem with hitem | hitem <;> cases hitem
  | choice hmem hone hmore =>
    obtain ⟨last, rest, rfl, -, hnone⟩ := hmore.exists_of_node
    cases hnone
    exact ⟨_, last, rfl, hclosed.of_spells (Item.allStayIn_of_mem (by decide) hmem) hone⟩

end Kind.Expands

/-! ## Parts that can be printed -/

def Parts.ArePrinted (ps : Parts) : Prop :=
  ∀ p ∈ ps, Succeeds p.2.whole ∧ Succeeds p.2.bare

namespace Parts.ArePrinted

theorem at? (h : ps.ArePrinted) (hi : i < ps.length) :
    Gives (ps.at? i) fun p => Succeeds p.2.whole ∧ Succeeds p.2.bare := by
  rw [Parts.at?, getElem?_eq_getElem hi]
  exact gives_ok (h _ (getElem_mem hi))

theorem whole (h : ps.ArePrinted) (hi : i < ps.length) : Succeeds (ps.whole i) :=
  (h.at? hi).bind fun _ hp => hp.1

theorem bare (h : ps.ArePrinted) (hi : i < ps.length) : Succeeds (ps.bare i) :=
  (h.at? hi).bind fun _ hp => hp.2

theorem wholes (h : ps.ArePrinted) : Succeeds ps.wholes := by
  induction ps with
  | nil => exact succeeds_ok
  | cons p ps ih =>
    obtain ⟨hp, hps⟩ := forall_mem_cons.mp h
    exact hp.1.bind fun _ => (ih hps).bind fun _ => succeeds_ok

theorem bares (h : ps.ArePrinted) : Succeeds ps.bares := by
  induction ps with
  | nil => exact succeeds_ok
  | cons p ps ih =>
    obtain ⟨hp, hps⟩ := forall_mem_cons.mp h
    exact hp.2.bind fun _ => (ih hps).bind fun _ => succeeds_ok

theorem sublist {part : Parts} (h : ps.ArePrinted) (hpart : part.Sublist ps) : part.ArePrinted :=
  fun p hp => h p (hpart.subset hp)

theorem operations (h : ps.ArePrinted) : Succeeds (Print.operations ps) := by
  induction ps using twoStepInduction with
  | nil => exact succeeds_ok
  | singleton p => exact succeeds_ok
  | cons_cons sign operand rest ih _ =>
    obtain ⟨hsign, h⟩ := forall_mem_cons.mp h
    obtain ⟨hoperand, hrest⟩ := forall_mem_cons.mp h
    exact hsign.1.bind fun _ => hoperand.1.bind fun _ => (ih hrest).bind fun _ => succeeds_ok

theorem chain (h : ps.ArePrinted) (hi : 0 < ps.length) : Succeeds (Print.chain ps) :=
  (h.sublist (tail_sublist ps)).operations.bind fun _ => (h.whole hi).bind fun _ => succeeds_ok

theorem elements (h : ps.ArePrinted) (left right : String) : Succeeds (Print.elements left right ps) :=
  (h.sublist filter_sublist).bares.bind fun _ => succeeds_ok

theorem call (h : ps.ArePrinted) (hi : 0 < ps.length) : Succeeds (Print.call ps) := by
  have harguments : Succeeds (Print.arguments ps.tail) :=
    (h.sublist (filter_sublist.trans (tail_sublist ps))).bares.bind fun _ => succeeds_ok
  exact (h.whole hi).bind fun _ => harguments.bind fun _ => succeeds_ok

end Parts.ArePrinted

/-! ## Nodes -/

def Tree.isWord (t : Tree) : Bool :=
  t.label.isWord

theorem Tree.succeeds_tokenText {t : Tree} (h : t.isWord) : Succeeds t.tokenText := by
  cases t with
  | token t => exact succeeds_ok
  | node => cases h

/-- The children that have to be words are. -/
def Worded : Kind → List Tree → Prop
  | .aslessActualNotTest, cs => ∃ t rest, cs = .token t :: rest
  | .path, cs => ∀ c ∈ cs, c.isWord
  | .awaitExpr, cs => cs ≠ [] ∧ ∀ c ∈ cs.dropLast, c.isWord
  | _, _ => True

theorem worded_of_expands {children : List Tree}
    (h : k.Expands Fragment.keepsTokens (children.map label)) : Worded k children := by
  unfold Worded
  split
  · obtain ⟨c, rest, rfl, hc, -⟩ := Place.Row.exists_cons h.fits
    obtain ⟨t, rfl, -⟩ := Label.exists_leaf hc
    exact ⟨t, rest, rfl⟩
  · exact forall_mem_map.mp h.isWord_path
  · obtain ⟨words, last, hlabels, hwords⟩ := h.isWord_awaits
    constructor
    · rintro rfl
      simp at hlabels
    · have hfront : ∀ l ∈ children.dropLast.map label, l.isWord := by
        rwa [map_dropLast, hlabels, dropLast_concat]
      exact forall_mem_map.mp hfront
  · trivial

theorem Print.succeeds_whole {children : List Tree} (h : (Tree.printAll children).ArePrinted)
    (hk : k.isPrinted) (hlambda : k ≠ .lambda) (hnot : k.isHandedOn = false) (hpar : k ≠ .parExpr)
    (hneeded : k.needed ≤ children.length) (hworded : Worded k children) :
    Succeeds (Print.whole k (Tree.printAll children)) := by
  have hlength : (Tree.printAll children).length = children.length := by
    rw [Tree.printAll_eq_map, length_map]
  have hwords {cs : List Tree} (hcs : ∀ c ∈ cs, c.isWord) :
      Succeeds ((Tree.printAll cs).mapM fun p => p.1.tokenText) := by
    refine .mapM fun p hp => ?_
    rw [Tree.printAll_eq_map] at hp
    obtain ⟨c, hc, rfl⟩ := mem_map.mp hp
    exact succeeds_tokenText (hcs c hc)
  rw [← hlength] at hneeded
  cases k
  case aslessActualNotTest =>
    obtain ⟨t, rest, rfl⟩ := hworded
    exact (h.whole (Nat.zero_lt_succ _)).bind fun _ => (h.whole hneeded).bind fun _ => succeeds_ok
  case awaitExpr =>
    have hpos : 0 < (Tree.printAll children).length := hlength ▸ length_pos_of_ne_nil hworded.1
    have hfront : Succeeds ((Tree.printAll children).dropLast.mapM fun p => p.1.tokenText) := by
      rw [Tree.printAll_eq_map, ← map_dropLast, ← Tree.printAll_eq_map]
      exact hwords hworded.2
    exact hfront.bind fun _ => (h.whole (Nat.sub_lt hpos Nat.one_pos)).bind fun _ => succeeds_ok
  case path => exact (hwords hworded).bind fun _ => succeeds_ok
  case annot =>
    refine (h.whole hneeded).bind fun _ => ?_
    by_cases harguments : 1 < (Tree.printAll children).length
    · rw [if_pos harguments]
      exact (h.whole harguments).bind fun _ => succeeds_ok
    · rw [if_neg harguments]
      exact succeeds_ok
  case lambda => exact absurd rfl hlambda
  case parExpr => exact absurd rfl hpar
  all_goals first
    | exact absurd hk (by decide)
    | exact absurd hnot (by decide)
    | exact succeeds_ok
    | exact h.chain hneeded
    | exact h.call hneeded
    | exact h.whole hneeded
    | exact h.bare hneeded
    | exact h.elements _ _
    | exact (h.whole hneeded).bind fun _ => succeeds_ok
    | exact h.wholes.bind fun _ => succeeds_ok
    | exact (h.whole (Nat.lt_of_succ_lt hneeded)).bind fun _ => (h.bare hneeded).bind fun _ => succeeds_ok
    | exact (h.bare (Nat.lt_of_succ_lt hneeded)).bind fun _ => (h.bare hneeded).bind fun _ => succeeds_ok

theorem Tree.succeeds_print {t : Tree} (h : t.Conforms Fragment.keepsTokens)
    (hlambda : Format.holdsLambda t = false) (hlabel : t.label.isPrinted) :
    Succeeds t.line ∧ Succeeds t.bareLine := by
  induction h with
  | token t => exact ⟨succeeds_ok, succeeds_ok⟩
  | @node k span children hexpands heach ih =>
    obtain ⟨hk, hinside⟩ := Bool.or_eq_false_iff.mp hlambda
    have hk : k ≠ .lambda := of_decide_eq_false hk
    have hparts : (printAll children).ArePrinted := by
      intro p hp
      rw [printAll_eq_map] at hp
      obtain ⟨c, hc, rfl⟩ := mem_map.mp hp
      exact ih c hc (Format.not_anyHoldsLambda_of_mem hinside c hc)
        (hexpands.isPrinted hlabel hk _ (mem_map_of_mem hc))
    obtain ⟨hnot, hneeded⟩ := hexpands.needed_le hlabel hk
    rw [length_map] at hneeded
    by_cases hpar : k = .parExpr
    · subst hpar
      have hbare : Succeeds ((printAll children).bare 0) :=
        hparts.bare (by rwa [printAll_eq_map, length_map])
      refine ⟨?_, hbare⟩
      obtain ⟨text, htext, -⟩ := hbare
      change Succeeds (((printAll children).bare 0).map _)
      rw [htext]
      exact succeeds_ok
    · have hwhole := Print.succeeds_whole hparts hlabel hk hnot hpar hneeded (worded_of_expands hexpands)
      have hline : Succeeds (Tree.node k span children).line := by
        have hnode : (Print.node k (printAll children)).whole = Print.whole k (printAll children) := by
          cases k <;> first | rfl | exact absurd rfl hpar
        rwa [line, print, hnode]
      refine ⟨hline, ?_⟩
      rwa [bareLine, print, node_bare_eq_whole hpar]

/-- Every expression and every annotation without lambdas is printed, and so is the first of its parts. -/
theorem line_isOk_of_parse {code : Text} {root t : Tree} (hparse : parse code = .ok root)
    (hk : k = .expr ∨ k = .annot) (ht : t ∈ root.subtreesOf k) (hlambda : Format.holdsLambda t = false) :
    (∃ text, t.line = .ok text) ∧ ∃ c rest text, t.children = c :: rest ∧ c.bareLine = .ok text := by
  obtain ⟨hkind, hinside⟩ := mem_subtreesOf_iff.mp ht
  have hconforms := (conforms_of_parse hparse).inside hinside
  obtain ⟨span, children, rfl⟩ := exists_of_isKind hkind
  obtain ⟨hlabel, hnot, hone⟩ : k.isPrinted ∧ k ≠ .lambda ∧ k.needed = 1 := by
    rcases hk with rfl | rfl <;> decide
  refine ⟨succeeds_iff.mp (succeeds_print hconforms hlambda hlabel).1, ?_⟩
  cases hconforms with
  | node hexpands heach =>
    have hneeded := (hexpands.needed_le hlabel hnot).2
    rw [hone, length_map] at hneeded
    obtain ⟨c, rest, rfl⟩ := exists_cons_of_length_pos hneeded
    have hc := Format.not_anyHoldsLambda_of_mem (Bool.or_eq_false_iff.mp hlambda).2 c mem_cons_self
    obtain ⟨text, htext, -⟩ := (succeeds_print (heach c mem_cons_self) hc
      (hexpands.isPrinted hlabel hnot _ mem_cons_self)).2
    exact ⟨c, rest, text, rfl, htext⟩

def manyExpressions : Text :=
  "@export_range(0, 1)\nvar x = not a and - b.c(1)[2] is int if $d/e else [[f], await h(),]\n".toList

theorem line_isOk_of_parse_manyExpressions :
    ∃ root, parse manyExpressions = .ok root ∧ (∃ t ∈ root.subtreesOf .annot, ∃ text, t.line = .ok text) ∧
      ∃ t ∈ root.subtreesOf .expr, ∃ text, t.line = .ok text := by
  have hparse : (parse manyExpressions).toOption.any (fun root => decide
      ((∃ t ∈ root.subtreesOf .annot, Format.holdsLambda t = false) ∧
        ∃ t ∈ root.subtreesOf .expr, Format.holdsLambda t = false)) = true := by
    decide +kernel
  obtain ⟨root, hroot, ⟨a, ha, hannot⟩, e, he, hexpr⟩ := exists_eq_ok_of_any hparse
  exact ⟨root, hroot, ⟨a, ha, (line_isOk_of_parse hroot (.inr rfl) ha hannot).1⟩,
    e, he, (line_isOk_of_parse hroot (.inl rfl) he hexpr).1⟩

end GDWorkbench
