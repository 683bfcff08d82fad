import GDWorkbench.Proofs.Parse.Regular

/-!
Which rule makes a kind of node, and what a symbol can stand for, however deep it is expanded. Every kind
comes from one rule, mostly the one that has its name. A set of symbols is closed under a set of labels
if no rule of its symbols leads out of it or to a label outside; a rule that makes a node leads to the
label of that node only. Then the symbols stand for labels of the set.
-/

namespace GDWorkbench

open Templates

def Kind.rule : Kind → Kind
  | .staticClassVarStmt => .singleClassStmt
  | .staticFuncDef => .compoundClassStmt
  | .signalArgRegular | .signalArgTyped => .signalArg
  | .propertyCustomSetter | .propertyCustomGetter => .propertyCustomEtter
  | .guardedMatchBranch => .matchBranch
  | .parPattern | .varCapturePattern | .etcPattern | .wildcardPattern => .atomPattern
  | .standaloneCall | .getattrCall => .callExpr
  | .parExpr => .atom
  | .nodePath | .stringName => .literal
  | k => k

def Build.kind? : Build → Option Kind
  | .node k | .collapse k => some k
  | .splice => none

theorem Build.Makes.kind?_eq {b : Build} {k : Kind} {labels : List Label} (h : b.Makes k labels) :
    b.kind? = some k := by
  cases b with
  | splice => cases h
  | node j => exact congrArg some h
  | collapse j => exact congrArg some h.1

theorem rule_of_mem (rule : Kind) : ∀ a ∈ rule.alternatives, a.build.kind?.all (·.rule = rule) := by
  revert rule
  decide +kernel

def Kind.makers (k : Kind) : List Alternative :=
  k.rule.alternatives.filter fun a => a.build.kind? = some k

namespace Kind.Expands

variable {keeps : Fragment → Option Bool} {k : Kind} {labels : List Label}

theorem exists_maker (h : k.Expands keeps labels) :
    ∃ a ∈ k.makers, a.build.Makes k labels ∧ Spells keeps k.rule.keepsTokens a.items labels := by
  obtain ⟨rule, a, ha, hmakes, hspells⟩ := h
  have hrule := rule_of_mem rule a ha
  rw [hmakes.kind?_eq] at hrule
  obtain rfl : k.rule = rule := of_decide_eq_true hrule
  exact ⟨a, List.mem_filter.mpr ⟨ha, decide_eq_true hmakes.kind?_eq⟩, hmakes, hspells⟩

end Kind.Expands

/-- The branches of an `if` come in their order, and there is at most one `else`. -/
theorem exists_of_expands_ifStmt {labels : List Label}
    (h : Kind.ifStmt.Expands Fragment.keepsTokens labels) :
    ∃ middle last, labels = .node .ifBranch :: (middle ++ last) ∧
      (∀ l ∈ middle, l = .node .elifBranch) ∧ (last = [] ∨ last = [.node .elseBranch]) := by
  obtain ⟨a, ha, -, hspells⟩ := h.exists_maker
  have hmakers : Kind.ifStmt.makers = Kind.ifStmt.alternatives := rfl
  rw [hmakers] at ha
  obtain rfl := List.mem_singleton.mp ha
  obtain ⟨front, last, rfl, hfront, hlast⟩ :=
    Spells.split [.node .ifBranch, .many .elifBranches] hspells
  obtain ⟨s, hs, hfront⟩ := fits_of_spells isClosed_table hfront
  obtain ⟨u, hu, hlast⟩ := fits_of_spells isClosed_table hlast
  have hchain : ∀ s ∈ table.ofItems false [.node .ifBranch, .many .elifBranches],
      s.isWithin ⟨[Label.nodes [.ifBranch]], Label.nodes [.elifBranch]⟩ := by decide
  have hend : ∀ u ∈ table.ofItems false
      [.opt [.opt [.mark .newline], .node .elseBranch]],
      u.isWithin (.exactly []) ∨ u.isWithin (.exactly [Label.nodes [.elseBranch]]) := by
    decide
  have honly {k : Kind} {l : Label} (h : (Label.nodes [k]).admits l) : l = .node k :=
    List.mem_singleton.mp (of_decide_eq_true h)
  cases hfront.of_isWithin (hchain s hs) with
  | @place _ first _ middle hfirst hmore =>
    cases hmore with
    | rest hmiddle =>
      refine ⟨middle, last, by rw [honly hfirst, List.cons_append], fun l hl => honly (hmiddle l hl), ?_⟩
      rcases hend u hu with hempty | hone
      · exact .inl (List.length_eq_zero_iff.mp ((hlast.of_isWithin hempty).length_eq rfl))
      · cases hlast.of_isWithin hone with
        | place helse hnone =>
          obtain rfl := List.length_eq_zero_iff.mp (hnone.length_eq rfl)
          exact .inr (by rw [honly helse])

/-! ## Closed sets of symbols -/

variable {items : List Item} {labels : List Label}

/-- Symbols, in rules that keep all of their tokens and in rules that do not. -/
abbrev SymbolSet := Bool → Nonterminal → Bool

namespace Item

section StaysIn

variable (symbols : SymbolSet) (allowed : Label → Bool) (full : Bool)

mutual

/-- Whether the item leads to symbols and labels of the sets only. -/
def staysIn : Item → Bool
  | .mark t | .leaf t => (t.labels full).all allowed
  | .node k => symbols k.keepsTokens (.node k)
  | .part f => symbols (f.keepsTokens.getD full) (.part f)
  | .choice alternatives => choicesStayIn alternatives

def choicesStayIn : List (List Item) → Bool
  | [] => true
  | items :: rest => allStayIn items && choicesStayIn rest

def allStayIn : List Item → Bool
  | [] => true
  | item :: items => staysIn item && allStayIn items

end

end StaysIn

theorem allStayIn_of_mem {symbols : SymbolSet} {allowed : Label → Bool} {full : Bool}
    {alternatives : List (List Item)}
    (h : choicesStayIn symbols allowed full alternatives) (hmem : items ∈ alternatives) :
    allStayIn symbols allowed full items := by
  induction alternatives with
  | nil => cases hmem
  | cons first rest ih =>
    obtain ⟨hfirst, hrest⟩ := Bool.and_eq_true_iff.mp h
    rcases List.mem_cons.mp hmem with rfl | hmem
    · exact hfirst
    · exact ih hrest hmem

end Item

/-- Whether an alternative leads to symbols and labels of the sets only. -/
def Alternative.staysIn (symbols : SymbolSet) (allowed : Label → Bool) (full : Bool)
    (a : Alternative) : Bool :=
  match a.build with
  | .splice => Item.allStayIn symbols allowed full a.items
  | .node k => allowed (.node k)
  | .collapse k => allowed (.node k) && Item.allStayIn symbols allowed full a.items

def SymbolSet.IsClosed (symbols : SymbolSet) (allowed : Label → Bool) : Prop :=
  ∀ full head, symbols full head = true → ∀ a ∈ head.alternatives, a.staysIn symbols allowed full = true

instance (symbols : SymbolSet) (allowed : Label → Bool) : Decidable (symbols.IsClosed allowed) :=
  inferInstanceAs (Decidable (∀ full head, symbols full head = true →
    ∀ a ∈ head.alternatives, a.staysIn symbols allowed full = true))

namespace SymbolSet.IsClosed

variable {symbols : SymbolSet} {allowed : Label → Bool}

theorem build {b : Build} {full : Bool} (hb : (Alternative.mk b items).staysIn symbols allowed full)
    (h : Item.allStayIn symbols allowed full items → ∀ l ∈ labels, allowed l) :
    ∀ l ∈ b.labels labels, allowed l := by
  cases b with
  | splice => exact h hb
  | node k => exact List.forall_mem_singleton.mpr hb
  | collapse k =>
    obtain ⟨hk, hitems⟩ := Bool.and_eq_true_iff.mp hb
    rw [Build.labels]
    split
    · exact h hitems
    · exact List.forall_mem_singleton.mpr hk

mutual

theorem of_spells (hclosed : symbols.IsClosed allowed) {full : Bool} {items : List Item}
    {labels : List Label} (hitems : Item.allStayIn symbols allowed full items) :
    Spells Fragment.keepsTokens full items labels → ∀ l ∈ labels, allowed l
  | .nil full => List.forall_mem_nil _
  | .terminal hitem hmore => by
    obtain ⟨hfirst, hrest⟩ := Bool.and_eq_true_iff.mp hitems
    refine List.forall_mem_append.mpr ⟨?_, of_spells hclosed hrest hmore⟩
    rcases hitem with rfl | rfl
    all_goals exact List.all_eq_true.mp hfirst
  | .node hone hmore => by
    obtain ⟨hfirst, hrest⟩ := Bool.and_eq_true_iff.mp hitems
    exact List.forall_mem_append.mpr ⟨of_yields hclosed hfirst hone, of_spells hclosed hrest hmore⟩
  | .part hone hmore => by
    obtain ⟨hfirst, hrest⟩ := Bool.and_eq_true_iff.mp hitems
    exact List.forall_mem_append.mpr ⟨of_yields hclosed hfirst hone, of_spells hclosed hrest hmore⟩
  | .choice hmem hone hmore => by
    obtain ⟨hfirst, hrest⟩ := Bool.and_eq_true_iff.mp hitems
    exact List.forall_mem_append.mpr
      ⟨of_spells hclosed (Item.allStayIn_of_mem hfirst hmem) hone, of_spells hclosed hrest hmore⟩

theorem of_yields (hclosed : symbols.IsClosed allowed) {full : Bool} {head : Nonterminal}
    {labels : List Label} (hhead : symbols full head) :
    Yields Fragment.keepsTokens full head labels → ∀ l ∈ labels, allowed l
  | .intro hmem hspells =>
    build (hclosed full head hhead _ hmem) fun hitems => of_spells hclosed hitems hspells

end

theorem of_expands (hclosed : symbols.IsClosed allowed) {k : Kind}
    (hmakers : ∀ a ∈ k.makers, Item.allStayIn symbols allowed k.rule.keepsTokens a.items)
    (h : k.Expands Fragment.keepsTokens labels) : ∀ l ∈ labels, allowed l := by
  obtain ⟨a, ha, -, hspells⟩ := h.exists_maker
  exact of_spells hclosed (hmakers a ha) hspells

end SymbolSet.IsClosed

namespace Tree

variable {keeps : Fragment → Option Bool}

theorem Conforms.child {t c : Tree} (h : t.Conforms keeps) (hc : c ∈ t.children) : c.Conforms keeps := by
  cases h with
  | token t => cases hc
  | node hexpands heach => exact heach c hc

theorem Conforms.inside {s t : Tree} (h : t.Conforms keeps) (hs : Inside s t) : s.Conforms keeps := by
  induction hs with
  | refl => exact h
  | child hmem hinside ih => exact ih (h.child hmem)

end Tree

theorem conforms_of_parse {code : Text} {t : Tree} (h : parse code = .ok t) :
    t.Conforms Fragment.keepsTokens := by
  obtain ⟨state, extent, hframe⟩ := Parse.tracks_conforms.parse h
  exact hframe.each t List.mem_cons_self

/-! ## Patterns -/

def Nonterminal.isPattern : Nonterminal → Bool
  | .node .listPattern | .node .testPattern | .node .orPattern | .node .andPattern
  | .node .notPattern | .node .compPattern | .node .bitwOrPattern | .node .bitwXorPattern
  | .node .bitwAndPattern | .node .shiftPattern | .node .arithPattern | .node .mdrPattern
  | .node .negPattern | .node .bitwNotPattern | .node .attrPattern | .node .callPattern
  | .node .atomPattern | .node .arrayPattern | .node .dictPattern | .node .literal | .node .string
  | .node .rawString | .node .getNode | .node .uniqueNodePath
  | .part .moreTestPatterns | .part .orPatterns | .part .andPatterns | .part .compOp
  | .part .bitwOrPatterns | .part .bitwXorPatterns | .part .bitwAndPatterns | .part .shiftPatterns
  | .part .arithPatterns | .part .mdrPatterns | .part .dottedPatterns => true
  | _ => false

def Label.isStatement : Label → Bool
  | .node .returnStmt | .node .ifStmt | .node .matchStmt => true
  | _ => false

theorem not_isStatement_of_pattern
    (h : Kind.pattern.Expands Fragment.keepsTokens labels) : ∀ l ∈ labels, l.isStatement = false := by
  have hclosed : SymbolSet.IsClosed (fun _ head => head.isPattern) (!·.isStatement) := by decide +kernel
  have hlabels := hclosed.of_expands (by decide +kernel) h
  simpa using hlabels

end GDWorkbench
