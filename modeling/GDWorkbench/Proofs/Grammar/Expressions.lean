import GDWorkbench.Proofs.Grammar.Closure

/-!
Nodes of expressions. The kinds that an expression is made of are closed under the rules, apart from the
header and the body of a lambda. What the rules say about the children of a node is read off them: rows that
can be listed, templates, and blocks in a row where an item is repeated.
-/

namespace GDWorkbench

open List Template Templates

variable {labels : List Label} {k : Kind} {full : Bool} {items : List Item} {f : Fragment}

/-! ## Rows that can be listed -/

theorem Template.eq_of_fits {row : List Label}
    (h : (exactly (row.map fun l => some [l])).Fits labels) : labels = row := by
  induction row generalizing labels with
  | nil => exact length_eq_zero_iff.mp (h.length_eq rfl)
  | cons l row ih =>
    cases h with
    | place hfirst hmore => rw [mem_singleton.mp (of_decide_eq_true hfirst), ih hmore]

/-- The children of a node, where the rules leave only a few rows. -/
theorem Kind.Expands.mem_rows (h : k.Expands Fragment.keepsTokens labels) (rows : List (List Label))
    (hrows : ∀ a ∈ k.makers, ∀ s ∈ table.ofItems k.rule.keepsTokens a.items,
      ∃ row ∈ rows, s.isWithin (.exactly (row.map fun l => some [l]))) : labels ∈ rows := by
  obtain ⟨a, ha, -, hspells⟩ := h.exists_maker
  obtain ⟨s, hs, hfits⟩ := fits_of_spells isClosed_table hspells
  obtain ⟨row, hrow, hwithin⟩ := hrows a ha s hs
  exact eq_of_fits (hfits.of_isWithin hwithin) ▸ hrow

/-! ## Repetitions -/

theorem Spells.exists_of_node (h : Spells Fragment.keepsTokens full (.node k :: items) labels) :
    ∃ l rest, labels = l :: rest ∧ Yields Fragment.keepsTokens k.keepsTokens (.node k) [l] ∧
      Spells Fragment.keepsTokens full items rest := by
  cases h with
  | terminal hitem => rcases hitem with hitem | hitem <;> cases hitem
  | node hone hmore =>
    have hfits : Fits (.exactly [table.node k]) _ :=
      fits_of_yields isClosed_table (by rintro _ ⟨⟩; rfl) hone
    obtain ⟨l, rfl⟩ := length_eq_one_iff.mp (hfits.length_eq rfl)
    exact ⟨l, _, rfl, hone, hmore⟩

theorem Spells.exists_of_part (h : Spells Fragment.keepsTokens full (.part f :: items) labels) :
    ∃ first rest, labels = first ++ rest ∧
      Yields Fragment.keepsTokens (f.keepsTokens.getD full) (.part f) first ∧
      Spells Fragment.keepsTokens full items rest := by
  cases h with
  | terminal hitem => rcases hitem with hitem | hitem <;> cases hitem
  | part hone hmore => exact ⟨_, _, rfl, hone, hmore⟩

/-- A repetition stands for blocks, one behind the other. The induction is on the number of labels: the
fragment stands in front of the last block, which is not empty. -/
theorem exists_blocks (hf : f.alternatives = [⟨.splice, items⟩, ⟨.splice, .part f :: items⟩])
    (hfull : f.keepsTokens.getD full = full)
    (hne : ∀ block, Spells Fragment.keepsTokens full items block → block ≠ [])
    (h : Yields Fragment.keepsTokens full (.part f) labels) :
    ∃ blocks : List (List Label), labels = blocks.flatten ∧ blocks ≠ [] ∧
      ∀ block ∈ blocks, Spells Fragment.keepsTokens full items block := by
  induction hlength : labels.length using Nat.strong_induction_on generalizing labels with
  | _ n ih =>
    cases h with
    | @intro _ _ a labels hmem hspells =>
      have hmem : a ∈ f.alternatives := hmem
      rw [hf, mem_cons, mem_singleton] at hmem
      rcases hmem with rfl | rfl
      · refine ⟨[labels], ?_, cons_ne_nil _ _, forall_mem_singleton.mpr hspells⟩
        exact (append_nil labels).symm
      · obtain ⟨first, last, rfl, hone, hmore⟩ := hspells.exists_of_part
        rw [hfull] at hone
        have hlt : first.length < n := by
          have hpos := length_pos_of_ne_nil (hne last hmore)
          change (first ++ last).length = n at hlength
          rw [length_append] at hlength
          omega
        obtain ⟨blocks, rfl, -, hall⟩ := ih first.length hlt hone rfl
        refine ⟨blocks ++ [last], ?_, by simp, ?_⟩
        · rw [flatten_append, flatten_singleton]
          rfl
        · exact forall_mem_append.mpr ⟨hall, forall_mem_singleton.mpr hmore⟩

/-! ## Expressions -/

/-- The kinds of nodes that stand in an expression, with those of rules that hand on their only part. -/
def Kind.isExpression : Kind → Bool
  | .assnmntExpr | .typeCast | .actualTypeCast | .testExpr | .aslessTestExpr | .orTest | .aslessOrTest
  | .andTest | .aslessAndTest | .notTest | .aslessActualNotTest | .aslessNotTest | .notInOp
  | .contentTest | .aslessContentTest | .comparison | .aslessComparison | .bitwOr | .aslessBitwOr
  | .bitwXor | .aslessBitwXor | .bitwAnd | .aslessBitwAnd | .shiftExpr | .aslessShiftExpr
  | .arithExpr | .aslessArithExpr | .mdrExpr | .aslessMdrExpr | .negExpr | .aslessActualNegExpr
  | .aslessNegExpr | .bitwNot | .aslessActualBitwNot | .aslessBitwNot | .powExpr | .aslessPowExpr
  | .typeTest | .aslessTypeTest | .awaitExpr | .callExpr | .standaloneCall | .getattrCall
  | .attrExpr | .getattr | .subscrExpr | .atom | .parExpr | .lambda | .literal | .nodePath
  | .stringName | .getNode | .path | .uniqueNodePath | .array | .trailingComma | .dict
  | .cDictElement | .eqDictElement | .string | .rawString => true
  | _ => false

def Terminal.isSeparator : Terminal → Bool
  | .comma | .leftParen | .rightParen => true
  | _ => false

def Label.isExpression : Label → Bool
  | .node k => k.isExpression
  | .leaf t => !t.isSeparator

/-- The symbols that stand for nodes and tokens of expressions. Separators are dropped where the rules for
lists do not keep their tokens. -/
def expressionSymbols : SymbolSet
  | _, .node k => k.isExpression
  | full, .part f => match f with
    | .assnmntOp | .casts | .orTests | .andTests | .contentTests | .contentTestOp | .compOp
    | .bitwOrs | .bitwXors | .bitwAnds | .shifts | .ariths | .mdrs | .powers | .typeTests | .awaits
    | .attrs | .attr | .plusAtom | .pathSteps => true
    | .callArglist | .moreArguments | .moreColonEntries | .moreEqualEntries => !full
    | _ => false

theorem isClosed_expressionSymbols : expressionSymbols.IsClosed (·.isExpression) := by
  decide +kernel

namespace Kind.Expands

/-- The children of a node of an expression, unless it is a lambda, stand in an expression as well. -/
theorem isExpression (h : k.Expands Fragment.keepsTokens labels)
    (hk : k.isExpression) (hlambda : k ≠ .lambda) : ∀ l ∈ labels, l.isExpression := by
  have hmakers : ∀ k : Kind, k.isExpression → k ≠ .lambda → ∀ a ∈ k.makers,
      Item.allStayIn expressionSymbols (·.isExpression) k.rule.keepsTokens a.items := by
    decide +kernel
  exact isClosed_expressionSymbols.of_expands (hmakers k hk hlambda) h

theorem exists_of_expr (h : Kind.expr.Expands Fragment.keepsTokens labels) :
    ∃ l : Label, labels = [l] ∧ l.isExpression := by
  obtain ⟨l, rfl⟩ := length_eq_one_iff.mp (h.fits.length_eq rfl)
  exact ⟨l, rfl, isClosed_expressionSymbols.of_expands (by decide +kernel) h l (mem_singleton_self l)⟩

end Kind.Expands

/-- An operand is never a dot. -/
theorem isClosed_operands : SymbolSet.IsClosed
    (fun full head => expressionSymbols full head && head ≠ .part .attrs && head ≠ .part .attr)
    (· ≠ .leaf .dot) := by
  decide +kernel

/-- Attributes follow what they belong to, each behind its dot. -/
theorem exists_of_expands_getattr (h : Kind.getattr.Expands Fragment.keepsTokens labels) :
    ∃ (base : Label) (names : List Label), labels = base :: names.flatMap (fun l => [.leaf .dot, l]) ∧
      names ≠ [] ∧ ∀ l ∈ base :: names, l ≠ .leaf .dot := by
  obtain ⟨a, ha, -, hspells⟩ := h.exists_maker
  obtain rfl := mem_singleton.mp ha
  obtain ⟨base, rest, rfl, hbase, hmore⟩ := hspells.exists_of_node
  obtain ⟨attrs, none, rfl, hattrs, hnone⟩ := hmore.exists_of_part
  cases hnone
  have hpair {block : List Label} (hblock : Spells Fragment.keepsTokens false [.part .attr] block) :
      ∃ l, block = [.leaf .dot, l] ∧ l ≠ .leaf .dot := by
    obtain ⟨s, hs, hfits⟩ := fits_of_spells isClosed_table hblock
    obtain rfl := mem_singleton.mp hs
    cases hfits with
    | place hdot hname =>
      cases hname with
      | place hname hnone =>
        rw [mem_singleton.mp (of_decide_eq_true hdot), length_eq_zero_iff.mp (hnone.length_eq rfl)]
        exact ⟨_, rfl, by rintro rfl; cases hname⟩
  obtain ⟨blocks, rfl, hne, hblocks⟩ := exists_blocks rfl rfl
    (fun block hblock => by obtain ⟨l, rfl, -⟩ := hpair hblock; exact cons_ne_nil _ _) hattrs
  have hnames : ∃ names : List Label, blocks.flatten = names.flatMap (fun l => [.leaf .dot, l]) ∧
      names.length = blocks.length ∧ ∀ l ∈ names, l ≠ .leaf .dot := by
    clear h hattrs hspells hmore hne
    induction blocks with
    | nil => exact ⟨[], rfl, rfl, forall_mem_nil _⟩
    | cons block blocks ih =>
      obtain ⟨hblock, hrest⟩ := forall_mem_cons.mp hblocks
      obtain ⟨l, rfl, hl⟩ := hpair hblock
      obtain ⟨names, hflatten, hlength, hnames⟩ := ih hrest
      exact ⟨l :: names, by rw [flatten_cons, hflatten, flatMap_cons], by simp [hlength],
        forall_mem_cons.mpr ⟨hl, hnames⟩⟩
  obtain ⟨names, hflatten, hlength, hnames⟩ := hnames
  have hdot := isClosed_operands.of_yields rfl hbase base (mem_singleton_self base)
  refine ⟨base, names, by rw [append_nil, hflatten], ?_, forall_mem_cons.mpr ⟨of_decide_eq_true hdot, hnames⟩⟩
  have hpos := length_pos_of_ne_nil hne
  exact ne_nil_of_length_pos (by omega)

theorem Kind.Expands.exists_first {first : Label}
    (h : k.Expands Fragment.keepsTokens labels) (hk : k.children.front.head? = some (some [first])) :
    ∃ rest, labels = first :: rest := by
  have hfits := h.fits
  unfold Fits at hfits
  cases hfront : k.children.front with
  | nil =>
    rw [hfront] at hk
    cases hk
  | cons p front =>
    rw [hfront] at hk hfits
    cases hk
    cases hfits with
    | place hfirst hmore => exact ⟨_, by rw [mem_singleton.mp (of_decide_eq_true hfirst)]⟩

end GDWorkbench
