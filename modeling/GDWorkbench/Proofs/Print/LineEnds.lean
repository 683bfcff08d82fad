import GDWorkbench.Proofs.Parse.Parts
import GDWorkbench.Proofs.Print.Characters
import GDWorkbench.Proofs.Print.Core
import GDWorkbench.Proofs.Scan.LineEnds

/-!
How printed texts end. What is printed last is a token, a bracket or a word, and none of them ends with
white space. Only a comma at the end of a list is printed as nothing. The grammar has it in lists alone,
which end with their brackets.
-/

namespace GDWorkbench

open List Text

/-! ## Separators -/

/-- Lists between brackets, with what they are the arguments of. -/
def Kind.isList : Kind → Bool
  | .array | .arrayPattern | .dict | .dictPattern | .enumBody | .funcArgs | .signalArgs
  | .annotationArgs | .standaloneCall | .getattrCall => true
  | _ => false

/-- Kinds of which every node has a child. -/
def Kind.isFilled : Kind → Bool
  | .getattr | .uniqueNodePath | .path | .listPattern | .attrPattern | .ifStmt => true
  | _ => false

/-- The symbols in rules where they stand for no separators. -/
def separatingSymbols : SymbolSet
  | full, .node k => full = k.keepsTokens
  | full, .part f => match f with
    | .moreAnnotationArgs | .moreEnumElements | .moreSignalArgs | .moreFuncArgs | .moreTestPatterns
    | .moreDictPatterns | .moreArguments | .callArglist | .moreColonEntries | .moreEqualEntries
    | .propertyDelegates => !full
    | _ => true

def Label.isPlain : Label → Bool
  | .leaf t => !t.isSeparator
  | .node _ => true

theorem isClosed_separatingSymbols : separatingSymbols.IsClosed (·.isPlain) := by
  decide +kernel

namespace Kind.Expands

variable {k : Kind} {labels : List Label} (h : k.Expands Fragment.keepsTokens labels)

include h

/-- Commas and round brackets are dropped: the rules with lists in them do not keep their tokens. -/
theorem isPlain : ∀ l ∈ labels, l.isPlain := by
  have hmakers : ∀ k : Kind, ∀ a ∈ k.makers,
      Item.allStayIn separatingSymbols (·.isPlain) k.rule.keepsTokens a.items := by decide +kernel
  exact isClosed_separatingSymbols.of_expands (hmakers k) h

/-- Only lists hold a comma at their end. -/
theorem trailingComma_not_mem (hk : k.isList = false) : .node .trailingComma ∉ labels := by
  have hclosed : SymbolSet.IsClosed
      (fun _ head => head ≠ .part .callArglist && head ≠ .node .trailingComma)
      (· ≠ .node .trailingComma) := by decide +kernel
  have hmakers : ∀ k : Kind, k.isList = false → ∀ a ∈ k.makers, Item.allStayIn
      (fun _ head => head ≠ .part .callArglist && head ≠ .node .trailingComma)
      (· ≠ .node .trailingComma) k.rule.keepsTokens a.items := by decide +kernel
  exact fun hmem => of_decide_eq_true (hclosed.of_expands (hmakers k hk) h _ hmem) rfl

theorem ne_nil (hk : k.isFilled) : labels ≠ [] := by
  have hfront : ∀ k : Kind, k.isFilled → k.children.front ≠ [] := by decide +kernel
  rintro rfl
  have hfits := h.fits
  unfold Template.Fits at hfits
  cases hrow : k.children.front with
  | nil => exact hfront k hk hrow
  | cons p front =>
    rw [hrow] at hfits
    cases hfits

end Kind.Expands

/-! ## Trees -/

def Label.isList : Label → Bool
  | .node k => k.isList
  | .leaf _ => false

/-- Kinds of which no child is a list. What is laid out of a child then stands in no list itself. -/
def Kind.holdsNoList : Kind → Bool
  | .enumStmt | .funcDef | .abstractFuncDef | .funcArgRegular | .funcArgInf | .funcArgTyped | .returnStmt
  | .exprStmt | .classVarEmpty | .classVarAssigned | .classVarTyped | .classVarTypedAssgnd | .classVarInf
  | .funcVarAssigned | .funcVarTypedAssgnd | .funcVarInf | .constAssigned | .constTypedAssigned | .constInf
  | .ifBranch | .elifBranch | .whileStmt | .forStmt | .forStmtTyped | .matchStmt | .matchBranch
  | .guardedMatchBranch => true
  | _ => false

def Label.holdsNoList : Label → Bool
  | .node k => k.holdsNoList
  | .leaf _ => false

theorem Label.not_isList {l : Label} (h : l.holdsNoList) : l.isList = false := by
  cases l with
  | leaf => rfl
  | node k => cases k <;> first | rfl | cases h

theorem Kind.Expands.not_isList {k : Kind} {labels : List Label}
    (h : k.Expands Fragment.keepsTokens labels) (hk : k.holdsNoList) : ∀ l ∈ labels, l.isList = false := by
  have hmakers : ∀ k : Kind, k.holdsNoList → ∀ a ∈ k.makers,
      ∀ s ∈ Templates.table.ofItems k.rule.keepsTokens a.items, s.staysIn (!·.isList) := by decide +kernel
  obtain ⟨a, ha, -, hspells⟩ := h.exists_maker
  obtain ⟨s, hs, hfits⟩ := Templates.fits_of_spells Templates.isClosed_table hspells
  simpa using hfits.of_staysIn (hmakers k hk a ha s hs)

/-- A tree with the shape that the grammar asks for, with no string in three marks, in which every token
ends with something else than white space. -/
structure Tree.IsNeat (t : Tree) : Prop where
  conforms : t.Conforms Fragment.keepsTokens
  plain : t.label.isPlain
  ends : ∀ token ∈ t.tokens, token.content.ends
  short : ∀ token ∈ t.tokens, token.isLong = false

/-- A neat tree that is printed as something. -/
structure Tree.IsShown (t : Tree) : Prop where
  neat : t.IsNeat
  shown : t.isComma = false

def Tree.HasShown (t : Tree) : Prop :=
  ∀ c ∈ t.children, c.IsShown

namespace Tree

variable {t u : Tree} {k : Kind} {span : Option Span} {children : List Tree}

namespace IsNeat

theorem expands (h : (node k span children).IsNeat) :
    k.Expands Fragment.keepsTokens (children.map label) := by
  cases h.conforms with
  | node hexpands heach => exact hexpands

theorem child (h : t.IsNeat) (hu : u ∈ t.children) : u.IsNeat := by
  cases t with
  | token => cases hu
  | node k span children =>
    have htokens {token : Token} (htoken : token ∈ u.tokens) : token ∈ tokensAll children :=
      mem_tokensAll.mpr ⟨u, hu, htoken⟩
    exact ⟨h.conforms.child hu, h.expands.isPlain _ (mem_map_of_mem hu),
      fun token htoken => h.ends token (htokens htoken), fun token htoken => h.short token (htokens htoken)⟩

theorem isSeparator_eq_false (h : t.IsNeat) : t.isSeparator = false := by
  cases t with
  | token token => simpa [label, Label.isPlain, isSeparator] using h.plain
  | node => rfl

theorem isTrailingComma_eq (h : t.IsNeat) : t.isTrailingComma = t.isComma := by
  cases t with
  | token token =>
    have hplain := h.isSeparator_eq_false
    symm
    refine Bool.eq_false_iff.mpr fun hcomma => ?_
    rw [isSeparator, of_decide_eq_true hcomma] at hplain
    cases hplain
  | node => simp [isTrailingComma, isKind, kind?, isComma]

theorem tokenText (h : t.IsNeat) : Ensures t.tokenText (·.ends) := by
  cases t with
  | token token => exact ensures_ok (h.ends token mem_cons_self)
  | node => exact ensures_error

theorem part (h : t.IsNeat) (i : Nat) : Ensures (t.part i) IsNeat :=
  fun _ hu => h.child (mem_of_part hu)

theorem word (h : t.IsNeat) (i : Nat) : Ensures (t.word i) (·.ends) :=
  (h.part i).bind fun _ hu => hu.tokenText

/-- A comma stands in a list. -/
theorem hasShown (h : t.IsNeat) (hlist : t.label.isList = false) : t.HasShown := by
  intro c hc
  refine ⟨h.child hc, ?_⟩
  rw [← (h.child hc).isTrailingComma_eq]
  refine Bool.eq_false_iff.mpr fun hcomma => ?_
  cases t with
  | token => cases hc
  | node k span children =>
    obtain ⟨span', more, rfl⟩ := exists_of_isKind hcomma
    exact h.expands.trailingComma_not_mem hlist (mem_map_of_mem hc)

theorem hasShown_child (h : t.IsNeat) (ht : t.label.holdsNoList) (hu : u ∈ t.children) : u.HasShown := by
  cases t with
  | token => cases hu
  | node k span children =>
    exact (h.child hu).hasShown (h.expands.not_isList ht _ (mem_map_of_mem hu))

theorem children_ne_nil (h : (node k span children).IsNeat) (hk : k.isFilled) : children ≠ [] := by
  rintro rfl
  exact h.expands.ne_nil hk rfl

end IsNeat

theorem HasShown.part (h : t.HasShown) (i : Nat) : Ensures (t.part i) IsShown :=
  fun _ hu => h _ (mem_of_part hu)

end Tree

/-! ## Texts put together -/

namespace Text

variable {ts : List Text} {last : Text}

theorem ends_join (separator : Text) (h : last.ends) : (join separator (ts ++ [last])).ends := by
  induction ts with
  | nil => simpa [join] using h
  | cons t ts ih =>
    obtain ⟨u, us, hrest⟩ := exists_cons_of_ne_nil (append_ne_nil_of_right_ne_nil ts (cons_ne_nil last []))
    rw [hrest] at ih
    rw [cons_append, hrest, join, intercalate_cons_cons]
    exact ends_append ih

theorem ends_join_of_forall (separator : Text) (hne : ts ≠ []) (h : ∀ t ∈ ts, t.ends) :
    (join separator ts).ends := by
  rw [← dropLast_concat_getLast hne]
  exact ends_join separator (h _ (getLast_mem hne))

theorem ends_flatten (hne : ts ≠ []) (h : ∀ t ∈ ts, t.ends) : ends ts.flatten := by
  rw [← dropLast_concat_getLast hne, flatten_append, flatten_singleton]
  exact ends_append (h _ (getLast_mem hne))

end Text

/-! ## Parts -/

/-- The texts of a tree end with something else than white space, where there are some. -/
structure Printed.End (p : Printed) : Prop where
  whole : Ensures p.whole (·.ends)
  bare : Ensures p.bare (·.ends)
  statement : Ensures p.statement (·.ends)

def Parts.End (ps : Parts) : Prop :=
  ∀ p ∈ ps, p.2.End ∧ Ensures p.1.tokenText (·.ends)

namespace Parts

variable {ps : Parts}

theorem End.sublist {qs : Parts} (h : ps.End) (hqs : qs.Sublist ps) : qs.End :=
  fun _ hp => h _ (hqs.subset hp)

theorem End.at? (h : ps.End) (i : Nat) :
    Ensures (ps.at? i) fun p => p.2.End ∧ Ensures p.1.tokenText (·.ends) := by
  rw [Parts.at?]
  split
  · rename_i hp
    exact ensures_ok (h _ (mem_of_getElem? hp))
  · exact ensures_error

theorem End.whole (h : ps.End) (i : Nat) : Ensures (ps.whole i) (·.ends) :=
  (h.at? i).bind fun _ hp => hp.1.whole

theorem End.bare (h : ps.End) (i : Nat) : Ensures (ps.bare i) (·.ends) :=
  (h.at? i).bind fun _ hp => hp.1.bare

theorem End.tokenText (h : ps.End) (i : Nat) : Ensures (ps.tokenText i) (·.ends) :=
  (h.at? i).bind fun _ hp => hp.2

theorem End.wholes (h : ps.End) :
    Ensures ps.wholes fun ts => (ps ≠ [] → ts ≠ []) ∧ ∀ t ∈ ts, t.ends := by
  induction ps with
  | nil => exact ensures_ok ⟨fun hne => absurd rfl hne, forall_mem_nil _⟩
  | cons p ps ih =>
    obtain ⟨hp, hps⟩ := forall_mem_cons.mp h
    refine hp.1.whole.bind fun text htext => (ih hps).bind fun texts htexts => ensures_ok ?_
    exact ⟨fun _ => cons_ne_nil _ _, forall_mem_cons.mpr ⟨htext, htexts.2⟩⟩

theorem ends_bares {p : Tree × Printed} (hp : Ensures p.2.bare (·.ends)) :
    Ensures (bares (ps ++ [p])) fun ts => ∃ first last, ts = first ++ [last] ∧ last.ends := by
  induction ps with
  | nil => exact hp.bind fun text htext => ensures_ok ⟨[], text, rfl, htext⟩
  | cons q ps ih =>
    refine .skip fun text => ih.bind fun texts htexts => ensures_ok ?_
    obtain ⟨first, last, rfl, hlast⟩ := htexts
    exact ⟨text :: first, last, rfl, hlast⟩

end Parts

/-! ## Nodes -/

namespace Print

variable {ps : Parts} {left right : String}

theorem ends_enclosed (hright : ends right.toList) (text : Text) : (enclosed left text right).ends :=
  ends_append hright

theorem ends_elements (hright : ends right.toList) : Ensures (elements left right ps) (·.ends) :=
  .skip fun _ => ensures_ok (ends_enclosed hright _)

theorem ends_entries (hright : ends right.toList) : Ensures (entries left right ps) (·.ends) :=
  .skip fun _ => ensures_ok (ends_enclosed hright _)

theorem ends_call : Ensures (call ps) (·.ends) :=
  .skip fun _ => .skip fun _ => ensures_ok (ends_append (ends_enclosed (by decide) _))

variable (h : ps.End)

include h

theorem isClean_operations : Ensures (operations ps) IsClean := by
  induction ps using operations.induct with
  | case1 first operator second operand rest ih =>
    obtain ⟨-, hlater⟩ := forall_mem_cons.mp h
    obtain ⟨⟨hoperand, -⟩, hrest⟩ := forall_mem_cons.mp hlater
    refine .skip fun sign => hoperand.whole.bind fun text htext =>
      (ih hrest).bind fun later hlater => ensures_ok (.inr ?_)
    exact ends_append_isClean (ends_append htext) hlater
  | case2 ps hnone =>
    unfold operations
    split
    · exact absurd rfl (hnone _ _ _ _ _)
    · exact ensures_ok isClean_nil

theorem ends_chain : Ensures (chain ps) (·.ends) :=
  (isClean_operations (h.sublist (tail_sublist ps))).bind fun _ hlater =>
    (h.whole 0).bind fun _ hfirst => ensures_ok (ends_append_isClean hfirst hlater)

theorem ends_negation : Ensures (negation ps) (·.ends) :=
  .skip fun _ => .skip fun _ => (h.whole 1).bind fun _ htext => ensures_ok (ends_append htext)

theorem ends_awaited : Ensures (awaited ps) (·.ends) :=
  .skip fun _ => (h.whole _).bind fun _ htext => ensures_ok (ends_append (ends_cons htext))

theorem isClean_optionalBare (introduction : String) (i : Nat) :
    Ensures (optionalBare introduction ps i) IsClean :=
  Ensures.ite ((h.bare i).bind fun _ htext => ensures_ok (.inr (ends_append htext)))
    (ensures_ok isClean_nil)

theorem ends_lambda : Ensures (lambda ps) (·.ends) := by
  unfold lambda
  split
  · rename_i header body
    obtain ⟨-, hbody⟩ := forall_mem_cons.mp h
    exact .skip fun _ => (forall_mem_singleton.mp hbody).1.statement.bind fun _ hstatement =>
      ensures_ok (ends_append (ends_cons hstatement))
  · exact ensures_error

omit h in
theorem ends_lambdaHeader : Ensures (lambdaHeader ps) (·.ends) := by
  refine .skip fun first => .skip fun list => Ensures.ite (.skip fun hint => ensures_ok ?_) (ensures_ok ?_)
  all_goals exact ends_append (by decide)

theorem ends_annot : Ensures (whole .annot ps) (·.ends) :=
  (h.whole 0).bind fun _ hname =>
    Ensures.ite ((h.whole 1).bind fun _ htext => ensures_ok (ends_append htext))
      (ensures_ok (by simpa using ends_cons hname))

omit h in
theorem everyOther_ne_nil (hne : ps ≠ []) : everyOther ps ≠ [] := by
  match ps with
  | [] => exact absurd rfl hne
  | [p] => exact cons_ne_nil _ _
  | p :: q :: rest => exact cons_ne_nil _ _

omit h in
theorem ends_whole (kind : Kind) (h : kind.isList = false → ps.End) (hne : kind.isFilled → ps ≠ [])
    (hcomma : kind ≠ .trailingComma) : Ensures (whole kind ps) (·.ends) := by
  have hsigned (h : ps.End) (sign : Char) (i : Nat) : Ensures (do return sign :: (← ps.whole i)) (ends ·) :=
    (h.whole i).bind fun _ htext => ensures_ok (ends_cons htext)
  cases kind
  case array | arrayPattern | annotationArgs => exact ends_elements (by decide)
  case dict | dictPattern | funcArgs | signalArgs => exact ends_entries (by decide)
  case enumBody => exact Ensures.ite (ensures_ok (by decide)) (ends_entries (by decide))
  case standaloneCall | getattrCall => exact ends_call
  case trailingComma => contradiction
  case notInOp | propertyCustomGetterArgs | etcPattern | wildcardPattern => exact ensures_ok (by decide)
  case lambdaHeader => exact ends_lambdaHeader
  all_goals replace h := h rfl
  case expr => exact h.bare 0
  case aslessActualNotTest | notPattern => exact ends_negation h
  case aslessActualNegExpr | negPattern => exact hsigned h '-' 1
  case aslessActualBitwNot | bitwNotPattern => exact hsigned h '~' 1
  case awaitExpr => exact ends_awaited h
  case getattr | uniqueNodePath =>
    exact h.wholes.bind fun _ htexts => ensures_ok (ends_flatten (htexts.1 (hne rfl)) htexts.2)
  case subscrExpr =>
    exact .skip fun _ => .skip fun _ => ensures_ok (ends_append (ends_enclosed (by decide) _))
  case listPattern =>
    exact h.wholes.bind fun _ htexts => ensures_ok
      (by simpa [enclosed] using ends_join_of_forall comma (htexts.1 (hne rfl)) htexts.2)
  case cDictElement | eqDictElement =>
    exact .skip fun _ => (h.bare 1).bind fun _ hvalue => ensures_ok (ends_append hvalue)
  case kvPairPattern =>
    exact .skip fun _ => (h.whole 1).bind fun _ hvalue => ensures_ok (ends_append hvalue)
  case string => exact h.whole 0
  case rawString | getNode | nodePath | stringName => exact hsigned h _ 0
  case path =>
    exact (Ensures.mapM_of_ne_nil (hne rfl) fun p hp => (h p hp).2).bind fun _ htexts =>
      ensures_ok (ends_flatten htexts.1 htexts.2)
  case lambda => exact ends_lambda h
  case funcArgVariadic | varCapturePattern =>
    exact (h.whole 0).bind fun _ htext => ensures_ok (ends_append htext)
  case funcArgRegular =>
    exact (h.tokenText 0).bind fun _ hname => (isClean_optionalBare h _ 1).bind fun _ hvalue =>
      ensures_ok (ends_append_isClean hname hvalue)
  case funcArgInf =>
    exact .skip fun _ => (h.bare 1).bind fun _ hvalue => ensures_ok (ends_append hvalue)
  case funcArgTyped =>
    exact .skip fun _ => (h.tokenText 1).bind fun _ htype => (isClean_optionalBare h _ 2).bind
      fun _ hvalue => ensures_ok (ends_append_isClean (ends_append htype) hvalue)
  case enumElement =>
    exact (h.bare 0).bind fun _ hname => (isClean_optionalBare h _ 1).bind fun _ hvalue =>
      ensures_ok (ends_append_isClean hname hvalue)
  case signalArgRegular => exact h.tokenText 0
  case signalArgTyped =>
    exact .skip fun _ => (h.tokenText 1).bind fun _ htype => ensures_ok (ends_append htype)
  case annot => exact ends_annot h
  case attrPattern =>
    refine (h.sublist (everyOther_sublist ps)).wholes.bind fun _ htexts => ensures_ok ?_
    exact ends_join_of_forall ['.'] (htexts.1 (everyOther_ne_nil (hne rfl))) htexts.2
  case callPattern =>
    exact .skip fun _ => .skip fun _ => ensures_ok (ends_append (ends_enclosed (by decide) _))
  case parPattern => exact .skip fun _ => ensures_ok (ends_enclosed (by decide) _)
  -- What is left are chains of operators, and nodes that are printed nowhere.
  all_goals first | exact ends_chain h | exact ensures_error

theorem ends_declaration (word sign : String) (value : Nat) :
    Ensures (declaration word ps sign value) (·.ends) :=
  .skip fun _ => (h.bare value).bind fun _ htext => ensures_ok (ends_append htext)

theorem ends_typedDeclaration (word : String) : Ensures (typedDeclaration word ps) (·.ends) :=
  .skip fun _ => .skip fun _ => (h.bare 2).bind fun _ htext => ensures_ok (ends_append htext)

theorem ends_statement (kind : Kind) : Ensures (statement kind ps) (·.ends) := by
  cases kind
  case passStmt | breakpointStmt => exact ensures_ok (by decide)
  case funcVarStmt | constStmt => exact (h.at? 0).bind fun _ hp => hp.1.statement
  case exprStmt => exact h.whole 0
  case returnStmt => exact (h.bare 0).bind fun _ htext => ensures_ok (ends_append htext)
  case funcVarEmpty => exact (h.tokenText 0).bind fun _ hname => ensures_ok (ends_append hname)
  case funcVarAssigned | funcVarInf | funcVarTyped | constAssigned | constInf =>
    exact ends_declaration h _ _ 1
  case funcVarTypedAssgnd | constTypedAssigned => exact ends_typedDeclaration h _
  all_goals exact ensures_error

omit h in
theorem end_node (kind : Kind) (h : kind.isList = false → ps.End) (hne : kind.isFilled → ps ≠ [])
    (hcomma : kind ≠ .trailingComma) : (node kind ps).End := by
  have hwhole := ends_whole kind h hne hcomma
  have hstatement : Ensures (statement kind ps) (·.ends) := by
    cases hlist : kind.isList with
    | false => exact ends_statement (h hlist) kind
    | true =>
      unfold Kind.isList at hlist
      split at hlist
      all_goals first | exact ensures_error | cases hlist
  by_cases hkind : kind = .parExpr
  · subst hkind
    refine ⟨fun text htext => ?_, (h rfl).bare 0, ensures_error⟩
    cases hbare : ps.bare 0 with
    | error f => simp [node, hbare, Except.map] at htext
    | ok bare =>
      obtain rfl : enclosed "(" bare ")" = text := by
        simpa [node, hbare, Except.map] using htext
      exact ends_enclosed (by decide) bare
  · have hnode : node kind ps = ⟨whole kind ps, whole kind ps, statement kind ps⟩ := by
      unfold node
      split
      · exact absurd rfl hkind
      · rfl
    rw [hnode]
    exact ⟨hwhole, hwhole, hstatement⟩

end Print

/-! ## Printed trees -/

theorem StringLiteral.ends_short (literal : Text) : (short literal).ends := by
  have hmark : isBlank (preferredMark (inner literal)) = false := by
    unfold preferredMark
    split <;> decide
  exact ends_concat hmark

namespace Tree

theorem ends_normal {token : Token} (hends : token.content.ends) (hshort : token.isLong = false) :
    (StringLiteral.normal token.terminal token.content).ends := by
  obtain ⟨hlong, hlongRaw⟩ := Bool.or_eq_false_iff.mp hshort
  unfold StringLiteral.normal
  split
  · simp_all
  · simp_all
  · exact StringLiteral.ends_short _
  · exact StringLiteral.ends_short _
  · exact hends

theorem IsNeat.end_print {t : Tree} (h : t.IsNeat) (hshown : t.isComma = false) : t.print.End := by
  obtain ⟨hconforms, hplain, hends, hshort⟩ := h
  induction hconforms with
  | token token =>
    have htext := ends_normal (hends token mem_cons_self) (hshort token mem_cons_self)
    exact ⟨ensures_ok htext, ensures_ok htext, ensures_error⟩
  | @node k span children hexpands heach ih =>
    have h : (node k span children).IsNeat := ⟨.node hexpands heach, hplain, hends, hshort⟩
    refine Print.end_node k (fun hk p hp => ?_) (fun hk hnil => ?_) (of_decide_eq_false hshown)
    · rw [printAll_eq_map] at hp
      obtain ⟨c, hc, rfl⟩ := mem_map.mp hp
      obtain ⟨hneat, hcomma⟩ := h.hasShown hk c hc
      exact ⟨ih c hc hcomma hneat.plain hneat.ends hneat.short, hneat.tokenText⟩
    · rw [printAll_eq_map, map_eq_nil_iff] at hnil
      exact h.children_ne_nil hk hnil

theorem IsShown.ends_line {t : Tree} (h : t.IsShown) : Ensures t.line (·.ends) :=
  (h.neat.end_print h.shown).whole

/-- What is listed is printed up to its last item, unless that is a comma. -/
theorem ends_arguments {ts : List Tree} (h : ∀ t ∈ ts, t.IsNeat) (hne : ts ≠ [])
    (hlast : endsWithComma ts = false) : Ensures (Print.arguments (printAll ts)) (·.ends) := by
  obtain ⟨front, last, rfl⟩ : ∃ front last, ts = front ++ [last] :=
    ⟨_, _, (dropLast_concat_getLast hne).symm⟩
  have hneat : last.IsNeat := h last (mem_append_right front mem_cons_self)
  have hshown : last.isComma = false := by
    rw [← hneat.isTrailingComma_eq]
    simpa [endsWithComma] using hlast
  have hkept : [last].filter (fun t => !t.isParenthesis && !t.isComma) = [last] := by
    simp [hshown, not_isParenthesis hneat.isSeparator_eq_false]
  rw [Print.arguments, printAll_filter fun t => !t.isParenthesis && !t.isComma, filter_append, hkept,
    printAll_eq_map, map_append]
  refine (Parts.ends_bares (hneat.end_print hshown).bare).bind fun texts htexts => ensures_ok ?_
  obtain ⟨first, text, rfl, htext⟩ := htexts
  exact ends_join Print.comma htext

end Tree

end GDWorkbench
