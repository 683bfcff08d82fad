import GDWorkbench.Proofs.Format.Groupings
import GDWorkbench.Proofs.Grammar.Expressions
import GDWorkbench.Proofs.Parse.Scanned

/-!
The core of a text: what is left without white space, round brackets and commas. These may be added or
dropped where lines are broken; the rest of a printed expression may not. The core of an expression on one
line is made of the cores of its parts, whether brackets are taken off them or not.
-/

namespace GDWorkbench

open List Parts Print

variable {word text : Text}

/-! ## Cores of texts -/

namespace Text

def isFiller (c : Char) : Bool :=
  isBlank c || c = '(' || c = ')' || c = ','

def core (text : Text) : Text :=
  text.filter (!isFiller ·)

@[simp]
theorem core_nil : core [] = [] :=
  rfl

@[simp]
theorem core_append (t u : Text) : core (t ++ u) = core t ++ core u :=
  filter_append t u

@[simp]
theorem core_blank (t : Text) : core (' ' :: t) = core t :=
  rfl

@[simp]
theorem core_leftParen (t : Text) : core ('(' :: t) = core t :=
  rfl

@[simp]
theorem core_rightParen (t : Text) : core (')' :: t) = core t :=
  rfl

theorem core_flatten (ts : List Text) : core ts.flatten = (ts.map core).flatten :=
  filter_flatten

theorem core_eq_nil {t : Text} (h : t.all isFiller) : core t = [] := by
  simpa [core] using h

theorem core_of_allBlank {t : Text} (h : allBlank t) : core t = [] := by
  refine core_eq_nil (all_eq_true.mpr fun c hc => ?_)
  rw [isFiller, all_eq_true.mp h c hc]
  rfl

theorem core_dropWhile (t : Text) : core (t.dropWhile isBlank) = core t := by
  have hblank : core (t.takeWhile isBlank) = [] := core_of_allBlank all_takeWhile
  conv_rhs => rw [← takeWhile_append_dropWhile (p := isBlank) (l := t), core_append, hblank]
  rfl

theorem core_reverse (t : Text) : core t.reverse = (core t).reverse :=
  filter_reverse

theorem core_trim (t : Text) : core (trim t) = core t := by
  rw [trim, trimEnd, trimStart, core_reverse, core_dropWhile, core_reverse, core_dropWhile,
    reverse_reverse]

theorem core_join {separator : Text} (hseparator : core separator = []) (ts : List Text) :
    core (join separator ts) = core ts.flatten := by
  induction ts with
  | nil => rfl
  | cons t ts ih =>
    cases ts with
    | nil => simp [join, intercalate]
    | cons u ts =>
      rw [join, intercalate_cons_cons, core_append, core_append, hseparator, append_nil,
        flatten_cons, core_append]
      exact congrArg _ ih

end Text

/-! ## Trees of expressions -/

theorem Lexeme.reader_of_spelling {t : Terminal} (h : t.spelling = some word) :
    reader t = Reader.literal word := by
  unfold reader
  split
  case h_14 => rw [h]
  all_goals cases h

theorem Token.IsScanned.content_eq {t : Token} (h : t.IsScanned)
    (hword : t.terminal.spelling = some word) : t.content = word := by
  obtain ⟨l, rest, hread⟩ := h
  obtain ⟨u, hreader, rfl | ⟨other, hother, hcontent⟩⟩ := Lexicon.reader_of_read hread
  · rw [Lexeme.reader_of_spelling hword] at hreader
    obtain ⟨left, -, heq⟩ := Option.map_eq_some_iff.mp hreader
    exact (congrArg Prod.fst heq).symm
  · obtain rfl := Option.some.inj (hword.symm.trans hother)
    exact hcontent.symm

def Tree.isSeparator : Tree → Bool
  | .token t => t.terminal.isSeparator
  | .node _ _ _ => false

theorem Tree.not_isParenthesis {t : Tree} (h : t.isSeparator = false) : t.isParenthesis = false := by
  cases t with
  | token t =>
    refine Bool.eq_false_iff.mpr fun hparen => ?_
    have h : t.terminal.isSeparator = false := h
    rcases Bool.or_eq_true_iff.mp hparen with heq | heq
    all_goals
      rw [of_decide_eq_true heq] at h
      cases h
  | node => rfl

theorem Tree.line_of_isComma {t : Tree} (h : t.isSeparator = false) (hcomma : t.isComma) :
    t.line = .ok [] := by
  cases t with
  | token t =>
    have h : t.terminal.isSeparator = false := h
    rw [of_decide_eq_true hcomma] at h
    cases h
  | node =>
    obtain rfl := of_decide_eq_true hcomma
    rfl

namespace Format

variable {children : List Tree}

/-- Dots and names in turn. -/
def IsPairs (ts : List Tree) : Prop :=
  ∃ names : List Label, ts.map Tree.label = names.flatMap (fun l => [.leaf .dot, l]) ∧ names ≠ [] ∧
    ∀ l ∈ names, l ≠ .leaf .dot

/-- What the rules say about the children of some kinds of nodes. -/
def Shaped : Kind → List Tree → Prop
  | .assnmntExpr, cs => cs.length = 3
  | .getattr, cs => ∃ base rest, cs = base :: rest ∧ base.label ≠ .leaf .dot ∧ IsPairs rest
  | .getattrCall, cs => ∃ span inner rest, cs = .node .getattr span inner :: rest
  | .aslessActualNegExpr, cs => ∃ t rest, cs = .token t :: rest ∧ t.terminal = .minus ∧ t.content = ['-']
  | .aslessActualBitwNot, cs => ∃ t rest, cs = .token t :: rest ∧ t.terminal = .tilde ∧ t.content = ['~']
  | _, _ => True

/-- A tree as it stands in an expression, with no lambda and no string of several lines in it. -/
inductive IsExpression : Tree → Prop
  | token {t : Token} (terminal : t.terminal.isSeparator = false) : IsExpression (.token t)
  | node {k : Kind} {span : Option Span} {children : List Tree} (kind : k.isExpression = true)
      (noLambda : k ≠ .lambda) (shaped : Shaped k children)
      (short : isLongText (.node k span children) = false) (each : ∀ c ∈ children, IsExpression c) :
      IsExpression (.node k span children)

namespace IsExpression

variable {t : Tree}

theorem child (h : IsExpression t) {c : Tree} (hc : c ∈ t.children) : IsExpression c := by
  cases h with
  | token => cases hc
  | node _ _ _ _ heach => exact heach c hc

theorem hereditary : Hereditary IsExpression :=
  fun _ h _ hc => h.child hc

theorem not_isSeparator (h : IsExpression t) : t.isSeparator = false := by
  cases h with
  | token hterminal => exact hterminal
  | node => rfl

end IsExpression

theorem exists_of_map_label {l : Label} {rest : List Label} (h : children.map Tree.label = l :: rest) :
    ∃ c more, children = c :: more ∧ c.label = l ∧ more.map Tree.label = rest := by
  cases children with
  | nil => cases h
  | cons c more => exact ⟨c, more, rfl, List.cons.inj h⟩

theorem exists_pairs_of_expands (h : Kind.getattr.Expands Fragment.keepsTokens (children.map Tree.label)) :
    ∃ base rest, children = base :: rest ∧ base.label ≠ .leaf .dot ∧ IsPairs rest := by
  obtain ⟨_, names, hlabels, hne, hnames⟩ := exists_of_expands_getattr h
  obtain ⟨base, rest, rfl, rfl, hrest⟩ := exists_of_map_label hlabels
  obtain ⟨hbase, hnames⟩ := forall_mem_cons.mp hnames
  exact ⟨base, rest, rfl, hbase, names, hrest, hne, hnames⟩

/-- The children of a node of an expression have the shape that the rules give them. -/
theorem shaped_of_expands {k : Kind} (h : k.Expands Fragment.keepsTokens (children.map Tree.label))
    (hscanned : ∀ t, .token t ∈ children → t.IsScanned) : Shaped k children := by
  have hsign {sign : Terminal} {word : Text} (hword : sign.spelling = some word)
      (hk : k.children.front.head? = some (some [.leaf sign])) :
      ∃ t rest, children = .token t :: rest ∧ t.terminal = sign ∧ t.content = word := by
    obtain ⟨labels, hlabels⟩ := h.exists_first hk
    obtain ⟨c, rest, rfl, hc, -⟩ := exists_of_map_label hlabels
    cases c with
    | node => cases hc
    | token t =>
      obtain rfl := Label.leaf.inj hc
      exact ⟨t, rest, rfl, rfl, (hscanned t mem_cons_self).content_eq hword⟩
  unfold Shaped
  split
  · rw [← length_map Tree.label]
    exact h.fits.length_eq rfl
  · exact exists_pairs_of_expands h
  · obtain ⟨labels, hlabels⟩ := h.exists_first rfl
    obtain ⟨c, rest, rfl, hc, -⟩ := exists_of_map_label hlabels
    cases c with
    | token => cases hc
    | node k span inner =>
      obtain rfl := Label.node.inj hc
      exact ⟨span, inner, rest, rfl⟩
  · exact hsign rfl rfl
  · exact hsign rfl rfl
  · trivial

theorem not_anyHoldsLambda_of_mem {ts : List Tree} (h : anyHoldsLambda ts = false) :
    ∀ t ∈ ts, holdsLambda t = false := by
  induction ts with
  | nil => exact forall_mem_nil _
  | cons t ts ih =>
    obtain ⟨ht, hts⟩ := Bool.or_eq_false_iff.mp h
    exact forall_mem_cons.mpr ⟨ht, ih hts⟩

/-- A tree of a text, with no lambda and no string of several lines in it. -/
structure IsFlat (t : Tree) : Prop where
  conforms : t.Conforms Fragment.keepsTokens
  noLambda : holdsLambda t = false
  short : ∀ s, Tree.Inside s t → isLongText s = false
  scanned : ∀ token, Tree.Inside (.token token) t → token.IsScanned

theorem isFlat_of_parse {code : Text} {root t : Tree} (h : parse code = .ok root) (ht : t ∈ root.subtrees)
    (hlambda : holdsLambda t = false) (hshort : ∀ s ∈ t.subtrees, isLongText s = false) : IsFlat t := by
  have hinside := (Tree.mem_subtrees_iff.mp ht).2
  refine ⟨(conforms_of_parse h).inside hinside, hlambda, fun s hs => ?_, fun token htoken => ?_⟩
  · cases s with
    | token => rfl
    | node => exact hshort _ (Tree.mem_subtrees_iff.mpr ⟨rfl, hs⟩)
  · exact Parse.isScanned_of_parse h token (htoken.trans hinside).mem_tokens

theorem IsFlat.child {t c : Tree} (h : IsFlat t) (hc : c ∈ t.children) : IsFlat c := by
  cases t with
  | token => cases hc
  | node k span children =>
    exact ⟨h.conforms.child hc, not_anyHoldsLambda_of_mem (Bool.or_eq_false_iff.mp h.noLambda).2 c hc,
      fun s hs => h.short s (.child hc hs), fun token htoken => h.scanned token (.child hc htoken)⟩

theorem IsFlat.isExpression {t : Tree} (h : IsFlat t) (hlabel : t.label.isExpression) :
    IsExpression t := by
  have hconforms := h.conforms
  induction hconforms with
  | token t => exact .token (by simpa [Tree.label, Label.isExpression] using hlabel)
  | @node k span children hexpands heach ih =>
    have hkind : k ≠ .lambda := of_decide_eq_false (Bool.or_eq_false_iff.mp h.noLambda).1
    refine .node hlabel hkind (shaped_of_expands hexpands fun t ht => ?_) (h.short _ .refl) fun c hc => ?_
    · exact (h.child ht).scanned t .refl
    · exact ih c hc (h.child hc) (hexpands.isExpression hlabel hkind _ (mem_map_of_mem hc))

end Format

/-! ## Printed trees -/

theorem Print.core_enclosed (left : String) (text : Text) (right : String) :
    Text.core (enclosed left text right) = Text.core left.toList ++ Text.core text ++ Text.core right.toList := by
  rw [enclosed, Text.core_append, Text.core_append]

theorem Print.core_round (text : Text) : Text.core (enclosed "(" text ")") = Text.core text := by
  have hleft : Text.core "(".toList = [] := by decide
  have hright : Text.core ")".toList = [] := by decide
  rw [core_enclosed, hleft, hright, nil_append, append_nil]

namespace Tree

variable {i : Nat} {t u : Tree}

theorem printAll_eq_map (ts : List Tree) : printAll ts = ts.map fun t => (t, t.print) := by
  induction ts with
  | nil => rfl
  | cons t ts ih => rw [printAll, ih, map_cons]

theorem printAll_filter (p : Tree → Bool) (ts : List Tree) :
    (printAll ts).filter (fun part => p part.1) = printAll (ts.filter p) := by
  rw [printAll_eq_map, printAll_eq_map, filter_map]
  rfl

theorem at?_printAll (h : t.part i = .ok u) : (printAll t.children).at? i = .ok (u, u.print) := by
  unfold part at h
  split at h
  · cases h
  · rename_i k span cs
    split at h
    · rename_i hget
      cases h
      rw [Parts.at?, children, printAll_eq_map, getElem?_map, hget]
      rfl
    · cases h

theorem whole_printAll (h : t.part i = .ok u) : (printAll t.children).whole i = u.line := by
  rw [Parts.whole, at?_printAll h]
  rfl

theorem bare_printAll (h : t.part i = .ok u) : (printAll t.children).bare i = u.bareLine := by
  rw [Parts.bare, at?_printAll h]
  rfl

theorem tokenText_printAll (h : t.part i = .ok u) :
    (printAll t.children).tokenText i = u.tokenText := by
  rw [Parts.tokenText, at?_printAll h]
  rfl

theorem node_bare_eq_whole {k : Kind} (hk : k ≠ .parExpr) (ps : Parts) :
    (Print.node k ps).bare = (Print.node k ps).whole := by
  cases k <;> first | rfl | exact absurd rfl hk

/-- Without round brackets around the whole, a line has the same core. -/
theorem map_core_bareLine (t : Tree) : t.bareLine.map Text.core = t.line.map Text.core := by
  cases t with
  | token t => rfl
  | node k span cs =>
    by_cases hk : k = .parExpr
    · subst hk
      change (Parts.bare (printAll cs) 0).map Text.core =
        ((Parts.bare (printAll cs) 0).map (Print.enclosed "(" · ")")).map Text.core
      cases Parts.bare (printAll cs) 0 with
      | error f => rfl
      | ok text =>
        change Except.ok (Text.core text) = Except.ok (Text.core (Print.enclosed "(" text ")"))
        rw [core_round]
    · rw [bareLine, line, print, node_bare_eq_whole hk]

end Tree

theorem exists_of_map_core {x y : Except Fault Text} (h : x.map Text.core = y.map Text.core)
    (hx : x = .ok text) : ∃ other, y = .ok other ∧ Text.core other = Text.core text := by
  subst hx
  cases y with
  | error f => cases h
  | ok other => exact ⟨other, rfl, (Except.ok.inj h).symm⟩

namespace Format

variable {rest : List Tree} {span : Option Span}

theorem line_unwrap (t : Tree) : (unwrap t).line = t.bareLine := by
  induction t using unwrap.induct with
  | case1 span t rest ih => exact ih
  | case2 t hnone =>
    have hself : unwrap t = t := by
      unfold unwrap
      split
      · exact absurd rfl (hnone _ _ _)
      · rfl
    rw [hself]
    cases t with
    | token t => rfl
    | node k span cs =>
      by_cases hk : k = .parExpr
      · subst hk
        cases cs with
        | nil => rfl
        | cons c cs => exact absurd rfl (hnone _ _ _)
      · exact (Tree.node_bare_eq_whole hk _).symm

section Lists

variable {ts : List Tree} (h : ∀ t ∈ ts, t.isSeparator = false)

include h

/-- Arguments are printed without brackets and commas of their own. -/
theorem arguments_eq : Print.arguments (Tree.printAll ts) =
    (bares (Tree.printAll (ts.filter (!·.isComma)))).map (Text.join comma) := by
  have hfilter : ts.filter (fun t => !t.isParenthesis && !t.isComma) = ts.filter (!·.isComma) :=
    filter_congr fun t ht => by rw [Tree.not_isParenthesis (h t ht)]; rfl
  rw [Print.arguments, Tree.printAll_filter fun t => !t.isParenthesis && !t.isComma, hfilter]
  rfl

theorem exists_bares (htext : Print.arguments (Tree.printAll ts) = .ok text) :
    ∃ texts, bares (Tree.printAll (ts.filter (!·.isComma))) = .ok texts ∧
      Text.core texts.flatten = Text.core text := by
  rw [arguments_eq h] at htext
  cases hbares : bares (Tree.printAll (ts.filter (!·.isComma))) with
  | error f =>
    rw [hbares] at htext
    cases htext
  | ok texts =>
    rw [hbares] at htext
    exact ⟨texts, rfl, by rw [← Except.ok.inj htext, Text.core_join (by decide)]⟩

variable {texts : List Text} (htexts : bares (Tree.printAll (ts.filter (!·.isComma))) = .ok texts)

include htexts

omit h in
theorem elements_eq (left right : String) :
    elements left right (Tree.printAll ts) = .ok (Print.enclosed left
      (Text.join comma texts ++ if Tree.endsWithComma ts then [','] else []) right) := by
  have hfst : (Tree.printAll ts).map Prod.fst = ts := by
    rw [Tree.printAll_eq_map, map_map]
    exact map_id ts
  rw [elements, Tree.printAll_filter fun t => !t.isComma, htexts, hfst]
  rfl

theorem exists_wholes : ∃ wholes, Parts.wholes (Tree.printAll ts) = .ok wholes ∧
    Text.core wholes.flatten = Text.core texts.flatten := by
  induction ts generalizing texts with
  | nil =>
    cases htexts
    exact ⟨[], rfl, rfl⟩
  | cons t ts ih =>
    obtain ⟨ht, hts⟩ := forall_mem_cons.mp h
    cases hcomma : t.isComma with
    | true =>
      rw [filter_cons_of_neg (by simp [hcomma])] at htexts
      obtain ⟨wholes, hwholes, hcore⟩ := ih hts htexts
      refine ⟨[] :: wholes, ?_, hcore⟩
      rw [Tree.printAll, Parts.wholes, hwholes]
      change t.line >>= _ = _
      rw [Tree.line_of_isComma ht hcomma]
      rfl
    | false =>
      rw [filter_cons_of_pos (by simp [hcomma]), Tree.printAll, bares] at htexts
      obtain ⟨text, htext, htexts⟩ := exists_of_bind_eq_ok htexts
      obtain ⟨rest, hrest, heq⟩ := exists_of_bind_eq_ok htexts
      cases heq
      obtain ⟨wholes, hwholes, hcore⟩ := ih hts hrest
      obtain ⟨whole, hwhole, hcorewhole⟩ := exists_of_map_core t.map_core_bareLine htext
      refine ⟨whole :: wholes, ?_, ?_⟩
      · rw [Tree.printAll, Parts.wholes, hwholes]
        change t.line >>= _ = _
        rw [hwhole]
        rfl
      · rw [flatten_cons, flatten_cons, Text.core_append, Text.core_append, hcore, hcorewhole]

end Lists

/-! ## Chains -/

/-- Two texts, one right behind the other. -/
def follow (x y : Except Fault Text) : Except Fault Text := do
  return (← x) ++ (← y)

theorem follow_nil (x : Except Fault Text) : follow x (.ok []) = x := by
  cases x with
  | error f => rfl
  | ok text => exact congrArg Except.ok (append_nil text)

theorem follow_assoc (x y z : Except Fault Text) : follow (follow x y) z = follow x (follow y z) := by
  cases x with
  | error f => rfl
  | ok first =>
    cases y with
    | error f => rfl
    | ok second =>
      cases z with
      | error f => rfl
      | ok third => exact congrArg Except.ok (append_assoc first second third)

theorem follow_map (x y : Except Fault Text) (f : Text → Text) :
    follow x (y.map f) = (do return (← x) ++ f (← y)) := by
  cases x <;> cases y <;> rfl

namespace Expr

variable {ps : List Expr}

theorem operationsLine_map_tree (ts : List Tree) :
    operationsLine (ts.map .tree) = Print.operations (Tree.printAll ts) := by
  induction ts using twoStepInduction with
  | nil => rfl
  | singleton t => rfl
  | cons_cons sign operand rest ih _ =>
    rw [map_cons, map_cons, operationsLine, Tree.printAll, Tree.printAll, Print.operations, ih]
    rfl

theorem chainLine_map_tree (ts : List Tree) :
    chainLine (ts.map .tree) = Print.chain (Tree.printAll ts) := by
  cases ts with
  | nil => rfl
  | cons t ts =>
    rw [map_cons, chainLine, operationsLine_map_tree]
    rfl

theorem joinedLine_cons (p : Expr) (ps : List Expr) : joinedLine (p :: ps) = follow p.line (joinedLine ps) := by
  rw [joinedLine, follow]

theorem joinedLine_singleton (p : Expr) : joinedLine [p] = p.line := by
  rw [joinedLine_cons, joinedLine, follow_nil]

theorem joinedLine_append (ps qs : List Expr) :
    joinedLine (ps ++ qs) = follow (joinedLine ps) (joinedLine qs) := by
  induction ps with
  | nil =>
    rw [nil_append, joinedLine]
    cases joinedLine qs <;> rfl
  | cons p ps ih => rw [cons_append, joinedLine_cons, joinedLine_cons, ih, follow_assoc]

theorem line_call (callee : Expr) (arguments : List Tree) (first last : Option Int) :
    (call callee arguments first last).line =
      follow callee.line ((Print.arguments (Tree.printAll arguments)).map (Print.enclosed "(" · ")")) := by
  rw [line, follow_map]

theorem line_subscript (base : Expr) (index : Tree) (first last : Option Int) :
    (subscript base index first last).line = follow base.line (index.bareLine.map (Print.enclosed "[" · "]")) := by
  rw [line, follow_map]

/-- Operators and operands in turn have the core that they have without gaps. -/
theorem exists_joinedLine_of_operationsLine (heven : ps.length % 2 = 0)
    (h : operationsLine ps = .ok text) :
    ∃ joined, joinedLine ps = .ok joined ∧ Text.core joined = Text.core text := by
  induction ps using twoStepInduction generalizing text with
  | nil => exact ⟨[], rfl, congrArg Text.core (Except.ok.inj h)⟩
  | singleton p => cases heven
  | cons_cons sign operand rest ih _ =>
    rw [operationsLine] at h
    obtain ⟨first, hfirst, h⟩ := exists_of_bind_eq_ok h
    obtain ⟨second, hsecond, h⟩ := exists_of_bind_eq_ok h
    obtain ⟨later, hlater, h⟩ := exists_of_bind_eq_ok h
    have hrest : rest.length % 2 = 0 := by
      rw [length_cons, length_cons] at heven
      omega
    obtain ⟨joined, hjoined, hcore⟩ := ih hrest hlater
    cases h
    refine ⟨first ++ (second ++ joined), ?_, ?_⟩
    · rw [joinedLine_cons, joinedLine_cons, hfirst, hsecond, hjoined]
      rfl
    · have hgap : Text.core (if Text.startsWith first ['.'] then [] else [' ']) = [] := by
        split <;> rfl
      simp only [Text.core_append, hgap, hcore, nil_append, append_assoc]

theorem exists_joinedLine_of_chainLine (hodd : ps.length % 2 = 1)
    (h : chainLine ps = .ok text) :
    ∃ joined, joinedLine ps = .ok joined ∧ Text.core joined = Text.core text := by
  cases ps with
  | nil => cases h
  | cons p ps =>
    rw [chainLine] at h
    obtain ⟨later, hlater, h⟩ := exists_of_bind_eq_ok h
    obtain ⟨first, hfirst, h⟩ := exists_of_bind_eq_ok h
    have heven : ps.length % 2 = 0 := by
      rw [length_cons] at hodd
      omega
    obtain ⟨joined, hjoined, hcore⟩ := exists_joinedLine_of_operationsLine heven hlater
    cases h
    refine ⟨first ++ joined, ?_, ?_⟩
    · rw [joinedLine_cons, hfirst, hjoined]
      rfl
    · rw [Text.core_append, Text.core_append, hcore]

end Expr

theorem line_getattr (ts : List Tree) :
    (Tree.node .getattr span ts).line = Expr.joinedLine (ts.map .tree) := by
  induction ts with
  | nil => rfl
  | cons t ts ih =>
    rw [map_cons, Expr.joinedLine_cons, ← ih]
    change (do return (← t.line) :: (← Parts.wholes (Tree.printAll ts))) >>= _ =
      follow t.line (Parts.wholes (Tree.printAll ts) >>= _)
    cases t.line <;> cases Parts.wholes (Tree.printAll ts) <;> rfl

theorem line_getattrCall (callee : Tree) (arguments : List Tree) :
    (Tree.node .getattrCall span (callee :: arguments)).line =
      follow callee.line ((Print.arguments (Tree.printAll arguments)).map (Print.enclosed "(" · ")")) := by
  rw [follow_map]
  rfl

theorem line_subscrExpr (base index : Tree) :
    (Tree.node .subscrExpr span (base :: index :: rest)).line =
      follow base.line (index.bareLine.map (Print.enclosed "[" · "]")) := by
  rw [follow_map]
  rfl

theorem IsPairs.length_eq {ts : List Tree} (h : IsPairs ts) : ts.length % 2 = 0 ∧ 0 < ts.length := by
  obtain ⟨names, hlabels, hne, -⟩ := h
  have hlength := congrArg length hlabels
  have hpos := length_pos_of_ne_nil hne
  simp only [length_map, length_flatMap, length_cons, length_nil, map_const', sum_replicate_nat] at hlength
  omega

/-- Trees in which attributes stand in pairs of a dot and a name, behind what they belong to. -/
structure HasPairs (Q : Tree → Prop) : Prop where
  hereditary : Hereditary Q
  pairs {span : Option Span} {base : Tree} {rest : List Tree} (h : Q (.node .getattr span (base :: rest))) :
    IsPairs rest

namespace HasPairs

variable {Q : Tree → Prop} (hQ : HasPairs Q) {t : Tree} (ht : Q t)

include hQ ht

/-- A chain that is taken apart has as many dots as names behind them. -/
theorem length_links : (links t).length % 2 = 1 := by
  refine links_induction (motive := fun t chain => Q t → chain.length % 2 = 1)
    ?attrs ?call ?bare ?subscript (fun _ _ _ => rfl) t ht
  case attrs =>
    intro span base rest ih ht
    have hbase := ih (hQ.hereditary _ ht base mem_cons_self)
    have hrest := (hQ.pairs ht).length_eq
    rw [length_append, length_map]
    omega
  case call =>
    intro span inner base front attr arguments first last ih ht
    have hinner := hQ.hereditary _ ht _ mem_cons_self
    have hbase := ih (hQ.hereditary _ hinner base mem_cons_self)
    have hrest := (hQ.pairs hinner).length_eq
    simp only [length_append, length_map, length_singleton] at hrest ⊢
    omega
  case bare =>
    intro span inner base arguments ih ht
    cases (hQ.pairs (hQ.hereditary _ ht _ mem_cons_self)).length_eq.2
  case subscript =>
    intro span base index rest front link first last _ ih ht
    simpa using ih (hQ.hereditary _ ht base mem_cons_self)

/-- The links of a chain are the line of the tree, one behind the other. -/
theorem joinedLine_links : Expr.joinedLine (links t) = t.line := by
  refine links_induction (motive := fun t chain => Q t → Expr.joinedLine chain = t.line)
    ?attrs ?call ?bare ?subscript (fun t _ _ => Expr.joinedLine_singleton (.tree t)) t ht
  case attrs =>
    intro span base rest ih ht
    rw [Expr.joinedLine_append, ih (hQ.hereditary _ ht base mem_cons_self), line_getattr, map_cons,
      Expr.joinedLine_cons]
    rfl
  case call =>
    intro span inner base front attr arguments first last ih ht
    have hinner := hQ.hereditary _ ht _ mem_cons_self
    rw [line_getattrCall, line_getattr, map_cons, Expr.joinedLine_cons, map_append, Expr.joinedLine_append,
      Expr.joinedLine_append, Expr.joinedLine_append, ih (hQ.hereditary _ hinner base mem_cons_self),
      map_singleton, Expr.joinedLine_singleton, Expr.joinedLine_singleton, Expr.line_call]
    simp only [follow_assoc]
    rfl
  case bare =>
    intro span inner base arguments ih ht
    cases (hQ.pairs (hQ.hereditary _ ht _ mem_cons_self)).length_eq.2
  case subscript =>
    intro span base index rest front link first last _ ih ht
    rw [line_subscrExpr, ← ih (hQ.hereditary _ ht base mem_cons_self), Expr.joinedLine_append,
      Expr.joinedLine_append, Expr.joinedLine_singleton, Expr.joinedLine_singleton, Expr.line_subscript,
      follow_assoc]

end HasPairs

theorem IsExpression.hasPairs : HasPairs IsExpression where
  hereditary := IsExpression.hereditary
  pairs h := by
    cases h with
    | node _ _ hshaped _ _ =>
      obtain ⟨_, _, ⟨⟩, -, hpairs⟩ := hshaped
      exact hpairs

end Format

end GDWorkbench
