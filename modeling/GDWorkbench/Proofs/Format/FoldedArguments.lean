import GDWorkbench.Proofs.Format.FoldedText

/-!
Folded arguments of functions. They carry the text of one line, like expressions, but for one thing: an
argument whose default value is folded is laid out without what stood in front of it, and a variadic argument
has its dots there. The main statement counts the arguments that lose their dots and says that folding
carries the text of one line if and only if there are none.
-/

namespace GDWorkbench.Format

open List Parts GDWorkbench.Tree

variable {t : Tree} {children : List Tree} {k : Kind} {span : Option Span}

open Text

/-! ## Arguments -/

/-- What introduces the default value of an argument with these names. -/
def introduction : Kind → List Token → Option Text
  | .funcArgRegular, [name] => some (name.content ++ " = ".toList)
  | .funcArgInf, [name] => some (name.content ++ " := ".toList)
  | .funcArgTyped, [name, type] => some (name.content ++ ": ".toList ++ type.content ++ " = ".toList)
  | _, _ => none

/-- An argument without dots in front. -/
inductive IsPlainArgument : Tree → Prop
  | named {span : Option Span} {name : Token} (terminal : name.terminal = .identifier) :
    IsPlainArgument (.node .funcArgRegular span [.token name])
  | typed {span : Option Span} {name type : Token} (terminal : type.terminal = .typeHint) :
    IsPlainArgument (.node .funcArgTyped span [.token name, .token type])
  | defaulted {k : Kind} {span place : Option Span} {names : List Token} {text : Text} {value : Tree}
      (introduced : introduction k names = some text) (expression : IsExpression value) :
    IsPlainArgument (.node k span (names.map Tree.token ++ [Tree.node .expr place [value]]))

inductive IsArgument : Tree → Prop
  | plain {t : Tree} (h : IsPlainArgument t) : IsArgument t
  | variadic {span : Option Span} {t : Tree} (h : IsPlainArgument t) :
    IsArgument (.node .funcArgVariadic span [t])

theorem IsPlainArgument.exists_node (h : IsPlainArgument t) :
    ∃ k span children, t = .node k span children ∧ k ∈ [Kind.funcArgRegular, .funcArgInf, .funcArgTyped] := by
  cases h with
  | named => exact ⟨_, _, _, rfl, by decide⟩
  | typed => exact ⟨_, _, _, rfl, by decide⟩
  | defaulted hintroduced =>
    refine ⟨_, _, _, rfl, ?_⟩
    unfold introduction at hintroduced
    split at hintroduced
    case h_4 => cases hintroduced
    all_goals decide

/-- An argument stands in no brackets of its own. -/
theorem IsArgument.unwrap_eq (h : IsArgument t) : t.isSeparator = false ∧ unwrap t = t := by
  cases h with
  | variadic => exact ⟨rfl, rfl⟩
  | plain h =>
    obtain ⟨k, span, children, rfl, hk⟩ := h.exists_node
    rcases hk with _ | ⟨_, _ | ⟨_, _ | ⟨_, ⟨⟩⟩⟩⟩
    all_goals exact ⟨rfl, rfl⟩

theorem exists_tokens_of_map_label (terminals : List Terminal) {rest : List Label}
    (h : children.map label = terminals.map .leaf ++ rest) :
    ∃ (tokens : List Token) (more : List Tree), children = tokens.map .token ++ more ∧
      tokens.map Token.terminal = terminals ∧ more.map label = rest := by
  induction terminals generalizing children with
  | nil => exact ⟨[], children, rfl, rfl, h⟩
  | cons terminal terminals ih =>
    obtain ⟨c, others, rfl, hc, hothers⟩ := exists_of_map_label h
    obtain ⟨tokens, more, rfl, rfl, hrest⟩ := ih hothers
    cases c with
    | node => cases hc
    | token t => exact ⟨t :: tokens, more, rfl, by rw [map_cons, Label.leaf.inj hc], hrest⟩

theorem IsFlat.expands
    (h : IsFlat (.node k span children)) : k.Expands Fragment.keepsTokens (children.map label) := by
  cases h.conforms with
  | node hexpands => exact hexpands

theorem IsFlat.exists_value (h : IsFlat t) (hlabel : t.label = .node .expr) :
    ∃ place value, t = .node .expr place [value] ∧ IsExpression value := by
  cases t with
  | token => cases hlabel
  | node k place children =>
    obtain rfl := Label.node.inj hlabel
    obtain ⟨l, hl, hexpression⟩ := h.expands.exists_of_expr
    obtain ⟨value, rest, rfl, rfl, hrest⟩ := exists_of_map_label hl
    obtain rfl := map_eq_nil_iff.mp hrest
    exact ⟨place, value, rfl, (h.child (mem_singleton_self value)).isExpression hexpression⟩

theorem IsFlat.isPlainArgument
    (h : IsFlat (.node k span children)) (hk : k ∈ [Kind.funcArgRegular, .funcArgInf, .funcArgTyped]) :
    IsPlainArgument (.node k span children) := by
  have hnamed (terminals : List Terminal) (hlabels : children.map label = terminals.map .leaf) :
      ∃ names : List Token, children = names.map .token ∧ names.map Token.terminal = terminals := by
    obtain ⟨names, more, rfl, hnames, hmore⟩ :=
      exists_tokens_of_map_label terminals (hlabels.trans (append_nil _).symm)
    rw [map_eq_nil_iff.mp hmore, append_nil]
    exact ⟨names, rfl, hnames⟩
  have hdefaulted (terminals : List Terminal)
      (hlabels : children.map label = terminals.map .leaf ++ [Label.node .expr])
      (hnames : ∀ names : List Token, names.length = terminals.length →
        ∃ text, introduction k names = some text) : IsPlainArgument (.node k span children) := by
    obtain ⟨names, more, rfl, rfl, hmore⟩ := exists_tokens_of_map_label terminals hlabels
    obtain ⟨c, rest, rfl, hc, hrest⟩ := exists_of_map_label hmore
    obtain rfl := map_eq_nil_iff.mp hrest
    have hflat := h.child (mem_append_right _ (mem_singleton_self c))
    obtain ⟨place, value, rfl, hvalue⟩ := hflat.exists_value hc
    obtain ⟨text, htext⟩ := hnames names (length_map _).symm
    exact .defaulted htext hvalue
  have hexpands := h.expands
  rcases hk with _ | ⟨_, _ | ⟨_, _ | ⟨_, ⟨⟩⟩⟩⟩
  · have hrows := hexpands.mem_rows [[.leaf .identifier], [.leaf .identifier, .node .expr]] (by decide)
    rcases mem_pair.mp hrows with hlabels | hlabels
    · obtain ⟨names, rfl, hnames⟩ := hnamed [.identifier] hlabels
      obtain ⟨name, rest, rfl, hname, hrest⟩ := map_eq_cons_iff.mp hnames
      obtain rfl := map_eq_nil_iff.mp hrest
      exact .named hname
    · refine hdefaulted [.identifier] hlabels fun names hlength => ?_
      obtain ⟨name, rfl⟩ := length_eq_one_iff.mp hlength
      exact ⟨_, rfl⟩
  · have hrows := hexpands.mem_rows [[.leaf .identifier, .node .expr]] (by decide)
    refine hdefaulted [.identifier] (mem_singleton.mp hrows) fun names hlength => ?_
    obtain ⟨name, rfl⟩ := length_eq_one_iff.mp hlength
    exact ⟨_, rfl⟩
  · have hrows := hexpands.mem_rows
      [[.leaf .identifier, .leaf .typeHint], [.leaf .identifier, .leaf .typeHint, .node .expr]] (by decide)
    rcases mem_pair.mp hrows with hlabels | hlabels
    · obtain ⟨names, rfl, hnames⟩ := hnamed [.identifier, .typeHint] hlabels
      obtain ⟨name, types, rfl, -, htypes⟩ := map_eq_cons_iff.mp hnames
      obtain ⟨type, rest, rfl, htype, hrest⟩ := map_eq_cons_iff.mp htypes
      obtain rfl := map_eq_nil_iff.mp hrest
      exact .typed htype
    · refine hdefaulted [.identifier, .typeHint] hlabels fun names hlength => ?_
      obtain ⟨name, type, rfl⟩ := length_eq_two.mp hlength
      exact ⟨_, rfl⟩

theorem IsFlat.isArgument (h : IsFlat (.node .funcArgs span children)) :
    ∀ c ∈ children, c.isTrailingComma ∨ IsArgument c := by
  intro c hc
  have hflat := h.child hc
  have hlabel : c.label ∈ [Label.node .funcArgVariadic, .node .funcArgRegular, .node .funcArgInf,
      .node .funcArgTyped, .node .trailingComma] := by
    have hfits : Place.Row _ [] _ := h.expands.fits
    cases hfits with
    | rest hall => exact of_decide_eq_true (hall _ (mem_map_of_mem hc))
  cases c with
  | token => simp [label] at hlabel
  | node k place inner =>
    simp only [label, mem_cons, Label.node.injEq, not_mem_nil, or_false] at hlabel
    rcases hlabel with rfl | rfl | rfl | rfl | rfl
    · right
      obtain ⟨l, hl, hkinds⟩ : ∃ l, inner.map label = [l] ∧
          l ∈ [Label.node .funcArgRegular, .node .funcArgTyped] := by
        have hfits : Place.Row _ [Label.nodes [.funcArgRegular, .funcArgTyped]] _ := hflat.expands.fits
        generalize inner.map label = labels at hfits
        cases hfits with
        | place hfirst hmore =>
          obtain rfl := length_eq_zero_iff.mp (hmore.length_eq rfl)
          exact ⟨_, rfl, of_decide_eq_true hfirst⟩
      obtain ⟨t, rest, rfl, rfl, hrest⟩ := exists_of_map_label hl
      obtain rfl := map_eq_nil_iff.mp hrest
      cases t with
      | token => simp [label] at hkinds
      | node k place inner =>
        refine .variadic ((hflat.child (mem_singleton_self _)).isPlainArgument ?_)
        simp only [label, mem_cons, Label.node.injEq, not_mem_nil, or_false] at hkinds
        rcases hkinds with rfl | rfl
        all_goals decide
    · exact .inr (.plain (hflat.isPlainArgument (by decide)))
    · exact .inr (.plain (hflat.isPlainArgument (by decide)))
    · exact .inr (.plain (hflat.isPlainArgument (by decide)))
    · exact .inl rfl

/-! ## What gets lost -/

def hasDefault (t : Tree) : Bool :=
  t.children.getLast?.any isNode

namespace Fold

variable {text : Text} {names : List Token}

/-- Whether an expression between texts is put on several lines. -/
def breaks (c : Context) (before after : Text) (e : Expr) : Bool :=
  e.isFoldable && (e.forcesLines c.settings.standalone ||
    !e.line.toOption.any fun text => c.fits (c.margin ++ before ++ text ++ after))

theorem ensures_oneLineOr {fold : Formatter} {e : Expr} {a : Affixes} {c : Context} {Q : List Line → Prop}
    (hone : breaks c a.before a.after e = false → Ensures (singleLine e a c) Q)
    (hfold : breaks c a.before a.after e → Ensures (fold e a c) Q) :
    Ensures (oneLineOr fold e a c) Q := by
  unfold oneLineOr
  cases hfoldable : e.isFoldable with
  | false => exact hone (by rw [breaks, hfoldable]; rfl)
  | true =>
    cases hforces : e.forcesLines c.settings.standalone with
    | true => exact hfold (by rw [breaks, hfoldable, hforces]; rfl)
    | false =>
      refine (ensures_self _).bind fun lines hlines => ?_
      obtain ⟨text, hline, heq⟩ := exists_of_bind_eq_ok hlines
      cases heq
      have hbreaks : breaks c a.before a.after e = !c.fits (c.margin ++ a.before ++ text ++ a.after) := by
        rw [breaks, hfoldable, hforces, hline]
        rfl
      rw [all_cons, all_nil, Bool.and_true]
      split
      · rename_i hfits
        exact ensures_ok (hone (by rw [hbreaks, hfits]; rfl) _ hlines)
      · rename_i hfits
        exact hfold (by rw [hbreaks, Bool.eq_false_iff.mpr hfits]; rfl)

/-- Whether a variadic argument is laid out without its dots: it is folded, and its default value is. -/
def losesDots (c : Context) (after : Text) (t : Tree) : Bool :=
  match t with
  | .node .funcArgVariadic _ (inner :: _) => hasDefault inner && breaks c [] after (.tree t) &&
    breaks c "...".toList after (.tree inner)
  | _ => false

/-- How many of the arguments on lines of their own lose their dots. -/
def dotsLostAmong (c : Context) (commaAtEnd : Bool) : List Tree → Nat
  | [] => 0
  | t :: rest =>
    (losesDots c (if rest.isEmpty && !commaAtEnd then [] else [',']) t).toNat + dotsLostAmong c commaAtEnd rest

/-- How many arguments lose their dots where the arguments of a function are folded. -/
def dotsLost (a : Affixes) (c : Context) : Tree → Nat
  | .node .funcArgs span children =>
    let last := span.bind fun s => s.endLine.map Int.ofNat
    let inner := c.child a.beforeLine
    -- The list has to be broken, and its items have to be, before an argument is looked at by itself.
    if breaks c (a.before ++ ['(']) (')' :: a.after) (.listed children a.beforeLine last) &&
        breaks inner [] [] (.items children a.beforeLine last) then
      dotsLostAmong inner (endsWithComma children) (children.filter (!·.isComma))
    else 0
  | _ => 0

/-- A text that lacks the dots of some arguments of another one. -/
structure Lacks (n : Nat) (text full : Text) : Prop where
  length : text.length + 3 * n = full.length
  eq_of_zero : n = 0 → text = full

namespace Lacks

theorem refl (text : Text) : Lacks 0 text text :=
  ⟨rfl, fun _ => rfl⟩

theorem append {n m : Nat} {full more rest : Text} (h : Lacks n text full) (hmore : Lacks m more rest) :
    Lacks (n + m) (text ++ more) (full ++ rest) := by
  constructor
  · rw [length_append, length_append, ← h.length, ← hmore.length]
    omega
  · intro hzero
    rw [h.eq_of_zero (by omega), hmore.eq_of_zero (by omega)]

theorem eq_iff {n : Nat} {full : Text} (h : Lacks n text full) : text = full ↔ n = 0 := by
  constructor
  · rintro rfl
    have := h.length
    omega
  · exact h.eq_of_zero

end Lacks

/-- An argument with a default value is its introduction and the value. -/
theorem tree_of_introduction (h : introduction k names = some text) (next : Formatter) (body : BodyFormatter)
    (span place : Option Span) (value : Tree) (a : Affixes) (c : Context) :
    tree next body (.node k span (names.map Tree.token ++ [Tree.node .expr place [value]])) a c =
      next (.tree (unwrap value)) { a with before := text } c := by
  unfold introduction at h
  split at h
  · cases h
    rfl
  · cases h
    rfl
  · cases h
    rfl
  · cases h

theorem line_of_introduction
    (h : introduction k names = some text) (span place : Option Span) {value : Tree} {line : Text}
    (hline : value.bareLine = .ok line) :
    (Tree.node k span (names.map Tree.token ++ [Tree.node .expr place [value]])).line = .ok (text ++ line) := by
  have hvalue : bare (printAll [value]) 0 = .ok line := hline
  have hlater {first text : Text} : (bare (printAll [value]) 0 >>= fun line =>
      (Except.ok (text ++ line) : Except Fault Text)) >>= (fun rest => .ok (first ++ rest)) =
      .ok (first ++ text ++ line) := by
    rw [hvalue, append_assoc]
    rfl
  unfold introduction at h
  split at h
  · cases h
    exact hlater
  · cases h
    change bare (printAll [value]) 0 >>= _ = _
    rw [hvalue]
    rfl
  · cases h
    exact hlater
  · cases h

section

variable {body : BodyFormatter} {depth : Nat} {a : Affixes} {c : Context} (hc : c.IsBlank)

include hc

/-- Folding an argument with a default value drops what stands in front of it. -/
theorem shows_plain (ht : IsPlainArgument t) :
    Ensures (upTo body depth (.tree t) a c) fun lines => ∃ text, t.line = .ok text ∧
      coreOf lines = core (if hasDefault t then [] else a.before) ++ core text ++ core a.after := by
  cases depth with
  | zero => exact ensures_error
  | succ depth =>
    have hnext : Formatter.IsFaithful (oneLineOr (upTo body depth)) fun _ => true :=
      isFaithful_oneLineOr (isFaithful_upTo body depth)
    cases ht with
    | @named span name hterminal =>
      refine (hnext.tree (.token (by rw [hterminal]; rfl)) hc).mono fun lines ⟨text, htext, hcore⟩ => ?_
      obtain rfl : StringLiteral.normal name.terminal name.content = text := Except.ok.inj htext
      rw [hterminal] at hcore
      refine ⟨name.content ++ [], rfl, ?_⟩
      rw [append_nil]
      exact hcore
    | @typed span name type hterminal =>
      refine (shows_behind hnext hc (.token (by rw [hterminal]; rfl)) _).mono
        fun lines ⟨text, htext, hcore⟩ => ?_
      obtain rfl : StringLiteral.normal type.terminal type.content = text := Except.ok.inj htext
      rw [hterminal] at hcore
      refine ⟨name.content ++ ": ".toList ++ type.content ++ [], rfl, ?_⟩
      rw [append_nil]
      exact hcore
    | @defaulted k span place names text value hintroduced hvalue =>
      rw [upTo, step, tree_of_introduction hintroduced]
      refine (hnext.tree (IsExpression.hereditary.unwrap hvalue) hc).mono
        fun lines ⟨line, hline, hcore⟩ => ?_
      rw [line_unwrap] at hline
      refine ⟨text ++ line, line_of_introduction hintroduced span place hline, ?_⟩
      have hdefault : hasDefault (.node k span (names.map Tree.token ++ [Tree.node .expr place [value]])) := by
        rw [hasDefault, Tree.children, getLast?_concat]
        rfl
      rw [hdefault, hcore]
      simp

theorem lacks_argument (ht : IsArgument t) (ha : a.before = []) :
    Ensures (oneLineOr (upTo body depth) (.tree t) a c) fun lines => ∃ text, t.line = .ok text ∧
      Lacks (losesDots c a.after t).toNat (coreOf lines) (core text ++ core a.after) := by
  have hfull {n : Nat} (hn : n = 0) {lines : List Line} (h : Shows a t.line lines) :
      ∃ text, t.line = .ok text ∧ Lacks n (coreOf lines) (core text ++ core a.after) := by
    obtain ⟨text, htext, hcore⟩ := h
    rw [ha, core_nil, nil_append] at hcore
    exact ⟨text, htext, hn ▸ hcore ▸ .refl _⟩
  cases ht with
  | plain h =>
    have hnone : (losesDots c a.after t).toNat = 0 := by
      obtain ⟨k, span, children, rfl, hk⟩ := h.exists_node
      rcases hk with _ | ⟨_, _ | ⟨_, _ | ⟨_, ⟨⟩⟩⟩⟩
      all_goals rfl
    refine ensures_oneLineOr (fun _ => (shows_singleLine hc _).mono fun _ => hfull hnone) fun _ => ?_
    refine (shows_plain hc h).mono fun lines hlines => hfull hnone ?_
    obtain ⟨text, htext, hcore⟩ := hlines
    exact ⟨text, htext, by rw [hcore, ha, ite_self]⟩
  | @variadic span inner h =>
    refine ensures_oneLineOr (fun hbreaks => (shows_singleLine hc _).mono fun _ => hfull ?_) fun hbreaks => ?_
    · rw [ha] at hbreaks
      rw [losesDots, hbreaks]
      simp
    · cases depth with
      | zero => exact ensures_error
      | succ depth =>
        change Ensures (oneLineOr (upTo body depth) (.tree inner) (a.append "...".toList) c) _
        have hline {text : Text} (htext : inner.line = .ok text) :
            (Tree.node .funcArgVariadic span [inner]).line = .ok ("...".toList ++ text) := by
          change inner.line >>= _ = _
          rw [htext]
          rfl
        have hbefore : (a.append "...".toList).before = "...".toList := by rw [Affixes.append, ha]; rfl
        have hloses : losesDots c a.after (.node .funcArgVariadic span [inner]) =
            (hasDefault inner && breaks c "...".toList a.after (.tree inner)) := by
          rw [ha] at hbreaks
          rw [losesDots, hbreaks, Bool.and_true]
        refine ensures_oneLineOr (fun hone => ?_) fun hmany => ?_
        · refine (shows_singleLine hc _).mono fun lines hlines => ?_
          obtain ⟨text, htext, hcore⟩ := hlines
          rw [hbefore] at hone hcore
          refine ⟨_, hline htext, ?_⟩
          rw [hloses, show breaks c "...".toList a.after (.tree inner) = false from hone, Bool.and_false, hcore,
            core_append]
          exact .refl _
        · refine (shows_plain hc h).mono fun lines hlines => ?_
          obtain ⟨text, htext, hcore⟩ := hlines
          refine ⟨_, hline htext, ?_⟩
          rw [hbefore] at hmany hcore
          rw [hloses, show breaks c "...".toList a.after (.tree inner) from hmany, Bool.and_true, hcore,
            core_append]
          cases hasDefault inner with
          | false => exact .refl _
          | true =>
            refine ⟨?_, by rintro ⟨⟩⟩
            have hdots : core "...".toList = "...".toList := by decide
            change (core text ++ core a.after).length + 3 = (core "...".toList ++ core text ++ core a.after).length
            rw [hdots, append_assoc]
            rfl

theorem lacks_arguments (commaAtEnd : Bool) {ts : List Tree} (h : ∀ t ∈ ts, IsArgument t) :
    Ensures (itemLines (oneLineOr (upTo body depth)) c commaAtEnd ts) fun lines =>
      ∃ texts, bares (printAll ts) = .ok texts ∧
        Lacks (dotsLostAmong c commaAtEnd ts) (coreOf lines) (core texts.flatten) := by
  induction ts with
  | nil => exact ensures_ok ⟨[], rfl, .refl _⟩
  | cons t ts ih =>
    obtain ⟨ht, hts⟩ := forall_mem_cons.mp h
    refine .skip fun first => .skip fun last => ?_
    rw [ht.unwrap_eq.2]
    refine (lacks_argument hc ht rfl).bind fun lines ⟨text, htext, hlines⟩ =>
      (ih hts).bind fun more ⟨texts, htexts, hmore⟩ => ensures_ok ⟨text :: texts, ?_, ?_⟩
    · rw [printAll, bares, htexts]
      change t.bareLine >>= _ = _
      rw [← line_unwrap, ht.unwrap_eq.2, htext]
      rfl
    · have hsuffix : core (if ts.isEmpty && !commaAtEnd then [] else [',']) = [] := by split <;> rfl
      rw [hsuffix, append_nil] at hlines
      rw [coreOf_append, flatten_cons, core_append]
      exact hlines.append hmore

section

variable {ts : List Tree} (h : ∀ t ∈ ts, t.isTrailingComma = true ∨ IsArgument t)

include h

omit hc in
theorem not_isSeparator_of_arguments : ∀ t ∈ ts, t.isSeparator = false := by
  intro t ht
  rcases h t ht with hcomma | hargument
  · cases t with
    | token => cases hcomma
    | node => rfl
  · exact hargument.unwrap_eq.1

omit hc in
theorem isArgument_of_mem_filter : ∀ t ∈ ts.filter (!·.isComma), IsArgument t := by
  intro t ht
  obtain ⟨hmem, hcomma⟩ := mem_filter.mp ht
  refine (h t hmem).resolve_left fun htrailing => ?_
  cases t with
  | token => cases htrailing
  | node k span children =>
    obtain rfl := Option.some.inj (of_decide_eq_true htrailing)
    cases hcomma

theorem lacks_items (first last : Option Int) (ha : a.before = [] ∧ a.after = []) :
    Ensures (oneLineOr (upTo body depth) (.items ts first last) a c) fun lines =>
      ∃ texts, bares (printAll (ts.filter (!·.isComma))) = .ok texts ∧
        Lacks (if breaks c [] [] (.items ts first last) then
          dotsLostAmong c (endsWithComma ts) (ts.filter (!·.isComma)) else 0)
          (coreOf lines) (core texts.flatten) := by
  refine ensures_oneLineOr (fun hone => ?_) fun hmany => ?_
  · refine (shows_singleLine hc _).mono fun lines ⟨text, htext, hcore⟩ => ?_
    obtain ⟨texts, htexts, hsame⟩ := exists_bares (not_isSeparator_of_arguments h) htext
    rw [ha.1, ha.2] at hone hcore
    refine ⟨texts, htexts, ?_⟩
    rw [hone, hcore, hsame, core_nil, nil_append, append_nil]
    exact .refl _
  · cases depth with
    | zero => exact ensures_error
    | succ depth =>
      rw [ha.1, ha.2] at hmany
      rw [if_pos hmany]
      exact lacks_arguments hc _ (isArgument_of_mem_filter h)

theorem lacks_list (span : Option Span) :
    Ensures (upTo body depth (.tree (.node .funcArgs span ts)) a c) fun lines =>
      ∃ texts, bares (printAll (ts.filter (!·.isComma))) = .ok texts ∧
        Lacks (dotsLost a c (.node .funcArgs span ts)) (coreOf lines)
          (core a.before ++ core texts.flatten ++ core a.after) := by
  cases depth with
  | zero => exact ensures_error
  | succ depth =>
    cases span with
    | none => exact ensures_error
    | some span =>
      let last := span.endLine.map Int.ofNat
      change Ensures (oneLineOr (upTo body depth) (.listed ts a.beforeLine last) (a.bracket '(' ')' last) c) _
      have hlost : dotsLost a c (.node .funcArgs (some span) ts) =
          if breaks c (a.before ++ ['(']) (')' :: a.after) (.listed ts a.beforeLine last) &&
              breaks (c.child a.beforeLine) [] [] (.items ts a.beforeLine last) then
            dotsLostAmong (c.child a.beforeLine) (endsWithComma ts) (ts.filter (!·.isComma)) else 0 := rfl
      refine ensures_oneLineOr (fun hone => ?_) fun hmany => ?_
      · refine (shows_singleLine hc _).mono fun lines hlines => ?_
        obtain ⟨text, htext, hcore⟩ := hlines
        obtain ⟨texts, htexts, hsame⟩ := exists_bares (not_isSeparator_of_arguments h) htext
        refine ⟨texts, htexts, ?_⟩
        have hlines : coreOf lines = core a.before ++ core texts.flatten ++ core a.after := by
          rw [hcore, hsame]
          simp [Affixes.bracket]
        rw [hlost, show breaks c (a.before ++ ['(']) (')' :: a.after) _ = false from hone, hlines]
        exact .refl _
      · rw [hlost, show breaks c (a.before ++ ['(']) (')' :: a.after) _ from hmany, Bool.true_and]
        cases depth with
        | zero => exact ensures_error
        | succ depth =>
          change Ensures (listLines (oneLineOr (upTo body depth)) ts (a.bracket '(' ')' last) c) _
          have hlines {n : Nat} {texts : List Text} {inner : List Line}
              (hinner : Lacks n (coreOf inner) (core texts.flatten)) :
              Lacks n (coreOf (⟨a.beforeLine, c.margin ++ (a.before ++ ['('])⟩ :: inner ++
                [⟨last, c.margin ++ (')' :: a.after)⟩])) (core a.before ++ core texts.flatten ++ core a.after) := by
            have := ((Lacks.refl (core a.before)).append hinner).append (.refl (core a.after))
            simpa [hc.core_margin] using this
          unfold listLines
          split
          · rename_i hempty
            obtain rfl := List.isEmpty_iff.mp hempty
            refine ensures_ok ⟨[], rfl, ?_⟩
            rw [show dotsLostAmong (c.child a.beforeLine) _ (filter (!·.isComma) []) = 0 from rfl, ite_self]
            exact hlines (.refl _)
          · refine (lacks_items (c := c.child a.beforeLine) hc h a.beforeLine last ⟨rfl, rfl⟩).bind
              fun inner hinner => ensures_ok (hinner.imp fun texts h => h.imp_right hlines)

end

end

/-! ## Folded trees of a text -/

/-- Lines of a folded expression, and of folded arguments, carry the text of one line exactly where no
argument loses its dots. -/
theorem coreOf_folded_iff {code : Text} {root t : Tree} (hparse : parse code = .ok root)
    (ht : t ∈ root.subtrees) (hplace : t.label.isExpression = true ∨ t.isKind .funcArgs = true)
    (hlambda : holdsLambda t = false) (hshort : ∀ s ∈ t.subtrees, isLongText s = false)
    (hfoldable : isFoldable t = true) {body : BodyFormatter} {depth : Nat} {a : Affixes} {c : Context}
    (hc : c.IsBlank) {lines : List Line} (hlines : upTo body depth (.tree t) a c = .ok lines) :
    ∃ text, t.line = .ok text ∧
      (coreOf lines = core (a.before ++ text ++ a.after) ↔ dotsLost a c t = 0) := by
  have hflat := isFlat_of_parse hparse ht hlambda hshort
  cases t with
  | token => cases (Tree.mem_subtrees_iff.mp ht).1
  | node k span children =>
    rcases hplace with hexpression | hkind
    · obtain ⟨text, htext, hcore⟩ := isFaithful_upTo body depth (e := .tree _) hfoldable
        (.link (Expr.isLink_tree (hflat.isExpression hexpression))) hc nofun lines hlines
      have hnone : dotsLost a c (.node k span children) = 0 := by
        unfold dotsLost
        split
        · rename_i heq
          obtain ⟨rfl, -⟩ := heq
          cases hexpression
        · rfl
      refine ⟨text, htext, iff_of_true ?_ hnone⟩
      rw [hcore, core_append, core_append]
    · obtain rfl := Option.some.inj (of_decide_eq_true hkind)
      obtain ⟨texts, htexts, hlacks⟩ := lacks_list hc hflat.isArgument span lines hlines
      obtain ⟨wholes, hwholes, hsame⟩ :=
        exists_wholes (not_isSeparator_of_arguments hflat.isArgument) htexts
      refine ⟨Print.enclosed "(" (Text.join Print.comma wholes) ")", ?_, ?_⟩
      · change Parts.wholes (Tree.printAll children) >>= _ = _
        rw [hwholes]
        rfl
      · rw [core_append, core_append, Print.core_round, core_join (by decide), hsame]
        exact hlacks.eq_iff

def tabContext (maxWidth : Int) : Context :=
  ⟨⟨maxWidth, 2, tabWidth, ['\t'], [], [], []⟩, 0, some 0⟩

def functionAffixes : Affixes :=
  ⟨"func f".toList, some 1, [':'], some 1⟩

def narrowArguments : Text :=
  "func f(a = [1, 2], ...b: Array):\n\tpass\n".toList

/-- Default values are folded, and a variadic argument without one keeps its dots. -/
theorem coreOf_narrowArguments :
    ∃ root t lines text, parse narrowArguments = .ok root ∧ t ∈ root.subtrees ∧
      t.isKind .funcArgs = true ∧
      upTo (fun _ _ => .ok []) (depthOf t) (.tree t) functionAffixes (tabContext 10) = .ok lines ∧
      lines.length = 7 ∧ t.line = .ok text ∧
      coreOf lines = core ("func f".toList ++ text ++ [':']) := by
  have hparse : (parse narrowArguments).toOption.any (fun root => decide
      (∃ t ∈ root.subtrees, t.isKind .funcArgs = true ∧ holdsLambda t = false ∧
        (∀ s ∈ t.subtrees, isLongText s = false) ∧ isFoldable t = true ∧
        dotsLost functionAffixes (tabContext 10) t = 0 ∧
        ((upTo (fun _ _ => .ok []) (depthOf t) (.tree t) functionAffixes (tabContext 10)).toOption.map
          List.length) = some 7)) = true := by
    decide +kernel
  cases hroot : parse narrowArguments with
  | error e =>
    rw [hroot] at hparse
    cases hparse
  | ok root =>
    rw [hroot] at hparse
    obtain ⟨t, ht, hkind, hlambda, hshort, hfoldable, hlost, hlength⟩ := of_decide_eq_true hparse
    obtain ⟨lines, hlines, hlength⟩ := Option.map_eq_some_iff.mp hlength
    have hlines := eq_ok_of_toOption hlines
    obtain ⟨text, htext, hiff⟩ :=
      coreOf_folded_iff hroot ht (.inr hkind) hlambda hshort hfoldable (c := tabContext 10) rfl hlines
    exact ⟨root, t, lines, text, rfl, ht, hkind, hlines, hlength, htext, hiff.mpr hlost⟩

def variadicDefault : Text :=
  "func f(...a = [1,]):\n\tpass\n".toList

/-- A variadic argument that is folded with its default value has no dots left. -/
theorem variadicDefault_loses_dots :
    ∃ root t lines text, parse variadicDefault = .ok root ∧ t ∈ root.subtrees ∧
      t.isKind .funcArgs = true ∧
      upTo (fun _ _ => .ok []) (depthOf t) (.tree t) functionAffixes (tabContext 100) = .ok lines ∧
      t.line = .ok text ∧ core text = "...a=[1]".toList ∧ coreOf lines = "funcfa=[1]:".toList := by
  have hparse : (parse variadicDefault).toOption.any (fun root => decide
      (∃ t ∈ root.subtrees, t.isKind .funcArgs = true ∧
        ((upTo (fun _ _ => .ok []) (depthOf t) (.tree t) functionAffixes (tabContext 100)).toOption.map
          coreOf) = some "funcfa=[1]:".toList ∧ t.line.toOption.map core = some "...a=[1]".toList)) = true := by
    decide +kernel
  cases hroot : parse variadicDefault with
  | error e =>
    rw [hroot] at hparse
    cases hparse
  | ok root =>
    rw [hroot] at hparse
    obtain ⟨t, ht, hkind, hlines, htext⟩ := of_decide_eq_true hparse
    obtain ⟨lines, hlines, hcore⟩ := Option.map_eq_some_iff.mp hlines
    obtain ⟨text, htext, hcoretext⟩ := Option.map_eq_some_iff.mp htext
    exact ⟨root, t, lines, text, rfl, ht, hkind, eq_ok_of_toOption hlines, eq_ok_of_toOption htext,
      hcoretext, hcore⟩

end Fold

end GDWorkbench.Format
