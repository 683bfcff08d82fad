import GDWorkbench.Proofs.Format.Groupings
import GDWorkbench.Proofs.Print.LineEnds
import Mathlib.Data.List.Induction

/-!
How the lines of expressions end. A line of a folded expression ends with what is printed of a tree, with a
bracket, or with the text behind the expression. The text in front of an expression often ends with a blank,
but something of the expression stands behind it on the same line.
-/

namespace GDWorkbench.Format

open List Text GDWorkbench.Tree

variable {t : Tree} {ts : List Tree} {ps : List Expr} {lines more : List Line} {line : Line}

/-! ## Lines -/

def LinesClean (lines : List Line) : Prop :=
  ∀ line ∈ lines, line.text.IsClean

theorem linesClean_nil : LinesClean [] :=
  forall_mem_nil _

@[simp]
theorem linesClean_cons : LinesClean (line :: lines) ↔ line.text.IsClean ∧ LinesClean lines :=
  forall_mem_cons

@[simp]
theorem linesClean_append : LinesClean (lines ++ more) ↔ LinesClean lines ∧ LinesClean more :=
  forall_mem_append

theorem LinesClean.sublist (h : LinesClean lines) (hmore : more.Sublist lines) : LinesClean more :=
  fun line hline => h line (hmore.subset hline)

/-- There is a first line, and it is not empty. -/
structure Laid (lines : List Line) : Prop where
  clean : LinesClean lines
  opens : ∃ first ∈ lines.head?, first.text.ends

theorem laid_cons (hline : line.text.ends) (hlines : LinesClean lines) : Laid (line :: lines) :=
  ⟨linesClean_cons.mpr ⟨.inr hline, hlines⟩, line, rfl, hline⟩

theorem laid_singleton (hline : line.text.ends) : Laid [line] :=
  laid_cons hline linesClean_nil

theorem Laid.exists_cons (h : Laid lines) :
    ∃ first rest, lines = first :: rest ∧ first.text.ends ∧ LinesClean rest := by
  obtain ⟨hclean, first, hfirst, hends⟩ := h
  cases lines with
  | nil => cases hfirst
  | cons line rest =>
    cases hfirst
    exact ⟨_, rest, rfl, hends, (linesClean_cons.mp hclean).2⟩

theorem Laid.append (h : Laid lines) (hmore : LinesClean more) : Laid (lines ++ more) := by
  obtain ⟨first, rest, rfl, hends, hrest⟩ := h.exists_cons
  exact laid_cons hends (linesClean_append.mpr ⟨hrest, hmore⟩)

/-- The last line may give way to others. -/
theorem Laid.dropLast_append (h : Laid lines) (hmore : Laid more) : Laid (lines.dropLast ++ more) := by
  obtain ⟨first, rest, rfl, hends, hrest⟩ := h.exists_cons
  cases rest with
  | nil => exact hmore
  | cons second rest => exact (laid_cons hends (hrest.sublist (dropLast_sublist _))).append hmore.clean

/-- The comments of the source end with something else than white space. -/
structure Settings.End (s : Settings) : Prop where
  standalone : ∀ comment, some comment ∈ s.standalone → comment.ends
  inline : ∀ comment, some comment ∈ s.inline → comment.ends

def BodyFormatter.Cleans (body : BodyFormatter) : Prop :=
  ∀ {ts c}, (∀ t ∈ ts, t.IsShown) → c.settings.End → Ensures (body ts c) LinesClean

/-! ## Expressions on one line -/

namespace Expr

/-- Expressions that something is printed of. -/
inductive IsNeat : Expr → Prop
  | tree {t : Tree} (h : t.IsShown) : IsNeat (.tree t)
  | operations {ps : List Expr} {first last : Option Int} (h : ∀ p ∈ ps, IsNeat p) :
    IsNeat (.operations ps first last)
  | joined {ps : List Expr} {first last : Option Int} (hne : ps ≠ []) (h : ∀ p ∈ ps, IsNeat p) :
    IsNeat (.joined ps first last)
  | call {callee : Expr} {ts : List Tree} {first last : Option Int} (hcallee : IsNeat callee)
    (h : ∀ t ∈ ts, t.IsNeat) : IsNeat (.call callee ts first last)
  | subscript {base : Expr} {index : Tree} {first last : Option Int} (hbase : IsNeat base)
    (hindex : index.IsShown) : IsNeat (.subscript base index first last)

theorem isClean_operationsLine (h : ∀ p ∈ ps, Ensures p.line (·.ends)) :
    Ensures (operationsLine ps) IsClean := by
  induction ps using twoStepInduction with
  | nil => exact ensures_ok isClean_nil
  | singleton p => exact ensures_ok isClean_nil
  | cons_cons sign operand rest ih _ =>
    obtain ⟨hoperand, hrest⟩ := forall_mem_cons.mp (forall_mem_cons.mp h).2
    exact .skip fun sign => hoperand.bind fun text htext => (ih hrest).bind fun later hlater =>
      ensures_ok (.inr (ends_append_isClean (ends_append htext) hlater))

theorem ends_chainLine (h : ∀ p ∈ ps, Ensures p.line (·.ends)) : Ensures (chainLine ps) (·.ends) := by
  cases ps with
  | nil => exact ensures_error
  | cons p ps =>
    obtain ⟨hp, hps⟩ := forall_mem_cons.mp h
    exact (isClean_operationsLine hps).bind fun later hlater => hp.bind fun text htext =>
      ensures_ok (ends_append_isClean htext hlater)

theorem ends_joinedLine (hne : ps ≠ []) (h : ∀ p ∈ ps, Ensures p.line (·.ends)) :
    Ensures (joinedLine ps) (·.ends) := by
  induction ps with
  | nil => exact absurd rfl hne
  | cons p ps ih =>
    obtain ⟨hp, hps⟩ := forall_mem_cons.mp h
    have hlater : Ensures (joinedLine ps) IsClean := by
      by_cases hnil : ps = []
      · subst hnil
        exact ensures_ok isClean_nil
      · exact (ih hnil hps).mono fun _ => .inr
    exact hp.bind fun text htext => hlater.bind fun later hlater =>
      ensures_ok (ends_append_isClean htext hlater)

theorem IsNeat.ends_line {e : Expr} (h : e.IsNeat) : Ensures e.line (·.ends) := by
  induction h with
  | tree h => exact h.ends_line
  | operations h ih => exact ends_chainLine ih
  | joined hne h ih => exact ends_joinedLine hne ih
  | call hcallee h ih =>
    exact .skip fun _ => .skip fun _ => ensures_ok (ends_append (Print.ends_enclosed (by decide) _))
  | subscript hbase hindex ih =>
    exact .skip fun _ => .skip fun _ => ensures_ok (ends_append (Print.ends_enclosed (by decide) _))

end Expr

theorem isNeat_map_tree (h : ∀ t ∈ ts, t.IsShown) : ∀ e ∈ ts.map Expr.tree, e.IsNeat := by
  intro e he
  obtain ⟨t, ht, rfl⟩ := mem_map.mp he
  exact .tree (h t ht)

theorem isShown_unwrap (h : t.IsShown) : (unwrap t).IsShown := by
  induction t using unwrap.induct with
  | case1 span t rest ih => exact ih (h.neat.hasShown rfl t mem_cons_self)
  | case2 t hnone =>
    unfold unwrap
    split
    · exact absurd rfl (hnone _ _ _)
    · exact h

theorem isNeat_links (h : t.IsShown) : ∀ e ∈ links t, e.IsNeat := by
  refine links_induction (motive := fun t chain => t.IsShown → ∀ e ∈ chain, e.IsNeat)
    ?attrs ?call ?bare ?subscript (fun t _ h => forall_mem_singleton.mpr (.tree h)) t h
  case attrs =>
    intro span base rest ih h
    have hchildren := h.neat.hasShown rfl
    exact forall_mem_append.mpr ⟨ih (hchildren base mem_cons_self),
      isNeat_map_tree fun t ht => hchildren t (mem_cons_of_mem base ht)⟩
  case call =>
    intro span inner base front attr arguments first last ih h
    have hinner : ∀ t ∈ base :: (front ++ [attr]), t.IsShown :=
      (h.neat.child mem_cons_self).hasShown rfl
    obtain ⟨hbase, hrest⟩ := forall_mem_cons.mp hinner
    obtain ⟨hfront, hattr⟩ := forall_mem_append.mp hrest
    refine forall_mem_append.mpr ⟨forall_mem_append.mpr ⟨ih hbase, isNeat_map_tree hfront⟩, ?_⟩
    exact forall_mem_singleton.mpr (.call (.tree (hattr attr mem_cons_self))
      fun t ht => h.neat.child (mem_cons_of_mem _ ht))
  case bare =>
    exact fun _ _ _ _ ih h => ih ((h.neat.child mem_cons_self).hasShown rfl _ mem_cons_self)
  case subscript =>
    intro span base index rest front link first last _ ih h
    have hchildren := h.neat.hasShown rfl
    obtain ⟨hfront, hlink⟩ := forall_mem_append.mp (ih (hchildren base mem_cons_self))
    exact forall_mem_append.mpr ⟨hfront, forall_mem_singleton.mpr (.subscript (hlink link mem_cons_self)
      (hchildren index (mem_cons_of_mem base mem_cons_self)))⟩

theorem isLongText_eq_false (h : t.IsNeat) : isLongText t = false := by
  unfold isLongText
  split
  · rename_i span token rest
    obtain ⟨hlong, -⟩ := Bool.or_eq_false_iff.mp (h.short token mem_cons_self)
    rw [hlong, Bool.false_and]
  · rfl

/-! ## Folding -/

/-- Lists are laid out cleanly between brackets. The items alone may be no line at all. -/
structure Formatter.LaysLists (next : Formatter) : Prop where
  listed : ∀ {ts first last a c}, (∀ t ∈ ts, t.IsNeat) → a.before.ends → a.after.ends →
    c.settings.End → Ensures (next (.listed ts first last) a c) Laid
  items : ∀ {ts first last a c}, (∀ t ∈ ts, t.IsNeat) → ts ≠ [] → a.after.IsClean → c.settings.End →
    Ensures (next (.items ts first last) a c) LinesClean

/-- Expressions are laid out cleanly. -/
structure Formatter.Lays (next : Formatter) : Prop extends next.LaysLists where
  expression : ∀ {e a c}, e.IsNeat → a.after.IsClean → c.settings.End → Ensures (next e a c) Laid

/-- As `Lays` for what is not left on one line in any case. -/
structure Formatter.Folds (fold : Formatter) : Prop extends fold.LaysLists where
  expression : ∀ {e a c}, e.IsNeat → e.isFoldable → a.after.IsClean → c.settings.End →
    Ensures (fold e a c) Laid

namespace Fold

variable {a : Affixes} {c : Context}

theorem laid_singleLine {e : Expr} (h : Ensures e.line fun text => ends (text ++ a.after)) :
    Ensures (singleLine e a c) Laid := by
  refine h.bind fun text htext => ensures_ok (laid_singleton ?_)
  rw [append_assoc]
  exact ends_append htext

theorem lays_oneLineOr {fold : Formatter} (h : fold.Folds) : Formatter.Lays (oneLineOr fold) where
  listed {ts first last a c} hts hbefore hafter hc := by
    have hfold : Ensures (fold (.listed ts first last) a c) Laid := h.listed hts hbefore hafter hc
    have hone : Ensures (singleLine (.listed ts first last) a c) Laid :=
      laid_singleLine fun text _ => ends_append hafter
    exact Ensures.ite hone (Ensures.ite hfold (hone.bind fun lines hlines =>
      Ensures.ite (ensures_ok hlines) hfold))
  items {ts first last a c} hts hne ha hc := by
    have hfold : Ensures (fold (.items ts first last) a c) LinesClean := h.items hts hne ha hc
    unfold oneLineOr
    rw [if_neg (by simp [Expr.isFoldable])]
    split
    · exact hfold
    · rename_i hforces
      -- A list that ends with a comma is folded.
      have hlast : endsWithComma ts = false := by
        simp only [Expr.forcesLines, Bool.or_eq_true, not_or] at hforces
        simpa using hforces.1.1
      refine (laid_singleLine ?_).bind fun lines hlines => Ensures.ite (ensures_ok hlines.clean) hfold
      exact (ends_arguments hts hne hlast).mono fun text htext => ends_append_isClean htext ha
  expression {e a c} he ha hc := by
    have hone : Ensures (singleLine e a c) Laid :=
      laid_singleLine (he.ends_line.mono fun text htext => ends_append_isClean htext ha)
    unfold oneLineOr
    split
    · exact hone
    · rename_i hfoldable
      have hfold := h.expression he (by simpa using hfoldable) ha hc
      exact Ensures.ite hfold (hone.bind fun lines hlines => Ensures.ite (ensures_ok hlines) hfold)

theorem ends_of_areBrackets (h : a.areBrackets) (ha : a.after.IsClean) :
    a.before.ends ∧ a.after.ends := by
  have hpair {left right : Char} (hleft : isBlank left = false)
      (h : endsWith a.before [left] && startsWith a.after [right]) : a.before.ends ∧ a.after.ends := by
    obtain ⟨hbefore, hafter⟩ := Bool.and_eq_true_iff.mp h
    obtain ⟨front, hfront⟩ := suffix_of_endsWith hbefore
    obtain ⟨rest, hrest⟩ := startsWith_iff.mp hafter
    exact ⟨hfront ▸ ends_concat hleft, ha.resolve_left (hrest ▸ cons_ne_nil _ _)⟩
  rcases Bool.or_eq_true_iff.mp h with h | h
  all_goals exact hpair (by decide) h

section

variable {next : Formatter} (hnext : next.Lays) (hc : c.settings.End)

include hnext hc

/-! ### Lists -/

theorem laid_listLines (h : ∀ t ∈ ts, t.IsNeat) (hbefore : a.before.ends) (hafter : a.after.ends) :
    Ensures (listLines next ts a c) Laid := by
  have hchild : (c.child a.beforeLine).settings.End := hc
  have hinner {inner : List Line} (h : LinesClean inner) : Laid (⟨a.beforeLine, c.margin ++ a.before⟩ ::
      inner ++ [⟨a.afterLine, c.margin ++ a.after⟩]) :=
    (laid_cons (ends_append hbefore) h).append (laid_singleton (ends_append hafter)).clean
  unfold listLines
  split
  · exact ensures_ok (hinner linesClean_nil)
  · rename_i hne
    exact (hnext.items h (by simpa using hne) isClean_nil hchild).bind
      fun inner h => ensures_ok (hinner h)

theorem clean_itemLines (commaAtEnd : Bool) (h : ∀ t ∈ ts, t.IsShown) :
    Ensures (itemLines next c commaAtEnd ts) LinesClean := by
  induction ts with
  | nil => exact ensures_ok linesClean_nil
  | cons item rest ih =>
    obtain ⟨hitem, hrest⟩ := forall_mem_cons.mp h
    have hsuffix : IsClean (if rest.isEmpty && !commaAtEnd then [] else [',']) := by
      split
      · exact isClean_nil
      · exact .inr (by decide)
    refine .skip fun first => .skip fun last => (hnext.expression (.tree (isShown_unwrap hitem)) hsuffix
      hc).bind fun lines hlines => (ih hrest).bind fun more hmore => ensures_ok ?_
    exact linesClean_append.mpr ⟨hlines.clean, hmore⟩

theorem clean_items (h : ∀ t ∈ ts, t.IsNeat) : Ensures (items next ts c) LinesClean := by
  refine clean_itemLines hnext hc _ fun t ht => ?_
  obtain ⟨hmem, hshown⟩ := mem_filter.mp ht
  exact ⟨h t hmem, by simpa using hshown⟩

/-! ### Operators -/

theorem clean_operationLines (h : ∀ p ∈ ps, p.IsNeat) :
    Ensures (operationLines next c ps) LinesClean := by
  induction ps using twoStepInduction with
  | nil => exact ensures_ok linesClean_nil
  | singleton p => exact ensures_ok linesClean_nil
  | cons_cons sign operand rest ih _ =>
    obtain ⟨hoperand, hrest⟩ := forall_mem_cons.mp (forall_mem_cons.mp h).2
    refine .skip fun text => .skip fun first => .skip fun last =>
      (hnext.expression hoperand isClean_nil hc).bind fun lines hlines =>
      (ih hrest).bind fun more hmore => ensures_ok ?_
    exact linesClean_append.mpr ⟨hlines.clean, hmore⟩

theorem laid_operations (h : ∀ p ∈ ps, p.IsNeat) : Ensures (operations next c ps) Laid := by
  cases ps with
  | nil => exact ensures_error
  | cons operand rest =>
    obtain ⟨hoperand, hrest⟩ := forall_mem_cons.mp h
    exact .skip fun first => .skip fun last =>
      (hnext.expression hoperand isClean_nil hc).bind fun lines hlines =>
      (clean_operationLines hnext hc hrest).bind fun more hmore => ensures_ok (hlines.append hmore)

variable (ha : a.after.IsClean)

include ha

theorem laid_chain (h : ∀ p ∈ ps, p.IsNeat) : Ensures (chain next ps a c) Laid := by
  have hchild : (c.child a.beforeLine).settings.End := hc
  have hends : ends (a.before ++ if a.areBrackets then [] else ['(']) ∧
      ends ((if a.areBrackets then [] else [')']) ++ a.after) := by
    split
    · rename_i hbrackets
      rw [append_nil]
      exact ends_of_areBrackets hbrackets ha
    · exact ⟨ends_concat (by decide), ends_cons_isClean (by decide) ha⟩
  refine (hnext.expression (.operations h) isClean_nil hchild).bind fun inner hinner =>
    .skip fun last => ensures_ok ?_
  rw [append_assoc, append_assoc]
  exact (laid_cons (ends_append hends.1) hinner.clean).append
    (laid_singleton (ends_append hends.2)).clean

theorem laid_behind (text : Text) (ht : t.IsShown) : Ensures (behind next text t a c) Laid :=
  hnext.expression (.tree ht) ha hc

theorem laid_assignment (ht : t.HasShown) : Ensures (assignment next t a c) Laid :=
  .skip fun _ => .skip fun _ => .skip fun _ => .skip fun _ => (ht.part 2).bind fun _ hright =>
    laid_behind hnext hc ha _ hright

theorem laid_negation (ht : t.HasShown) : Ensures (negation next t a c) Laid :=
  .skip fun _ => .skip fun _ => .skip fun _ => (ht.part 1).bind fun _ hoperand =>
    laid_behind hnext hc ha _ hoperand

theorem laid_signed (ht : t.HasShown) : Ensures (signed next t a c) Laid :=
  .skip fun _ => .skip fun _ => (ht.part 1).bind fun _ hoperand => laid_behind hnext hc ha _ hoperand

theorem laid_awaited (ht : t.HasShown) : Ensures (awaited next t a c) Laid :=
  .skip fun _ => (ht.part _).bind fun _ hoperand => laid_behind hnext hc ha _ hoperand

/-! ### Calls, subscripts and chains of dots -/

theorem laid_call (callee : Expr) (h : ∀ t ∈ ts, t.IsNeat) (last : Option Int) :
    Ensures (call next callee ts last a c) Laid := by
  refine .skip fun text => Ensures.ite (ensures_ok (laid_singleton ?_)) (.skip fun first =>
    hnext.listed h (ends_concat (by decide)) (ends_cons_isClean (by decide) ha) hc)
  exact ends_append_isClean (ends_append (by decide)) ha

theorem laid_subscript {base : Expr} (hbase : base.IsNeat) {index : Tree} (hindex : index.IsShown) :
    Ensures (subscript next base index a c) Laid := by
  refine (hnext.expression hbase isClean_nil hc).bind fun lines hlines => ?_
  split
  · exact ensures_error
  · exact ensures_error
  · refine (hnext.expression (.tree hindex) (.inr (ends_cons_isClean (by decide) ha)) hc).bind
      fun rest hrest => ensures_ok (hlines.dropLast_append hrest)

theorem laid_insideLastLink (h : ∀ p ∈ ps, p.IsNeat) : Ensures (insideLastLink next ps a c) Laid := by
  have hchain := laid_chain hnext hc ha h
  have hjoined {link : Expr} (hlink : link.IsNeat) (first last : Option Int) :
      (Expr.joined (ps.dropLast ++ [link]) first last).IsNeat :=
    .joined (append_ne_nil_of_right_ne_nil _ (cons_ne_nil _ _)) (forall_mem_append.mpr
      ⟨fun p hp => h p ((dropLast_sublist _).subset hp), forall_mem_singleton.mpr hlink⟩)
  unfold insideLastLink
  split
  · rename_i hlast
    cases h _ (mem_of_getLast? hlast) with
    | call hcallee harguments =>
      refine ensures_first fun n => Ensures.ite hchain (.skip fun _ => ?_)
      exact hnext.expression (.call (hjoined hcallee _ _) harguments) ha hc
  · rename_i hlast
    cases h _ (mem_of_getLast? hlast) with
    | subscript hbase hindex =>
      refine ensures_first fun n => .skip fun _ => ?_
      exact hnext.expression (.subscript (hjoined hbase _ _) hindex) ha hc
  · exact ensures_first fun _ => hchain

theorem laid_dots (h : ∀ p ∈ ps, p.IsNeat) : Ensures (dots next ps a c) Laid := by
  have hinside := laid_insideLastLink hnext hc ha h
  have hchain := laid_chain hnext hc ha h
  refine Ensures.ite hinside (ensures_first fun first => .skip fun last => ?_)
  exact Ensures.ite hchain (hinside.bind fun lines hlines => Ensures.ite (ensures_ok hlines) hchain)

theorem laid_linked (ht : t.IsShown) : Ensures (linked next t a c) Laid := by
  have hlinks := isNeat_links ht
  unfold linked
  split
  · rename_i heq
    cases hlinks _ (heq ▸ mem_singleton_self _) with
    | subscript hbase hindex => exact laid_subscript hnext hc ha hbase hindex
  · exact laid_dots hnext hc ha hlinks

/-! ### Other expressions -/

theorem laid_pair {sign : String} (hsign : ends sign.toList) (ht : t.HasShown) :
    Ensures (pair next sign t a c) Laid :=
  (ht.part 0).bind fun _ hkey =>
    (hnext.expression (.tree (isShown_unwrap hkey)) (.inr hsign) hc).bind fun _ hlines =>
    (ht.part 1).bind fun _ hvalue =>
    (hnext.expression (a := ⟨[], _, a.after, _⟩) (.tree (isShown_unwrap hvalue)) ha hc).bind fun _ hmore =>
    ensures_ok (hlines.append hmore.clean)

theorem laid_defaultValue (before : Text) (ht : ∀ u ∈ t.children, u.HasShown) :
    Ensures (defaultValue next before t a c) Laid :=
  Ensures.bind (fun u hu => ht u (mem_of_part hu)) fun _ hlast => (hlast.part 0).bind fun _ hvalue =>
    hnext.expression (.tree (isShown_unwrap hvalue)) ha hc

theorem laid_argument (kind : Kind) (ht : t.HasShown) (hparts : ∀ u ∈ t.children, u.HasShown) :
    Ensures (argument next kind t a c) Laid := by
  refine (ht.part 0).bind fun name hname => ?_
  split
  · exact hnext.expression (.tree hname) ha hc
  · exact .skip fun _ => laid_defaultValue hnext hc ha _ hparts
  · exact .skip fun _ => laid_defaultValue hnext hc ha _ hparts
  · exact .skip fun _ => (ht.part 1).bind fun _ htype => laid_behind hnext hc ha _ htype
  · exact .skip fun _ => .skip fun _ => .skip fun _ => laid_defaultValue hnext hc ha _ hparts

omit ha in
theorem laid_annotationLines (ht : t.HasShown) : Ensures (annotationLines next t c) Laid :=
  (ht.part 0).bind fun _ hu => hu.neat.tokenText.bind fun _ hname => .skip fun _ =>
    Ensures.ite (ensures_ok (laid_singleton (ends_append (ends_cons hname)))) ((ht.part _).bind
      fun _ hlast => hnext.expression (.tree hlast) isClean_nil hc)

theorem laid_lambdaHeader (ht : t.HasShown) : Ensures (lambdaHeader next t a c) Laid := by
  refine .skip fun first => Ensures.ite (.skip fun u => .skip fun hint => ?_) ?_
  all_goals
    refine (ht.part _).bind fun list hlist => hnext.expression (.tree hlist) (.inr ?_) hc
    exact ends_append (ends_cons_isClean (by decide) ha)

variable {body : BodyFormatter} (hbody : body.Cleans)

include hbody

theorem laid_lambda (ht : t.HasShown) : Ensures (lambda next body t a c) Laid := by
  have hchild : (c.child a.beforeLine).settings.End := hc
  have hstatements : ∀ u ∈ t.children.tail, u.IsShown := fun u hu => ht u (mem_of_mem_tail hu)
  refine (ht.part 0).bind fun first hfirst =>
    (hnext.expression (.tree hfirst) isClean_nil hc).bind fun header hheader =>
    (hbody hstatements hchild).bind fun block hblock => ?_
  split
  · rename_i last hlast
    refine ensures_ok ((hheader.append (hblock.sublist (dropLast_sublist _))).append ?_)
    exact linesClean_cons.mpr ⟨(hblock last (mem_of_getLast? hlast)).append ha, linesClean_nil⟩
  · exact ensures_error

theorem laid_tree (ht : t.IsShown) (hfoldable : isFoldable t) : Ensures (tree next body t a c) Laid := by
  cases t with
  | token token => exact ensures_error
  | node kind span children =>
    have hneat : ∀ u ∈ children, u.IsNeat := fun u hu => ht.neat.child hu
    have hshown (h : kind.isList = false) : (Tree.node kind span children).HasShown := ht.neat.hasShown h
    have hbracket {left right : Char} (hleft : isBlank left = false) (hright : isBlank right = false)
        (n : Option Int) : (a.bracket left right n).before.ends ∧ (a.bracket left right n).after.ends :=
      ⟨ends_concat hleft, ends_cons_isClean hright ha⟩
    cases kind
    case assnmntExpr => exact laid_assignment hnext hc ha (hshown rfl)
    case aslessActualNotTest => exact laid_negation hnext hc ha (hshown rfl)
    case aslessActualNegExpr | aslessActualBitwNot => exact laid_signed hnext hc ha (hshown rfl)
    case awaitExpr => exact laid_awaited hnext hc ha (hshown rfl)
    case standaloneCall | callPattern =>
      exact .skip fun callee => .skip fun last =>
        laid_call hnext hc ha _ (fun u hu => hneat u (mem_of_mem_tail hu)) last
    case getattrCall | getattr | subscrExpr => exact laid_linked hnext hc ha ht
    case parExpr | parPattern =>
      exact ((hshown rfl).part 0).bind fun inner hinner => .skip fun last =>
        hnext.expression (.tree (isShown_unwrap hinner)) (.inr (hbracket (by decide) (by decide) last).2) hc
    case array | arrayPattern | dict | enumBody | dictPattern | funcArgs | signalArgs
        | annotationArgs =>
      exact .skip fun last => hnext.listed hneat (hbracket (by decide) (by decide) last).1
        (hbracket (by decide) (by decide) last).2 hc
    case string =>
      rw [isFoldable, isLongText_eq_false ht.neat] at hfoldable
      cases hfoldable
    case cDictElement | kvPairPattern | eqDictElement =>
      exact laid_pair hnext hc ha (by decide) (hshown rfl)
    case lambda => exact laid_lambda hnext hc ha hbody (hshown rfl)
    case lambdaHeader => exact laid_lambdaHeader hnext hc ha (hshown rfl)
    case funcArgVariadic =>
      exact ((hshown rfl).part 0).bind fun inner hinner => laid_behind hnext hc ha _ hinner
    case funcArgRegular =>
      exact laid_argument hnext hc ha .funcArgRegular (hshown rfl) fun u => ht.neat.hasShown_child rfl
    case funcArgInf =>
      exact laid_argument hnext hc ha .funcArgInf (hshown rfl) fun u => ht.neat.hasShown_child rfl
    case funcArgTyped =>
      exact laid_argument hnext hc ha .funcArgTyped (hshown rfl) fun u => ht.neat.hasShown_child rfl
    case annot => exact laid_annotationLines hnext hc (hshown rfl)
    case listPattern | notPattern | negPattern | bitwNotPattern =>
      exact laid_singleLine (ht.ends_line.mono fun text htext => ends_append_isClean htext ha)
    -- What is left are chains of operators, and nodes that are folded nowhere.
    all_goals first
      | exact laid_chain hnext hc ha (isNeat_map_tree (hshown rfl))
      | exact ensures_error

omit ha hc in
theorem folds_step : (step next body).Folds where
  listed h hbefore hafter hc := laid_listLines hnext hc h hbefore hafter
  items h _ _ hc := clean_items hnext hc h
  expression he hfoldable ha hc := by
    cases he with
    | tree ht => exact laid_tree hnext hc ha hbody ht hfoldable
    | operations h => exact laid_operations hnext hc h
    | joined hne h => exact ensures_error
    | call hcallee h => exact laid_call hnext hc ha _ h _
    | subscript hbase hindex => exact laid_subscript hnext hc ha hbase hindex

omit hnext hc ha in
theorem folds_upTo (depth : Nat) : (upTo body depth).Folds := by
  induction depth with
  | zero =>
    exact ⟨⟨fun _ _ _ _ => ensures_error, fun _ _ _ _ => ensures_error⟩, fun _ _ _ _ => ensures_error⟩
  | succ depth ih => exact folds_step (lays_oneLineOr ih) hbody

end

end Fold

section

variable {body : BodyFormatter} (hbody : body.Cleans) {a : Affixes} {c : Context}
  (ha : a.after.IsClean) (hc : c.settings.End)

include hbody ha hc

theorem laid_concrete (ht : t.IsShown) : Ensures (concrete body t a c) Laid :=
  (Fold.lays_oneLineOr (Fold.folds_upTo hbody _)).expression (.tree ht) ha hc

theorem laid_expression (ht : t.HasShown) : Ensures (expression body t a c) Laid :=
  (ht.part 0).bind fun _ hu => laid_concrete hbody ha hc (isShown_unwrap hu)

end

end GDWorkbench.Format
