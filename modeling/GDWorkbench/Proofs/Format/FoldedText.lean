import GDWorkbench.Proofs.Print.Core
import Mathlib.Data.List.Induction

/-!
Folded expressions carry the text of one line. Folding hands pieces of an expression on through the text in
front of a part and behind it, and adds only margins, round brackets and commas; so the lines together have
the core of the line between its affixes.
-/

namespace GDWorkbench.Format

open List GDWorkbench.Format.Expr IsExpression Print

open Text

variable {t : Tree} {c : Context}

/-! ## Lines that show a text -/

def coreOf (lines : List Line) : Text :=
  lines.flatMap fun line => core line.text

@[simp]
theorem coreOf_nil : coreOf [] = [] :=
  rfl

@[simp]
theorem coreOf_cons (line : Line) (lines : List Line) :
    coreOf (line :: lines) = core line.text ++ coreOf lines :=
  rfl

@[simp]
theorem coreOf_append (lines more : List Line) : coreOf (lines ++ more) = coreOf lines ++ coreOf more :=
  flatMap_append

/-- There is a text, and the lines have its core between the affixes. -/
def Shows (a : Affixes) (x : Except Fault Text) (lines : List Line) : Prop :=
  ∃ text, x = .ok text ∧ coreOf lines = core a.before ++ core text ++ core a.after

def Context.IsBlank (c : Context) : Prop :=
  allBlank c.settings.unitText = true

theorem Context.IsBlank.core_margin (h : c.IsBlank) : core c.margin = [] := by
  rw [Context.margin, Text.repeated, core_flatten, map_replicate, core_of_allBlank h]
  simp

def Expr.isTight : Expr → Bool
  | .tree _ | .joined _ _ _ | .call _ _ _ _ => true
  | .subscript base _ _ _ => base.isTight
  | .listed _ _ _ | .items _ _ _ | .operations _ _ _ => false

theorem isTight_links (t : Tree) : ∀ e ∈ links t, e.isTight := by
  have htrees (ts : List Tree) : ∀ e ∈ ts.map Expr.tree, e.isTight := by
    intro e he
    obtain ⟨t, -, rfl⟩ := mem_map.mp he
    rfl
  refine links_induction (motive := fun _ chain => ∀ e ∈ chain, e.isTight)
    (fun _ _ rest ih => forall_mem_append.mpr ⟨ih, htrees rest⟩) ?call (fun _ _ _ _ ih => ih) ?subscript
    (fun _ _ => forall_mem_singleton.mpr rfl) t
  case call =>
    exact fun _ _ _ front _ _ _ _ ih =>
      forall_mem_append.mpr ⟨forall_mem_append.mpr ⟨ih, htrees front⟩, forall_mem_singleton.mpr rfl⟩
  case subscript =>
    intro span base index rest front link first last _ ih
    obtain ⟨hfront, hlink⟩ := forall_mem_append.mp ih
    exact forall_mem_append.mpr ⟨hfront, forall_mem_singleton.mpr (hlink link mem_cons_self)⟩

/-- A link of a chain in an expression. -/
structure Expr.IsLink (e : Expr) : Prop where
  made : e.MadeOf IsExpression
  tight : e.isTight = true

/-- Groupings that come up where an expression is folded. -/
inductive Expr.IsSound : Expr → Prop
  | link {e : Expr} (h : e.IsLink) : IsSound e
  | listed {ts : List Tree} {first last : Option Int} (h : ∀ t ∈ ts, IsExpression t) :
    IsSound (.listed ts first last)
  | items {ts : List Tree} {first last : Option Int} (h : ∀ t ∈ ts, IsExpression t) :
    IsSound (.items ts first last)
  | operations {ps : List Expr} {first last : Option Int} (h : ∀ p ∈ ps, p.IsLink) :
    IsSound (.operations ps first last)

theorem Expr.isLink_tree (h : IsExpression t) : (Expr.tree t).IsLink :=
  ⟨.tree h, rfl⟩

theorem isLink_links (h : IsExpression t) : ∀ e ∈ links t, e.IsLink :=
  fun e he => ⟨hereditary.links h e he, isTight_links t e he⟩

def Expr.isLoose : Expr → Bool
  | .items _ _ _ | .operations _ _ _ => true
  | _ => false

theorem Expr.IsLink.not_isLoose {e : Expr} (h : e.IsLink) : e.isLoose = false := by
  obtain ⟨-, htight⟩ := h
  cases e <;> first | rfl | cases htight

def Formatter.IsFaithful (next : Formatter) (admits : Expr → Bool) : Prop :=
  ∀ {e : Expr} {a : Affixes} {c : Context}, admits e = true → e.IsSound → c.IsBlank →
    (e.isLoose = true → a.before = [] ∧ a.after = []) → Ensures (next e a c) (Shows a e.line)

theorem Formatter.IsFaithful.link {next : Formatter} (h : next.IsFaithful fun _ => true) {e : Expr}
    (he : e.IsLink) {a : Affixes} (hc : c.IsBlank) : Ensures (next e a c) (Shows a e.line) :=
  h rfl (.link he) hc fun hloose => absurd (he.not_isLoose.symm.trans hloose) nofun

theorem Formatter.IsFaithful.tree {next : Formatter} (h : next.IsFaithful fun _ => true)
    (ht : IsExpression t) {a : Affixes} (hc : c.IsBlank) :
    Ensures (next (.tree t) a c) (Shows a t.line) :=
  h.link (isLink_tree ht) hc

namespace Fold

theorem shows_singleLine {a : Affixes} (hc : c.IsBlank) (e : Expr) :
    Ensures (singleLine e a c) (Shows a e.line) := by
  refine (ensures_self _).bind fun text htext => ensures_ok ⟨text, htext, ?_⟩
  simp only [coreOf_cons, coreOf_nil, core_append, hc.core_margin, nil_append, append_nil]

theorem isFaithful_oneLineOr {fold : Formatter} (hfold : Formatter.IsFaithful fold (·.isFoldable)) :
    Formatter.IsFaithful (oneLineOr fold) fun _ => true := by
  intro e a c _ he hc ha
  have hone := shows_singleLine (a := a) hc e
  unfold oneLineOr
  split
  · exact hone
  · rename_i hfoldable
    have hfold := hfold (by simpa using hfoldable) he hc ha
    exact Ensures.ite hfold (hone.bind fun lines hlines => Ensures.ite (ensures_ok hlines) hfold)

section

variable {ts : List Tree} {base : Expr} {index : Tree} {parts : List Expr}

variable {next : Formatter} (hnext : Formatter.IsFaithful next fun _ => true) {a : Affixes} {c : Context}
  (hc : c.IsBlank)

include hnext hc

/-! ## Lists -/

theorem shows_listed {items : List Tree} (h : ∀ t ∈ items, IsExpression t) :
    Ensures (listed next items a c) (Shows a (Print.arguments (Tree.printAll items))) :=
  hnext rfl (.listed h) hc nofun

theorem shows_listLines {items : List Tree} (h : ∀ t ∈ items, IsExpression t) :
    Ensures (listLines next items a c) (Shows a (Print.arguments (Tree.printAll items))) := by
  have hlines {text : Text} {inner : List Line} (hcore : coreOf inner = core text) :
      coreOf (⟨a.beforeLine, c.margin ++ a.before⟩ :: inner ++ [⟨a.afterLine, c.margin ++ a.after⟩]) =
        core a.before ++ core text ++ core a.after := by
    simp [hc.core_margin, hcore]
  have hitems := hnext (e := .items items a.beforeLine a.afterLine)
    (a := ⟨[], a.beforeLine, [], a.afterLine⟩) (c := c.child a.beforeLine) rfl (.items h) hc
    fun _ => ⟨rfl, rfl⟩
  unfold listLines
  split
  · rename_i hempty
    rw [List.isEmpty_iff.mp hempty]
    exact ensures_ok ⟨[], rfl, hlines rfl⟩
  · refine hitems.bind fun inner ⟨text, htext, hcore⟩ => ensures_ok ⟨text, htext, hlines ?_⟩
    simpa using hcore

theorem shows_itemLines (commaAtEnd : Bool) {items : List Tree} (h : ∀ t ∈ items, IsExpression t) :
    Ensures (itemLines next c commaAtEnd items) fun lines =>
      ∃ texts, Parts.bares (Tree.printAll items) = .ok texts ∧ coreOf lines = core texts.flatten := by
  induction items with
  | nil => exact ensures_ok ⟨[], rfl, rfl⟩
  | cons item rest ih =>
    obtain ⟨hitem, hrest⟩ := forall_mem_cons.mp h
    refine .skip fun first => .skip fun last =>
      (hnext.tree (hereditary.unwrap hitem) hc).bind
      fun lines ⟨text, htext, hlines⟩ => (ih hrest).bind fun more ⟨texts, htexts, hmore⟩ =>
      ensures_ok ⟨text :: texts, ?_, ?_⟩
    · rw [line_unwrap] at htext
      rw [Tree.printAll, Parts.bares, htexts]
      change item.bareLine >>= _ = _
      rw [htext]
      rfl
    · have hsuffix : core (if rest.isEmpty && !commaAtEnd then [] else [',']) = [] := by
        split <;> rfl
      simp only [coreOf_append, hlines, hmore, hsuffix, core_nil, nil_append, append_nil,
        flatten_cons, core_append]

theorem shows_items (h : ∀ t ∈ ts, IsExpression t) (ha : a.before = [] ∧ a.after = []) :
    Ensures (items next ts c) (Shows a (Print.arguments (Tree.printAll ts))) := by
  have hshown : ∀ t ∈ ts.filter (!·.isComma), IsExpression t := fun t ht => h t (mem_of_mem_filter ht)
  intro lines hlines
  obtain ⟨texts, htexts, hcore⟩ := shows_itemLines hnext hc _ hshown lines hlines
  refine ⟨Text.join comma texts, by rw [arguments_eq fun t ht => (h t ht).not_isSeparator, htexts]; rfl, ?_⟩
  rw [hcore, core_join (by decide), ha.1, ha.2]
  simp

/-! ## Operators -/

theorem shows_operationLines (h : ∀ p ∈ parts, p.IsLink) :
    Ensures (operationLines next c parts) fun lines =>
      ∃ text, operationsLine parts = .ok text ∧ coreOf lines = core text := by
  induction parts using twoStepInduction with
  | nil => exact ensures_ok ⟨[], rfl, rfl⟩
  | singleton p => exact ensures_ok ⟨[], rfl, rfl⟩
  | cons_cons sign operand rest ih _ =>
    obtain ⟨-, h⟩ := forall_mem_cons.mp h
    obtain ⟨hoperand, hrest⟩ := forall_mem_cons.mp h
    refine (ensures_self _).bind fun first hfirst => .skip fun _ =>
      .skip fun _ => (hnext.link hoperand hc).bind
      fun lines ⟨text, htext, hlines⟩ => (ih hrest).bind fun more ⟨later, hlater, hmore⟩ =>
      ensures_ok ⟨(if Text.startsWith first ['.'] then [] else [' ']) ++ first ++
        (if Text.startsWith first ['.'] then [] else [' ']) ++ text ++ later, ?_, ?_⟩
    · rw [operationsLine, hfirst, htext, hlater]
      rfl
    · have hgap : core (if Text.startsWith first ['.'] then [] else [' ']) = [] := by
        split <;> rfl
      simp only [coreOf_append, hlines, hmore, core_append, core_blank, hgap, core_nil, nil_append,
        append_nil]

theorem shows_operations (h : ∀ p ∈ parts, p.IsLink)
    (ha : a.before = [] ∧ a.after = []) :
    Ensures (operations next c parts) (Shows a (chainLine parts)) := by
  cases parts with
  | nil => exact ensures_error
  | cons operand rest =>
    obtain ⟨hoperand, hrest⟩ := forall_mem_cons.mp h
    refine .skip fun _ => .skip fun _ =>
      (hnext.link hoperand hc).bind fun lines ⟨text, htext, hlines⟩ =>
      (shows_operationLines hnext hc hrest).bind fun more ⟨later, hlater, hmore⟩ =>
      ensures_ok ⟨text ++ later, ?_, ?_⟩
    · rw [chainLine, hlater, htext]
      rfl
    · simp [hlines, hmore, ha.1, ha.2]

theorem shows_chain (h : ∀ p ∈ parts, p.IsLink) :
    Ensures (chain next parts a c) (Shows a (chainLine parts)) := by
  have hinner := hnext (e := .operations parts a.beforeLine a.afterLine)
    (a := ⟨[], a.beforeLine, [], a.afterLine⟩) (c := c.child a.beforeLine) rfl (.operations h) hc
    fun _ => ⟨rfl, rfl⟩
  refine hinner.bind fun inner ⟨text, htext, hcore⟩ => .skip fun last =>
    ensures_ok ⟨text, htext, ?_⟩
  have hleft : core (if a.areBrackets then [] else ['(']) = [] := by split <;> rfl
  have hright : core (if a.areBrackets then [] else [')']) = [] := by split <;> rfl
  simp only [coreOf_append, coreOf_cons, coreOf_nil, core_append, hc.core_margin, hleft, hright, hcore,
    core_nil, nil_append, append_nil]

theorem shows_behind (ht : IsExpression t) (text : Text) :
    Ensures (behind next text t a c) fun lines =>
      ∃ line, t.line = .ok line ∧ coreOf lines = core a.before ++ core (text ++ line) ++ core a.after := by
  refine fun lines hlines => ?_
  obtain ⟨line, hline, hcore⟩ := hnext.tree ht hc lines hlines
  exact ⟨line, hline, by simpa [Affixes.append] using hcore⟩

theorem shows_assignment {span : Option Span} {target sign value : Tree} (hvalue : IsExpression value) :
    let t : Tree := .node .assnmntExpr span [target, sign, value]
    Ensures (assignment next t a c) (Shows a t.line) := by
  intro t
  change Ensures (target.line >>= fun left => sign.line >>= fun word =>
    behind next (left ++ ' ' :: word ++ [' ']) value a c) _
  refine (ensures_self _).bind fun left hleft => (ensures_self _).bind fun word hword =>
    (shows_behind hnext hc hvalue _).mono fun lines ⟨right, hright, hcore⟩ => ?_
  refine ⟨left ++ ((if Text.startsWith word ['.'] then [] else [' ']) ++ word ++
    (if Text.startsWith word ['.'] then [] else [' ']) ++ right ++ []), ?_, ?_⟩
  · change (Print.operations (Tree.printAll [sign, value]) >>= fun later => target.line >>= _) = _
    rw [← operationsLine_map_tree]
    change ((sign.line >>= fun word => value.line >>= _) >>= fun later => target.line >>= _) = _
    rw [hleft, hword, hright]
    rfl
  · have hgap : core (if Text.startsWith word ['.'] then [] else [' ']) = [] := by split <;> rfl
    rw [hcore]
    simp only [core_append, core_blank, hgap, core_nil, nil_append, append_nil, append_assoc]

section

variable {t : Tree} (ht : IsExpression t)

include ht

theorem shows_negation :
    Ensures (negation next t a c) (Shows a (Print.negation (Tree.printAll t.children))) := by
  refine (ensures_self _).bind fun sign hsign => (ensures_self _).bind fun word hword =>
    (ensures_self _).bind fun text htext => (ensures_self _).bind fun operand hoperand =>
    (shows_behind hnext hc (hereditary.part ht hoperand) _).mono
    fun lines ⟨line, hline, hcore⟩ => ⟨text ++ (if word = ['!'] then [] else [' ']) ++ line, ?_, hcore⟩
  rw [Print.negation, Tree.whole_printAll hsign, Tree.tokenText_printAll hsign, Tree.whole_printAll hoperand,
    htext, hword, hline]
  rfl

theorem shows_signed (sign : Char) (hsign : (t.part 0 >>= Tree.line) = .ok [sign]) :
    Ensures (signed next t a c) (Shows a (do return sign :: (← (Tree.printAll t.children).whole 1))) := by
  refine (ensures_self _).bind fun first hfirst => (ensures_self _).bind fun text htext =>
    (ensures_self _).bind fun operand hoperand =>
    (shows_behind hnext hc (hereditary.part ht hoperand) _).mono
    fun lines ⟨line, hline, hcore⟩ => ⟨sign :: line, ?_, ?_⟩
  · rw [Tree.whole_printAll hoperand, hline]
    rfl
  · rw [hfirst] at hsign
    obtain rfl : text = [sign] := Except.ok.inj (htext.symm.trans hsign)
    exact hcore

theorem shows_awaited : Ensures (awaited next t a c) (Shows a (Print.awaited (Tree.printAll t.children))) := by
  refine (ensures_self _).bind fun words hwords => (ensures_self _).bind fun operand hoperand =>
    (shows_behind hnext hc (hereditary.part ht hoperand) _).mono
    fun lines ⟨line, hline, hcore⟩ => ⟨Text.join [' '] words ++ ' ' :: line, ?_, ?_⟩
  · have hlength : (Tree.printAll t.children).length = t.children.length := by
      rw [Tree.printAll_eq_map, length_map]
    have hmapM : (Tree.printAll t.children).dropLast.mapM (fun p => p.1.tokenText) = .ok words := by
      rw [← hwords, Tree.printAll_eq_map, ← map_dropLast, mapM_map]
      rfl
    rw [Print.awaited, hmapM, hlength]
    change (Parts.whole (Tree.printAll t.children) (t.children.length - 1) >>= _) = _
    rw [Tree.whole_printAll hoperand, hline]
    rfl
  · simpa using hcore

end

/-! ## Calls, subscripts and chains of dots -/

theorem shows_call (callee : Expr) {arguments : List Tree} (h : ∀ t ∈ arguments, IsExpression t)
    (first last : Option Int) :
    Ensures (call next callee arguments last a c) (Shows a (Expr.call callee arguments first last).line) := by
  refine (ensures_self _).bind fun text htext => ?_
  split
  · rename_i hempty
    refine ensures_ok ⟨text ++ enclosed "(" [] ")", ?_, ?_⟩
    · rw [Expr.line, htext, List.isEmpty_iff.mp hempty]
      rfl
    · simp [hc.core_margin, core_round]
  · refine .skip fun _ => (shows_listed hnext hc h).mono fun lines hlines => ?_
    obtain ⟨list, hlist, hcore⟩ := hlines
    refine ⟨text ++ enclosed "(" list ")", ?_, ?_⟩
    · rw [Expr.line, htext, hlist]
      rfl
    · rw [hcore]
      simp only [core_append, core_leftParen, core_rightParen, core_nil, core_round, append_nil,
        append_assoc]

theorem shows_subscript (hbase : base.IsLink) (hindex : IsExpression index) (first last : Option Int) :
    Ensures (subscript next base index a c) (Shows a (Expr.subscript base index first last).line) := by
  refine (hnext.link hbase hc).bind fun lines ⟨text, htext, hcore⟩ => ?_
  split
  · exact ensures_error
  · exact ensures_error
  · rename_i n final hlast
    refine (hnext.tree hindex hc).bind fun rest ⟨place, hplace, hrest⟩ => ensures_ok ?_
    obtain ⟨bare, hbare, hcorebare⟩ := exists_of_map_core index.map_core_bareLine.symm hplace
    refine ⟨text ++ enclosed "[" bare "]", ?_, ?_⟩
    · rw [Expr.line, htext, hbare]
      rfl
    · have hlines : coreOf lines = coreOf lines.dropLast ++ core final := by
        conv_lhs => rw [← dropLast_append_getLast? _ hlast]
        simp
      have hfront : coreOf lines.dropLast ++ core final = core a.before ++ core text := by
        rw [← hlines, hcore, core_nil, append_nil]
      have hclosing : core (']' :: a.after) = core [']'] ++ core a.after := rfl
      rw [coreOf_append, hrest]
      simp only [core_append, core_trim, hcorebare, core_enclosed, hclosing, ← append_assoc, hfront]
      rfl

omit hnext hc in
theorem line_call_joined (inner : List Expr) (callee : Expr) (arguments : List Tree)
    (n m first last first' last' : Option Int) :
    (Expr.call (.joined (inner ++ [callee]) n m) arguments first last).line =
      joinedLine (inner ++ [Expr.call callee arguments first' last']) := by
  rw [line_call, Expr.line, joinedLine_append, joinedLine_append, joinedLine_singleton,
    joinedLine_singleton, line_call, follow_assoc]

omit hnext hc in
theorem line_subscript_joined (inner : List Expr) (base : Expr) (index : Tree)
    (n m first last first' last' : Option Int) :
    (Expr.subscript (.joined (inner ++ [base]) n m) index first last).line =
      joinedLine (inner ++ [Expr.subscript base index first' last']) := by
  rw [line_subscript, Expr.line, joinedLine_append, joinedLine_append, joinedLine_singleton,
    joinedLine_singleton, line_subscript, follow_assoc]

section

variable {parts : List Expr} (h : ∀ p ∈ parts, p.IsLink) (hodd : parts.length % 2 = 1)

include h hodd

theorem shows_chain_of_links : Ensures (chain next parts a c) (Shows a (joinedLine parts)) :=
  (shows_chain hnext hc h).mono fun lines ⟨text, htext, hcore⟩ => by
    obtain ⟨joined, hjoined, hsame⟩ := exists_joinedLine_of_chainLine hodd htext
    exact ⟨joined, hjoined, hsame ▸ hcore⟩

/-- Breaking a chain inside its last link keeps the links in front on one line. -/
theorem shows_insideLastLink :
    Ensures (insideLastLink next parts a c) (Shows a (joinedLine parts)) := by
  have hchain := shows_chain_of_links (a := a) hnext hc h hodd
  have hjoined {link : Expr} (hlink : link.MadeOf IsExpression) :
      ∀ p ∈ parts.dropLast ++ [link], p.MadeOf IsExpression :=
    forall_mem_append.mpr ⟨fun p hp => (h p ((dropLast_sublist _).subset hp)).made,
      forall_mem_singleton.mpr hlink⟩
  unfold insideLastLink
  split
  · rename_i callee arguments first last hlast
    have hparts := dropLast_append_getLast? _ hlast
    cases (h _ (mem_of_getLast? hlast)).made with
    | call hcallee harguments =>
      refine ensures_first fun n => Ensures.ite hchain (.skip fun m => ?_)
      have hline := line_call_joined parts.dropLast callee arguments n m n last first last
      rw [hparts] at hline
      rw [← hline]
      exact hnext.link ⟨.call (.joined (hjoined hcallee)) harguments, rfl⟩ hc
  · rename_i base index first last hlast
    have hparts := dropLast_append_getLast? _ hlast
    cases (h _ (mem_of_getLast? hlast)).made with
    | subscript hbase hindex =>
      refine ensures_first fun n => .skip fun m => ?_
      have hline := line_subscript_joined parts.dropLast base index n m n last first last
      rw [hparts] at hline
      rw [← hline]
      exact hnext.link ⟨.subscript (.joined (hjoined hbase)) hindex, rfl⟩ hc
  · exact ensures_first fun _ => hchain

theorem shows_dots : Ensures (dots next parts a c) (Shows a (joinedLine parts)) := by
  have hinside := shows_insideLastLink (a := a) hnext hc h hodd
  have hchain := shows_chain_of_links (a := a) hnext hc h hodd
  refine Ensures.ite hinside (ensures_first fun first => .skip fun last => ?_)
  exact Ensures.ite hchain (hinside.bind fun lines hlines => Ensures.ite (ensures_ok hlines) hchain)

end

theorem shows_linked (ht : IsExpression t) : Ensures (linked next t a c) (Shows a t.line) := by
  have hlinks := isLink_links ht
  rw [← hasPairs.joinedLine_links ht]
  unfold linked
  split
  · rename_i base index first last heq
    have hlink := hlinks _ (heq ▸ mem_singleton_self _)
    cases hlink.made with
    | subscript hbase hindex =>
      rw [heq, joinedLine_singleton]
      exact shows_subscript hnext hc ⟨hbase, hlink.tight⟩ hindex first last
  · exact shows_dots hnext hc hlinks (hasPairs.length_links ht)

/-! ## Other expressions -/

theorem shows_pair (ht : IsExpression t) (sign gap : String)
    (hgap : core gap.toList = core sign.toList) :
    Ensures (pair next sign t a c) (Shows a (do
      return (← (Tree.printAll t.children).bare 0) ++ gap.toList ++
        (← (Tree.printAll t.children).bare 1))) := by
  refine (ensures_self _).bind fun key hkey =>
    (hnext.tree (hereditary.unwrap (hereditary.part ht hkey)) hc).bind
    fun lines ⟨text, htext, hlines⟩ => (ensures_self _).bind fun value hvalue =>
    (hnext.tree (hereditary.unwrap (hereditary.part ht hvalue)) hc).bind
    fun more ⟨last, hlast, hmore⟩ => ensures_ok ⟨text ++ gap.toList ++ last, ?_, ?_⟩
  · rw [line_unwrap] at htext hlast
    rw [Tree.bare_printAll hkey, Tree.bare_printAll hvalue, htext, hlast]
    rfl
  · simp [hlines, hmore, hgap]

theorem shows_bracketed (h : ∀ t ∈ ts, IsExpression t) {left right : Char}
    {last : Option Int} {x : Except Fault Text}
    (hx : ∀ texts, Parts.bares (Tree.printAll (ts.filter (!·.isComma))) = .ok texts →
      ∃ text, x = .ok text ∧ core text = core [left] ++ core texts.flatten ++ core [right]) :
    Ensures (listed next ts (a.bracket left right last) c) (Shows a x) := by
  refine (shows_listed hnext hc h).mono fun lines ⟨list, hlist, hcore⟩ => ?_
  obtain ⟨texts, htexts, hsame⟩ := exists_bares (fun t ht => (h t ht).not_isSeparator) hlist
  obtain ⟨text, htext, hcoretext⟩ := hx texts htexts
  have hright : core (right :: a.after) = core [right] ++ core a.after := core_append [right] a.after
  refine ⟨text, htext, ?_⟩
  rw [hcore, hcoretext, hsame, Affixes.bracket]
  simp only [core_append, hright, append_assoc]

theorem shows_tree {body : BodyFormatter} (ht : IsExpression t)
    (hfoldable : isFoldable t) : Ensures (tree next body t a c) (Shows a t.line) := by
  cases ht with
  | token => exact ensures_error
  | @node kind span children hkind hlambda hshaped hshort heach =>
    have ht : IsExpression (.node kind span children) := .node hkind hlambda hshaped hshort heach
    have hparts : ∀ e ∈ children.map Expr.tree, e.IsLink := by
      intro e he
      obtain ⟨u, hu, rfl⟩ := mem_map.mp he
      exact isLink_tree (heach u hu)
    have hchain : Ensures (chain next (children.map .tree) a c)
        (Shows a (Print.chain (Tree.printAll children))) := by
      rw [← chainLine_map_tree]
      exact shows_chain hnext hc hparts
    cases kind
    case assnmntExpr =>
      obtain ⟨target, sign, value, rfl⟩ := length_eq_three.mp hshaped
      exact shows_assignment hnext hc (heach value (by simp))
    case aslessActualNotTest => exact shows_negation hnext hc ht
    case aslessActualNegExpr =>
      obtain ⟨t, rest, rfl, hterminal, hcontent⟩ := hshaped
      refine shows_signed hnext hc ht '-' (congrArg Except.ok ?_)
      rw [hterminal, hcontent]
      rfl
    case aslessActualBitwNot =>
      obtain ⟨t, rest, rfl, hterminal, hcontent⟩ := hshaped
      refine shows_signed hnext hc ht '~' (congrArg Except.ok ?_)
      rw [hterminal, hcontent]
      rfl
    case awaitExpr => exact shows_awaited hnext hc ht
    case standaloneCall =>
      cases children with
      | nil => exact ensures_error
      | cons callee arguments =>
        have harguments : ∀ t ∈ arguments, IsExpression t := fun t ht => heach t (mem_cons_of_mem _ ht)
        exact Ensures.bind (x := .ok callee) (ensures_self _) fun _ hcallee =>
          .skip fun last => Except.ok.inj hcallee ▸
          shows_call hnext hc (.tree callee) harguments none last
    case getattrCall | getattr | subscrExpr => exact shows_linked hnext hc ht
    case parExpr =>
      refine (ensures_self _).bind fun inner hinner => .skip fun last =>
        (hnext.tree (hereditary.unwrap (hereditary.part ht hinner)) hc).mono
        fun lines ⟨text, htext, hcore⟩ => ⟨enclosed "(" text ")", ?_, ?_⟩
      · rw [line_unwrap] at htext
        change (Parts.bare (Tree.printAll children) 0).map _ = _
        rw [show Parts.bare (Tree.printAll children) 0 = _ from Tree.bare_printAll hinner, htext]
        rfl
      · simpa [Affixes.bracket, core_round] using hcore
    case array =>
      refine .skip fun last => shows_bracketed hnext hc heach fun texts htexts =>
        ⟨_, elements_eq htexts "[" "]", ?_⟩
      have hcomma : core (if Tree.endsWithComma children then [','] else []) = [] := by split <;> rfl
      rw [core_enclosed, core_append, core_join (by decide), hcomma, append_nil]
      rfl
    case dict =>
      refine .skip fun last => shows_bracketed hnext hc heach fun texts htexts => ?_
      obtain ⟨wholes, hwholes, hsame⟩ := exists_wholes (fun t ht => (heach t ht).not_isSeparator) htexts
      refine ⟨enclosed "\x7b" (Text.join comma wholes) "\x7d", ?_, ?_⟩
      · change (Parts.wholes (Tree.printAll children) >>= _) = _
        rw [hwholes]
        rfl
      · rw [core_enclosed, core_join (by decide), hsame]
        rfl
    case string =>
      rw [isFoldable, hshort] at hfoldable
      cases hfoldable
    case cDictElement => exact shows_pair hnext hc ht ":" ": " (by decide)
    case eqDictElement => exact shows_pair hnext hc ht " =" " = " (by decide)
    case lambda => exact absurd rfl hlambda
    -- What is left are chains of operators, and nodes that are folded nowhere.
    all_goals first | exact hchain | exact ensures_error | cases hkind

omit hc in
theorem isFaithful_step (body : BodyFormatter) : (step next body).IsFaithful (·.isFoldable) := by
  intro e a c hfoldable he hc ha
  cases he with
  | listed h => exact shows_listLines hnext hc h
  | items h => exact shows_items hnext hc h (ha rfl)
  | operations h => exact shows_operations hnext hc h (ha rfl)
  | link h =>
    obtain ⟨hmade, htight⟩ := h
    cases hmade with
    | tree ht => exact shows_tree hnext hc ht hfoldable
    | call hcallee h => exact shows_call hnext hc _ h _ _
    | subscript hbase hindex => exact shows_subscript hnext hc ⟨hbase, htight⟩ hindex _ _
    | joined => cases hfoldable
    | listed | items | operations => cases htight

end

theorem isFaithful_upTo (body : BodyFormatter) (depth : Nat) :
    (upTo body depth).IsFaithful (·.isFoldable) := by
  induction depth with
  | zero => exact fun _ _ _ _ => ensures_error
  | succ depth ih => exact isFaithful_step (isFaithful_oneLineOr ih) body

end Fold

end GDWorkbench.Format
