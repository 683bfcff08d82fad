import GDWorkbench.Proofs.Format.File
import GDWorkbench.Proofs.Format.Groupings
import GDWorkbench.Proofs.Parse.Tokens
import GDWorkbench.Proofs.Print.Characters
import Mathlib.Data.List.Induction

/-!
Characters in formatted code. The layout passes on the texts of tokens and comments, and writes brackets,
keywords and blanks of its own. Any other character, such as a carriage return, is in a line of the result
only if it is in the source.
-/

namespace GDWorkbench.Format

open List Context Text GDWorkbench.Tree Affixes

variable {x : Foreign} {t : Tree} {ts : List Tree} {ps : List Expr}

/-! ## Texts of the layout -/

abbrev Expr.Tidy (x : Foreign) : Expr → Prop :=
  Expr.MadeOf (Tree.Tidy x)

structure Affixes.Tidy (x : Foreign) (a : Affixes) : Prop where
  before : Text.Tidy x a.before
  after : Text.Tidy x a.after

theorem Affixes.tidy_mk {before after : Text} {n m : Option Int} (hbefore : Text.Tidy x before)
    (hafter : Text.Tidy x after) : Affixes.Tidy x ⟨before, n, after, m⟩ :=
  ⟨hbefore, hafter⟩

def LinesTidy (x : Foreign) (lines : List Line) : Prop :=
  ∀ line ∈ lines, Text.Tidy x line.text

def CommentsTidy (x : Foreign) (comments : List (Option Text)) : Prop :=
  ∀ comment, some comment ∈ comments → Text.Tidy x comment

structure Settings.Tidy (x : Foreign) (s : Settings) : Prop where
  unitText : Text.Tidy x s.unitText
  standalone : CommentsTidy x s.standalone
  inline : CommentsTidy x s.inline

/-! A formatter keeps texts tidy if what is laid out without the character gives lines without. -/

def Formatter.Keeps (x : Foreign) (next : Formatter) : Prop :=
  ∀ {e a c}, Expr.Tidy x e → Affixes.Tidy x a → Settings.Tidy x c.settings →
    Ensures (next e a c) (LinesTidy x)

def BodyFormatter.Keeps (x : Foreign) (body : BodyFormatter) : Prop :=
  ∀ {ts c}, (∀ t ∈ ts, Tree.Tidy x t) → Settings.Tidy x c.settings →
    Ensures (body ts c) (LinesTidy x)

def OutcomeTidy (x : Foreign) (outcome : Outcome) : Prop :=
  Ensures outcome fun result => LinesTidy x result.1

def StatementFormatter.Keeps (x : Foreign) (format : StatementFormatter) : Prop :=
  ∀ {t c}, Tree.Tidy x t → Settings.Tidy x c.settings → OutcomeTidy x (format t c)

def BlockFormatter.Keeps (x : Foreign) (block : BlockFormatter) : Prop :=
  ∀ {ts c}, (∀ t ∈ ts, Tree.Tidy x t) → Settings.Tidy x c.settings → OutcomeTidy x (block ts c)

@[simp]
theorem linesTidy_nil : LinesTidy x [] :=
  forall_mem_nil _

@[simp]
theorem linesTidy_cons {line : Line} {lines : List Line} :
    LinesTidy x (line :: lines) ↔ Text.Tidy x line.text ∧ LinesTidy x lines :=
  forall_mem_cons

@[simp]
theorem linesTidy_append {lines more : List Line} :
    LinesTidy x (lines ++ more) ↔ LinesTidy x lines ∧ LinesTidy x more :=
  forall_mem_append

theorem LinesTidy.sublist {lines part : List Line} (h : LinesTidy x lines)
    (hpart : part.Sublist lines) : LinesTidy x part :=
  fun line hline => h line (hpart.subset hline)

theorem Context.tidy_margin {c : Context} (hc : c.settings.Tidy x) : Text.Tidy x c.margin :=
  tidy_flatten fun _ ht => eq_of_mem_replicate ht ▸ hc.unitText

theorem hereditary_tidy : Hereditary (Tree.Tidy x) :=
  fun _ ht _ hc => ht.child hc

theorem tidy_unwrap (h : t.Tidy x) : (unwrap t).Tidy x :=
  hereditary_tidy.unwrap h

theorem tidy_links (h : t.Tidy x) : ∀ e ∈ links t, e.Tidy x :=
  hereditary_tidy.links h

/-! ## Expressions on one line -/

namespace Expr

theorem tidy_arguments (h : ∀ t ∈ ts, t.Tidy x) :
    Ensures (Print.arguments (printAll ts)) (Text.Tidy x) :=
  Print.tidy_arguments (tidy_printAll ts h)

theorem tidy_operationsLine (h : ∀ p ∈ ps, Ensures p.line (Text.Tidy x)) :
    Ensures (operationsLine ps) (Text.Tidy x) := by
  induction ps using twoStepInduction with
  | nil => exact ensures_ok tidy_nil
  | singleton p => exact ensures_ok tidy_nil
  | cons_cons sign operand rest ih _ =>
    obtain ⟨hsign, h⟩ := forall_mem_cons.mp h
    obtain ⟨hoperand, hrest⟩ := forall_mem_cons.mp h
    refine hsign.bind fun sign hsign => hoperand.bind fun text htext =>
      (ih hrest).bind fun later hlater => ensures_ok ?_
    split <;> simp [hsign, htext, hlater]

theorem tidy_chainLine (h : ∀ p ∈ ps, Ensures p.line (Text.Tidy x)) :
    Ensures (chainLine ps) (Text.Tidy x) := by
  cases ps with
  | nil => exact ensures_error
  | cons p ps =>
    obtain ⟨hp, hps⟩ := forall_mem_cons.mp h
    refine (tidy_operationsLine hps).bind fun later hlater => hp.bind fun text htext =>
      ensures_ok ?_
    exact tidy_append.mpr ⟨htext, hlater⟩

theorem tidy_joinedLine (h : ∀ p ∈ ps, Ensures p.line (Text.Tidy x)) :
    Ensures (joinedLine ps) (Text.Tidy x) := by
  induction ps with
  | nil => exact ensures_ok tidy_nil
  | cons p ps ih =>
    obtain ⟨hp, hps⟩ := forall_mem_cons.mp h
    refine hp.bind fun text htext => (ih hps).bind fun later hlater => ensures_ok ?_
    exact tidy_append.mpr ⟨htext, hlater⟩

theorem Tidy.line {e : Expr} (h : e.Tidy x) : Ensures e.line (Text.Tidy x) := by
  induction h with
  | tree h => exact tidy_line h
  | listed h => exact tidy_arguments h
  | items h => exact tidy_arguments h
  | operations h ih => exact tidy_chainLine ih
  | joined h ih => exact tidy_joinedLine ih
  | call hcallee h ih =>
    refine ih.bind fun callee hcallee => (tidy_arguments h).bind fun text htext => ensures_ok ?_
    simp [hcallee, htext]
  | subscript hbase hindex ih =>
    refine ih.bind fun base hbase => (tidy_bareLine hindex).bind fun text htext =>
      ensures_ok ?_
    simp [hbase, htext]

end Expr

/-! ## Folding -/

namespace Fold

section

variable {parts : List Expr}

variable {next : Formatter} (hnext : Formatter.Keeps x next) {a : Affixes} {c : Context}
  (ha : a.Tidy x) (hc : c.settings.Tidy x)

include ha hc

theorem tidy_singleLine {e : Expr} (he : e.Tidy x) : Ensures (singleLine e a c) (LinesTidy x) := by
  refine (he.line).bind fun text htext => ensures_ok ?_
  simp [tidy_margin hc, ha.before, htext, ha.after]

omit ha hc in
theorem keeps_oneLineOr {fold : Formatter} (hfold : Formatter.Keeps x fold) :
    Formatter.Keeps x (oneLineOr fold) := by
  intro e a c he ha hc
  have hone := tidy_singleLine ha hc he
  refine Ensures.ite hone (Ensures.ite (hfold he ha hc) ?_)
  exact hone.bind fun lines hlines => Ensures.ite (ensures_ok hlines) (hfold he ha hc)

include hnext

/-! ### Lists -/

theorem tidy_listed {items : List Tree} (h : ∀ t ∈ items, t.Tidy x) :
    Ensures (listed next items a c) (LinesTidy x) :=
  hnext (.listed h) ha hc

theorem tidy_listLines {items : List Tree} (h : ∀ t ∈ items, t.Tidy x) :
    Ensures (listLines next items a c) (LinesTidy x) := by
  have hmargin := tidy_margin hc
  have hchild : (c.child a.beforeLine).settings.Tidy x := hc
  refine Ensures.ite (ensures_ok ?_) ((hnext (.items h)
    (tidy_mk tidy_nil tidy_nil) hchild).bind fun inner hinner => ensures_ok ?_)
  · simp [hmargin, ha.before, ha.after]
  · simp [hmargin, ha.before, ha.after, hinner]

omit ha in
theorem tidy_itemLines (commaAtEnd : Bool) {items : List Tree} (h : ∀ t ∈ items, t.Tidy x) :
    Ensures (itemLines next c commaAtEnd items) (LinesTidy x) := by
  induction items with
  | nil => exact ensures_ok linesTidy_nil
  | cons item rest ih =>
    obtain ⟨hitem, hrest⟩ := forall_mem_cons.mp h
    have hsuffix : Text.Tidy x (if rest.isEmpty && !commaAtEnd then [] else [',']) := by
      split <;> simp
    refine .skip fun first => .skip fun last =>
      (hnext (.tree (tidy_unwrap hitem)) (tidy_mk tidy_nil hsuffix) hc).bind
      fun lines hlines => (ih hrest).bind fun more hmore => ensures_ok ?_
    exact linesTidy_append.mpr ⟨hlines, hmore⟩

omit ha in
theorem tidy_items (h : ∀ t ∈ ts, t.Tidy x) : Ensures (items next ts c) (LinesTidy x) :=
  tidy_itemLines hnext hc _ fun t ht => h t (mem_filter.mp ht).1

/-! ### Operators -/

omit ha in
theorem tidy_operationLines (h : ∀ p ∈ ps, p.Tidy x) :
    Ensures (operationLines next c ps) (LinesTidy x) := by
  induction ps using twoStepInduction with
  | nil => exact ensures_ok linesTidy_nil
  | singleton p => exact ensures_ok linesTidy_nil
  | cons_cons sign operand rest ih _ =>
    obtain ⟨hsign, h⟩ := forall_mem_cons.mp h
    obtain ⟨hoperand, hrest⟩ := forall_mem_cons.mp h
    refine (hsign.line).bind fun text htext => .skip fun first => .skip fun last => ?_
    have hbefore : Text.Tidy x (text ++ [' ']) := by simp [htext]
    refine (hnext hoperand (tidy_mk hbefore tidy_nil) hc).bind fun lines hlines =>
      (ih hrest).bind fun more hmore => ensures_ok ?_
    exact linesTidy_append.mpr ⟨hlines, hmore⟩

omit ha in
theorem tidy_operations (h : ∀ p ∈ ps, p.Tidy x) : Ensures (operations next c ps) (LinesTidy x) := by
  cases ps with
  | nil => exact ensures_error
  | cons operand rest =>
    obtain ⟨hoperand, hrest⟩ := forall_mem_cons.mp h
    refine .skip fun first => .skip fun last =>
      (hnext hoperand (tidy_mk tidy_nil tidy_nil) hc).bind fun lines hlines =>
      (tidy_operationLines hnext hc hrest).bind fun more hmore => ensures_ok ?_
    exact linesTidy_append.mpr ⟨hlines, hmore⟩

theorem tidy_chain (h : ∀ p ∈ parts, p.Tidy x) : Ensures (chain next parts a c) (LinesTidy x) := by
  have hmargin := tidy_margin hc
  have hchild : (c.child a.beforeLine).settings.Tidy x := hc
  refine (hnext (.operations h) (tidy_mk tidy_nil tidy_nil) hchild).bind
    fun inner hinner => .skip fun last => ensures_ok ?_
  split <;> simp [hmargin, ha.before, ha.after, hinner]

theorem tidy_behind {text : Text} (htext : Text.Tidy x text) (ht : t.Tidy x) :
    Ensures (behind next text t a c) (LinesTidy x) :=
  hnext (.tree ht) ⟨tidy_append.mpr ⟨ha.before, htext⟩, ha.after⟩ hc

theorem tidy_assignment (ht : t.Tidy x) : Ensures (assignment next t a c) (LinesTidy x) := by
  refine (ht.part 0).bind fun left hleft => (tidy_line hleft).bind fun target htarget =>
    (ht.part 1).bind fun middle hmiddle => (tidy_line hmiddle).bind fun sign hsign =>
    (ht.part 2).bind fun right hright => tidy_behind hnext ha hc ?_ hright
  simp [htarget, hsign]

theorem tidy_negation (ht : t.Tidy x) : Ensures (negation next t a c) (LinesTidy x) := by
  refine (ht.part 0).bind fun sign hsign => .skip fun word =>
    (tidy_line hsign).bind fun text htext => (ht.part 1).bind fun operand hoperand =>
    tidy_behind hnext ha hc ?_ hoperand
  split <;> simp [htext]

theorem tidy_signed (ht : t.Tidy x) : Ensures (signed next t a c) (LinesTidy x) :=
  (ht.part 0).bind fun _ hsign => (tidy_line hsign).bind fun _ htext =>
    (ht.part 1).bind fun _ hoperand => tidy_behind hnext ha hc htext hoperand

theorem tidy_awaited (ht : t.Tidy x) : Ensures (awaited next t a c) (LinesTidy x) := by
  have hwords : ∀ u ∈ t.children.dropLast, Ensures u.tokenText (Text.Tidy x) :=
    fun u hu => (ht.child ((dropLast_sublist _).subset hu)).tokenText
  refine (Ensures.mapM hwords).bind fun words hwords => (ht.part _).bind fun operand hoperand =>
    tidy_behind hnext ha hc ?_ hoperand
  have hjoined : Text.Tidy x (join [' '] words) := tidy_join (by simp) hwords
  simp [hjoined]

/-! ### Calls, subscripts and chains of dots -/

theorem tidy_call {callee : Expr} (hcallee : callee.Tidy x) {arguments : List Tree}
    (h : ∀ t ∈ arguments, t.Tidy x) (last : Option Int) :
    Ensures (call next callee arguments last a c) (LinesTidy x) := by
  have hmargin := tidy_margin hc
  refine (hcallee.line).bind fun text htext => Ensures.ite (ensures_ok ?_)
    (.skip fun first => tidy_listed hnext ⟨?_, ?_⟩ hc h)
  all_goals simp [hmargin, ha.before, ha.after, htext]

theorem tidy_subscript {base : Expr} (hbase : base.Tidy x) {index : Tree} (hindex : index.Tidy x) :
    Ensures (subscript next base index a c) (LinesTidy x) := by
  refine (hnext hbase (tidy_mk ha.before tidy_nil) hc).bind fun lines hlines => ?_
  split
  · exact ensures_error
  · exact ensures_error
  · rename_i n text hlast
    have htext : Text.Tidy x (trim text) :=
      (hlines _ (mem_of_getLast? hlast)).sublist (trim_sublist text)
    refine (hnext (.tree hindex) ⟨?_, ?_⟩ hc).bind fun rest hrest => ensures_ok ?_
    · simp [htext]
    · simp [ha.after]
    · exact linesTidy_append.mpr ⟨hlines.sublist (dropLast_sublist _), hrest⟩

theorem tidy_insideLastLink (h : ∀ p ∈ parts, p.Tidy x) :
    Ensures (insideLastLink next parts a c) (LinesTidy x) := by
  have hchain := tidy_chain hnext ha hc h
  have hjoined {link : Expr} (hlink : link.Tidy x) : ∀ p ∈ parts.dropLast ++ [link], p.Tidy x :=
    forall_mem_append.mpr ⟨fun p hp => h p ((dropLast_sublist _).subset hp),
      forall_mem_singleton.mpr hlink⟩
  unfold insideLastLink
  split
  · rename_i hlast
    cases h _ (mem_of_getLast? hlast) with
    | call hcallee harguments =>
      refine ensures_first fun n => Ensures.ite hchain (.skip fun _ => ?_)
      exact hnext (.call (.joined (hjoined hcallee)) harguments) ha hc
  · rename_i hlast
    cases h _ (mem_of_getLast? hlast) with
    | subscript hbase hindex =>
      refine ensures_first fun n => .skip fun _ => ?_
      exact hnext (.subscript (.joined (hjoined hbase)) hindex) ha hc
  · exact ensures_first fun _ => hchain

theorem tidy_dots (h : ∀ p ∈ parts, p.Tidy x) : Ensures (dots next parts a c) (LinesTidy x) := by
  have hinside := tidy_insideLastLink hnext ha hc h
  have hchain := tidy_chain hnext ha hc h
  refine Ensures.ite hinside (ensures_first fun first => .skip fun last => ?_)
  exact Ensures.ite hchain (hinside.bind fun lines hlines => Ensures.ite (ensures_ok hlines) hchain)

theorem tidy_linked (ht : t.Tidy x) : Ensures (linked next t a c) (LinesTidy x) := by
  have hlinks := tidy_links ht
  unfold linked
  split
  · rename_i heq
    cases hlinks _ (heq ▸ mem_singleton_self _) with
    | subscript hbase hindex => exact tidy_subscript hnext ha hc hbase hindex
  · exact tidy_dots hnext ha hc hlinks

/-! ### Other expressions -/

theorem tidy_pair {sign : String} (hsign : Text.Tidy x sign.toList)
    (ht : t.Tidy x) : Ensures (pair next sign t a c) (LinesTidy x) := by
  refine (ht.part 0).bind fun key hkey => (hnext (.tree (tidy_unwrap hkey))
    (tidy_mk ha.before (hsign)) hc).bind fun lines hlines =>
    (ht.part 1).bind fun value hvalue => (hnext (.tree (tidy_unwrap hvalue))
    (tidy_mk tidy_nil ha.after) hc).bind fun more hmore => ensures_ok ?_
  exact linesTidy_append.mpr ⟨hlines, hmore⟩

omit hnext in
theorem tidy_longText (ht : t.Tidy x) : Ensures (longText t a c) (LinesTidy x) := by
  have hmargin := tidy_margin hc
  refine (ht.part 0).bind fun string hstring => hstring.tokenText.bind fun text htext =>
    .skip fun n => ?_
  have hlines : ∀ line ∈ Text.lines text, Text.Tidy x line :=
    fun line hline => htext.sublist (sublist_of_mem_lines hline)
  split
  · exact ensures_error
  · rename_i first rest heq
    rw [heq] at hlines
    obtain ⟨hfirst, hrest⟩ := forall_mem_cons.mp hlines
    have hmiddle : LinesTidy x (rest.dropLast.map (Line.mk n)) := by
      intro line hline
      obtain ⟨text, htext, rfl⟩ := mem_map.mp hline
      exact hrest text ((dropLast_sublist rest).subset htext)
    have hlast : Text.Tidy x (rest.getLast?.getD first) := by
      cases hlast : rest.getLast? with
      | none => exact hfirst
      | some last => exact hrest last (mem_of_getLast? hlast)
    refine ensures_ok ?_
    simp [-map_dropLast, hmargin, ha.before, hfirst, hmiddle, hlast, ha.after]

theorem tidy_defaultValue {before : Text} (hbefore : Text.Tidy x before)
    (ht : t.Tidy x) : Ensures (defaultValue next before t a c) (LinesTidy x) :=
  (ht.part _).bind fun _ hlast => (hlast.part 0).bind fun _ hvalue =>
    hnext (.tree (tidy_unwrap hvalue)) (tidy_mk hbefore ha.after) hc

theorem tidy_argument (kind : Kind) (ht : t.Tidy x) : Ensures (argument next kind t a c) (LinesTidy x) := by
  refine (ht.part 0).bind fun name hname => ?_
  split
  · exact hnext (.tree hname) ha hc
  · refine hname.tokenText.bind fun text htext => tidy_defaultValue hnext ha hc ?_ ht
    simp [htext]
  · refine hname.tokenText.bind fun text htext => tidy_defaultValue hnext ha hc ?_ ht
    simp [htext]
  · refine hname.tokenText.bind fun text htext => (ht.part 1).bind fun type htype =>
      tidy_behind hnext ha hc ?_ htype
    simp [htext]
  · refine (ht.part 1).bind fun u hu => hu.tokenText.bind fun type htype =>
      hname.tokenText.bind fun text htext => tidy_defaultValue hnext ha hc ?_ ht
    simp [htext, htype]

omit ha in
theorem tidy_annotationLines (ht : t.Tidy x) : Ensures (annotationLines next t c) (LinesTidy x) := by
  refine (ht.part 0).bind fun u hu => hu.tokenText.bind fun name hname => .skip fun n => ?_
  have htext : Text.Tidy x ('@' :: name) := by simp [hname]
  refine Ensures.ite (ensures_ok ?_) ((ht.part _).bind fun last hlast =>
    hnext (.tree hlast) (tidy_mk htext tidy_nil) hc)
  exact linesTidy_cons.mpr ⟨tidy_append.mpr ⟨tidy_margin hc, htext⟩, linesTidy_nil⟩

theorem tidy_lambdaHeader (ht : t.Tidy x) : Ensures (lambdaHeader next t a c) (LinesTidy x) := by
  refine (ht.part 0).bind fun first hfirst => ?_
  have hbefore : Text.Tidy x (a.before ++ "func".toList ++
      (if !first.isNode then ' ' :: first.tokenText.toOption.getD [] else [])) := by
    refine tidy_append.mpr ⟨by simp [ha.before], ?_⟩
    split
    · exact tidy_cons.mpr ⟨by simp, hfirst.tidy_getD_tokenText⟩
    · exact tidy_nil
  refine Ensures.ite ((ht.part _).bind fun u hu => hu.tokenText.bind fun hint hhint =>
    (ht.part _).bind fun list hlist => hnext (.tree hlist) (tidy_mk hbefore ?_) hc)
    ((ht.part _).bind fun list hlist => hnext (.tree hlist) (tidy_mk hbefore ?_) hc)
  · simp [hhint, ha.after]
  · simp [ha.after]

variable {body : BodyFormatter} (hbody : BodyFormatter.Keeps x body)

include hbody

theorem tidy_lambda (ht : t.Tidy x) : Ensures (lambda next body t a c) (LinesTidy x) := by
  have hchild : (c.child a.beforeLine).settings.Tidy x := hc
  have hstatements : ∀ u ∈ t.children.tail, u.Tidy x := fun u hu => ht.child (mem_of_mem_tail hu)
  refine (ht.part 0).bind fun first hfirst => (hnext (.tree hfirst)
    (tidy_mk ha.before tidy_nil) hc).bind fun header hheader =>
    (hbody hstatements hchild).bind fun block hblock => ?_
  split
  · rename_i last hlast
    have hend : Text.Tidy x last.text := hblock last (mem_of_getLast? hlast)
    refine ensures_ok ?_
    simp [hheader, hblock.sublist (dropLast_sublist _), hend, ha.after]
  · exact ensures_error

theorem tidy_tree (ht : t.Tidy x) : Ensures (tree next body t a c) (LinesTidy x) := by
  cases t with
  | token token => exact ensures_error
  | node kind span children =>
    have hchildren : ∀ u ∈ children, u.Tidy x := fun u hu => ht.child hu
    have hparts : ∀ e ∈ children.map Expr.tree, e.Tidy x := by
      intro e he
      obtain ⟨u, hu, rfl⟩ := mem_map.mp he
      exact .tree (hchildren u hu)
    have hbracket {left right : Char} (hleft : x.char ≠ left) (hright : x.char ≠ right)
        (n : Option Int) : (a.bracket left right n).Tidy x :=
      tidy_mk (by simp [ha.before, hleft]) (by simp [ha.after, hright])
    cases kind
    case assnmntExpr => exact tidy_assignment hnext ha hc ht
    case aslessActualNotTest => exact tidy_negation hnext ha hc ht
    case aslessActualNegExpr | aslessActualBitwNot => exact tidy_signed hnext ha hc ht
    case awaitExpr => exact tidy_awaited hnext ha hc ht
    case standaloneCall | callPattern =>
      have harguments : ∀ u ∈ children.tail, u.Tidy x := fun u hu => hchildren u (mem_of_mem_tail hu)
      exact (ht.part 0).bind fun callee hcallee => .skip fun last =>
        tidy_call hnext ha hc (.tree hcallee) harguments last
    case getattrCall | getattr | subscrExpr => exact tidy_linked hnext ha hc ht
    case parExpr | parPattern =>
      exact (ht.part 0).bind fun inner hinner => .skip fun last =>
        hnext (.tree (tidy_unwrap hinner)) (hbracket (by simp) (by simp) last) hc
    case array | arrayPattern | dict | enumBody | dictPattern | funcArgs | signalArgs
        | annotationArgs =>
      exact .skip fun last => tidy_listed hnext (hbracket (by simp) (by simp) last) hc hchildren
    case string => exact tidy_longText ha hc ht
    case cDictElement | kvPairPattern | eqDictElement =>
      exact tidy_pair hnext ha hc (by simp) ht
    case lambda => exact tidy_lambda hnext ha hc hbody ht
    case lambdaHeader => exact tidy_lambdaHeader hnext ha hc ht
    case funcArgVariadic =>
      exact (ht.part 0).bind fun inner hinner => tidy_behind hnext ha hc (by simp) hinner
    case funcArgRegular => exact tidy_argument hnext ha hc .funcArgRegular ht
    case funcArgInf => exact tidy_argument hnext ha hc .funcArgInf ht
    case funcArgTyped => exact tidy_argument hnext ha hc .funcArgTyped ht
    case annot => exact tidy_annotationLines hnext hc ht
    case listPattern | notPattern | negPattern | bitwNotPattern =>
      exact tidy_singleLine ha hc (.tree ht)
    -- What is left are chains of operators, and nodes that are folded nowhere.
    all_goals first | exact tidy_chain hnext ha hc hparts | exact ensures_error

omit ha hc in
theorem keeps_step : Formatter.Keeps x (step next body) := by
  intro e a c he ha hc
  cases he with
  | tree ht => exact tidy_tree hnext ha hc hbody ht
  | listed h => exact tidy_listLines hnext ha hc h
  | items h => exact tidy_items hnext hc h
  | operations h => exact tidy_operations hnext hc h
  | joined h => exact ensures_error
  | call hcallee h => exact tidy_call hnext ha hc hcallee h _
  | subscript hbase hindex => exact tidy_subscript hnext ha hc hbase hindex

omit hnext ha hc in
theorem keeps_upTo (depth : Nat) : Formatter.Keeps x (upTo body depth) := by
  induction depth with
  | zero => exact fun _ _ _ => ensures_error
  | succ depth ih => exact keeps_step (keeps_oneLineOr ih) hbody

end

end Fold

section

variable {body : BodyFormatter} (hbody : BodyFormatter.Keeps x body) {a : Affixes} {c : Context}
  (ha : a.Tidy x) (hc : c.settings.Tidy x)

include hbody ha hc

theorem tidy_concrete (ht : t.Tidy x) : Ensures (concrete body t a c) (LinesTidy x) :=
  Fold.keeps_oneLineOr (Fold.keeps_upTo hbody _) (.tree ht) ha hc

theorem tidy_expression (ht : t.Tidy x) : Ensures (expression body t a c) (LinesTidy x) :=
  (ht.part 0).bind fun _ hu => tidy_concrete hbody ha hc (tidy_unwrap hu)

end

end GDWorkbench.Format
