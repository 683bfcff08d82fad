import GDWorkbench.Proofs.Grammar.Closure
import GDWorkbench.Proofs.Parse.Parts
import GDWorkbench.Proofs.Skeleton.Lines
import GDWorkbench.Proofs.StringLiteral.Tokens

/-!
The blocks of a skeleton. What a statement becomes is made of what its parts become: nothing, a line, the
same items, a block or a chain of branches. The items of a tree are a sound row, because branches of an
`if` come in their order and branches of a `match` behind the first one that is made up for them. A block
of the skeleton is empty exactly if the statement that opens it holds nothing but annotations.
-/

namespace GDWorkbench

open List GDWorkbench.Tree

namespace Skeleton

variable {k : Kind} {span : Option Span}

variable {t : Tree} {name : Text} {ready : Bool} {children : List Tree} {items : List Item}

/-! ## Parts of statements -/

/-- How many children come before the statements that are converted inside a node. -/
def bodyStart? : Kind → Option Nat
  | .start | .classVarStmt | .staticClassVarStmt | .staticFuncDef | .funcVarStmt | .exprStmt
  | .ifStmt | .elseBranch => some 0
  | .classDef | .funcDef | .ifBranch | .elifBranch | .matchBranch | .guardedMatchBranch | .whileStmt
  | .matchStmt => some 1
  | .forStmt => some 2
  | .forStmtTyped => some 3
  | _ => none

def parts : Tree → List Tree
  | .node k _ children =>
    match bodyStart? k with
    | some n => children.drop n
    | none => []
  | .token _ => []

theorem mem_children_of_mem_parts {c : Tree}
    (h : c ∈ parts (.node k span children)) : c ∈ children := by
  rw [parts] at h
  split at h
  · exact mem_of_mem_drop h
  · cases h

/-- A statement is converted with another one: it is that statement, or converted with a part. -/
inductive Converts (s : Tree) : Tree → Prop
  | refl : Converts s s
  | part {c t : Tree} (mem : c ∈ parts t) (converts : Converts s c) : Converts s t

def hasBlock : Kind → Bool
  | .classDef | .funcDef | .ifBranch | .elifBranch | .elseBranch | .matchBranch | .guardedMatchBranch
  | .whileStmt | .forStmt | .forStmtTyped => true
  | _ => false

/-- The line that opens a block for a node of some kind and name. Behind a `match` this is a block that
holds nothing, so that all of its branches can continue it. -/
def heading? (name : Text) : Kind → Option Header
  | .classDef => some (.className name)
  | .funcDef | .abstractFuncDef => some (.function name)
  | .ifBranch | .matchStmt => some .ifOne
  | .elifBranch | .matchBranch | .guardedMatchBranch => some .elifOne
  | .elseBranch => some .elseOnly
  | .whileStmt => some .whileOne
  | .forStmt | .forStmtTyped => some (.forIn name)
  | _ => none

def firstWord (t : Tree) : Text :=
  (t.tokens.head?.map (·.content)).getD []

/-- The statement becomes a block, and all that is in it are annotations. -/
def isHollow (t : Tree) : Bool :=
  t.kind?.any hasBlock && (parts t).all (·.isKind .annot)

def continuesBranch : Kind → Bool
  | .elifBranch | .elseBranch | .matchBranch | .guardedMatchBranch => true
  | _ => false

/-- Other branches may come behind it. A pattern is a branch without statements. -/
def isContinued : Kind → Bool
  | .ifBranch | .elifBranch | .matchBranch | .guardedMatchBranch | .pattern => true
  | _ => false

def isPlainKind (k : Kind) : Bool :=
  k != .annot && !hasBlock k && !continuesBranch k && !isContinued k

def inOrder (ready : Bool) : List Tree → Bool
  | [] => true
  | t :: ts => (!t.kind?.any continuesBranch || ready) && inOrder (t.kind?.any isContinued) ts

theorem statements_eq_drop (n : Nat) (ts : List Tree) :
    statements n ts = statements 0 (ts.drop n) := by
  induction ts generalizing n with
  | nil => cases n <;> rfl
  | cons t ts ih =>
    cases n with
    | zero => rfl
    | succ n => exact ih n

theorem exists_of_statements_cons {ts : List Tree}
    (h : statements 0 (t :: ts) = .ok items) :
    ∃ first rest, statement t = .ok first ∧ statements 0 ts = .ok rest ∧ items = first ++ rest := by
  rw [statements] at h
  obtain ⟨first, hfirst, h⟩ := exists_of_bind_eq_ok h
  obtain ⟨rest, hrest, h⟩ := exists_of_bind_eq_ok h
  exact ⟨first, rest, hfirst, hrest, (Except.ok.inj h).symm⟩

theorem statements_singleton (h : statement t = .ok items) : statements 0 [t] = .ok items := by
  rw [statements, h]
  exact congrArg Except.ok (append_nil items)

/-! ## Names -/

theorem isName_of_isScanned {t : Token} (hscanned : t.IsScanned) (hname : t.terminal = .identifier) :
    IsName t.content := by
  obtain ⟨lexicon, rest, hread⟩ := hscanned
  have hreader := lexicon.reader_of_spelling hread (by rw [hname]; rfl)
  rw [hname] at hreader
  obtain ⟨first, left, more, hfirst, hmore, hcontent⟩ := Reader.seq_cases hreader
  obtain ⟨c, rfl, hc, -⟩ := Reader.char_cases hfirst
  cases hmore
  rw [hcontent]
  refine ⟨cons_ne_nil _ _, forall_mem_cons.mpr ⟨?_, fun d hd => ?_⟩⟩
  · refine Bool.eq_false_iff.mpr fun hblank => ?_
    rw [(Text.not_isIdentifier_of_isBlank hblank).1] at hc
    cases hc
  · refine Bool.eq_false_iff.mpr fun hblank => ?_
    have hd := all_eq_true.mp all_takeWhile d hd
    rw [(Text.not_isIdentifier_of_isBlank hblank).2] at hd
    cases hd

theorem isName_of_isNamed (hnamed : t.IsNamed) (hscanned : ∀ u ∈ t.tokens, u.IsScanned)
    (h : t.word 0 = .ok name) : IsName name := by
  obtain ⟨k, span, token, rest, rfl, hterminal⟩ := hnamed
  obtain rfl : token.content = name := Except.ok.inj h
  exact isName_of_isScanned (hscanned token mem_cons_self) hterminal

section Named

variable {k : Kind} {span : Option Span} {children : List Tree}
  (hregular : (Tree.node k span children).IsRegular)
  (hscanned : ∀ u ∈ (Tree.node k span children).tokens, u.IsScanned)

include hregular hscanned

theorem isName_of_word (hk : k.isNamed)
    (h : (Tree.node k span children).word 0 = .ok name) : IsName name :=
  isName_of_isNamed (hregular.isNamed hk) hscanned h

theorem isName_of_innerName (hk : k.holdsName)
    (h : innerName (.node k span children) = .ok name) : IsName name := by
  obtain ⟨inner, rest, rfl, hnamed⟩ := hregular.exists_isNamed hk
  exact isName_of_isNamed hnamed (fun u hu => hscanned u (mem_append_left _ hu)) h

omit hscanned

theorem firstWord_of_word (hk : k.isNamed)
    (h : (Tree.node k span children).word 0 = .ok name) :
    firstWord (.node k span children) = name := by
  obtain ⟨_, _, token, rest, ⟨⟩, -⟩ := hregular.isNamed hk
  exact Except.ok.inj h

theorem firstWord_of_innerName (hk : k.holdsName)
    (h : innerName (.node k span children) = .ok name) : firstWord (.node k span children) = name := by
  obtain ⟨inner, rest, rfl, _, _, token, more, rfl, -⟩ := hregular.exists_isNamed hk
  exact Except.ok.inj h

end Named

/-! ## Items of statements -/

/-- How the items of a statement come from the items of its parts. -/
inductive Builds (k : Kind) (name : Text) (inner : List Tree) : List Item → List Item → Prop
  | nothing (annot : k = .annot) : Builds k name inner [] []
  | line {item : Item} (plain : isPlainKind k = true) (bare : heading? name k = none)
      (line : IsLine item) : Builds k name inner [] [item]
  | stub (isAbstract : k = .abstractFuncDef) (named : IsName name) : Builds k name inner [] [.stub name]
  | same {made : List Item} (plain : isPlainKind k = true) (bare : heading? name k = none)
      (solid : ∃ c ∈ inner, c.isKind .annot = false) : Builds k name inner made made
  | block {made : List Item} {header : Header} (block : hasBlock k = true)
      (heading : heading? name k = some header) (named : header.IsNamed)
      (later : header.isLater = continuesBranch k) (branch : header.isBranch = isContinued k) :
      Builds k name inner made [.block header made]
  | chain {made : List Item} (isMatch : k = .matchStmt) :
      Builds k name inner made (.block .ifOne [.word "pass"] :: made)

theorem isKind_annot_of_admits {kinds : List Kind}
    (h : (Label.nodes kinds).admits t.label) (hkinds : .annot ∉ kinds) :
    t.isKind .annot = false := by
  obtain ⟨k, hk, span, children, rfl⟩ := Label.exists_node h
  refine decide_eq_false ?_
  rintro ⟨⟩
  exact hkinds hk

theorem exists_builds
    (hregular : (Tree.node k span children).IsRegular)
    (hscanned : ∀ u ∈ (Tree.node k span children).tokens, u.IsScanned)
    (h : statement (.node k span children) = .ok items) :
    ∃ made, statements 0 (parts (.node k span children)) = .ok made ∧
      Builds k (firstWord (.node k span children)) (parts (.node k span children)) made items := by
  have hline {item : Item} (hline : IsLine item) (hplain : isPlainKind k)
      (hbare : ∀ name, heading? name k = none)
      (hparts : parts (.node k span children) = [])
      (hitems : (.ok [item] : Except Fault (List Item)) = .ok items) :
      ∃ made, statements 0 (parts (.node k span children)) = .ok made ∧
        Builds k (firstWord (.node k span children)) (parts (.node k span children)) made items := by
    rw [← Except.ok.inj hitems, hparts]
    exact ⟨[], rfl, .line hplain (hbare _) hline⟩
  have hsame {kinds : List Kind} {c : Tree} (hmem : c ∈ children)
      (hc : (Label.nodes kinds).admits c.label) (hkinds : .annot ∉ kinds)
      (hplain : isPlainKind k) (hbare : ∀ name, heading? name k = none) (hstart : bodyStart? k = some 0)
      (hitems : statements 0 children = .ok items) :
      ∃ made, statements 0 (parts (.node k span children)) = .ok made ∧
        Builds k (firstWord (.node k span children)) (parts (.node k span children)) made items := by
    rw [parts, hstart]
    exact ⟨items, hitems, .same hplain (hbare _) ⟨c, hmem, isKind_annot_of_admits hc hkinds⟩⟩
  have hblock (header : Header) {n : Nat}
      (hheading : heading? (firstWord (.node k span children)) k = some header)
      (hstart : bodyStart? k = some n) (hblock : hasBlock k)
      (hheader : header.IsNamed) (hlater : header.isLater = continuesBranch k)
      (hbranch : header.isBranch = isContinued k)
      (hitems : (statements n children >>= fun made => .ok [Item.block header made]) = .ok items) :
      ∃ made, statements 0 (parts (.node k span children)) = .ok made ∧
        Builds k (firstWord (.node k span children)) (parts (.node k span children)) made items := by
    obtain ⟨made, hmade, hitems⟩ := exists_of_bind_eq_ok hitems
    rw [← Except.ok.inj hitems, parts, hstart]
    exact ⟨made, statements_eq_drop n children ▸ hmade, .block hblock hheading hheader hlater hbranch⟩
  cases k
  case annot =>
    cases h
    exact ⟨[], rfl, .nothing rfl⟩
  case passStmt | extendsStmt | enumStmt | classnameStmt | propertyBodyDef | classnameExtendsStmt
      | signalStmt | docstrStmt | breakStmt | breakpointStmt | continueStmt =>
    exact hline (.word (by decide)) rfl (fun _ => rfl) rfl h
  case returnStmt =>
    refine hline (.word ?_) rfl (fun _ => rfl) rfl h
    split <;> decide
  case expr =>
    obtain ⟨c, -, h⟩ := exists_of_bind_eq_ok h
    exact hline (.word (by decide)) rfl (fun _ => rfl) rfl h
  case classVarEmpty | classVarTyped | funcVarEmpty | funcVarTyped | classVarAssigned
      | classVarTypedAssgnd | classVarInf | funcVarAssigned | funcVarTypedAssgnd | funcVarInf =>
    obtain ⟨name, hname, h⟩ := exists_of_bind_eq_ok h
    have hname := isName_of_word hregular hscanned (by decide) hname
    exact hline (.assignment hname (by decide)) rfl (fun _ => rfl) rfl h
  case constStmt =>
    obtain ⟨name, hname, h⟩ := exists_of_bind_eq_ok h
    have hname := isName_of_innerName hregular hscanned (by decide) hname
    exact hline (.assignment hname (by decide)) rfl (fun _ => rfl) rfl h
  case abstractFuncDef =>
    obtain ⟨name, hname, h⟩ := exists_of_bind_eq_ok h
    cases h
    refine ⟨[], rfl, ?_⟩
    rw [firstWord_of_innerName hregular (by decide) hname]
    exact .stub rfl (isName_of_innerName hregular hscanned (by decide) hname)
  case classVarStmt | staticClassVarStmt | staticFuncDef | funcVarStmt | exprStmt =>
    obtain ⟨c, rfl, hc⟩ := hregular.row.exists_singleton
    exact hsame mem_cons_self hc (by decide) rfl (fun _ => rfl) rfl (statements_singleton h)
  case ifStmt =>
    obtain ⟨c, rest, rfl, hc, -⟩ := hregular.row.exists_cons
    exact hsame mem_cons_self hc (by decide) rfl (fun _ => rfl) rfl h
  case classDef =>
    obtain ⟨name, hname, h⟩ := exists_of_bind_eq_ok h
    have hword := firstWord_of_word hregular (by decide) hname
    have hname := isName_of_word hregular hscanned (by decide) hname
    exact hblock (.className name) (congrArg (some ∘ Header.className) hword) rfl rfl hname rfl rfl h
  case funcDef =>
    obtain ⟨name, hname, h⟩ := exists_of_bind_eq_ok h
    have hword := firstWord_of_innerName hregular (by decide) hname
    have hname := isName_of_innerName hregular hscanned (by decide) hname
    exact hblock (.function name) (congrArg (some ∘ Header.function) hword) rfl rfl hname rfl rfl h
  case forStmt | forStmtTyped =>
    obtain ⟨-, -, h⟩ := exists_of_bind_eq_ok h
    obtain ⟨name, hname, h⟩ := exists_of_bind_eq_ok h
    have hword := firstWord_of_word hregular (by decide) hname
    have hname := isName_of_word hregular hscanned (by decide) hname
    exact hblock (.forIn name) (congrArg (some ∘ Header.forIn) hword) rfl rfl hname rfl rfl h
  case ifBranch =>
    obtain ⟨-, -, h⟩ := exists_of_bind_eq_ok h
    exact hblock .ifOne rfl rfl rfl trivial rfl rfl h
  case elifBranch | matchBranch | guardedMatchBranch =>
    obtain ⟨-, -, h⟩ := exists_of_bind_eq_ok h
    exact hblock .elifOne rfl rfl rfl trivial rfl rfl h
  case elseBranch => exact hblock .elseOnly rfl rfl rfl trivial rfl rfl h
  case whileStmt =>
    obtain ⟨-, -, h⟩ := exists_of_bind_eq_ok h
    exact hblock .whileOne rfl rfl rfl trivial rfl rfl h
  case matchStmt =>
    obtain ⟨-, -, h⟩ := exists_of_bind_eq_ok h
    obtain ⟨made, hmade, h⟩ := exists_of_bind_eq_ok h
    cases h
    exact ⟨made, statements_eq_drop 1 children ▸ hmade, .chain rfl⟩
  all_goals cases h

/-! ## The order of branches -/

theorem inOrder_of_forall {ts : List Tree} (h : ∀ t ∈ ts, t.kind?.any continuesBranch = false)
    (ready : Bool) : inOrder ready ts := by
  induction ts generalizing ready with
  | nil => rfl
  | cons t ts ih =>
    obtain ⟨ht, hts⟩ := forall_mem_cons.mp h
    rw [inOrder, ht, ih hts]
    rfl

theorem inOrder_of_isContinued {ts more : List Tree} (h : ∀ t ∈ ts, t.kind?.any isContinued)
    (hmore : inOrder true more) : inOrder true (ts ++ more) := by
  induction ts with
  | nil => exact hmore
  | cons t ts ih =>
    obtain ⟨ht, hts⟩ := forall_mem_cons.mp h
    rw [cons_append, inOrder, ht, ih hts, Bool.or_true]
    rfl

def excludesBranches : Place → Bool
  | some labels => labels.all fun
    | .node k => !continuesBranch k
    | .leaf _ => true
  | none => false

theorem continuesBranch_of_excludesBranches {p : Place} (hp : excludesBranches p)
    (h : p.admits t.label) : t.kind?.any continuesBranch = false := by
  cases p with
  | none => cases hp
  | some labels =>
    have hlabel := all_eq_true.mp hp t.label (of_decide_eq_true h)
    cases t with
    | token t => rfl
    | node k span children => exact Bool.not_eq_true' _ ▸ hlabel

theorem kind?_of_label (h : t.label = .node k) : t.kind? = some k := by
  cases t with
  | token t => cases h
  | node k span children =>
    cases h
    rfl

theorem inOrder_ifStmt
    (h : Kind.ifStmt.Expands Fragment.keepsTokens (children.map label)) (ready : Bool) :
    inOrder ready children := by
  obtain ⟨middle, last, hlabels, hmiddle, hlast⟩ := exists_of_expands_ifStmt h
  obtain ⟨first, rest, rfl, hfirst, hrest⟩ := map_eq_cons_iff.mp hlabels
  obtain ⟨elifs, back, rfl, rfl, rfl⟩ := map_eq_append_iff.mp hrest
  have helifs : ∀ t ∈ elifs, t.kind?.any isContinued := by
    intro t ht
    rw [kind?_of_label (hmiddle _ (mem_map_of_mem ht))]
    rfl
  rw [inOrder, kind?_of_label hfirst]
  refine inOrder_of_isContinued helifs ?_
  rcases hlast with hnone | hone
  · rw [map_eq_nil_iff.mp hnone]
    rfl
  · obtain ⟨branch, rfl, -⟩ := map_eq_singleton_iff.mp hone
    rw [inOrder, Bool.or_true]
    rfl

theorem inOrder_matchStmt
    (h : Kind.matchStmt.children.Fits (children.map label)) :
    inOrder true (children.drop 1) := by
  have hbranches : Label.branches.Row [] ((children.drop 1).map label) := by
    rw [map_drop]
    exact h.drop 1
  rw [← append_nil (children.drop 1)]
  refine inOrder_of_isContinued (fun t ht => ?_) rfl
  obtain ⟨k, hk, span, inner, rfl⟩ := Label.exists_node (hbranches.forall_mem t ht)
  have hcontinued : ∀ k ∈ [Kind.pattern, .matchBranch, .guardedMatchBranch], isContinued k := by
    decide
  exact hcontinued k hk

theorem excludesBranches_children {n : Nat} (hstart : bodyStart? k = some n)
    (hif : k ≠ .ifStmt) (hmatch : k ≠ .matchStmt) :
    (k.children.rest :: k.children.front.drop n).all excludesBranches := by
  unfold bodyStart? at hstart
  split at hstart
  all_goals cases hstart
  all_goals first | contradiction | decide

/-- Inside a `match` the first branch continues what is put before it. Nothing else begins with a branch
that continues others. -/
theorem inOrder_parts
    (h : k.Expands Fragment.keepsTokens (children.map label)) :
    inOrder (decide (k = .matchStmt)) (parts (.node k span children)) := by
  by_cases hif : k = .ifStmt
  · subst hif
    exact inOrder_ifStmt h _
  by_cases hmatch : k = .matchStmt
  · subst hmatch
    exact inOrder_matchStmt h.fits
  rw [parts]
  split
  · rename_i n hstart
    have hexcludes := all_eq_true.mp (excludesBranches_children hstart hif hmatch)
    refine inOrder_of_forall (fun t ht => ?_) _
    have hmem : t.label ∈ (children.map label).drop n := by
      rw [← map_drop]
      exact mem_map_of_mem ht
    rcases Template.admits_of_mem (h.fits.drop n) _ hmem with h | ⟨p, hp, h⟩
    · exact continuesBranch_of_excludesBranches (hexcludes _ mem_cons_self) h
    · exact continuesBranch_of_excludesBranches (hexcludes p (mem_cons_of_mem _ hp)) h
  · rfl

/-! ## Conversion -/

/-- What is known of the items of a statement. -/
structure Converted (t : Tree) (items : List Item) : Prop where
  eq_nil_iff : items = [] ↔ t.isKind .annot = true
  sound : ∀ ready rest, (t.kind?.any continuesBranch = true → ready = true) →
    Sound (t.kind?.any isContinued) rest → Sound ready (items ++ rest)
  filled : areFilled items = true ↔ ∀ s, Converts s t → isHollow s = false

theorem forall_converts_iff {P : Tree → Prop} :
    (∀ s, Converts s t → P s) ↔ P t ∧ ∀ c ∈ parts t, ∀ s, Converts s c → P s := by
  constructor
  · intro h
    exact ⟨h t .refl, fun c hc s hs => h s (.part hc hs)⟩
  · rintro ⟨ht, hparts⟩ s hs
    cases hs with
    | refl => exact ht
    | part hmem hinner => exact hparts _ hmem s hinner

section Row

variable {ts : List Tree} (h : ∀ t ∈ ts, ∀ items, statement t = .ok items → Converted t items)
  {made : List Item} (hmade : statements 0 ts = .ok made)

include h hmade

theorem made_eq_nil_iff : made = [] ↔ ts.all (·.isKind .annot) := by
  induction ts generalizing made with
  | nil =>
    cases hmade
    exact ⟨fun _ => rfl, fun _ => rfl⟩
  | cons t ts ih =>
    obtain ⟨ht, hts⟩ := forall_mem_cons.mp h
    obtain ⟨first, rest, hfirst, hrest, rfl⟩ := exists_of_statements_cons hmade
    rw [append_eq_nil_iff, (ht first hfirst).eq_nil_iff, ih hts hrest, all_cons, Bool.and_eq_true]

theorem sound_made (horder : inOrder ready ts) : Sound ready made := by
  induction ts generalizing made ready with
  | nil =>
    cases hmade
    exact .nil ready
  | cons t ts ih =>
    obtain ⟨ht, hts⟩ := forall_mem_cons.mp h
    obtain ⟨first, rest, hfirst, hrest, rfl⟩ := exists_of_statements_cons hmade
    rw [inOrder, Bool.and_eq_true] at horder
    refine (ht first hfirst).sound ready rest (fun hlater => ?_) (ih hts hrest horder.2)
    rw [hlater] at horder
    exact horder.1

theorem areFilled_made : areFilled made ↔ ∀ c ∈ ts, ∀ s, Converts s c → isHollow s = false := by
  induction ts generalizing made with
  | nil =>
    cases hmade
    exact ⟨fun _ => forall_mem_nil _, fun _ => rfl⟩
  | cons t ts ih =>
    obtain ⟨ht, hts⟩ := forall_mem_cons.mp h
    obtain ⟨first, rest, hfirst, hrest, rfl⟩ := exists_of_statements_cons hmade
    rw [areFilled_append, Bool.and_eq_true, (ht first hfirst).filled, ih hts hrest, forall_mem_cons]

end Row

theorem of_isPlainKind (h : isPlainKind k) :
    k ≠ .annot ∧ hasBlock k = false ∧ continuesBranch k = false ∧ isContinued k = false := by
  simpa [isPlainKind, and_assoc] using h

section Node

variable {k : Kind} {span : Option Span} {children : List Tree}
  (hparts : ∀ c ∈ parts (.node k span children), ∀ items, statement c = .ok items → Converted c items)
  {made items : List Item} (hmade : statements 0 (parts (.node k span children)) = .ok made)
  (hbuilds : Builds k name (parts (.node k span children)) made items)

include hparts hmade hbuilds

theorem items_eq_nil_iff : items = [] ↔ k = .annot := by
  cases hbuilds with
  | nothing hannot => exact iff_of_true rfl hannot
  | line hplain => exact iff_of_false (cons_ne_nil _ _) (of_isPlainKind hplain).1
  | stub habstract =>
    subst habstract
    exact iff_of_false (cons_ne_nil _ _) (by decide)
  | same hplain hbare hsolid =>
    obtain ⟨c, hc, hannot⟩ := hsolid
    refine iff_of_false (fun hnil => ?_) (of_isPlainKind hplain).1
    have hall := all_eq_true.mp ((made_eq_nil_iff hparts hmade).mp hnil) c hc
    exact Bool.false_ne_true (hannot.symm.trans hall)
  | block hblock =>
    refine iff_of_false (cons_ne_nil _ _) ?_
    rintro rfl
    cases hblock
  | chain hmatch =>
    subst hmatch
    exact iff_of_false (cons_ne_nil _ _) (by decide)

theorem sound_items
    (horder : inOrder (decide (k = .matchStmt)) (parts (.node k span children)))
    {rest : List Item} (hready : continuesBranch k → ready)
    (hrest : Sound (isContinued k) rest) : Sound ready (items ++ rest) := by
  have hmade := sound_made hparts hmade horder
  cases hbuilds with
  | nothing hannot =>
    subst hannot
    exact hrest.ready
  | line hplain hbare hline =>
    rw [(of_isPlainKind hplain).2.2.2] at hrest
    exact .line hline hrest
  | stub habstract hnamed =>
    subst habstract
    exact .stub hnamed hrest
  | same hplain hbare hsolid =>
    have hchain : k ≠ .matchStmt := by
      rintro rfl
      cases hbare
    rw [(of_isPlainKind hplain).2.2.2] at hrest
    rw [decide_eq_false hchain] at hmade
    exact hmade.ready.append hrest
  | block hblock hheading hnamed hlater hbranch =>
    have hchain : k ≠ .matchStmt := by
      rintro rfl
      cases hblock
    rw [decide_eq_false hchain] at hmade
    rw [← hbranch] at hrest
    exact .block hnamed (fun h => hready (hlater ▸ h)) hmade hrest
  | chain hmatch =>
    subst hmatch
    exact .block trivial nofun (.line (.word (by decide)) (.nil false)) (hmade.append hrest)

theorem areFilled_items :
    areFilled items ↔ ∀ s, Converts s (.node k span children) → isHollow s = false := by
  rw [forall_converts_iff, ← areFilled_made hparts hmade]
  have hplain (hblock : hasBlock k = false) (hsame : areFilled items = areFilled made) :
      areFilled items ↔ isHollow (.node k span children) = false ∧ areFilled made := by
    simp [hsame, isHollow, Tree.kind?, hblock]
  cases hbuilds with
  | nothing hannot =>
    subst hannot
    exact hplain rfl rfl
  | @line item h hbare hline =>
    refine hplain (of_isPlainKind h).2.1 ?_
    rw [areFilled.eq_2, hline.isFilled]
    rfl
  | stub habstract =>
    subst habstract
    exact hplain rfl rfl
  | same h => exact hplain (of_isPlainKind h).2.1 rfl
  | block hblock =>
    have hhollow : isHollow (.node k span children) = made.isEmpty := by
      rw [isHollow, Bool.eq_iff_iff, Bool.and_eq_true, ← made_eq_nil_iff hparts hmade,
        List.isEmpty_iff]
      simp [Tree.kind?, hblock]
    rw [hhollow, areFilled, Item.isFilled]
    simp [areFilled]
  | chain hmatch =>
    subst hmatch
    exact hplain rfl rfl

end Node

theorem converted_of_conforms (hconforms : t.Conforms Fragment.keepsTokens)
    (hregular : t.IsRegular) (hscanned : ∀ u ∈ t.tokens, u.IsScanned)
    (h : statement t = .ok items) : Converted t items := by
  induction hconforms generalizing items with
  | token t => cases h
  | @node k span children hexpands heach ih =>
    obtain ⟨made, hmade, hbuilds⟩ := exists_builds hregular hscanned h
    have hparts : ∀ c ∈ parts (.node k span children), ∀ items, statement c = .ok items →
        Converted c items := by
      intro c hc items hitems
      have hc := mem_children_of_mem_parts hc
      exact ih c hc (hregular.child hc).1 (fun u hu => hscanned u (mem_tokensAll.mpr ⟨c, hc, hu⟩))
        hitems
    exact
      { eq_nil_iff := by
          rw [items_eq_nil_iff hparts hmade hbuilds]
          simp [isKind, Tree.kind?]
        sound := fun ready rest hready hrest =>
          sound_items hparts hmade hbuilds (inOrder_parts hexpands) hready hrest
        filled := areFilled_items hparts hmade hbuilds }

/-- A skeleton is the sound row that the statements of a tree become. -/
theorem exists_of_skeleton {code : Text} (hparse : parse code = .ok t)
    (hskeleton : skeleton code = .ok items) :
    ∃ span children, t = .node .start span children ∧ statements 0 children = .ok items ∧
      Sound false items ∧ ∀ c ∈ children, c.Conforms Fragment.keepsTokens ∧ c.IsRegular ∧
        (∀ u ∈ c.tokens, u.IsScanned) ∧ ∀ items, statement c = .ok items → Converted c items := by
  obtain ⟨hregular, hkind, -⟩ := isRegular_of_parse hparse
  have hconforms := conforms_of_parse hparse
  have hscanned := Parse.isScanned_of_parse hparse
  have hstatements : statements 0 t.children = .ok items := by
    rw [skeleton, hparse] at hskeleton
    change Failure.ofFault (statements 0 t.children) = .ok items at hskeleton
    cases hmade : statements 0 t.children with
    | error f =>
      rw [hmade] at hskeleton
      cases hskeleton
    | ok made =>
      rw [hmade] at hskeleton
      exact congrArg Except.ok (Except.ok.inj hskeleton)
  obtain ⟨span, children, rfl⟩ := Tree.exists_of_isKind (decide_eq_true hkind)
  cases hconforms with
  | node hexpands heach =>
    have hscanned : ∀ c ∈ children, ∀ u ∈ c.tokens, u.IsScanned :=
      fun c hc u hu => hscanned u (mem_tokensAll.mpr ⟨c, hc, hu⟩)
    have hparts : ∀ c ∈ children, ∀ items, statement c = .ok items → Converted c items :=
      fun c hc _ => converted_of_conforms (heach c hc) (hregular.child hc).1 (hscanned c hc)
    have horder : inOrder false (parts (.node .start span children)) = true := inOrder_parts hexpands
    exact ⟨span, children, rfl, hstatements, sound_made hparts hstatements horder,
      fun c hc => ⟨heach c hc, (hregular.child hc).1, hscanned c hc, hparts c hc⟩⟩

end Skeleton

open Skeleton

/-- Lines of a skeleton get deeper right below lines that open a block only, the first one not at all, and
every later branch continues a branch. Every line that opens a block has a deeper one below it exactly if
no statement that becomes a block holds nothing but annotations. -/
theorem skeleton_wellFormed {code : Text} {t : Tree} {items : List Skeleton.Item}
    (hparse : parse code = .ok t) (hskeleton : skeleton code = .ok items) :
    let lines := linesOfText (Skeleton.text items)
    (lines.head?.all fun line => (indentation line).isEmpty) = true ∧ deepensInBlocks lines = true ∧
      ContinuesBranches [] lines ∧
        (fillsBlocks lines = true ↔ ∀ s, Converts s t → isHollow s = false) := by
  obtain ⟨span, children, rfl, hstatements, hsound, heach⟩ := exists_of_skeleton hparse hskeleton
  have hparts : ∀ c ∈ children, ∀ items, statement c = .ok items → Converted c items :=
    fun c hc => (heach c hc).2.2.2
  have hwithin : IsWithin 0 [] := nofun
  intro lines
  have hlines : lines = Item.linesOf 0 items ++ [] := by
    rw [append_nil]
    exact hsound.linesOfText_text
  rw [hlines]
  refine ⟨?_, hsound.deepensInBlocks_linesOf hwithin rfl, ?_, ?_⟩
  · cases hhead : (Item.linesOf 0 items ++ []).head? with
    | none => rfl
    | some line => exact List.isEmpty_iff.mpr (prefix_nil.mp (hsound.isWithin hwithin line hhead))
  · rw [append_nil]
    exact hsound.continuesBranches_linesOf nofun
  · rw [hsound.fillsBlocks_linesOf hwithin, forall_converts_iff, fillsBlocks, Bool.and_true,
      areFilled_made hparts hstatements]
    exact ⟨fun h => ⟨rfl, h⟩, fun h => h.2⟩

theorem skeleton_wellFormed_twoBranches :
    ∃ t items, parse "func f():\n\tif a:pass\n\telse:pass".toList = .ok t ∧
      skeleton "func f():\n\tif a:pass\n\telse:pass".toList = .ok items ∧
      ContinuesBranches [] (linesOfText (Skeleton.text items)) ∧
      ∀ s, Converts s t → isHollow s = false := by
  have hlines : ((skeleton "func f():\n\tif a:pass\n\telse:pass".toList).toOption.map fun items =>
      fillsBlocks (linesOfText (Skeleton.text items))) = some true := by decide +kernel
  obtain ⟨items, hitems, hfills⟩ := Option.map_eq_some_iff.mp hlines
  have hskeleton := eq_ok_of_toOption hitems
  cases hparse : parse "func f():\n\tif a:pass\n\telse:pass".toList with
  | error e =>
    rw [skeleton, hparse] at hskeleton
    cases hskeleton
  | ok t =>
    obtain ⟨-, -, hcontinues, hhollow⟩ := skeleton_wellFormed hparse hskeleton
    exact ⟨t, items, rfl, hskeleton, hcontinues, hhollow.mp hfills⟩

/-- A function without statements becomes a header with no line below it. -/
theorem skeleton_bareFunction :
    (skeleton "func f():".toList).toOption.map Skeleton.text = some "def f():\n".toList ∧
      fillsBlocks (linesOfText "def f():\n".toList) = false :=
  ⟨by decide +kernel, by decide⟩

end GDWorkbench
