import GDWorkbench.Proofs.Skeleton.Blocks

/-!
The lines of a skeleton that open a block. They are the headings of the classes, functions, branches and
loops of the tree, in their order, and each is indented by the number of those around it. A `match` has a
heading too, but what is in it stands at the same depth. Lambdas and the bodies of properties are left
out.
-/

namespace GDWorkbench

open List GDWorkbench.Tree

namespace Skeleton

variable {k : Kind} {span : Option Span} {t : Tree} {children : List Tree} {items : List Item}
  {depth : Nat}

/-- Statements inside these are not converted. -/
def isSealed : Kind → Bool
  | .lambda | .propertyBodyDef => true
  | _ => false

/-- The depth of what is inside a node of this kind and at this depth. -/
def depthInside (depth : Nat) (k : Kind) : Nat :=
  if (heading? [] k).isSome && k ≠ .matchStmt then depth + 1 else depth

mutual

/-- Headings with their depths, from the outside to the inside and from the first to the last. -/
def headings (depth : Nat) : Tree → List (Nat × Header)
  | .token _ => []
  | .node k span children =>
    if isSealed k then []
    else (heading? (firstWord (.node k span children)) k).toList.map (depth, ·) ++
      headingsOf (depthInside depth k) children

def headingsOf (depth : Nat) : List Tree → List (Nat × Header)
  | [] => []
  | t :: ts => headings depth t ++ headingsOf depth ts

end

theorem headingsOf_append (depth : Nat) (first second : List Tree) :
    headingsOf depth (first ++ second) = headingsOf depth first ++ headingsOf depth second := by
  induction first with
  | nil => rfl
  | cons t first ih => rw [cons_append, headingsOf, headingsOf, ih, append_assoc]

theorem headingsOf_eq_nil {ts : List Tree} (h : ∀ t ∈ ts, headings depth t = []) :
    headingsOf depth ts = [] := by
  induction ts with
  | nil => rfl
  | cons t ts ih =>
    obtain ⟨ht, hts⟩ := forall_mem_cons.mp h
    rw [headingsOf, ht, ih hts]
    rfl

/-! ## What holds no statements -/

/-- Kinds without statements inside, except for those of lambdas and properties. -/
def isQuiet : Kind → Bool
  | .start | .singleClassStmt | .compoundClassStmt | .staticFuncDef | .classDef | .funcDef
  | .abstractFuncDef | .propertyCustomEtter | .propertyCustomSetter | .propertyCustomGetter | .singleFuncStmt
  | .compoundFuncStmt | .ifStmt | .ifBranch | .elifBranch | .elseBranch | .whileStmt | .forStmt
  | .forStmtTyped | .matchStmt | .matchBranch | .guardedMatchBranch => false
  | _ => true

def isQuietSymbol : Nonterminal → Bool
  | .node k => isQuiet k
  | .part f =>
    match f with
    | .classStmt | .simpleClassStmt | .classBody | .funcSuite | .funcBody | .funcStmt | .simpleFuncStmt
    | .matchBody | .lambdaSuite | .lambdaBody | .standaloneLambdaStmt | .classStmts | .moreClassStmts
    | .customEtters | .funcStmts | .moreFuncStmts | .elifBranches | .matchBranches => false
    | _ => true

def isQuietLabel : Label → Bool
  | .node k => isQuiet k
  | .leaf _ => true

theorem isClosed_isQuietSymbol : SymbolSet.IsClosed (fun _ head => isQuietSymbol head) isQuietLabel := by
  decide +kernel

theorem isQuietLabel_of_expands {labels : List Label} (hquiet : isQuiet k) (hopen : isSealed k = false)
    (h : k.Expands Fragment.keepsTokens labels) : ∀ l ∈ labels, isQuietLabel l := by
  have hmakers : ∀ k, isQuiet k = true → isSealed k = false → ∀ a ∈ k.makers,
      Item.allStayIn (fun _ head => isQuietSymbol head) isQuietLabel k.rule.keepsTokens a.items = true := by
    decide +kernel
  exact isClosed_isQuietSymbol.of_expands (hmakers k hquiet hopen) h

theorem headings_of_isQuiet (h : t.Conforms Fragment.keepsTokens) (hquiet : isQuietLabel t.label)
    (depth : Nat) : headings depth t = [] := by
  induction h generalizing depth with
  | token t => rfl
  | @node k span children hexpands heach ih =>
    rw [headings]
    split
    · rfl
    · rename_i hopen
      have hlabels := isQuietLabel_of_expands hquiet (Bool.eq_false_iff.mpr hopen) hexpands
      have hbare : ∀ name, heading? name k = none := by
        intro name
        unfold heading?
        split <;> first | cases hquiet | rfl
      rw [hbare, headingsOf_eq_nil fun c hc => ih c hc (hlabels _ (mem_map_of_mem hc)) _]
      rfl

theorem admits_of_mem_take {rest : Place} {front : List Place} {labels : List Label}
    (h : rest.Row front labels) {n : Nat} (hn : n ≤ front.length) :
    ∀ l ∈ labels.take n, ∃ p ∈ front.take n, p.admits l = true := by
  induction h generalizing n with
  | rest hall =>
    obtain rfl : n = 0 := Nat.le_zero.mp hn
    exact forall_mem_nil _
  | @place p l front labels hfirst hmore ih =>
    cases n with
    | zero => exact forall_mem_nil _
    | succ n =>
      rw [take_succ_cons, take_succ_cons]
      refine forall_mem_cons.mpr ⟨⟨p, mem_cons_self, hfirst⟩, fun m hm => ?_⟩
      obtain ⟨q, hq, hadmits⟩ := ih (Nat.le_of_succ_le_succ hn) m hm
      exact ⟨q, mem_cons_of_mem p hq, hadmits⟩

/-- What comes before the statements that are converted holds none itself. -/
theorem isQuietLabel_of_mem_take {n : Nat} (hstart : bodyStart? k = some n)
    (h : k.Expands Fragment.keepsTokens (children.map label)) :
    ∀ c ∈ children.take n, isQuietLabel c.label := by
  have hfront : ∀ k, (bodyStart? k).all fun n => decide (n ≤ k.children.front.length) &&
      (k.children.front.take n).all (Place.staysIn isQuietLabel) := by decide +kernel
  have hk := hfront k
  rw [hstart, Option.all_some, Bool.and_eq_true] at hk
  intro c hc
  have hmem : c.label ∈ (children.map label).take n := by
    rw [← map_take]
    exact mem_map_of_mem hc
  obtain ⟨p, hp, hadmits⟩ := admits_of_mem_take h.fits (of_decide_eq_true hk.1) _ hmem
  exact Place.allowed_of_admits (all_eq_true.mp hk.2 p hp) hadmits

theorem isQuietLabel_of_statement (hstart : bodyStart? k = none) (hopen : isSealed k = false)
    (h : k.Expands Fragment.keepsTokens (children.map label))
    (hitems : statement (.node k span children) = .ok items) : ∀ c ∈ children, isQuietLabel c.label := by
  by_cases hquiet : isQuiet k
  · exact fun c hc => isQuietLabel_of_expands hquiet hopen h _ (mem_map_of_mem hc)
  · by_cases habstract : k = .abstractFuncDef
    · subst habstract
      exact fun c hc => h.fits.of_staysIn (by decide) _ (mem_map_of_mem hc)
    · unfold isQuiet at hquiet
      split at hquiet
      all_goals contradiction

/-- Only statements that are converted have headings inside. -/
theorem headingsOf_parts (hopen : isSealed k = false)
    (h : k.Expands Fragment.keepsTokens (children.map label))
    (heach : ∀ c ∈ children, c.Conforms Fragment.keepsTokens)
    (hitems : statement (.node k span children) = .ok items) (depth : Nat) :
    headingsOf depth children = headingsOf depth (parts (.node k span children)) := by
  have hquiet {ts : List Tree} (hts : ∀ c ∈ ts, c ∈ children ∧ isQuietLabel c.label) :
      headingsOf depth ts = [] :=
    headingsOf_eq_nil fun c hc => headings_of_isQuiet (heach c (hts c hc).1) (hts c hc).2 depth
  cases hstart : bodyStart? k with
  | none =>
    rw [parts, hstart]
    exact hquiet fun c hc => ⟨hc, isQuietLabel_of_statement hstart hopen h hitems c hc⟩
  | some n =>
    rw [parts, hstart]
    have htake : headingsOf depth (children.take n) = [] :=
      hquiet fun c hc => ⟨mem_of_mem_take hc, isQuietLabel_of_mem_take hstart h c hc⟩
    conv_lhs => rw [← take_append_drop n children, headingsOf_append, htake, nil_append]

/-! ## Lines -/

theorem isSome_heading? (name : Text) : (heading? name k).isSome = (heading? [] k).isSome := by
  cases k <;> rfl

def headingLine (heading : Nat × Header) : Text :=
  Item.margin heading.1 ++ heading.2.text

theorem linesOf_append (depth : Nat) (first second : List Item) :
    Item.linesOf depth (first ++ second) = Item.linesOf depth first ++ Item.linesOf depth second := by
  induction first with
  | nil => rfl
  | cons item first ih => rw [cons_append, Item.linesOf, Item.linesOf, ih, append_assoc]

/-- The lines of the items that open a block are the headings. -/
def IsHeaded (items : List Item) (headings : Nat → List (Nat × Header)) : Prop :=
  ∀ depth, (Item.linesOf depth items).filter opensBlock = (headings depth).map headingLine

theorem isHeaded_made {ts : List Tree} {made : List Item}
    (h : ∀ t ∈ ts, ∀ items, statement t = .ok items → IsHeaded items (headings · t))
    (hmade : statements 0 ts = .ok made) : IsHeaded made (headingsOf · ts) := by
  induction ts generalizing made with
  | nil =>
    cases hmade
    exact fun _ => rfl
  | cons t ts ih =>
    obtain ⟨ht, hts⟩ := forall_mem_cons.mp h
    obtain ⟨first, rest, hfirst, hrest, rfl⟩ := exists_of_statements_cons hmade
    intro depth
    simp only [linesOf_append, filter_append, headingsOf, map_append, ht first hfirst depth,
      ih hts hrest depth]

theorem filter_lines_of_isLine {item : Item} (h : IsLine item) (depth : Nat) :
    (Item.linesOf depth [item]).filter opensBlock = [] := by
  obtain ⟨text, hplain, hlines⟩ := h.exists_isPlain
  simp [Item.linesOf, hlines, hplain.opensBlock_line]

theorem isHeaded_of_builds {name : Text} {inner : List Tree} {made : List Item}
    (h : Builds k name inner made items) (hmade : IsHeaded made (headingsOf · inner)) :
    IsHeaded items fun depth =>
      (heading? name k).toList.map (depth, ·) ++ headingsOf (depthInside depth k) inner := by
  intro depth
  rw [map_append, ← hmade, depthInside, ← isSome_heading? name]
  cases h with
  | nothing hannot =>
    subst hannot
    rfl
  | line hplain hbare hline =>
    rw [filter_lines_of_isLine hline, hbare]
    rfl
  | stub habstract hnamed =>
    subst habstract
    simp [Item.linesOf, Item.lines, heading?, Header.opensBlock_line, opensBlock_stubBody, headingLine]
  | same hplain hbare hsolid => simp [hbare]
  | @block made header hblock hheading hnamed hlater hbranch =>
    have hmatch : k ≠ .matchStmt := by
      rintro rfl
      cases hblock
    simp [hheading, hmatch, Item.linesOf, Item.lines, header.opensBlock_line, headingLine]
  | chain hmatch =>
    subst hmatch
    have hpass : (Item.linesOf (depth + 1) [.word "pass"]).filter opensBlock = [] :=
      filter_lines_of_isLine (.word (by decide)) (depth + 1)
    rw [Item.linesOf, Item.lines, cons_append, filter_cons_of_pos (Header.opensBlock_line _ depth),
      filter_append, hpass]
    rfl

theorem isHeaded_of_conforms (hconforms : t.Conforms Fragment.keepsTokens)
    (hregular : t.IsRegular) (hscanned : ∀ u ∈ t.tokens, u.IsScanned)
    (h : statement t = .ok items) : IsHeaded items (headings · t) := by
  induction hconforms generalizing items with
  | token t => cases h
  | @node k span children hexpands heach ih =>
    intro depth
    simp only [headings]
    split
    · rename_i hsealed
      unfold isSealed at hsealed
      split at hsealed
      · cases h
      · cases h
        exact filter_lines_of_isLine (.word (by decide)) depth
      · cases hsealed
    · rename_i hopen
      obtain ⟨made, hmade, hbuilds⟩ := exists_builds hregular hscanned h
      rw [headingsOf_parts (Bool.eq_false_iff.mpr hopen) hexpands heach h]
      refine isHeaded_of_builds hbuilds (isHeaded_made (fun c hc items hitems => ?_) hmade) depth
      have hc := mem_children_of_mem_parts hc
      exact ih c hc (hregular.child hc).1 (fun u hu => hscanned u (mem_tokensAll.mpr ⟨c, hc, hu⟩)) hitems

end Skeleton

open Skeleton

/-- The lines of a skeleton that open a block are the headings of the tree, in their order and at their
depths. -/
theorem skeleton_headings {code : Text} {t : Tree} {items : List Skeleton.Item}
    (hparse : parse code = .ok t) (hskeleton : skeleton code = .ok items) :
    (linesOfText (Skeleton.text items)).filter opensBlock = (headings 0 t).map headingLine := by
  obtain ⟨span, children, rfl, hstatements, hsound, heach⟩ := exists_of_skeleton hparse hskeleton
  rw [hsound.linesOfText_text]
  refine isHeaded_made (fun c hc items hitems => ?_) hstatements 0
  obtain ⟨hconforms, hregular, hscanned, -⟩ := heach c hc
  exact isHeaded_of_conforms hconforms hregular hscanned hitems

def branchInMatch : Text :=
  "func f():\n\tmatch a:\n\t\t_:\n\t\t\tif a:pass".toList

theorem skeleton_headings_branchInMatch :
    ∃ t items, parse branchInMatch = .ok t ∧ skeleton branchInMatch = .ok items ∧
      (linesOfText (Skeleton.text items)).filter opensBlock = (headings 0 t).map headingLine ∧
      headings 0 t = [(0, .function ['f']), (1, .ifOne), (1, .elifOne), (2, .ifOne)] := by
  obtain ⟨hheadings, hsucceeds⟩ : (parse branchInMatch).toOption.map (headings 0) =
      some [(0, .function ['f']), (1, .ifOne), (1, .elifOne), (2, .ifOne)] ∧
      (skeleton branchInMatch).toOption.isSome = true := by decide +kernel
  obtain ⟨t, ht, hheadings⟩ := Option.map_eq_some_iff.mp hheadings
  obtain ⟨items, hitems⟩ := Option.isSome_iff_exists.mp hsucceeds
  have hparse := eq_ok_of_toOption ht
  have hskeleton := eq_ok_of_toOption hitems
  exact ⟨t, items, hparse, hskeleton, skeleton_headings hparse hskeleton, hheadings⟩

end GDWorkbench
