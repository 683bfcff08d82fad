import Mathlib.Data.List.Forall2
import GDWorkbench.Proofs.Parse.Parts
import GDWorkbench.Proofs.Shape.Words
import GDWorkbench.Proofs.StringLiteral.Tokens
import GDWorkbench.Safety

/-!
What the comparison of two trees tells about string literals. Trees that differ in nothing but string
literals are the same to it exactly if the literals that it looks at have the same normal forms, pair by
pair. It does not look into annotations and properties of classes. The normal form tells the value of a
literal as long as raw literals are not mixed with others.
-/

namespace GDWorkbench

open List Shape Label Parse Token

namespace Tree

/-! ## Literals that are compared -/

def isLeftOut (t : Tree) : Bool :=
  t.isKind .annot || t.isKind .propertyBodyDef

mutual

/-- The literals that a comparison looks at, from left to right. -/
def compared : Tree → List Token
  | .token _ => []
  | .node .string _ cs | .node .rawString _ cs => tokensAll cs
  | .node .start _ cs | .node .classDef _ cs => comparedAll true cs
  | .node .inlinePropertyBody _ _ => []
  | .node _ _ cs => comparedAll false cs

def comparedAll (areMembers : Bool) : List Tree → List Token
  | [] => []
  | t :: ts =>
    (if areMembers && t.isLeftOut then [] else compared t) ++ comparedAll areMembers ts

end

mutual

def withoutLiterals : Tree → Shape
  | .token t => .leaf t.terminal t.content
  | .node .string _ _ | .node .rawString _ _ => .word []
  | .node k _ cs => .node k (withoutLiteralsAll cs)

def withoutLiteralsAll : List Tree → List Shape
  | [] => []
  | t :: ts => withoutLiterals t :: withoutLiteralsAll ts

end

def holdsLiteral (k : Kind) : Bool :=
  k = .string || k = .rawString

section Node

variable {k : Kind} {span : Option Span} {children : List Tree}

theorem loosen_node : (node k span children).loosen = loosenNode k (children.map loosen) := by
  have hshapes (ts : List Tree) : loosenAll (shapes ts) = ts.map loosen := by
    induction ts with
    | nil => rfl
    | cons t ts ih => rw [shapes, loosenAll, ih, map_cons, loosen]
  exact congrArg (loosenNode k) (hshapes children)

/-- A node with a literal has the token of the literal for its child. -/
theorem IsRegular.exists_literal (h : (Tree.node k span children).IsRegular)
    (hk : holdsLiteral k) :
    ∃ l : Token, children = [.token l] ∧ l.isString := by
  have hrow := h.row
  cases k <;> try cases hk
  all_goals
    obtain ⟨c, rfl, hc⟩ := hrow.exists_singleton
    obtain ⟨l, rfl, hl⟩ := exists_leaf hc
    refine ⟨l, rfl, ?_⟩
    unfold isString
    rcases mem_pair.mp hl with hl | hl <;> rw [hl] <;> rfl

theorem compared_of_not_changes (hk : changes k = false) :
    (node k span children).compared = comparedAll false children := by
  cases k <;> first | rfl | cases hk

theorem comparedAll_eq_flatMap (children : List Tree) :
    comparedAll false children = children.flatMap compared := by
  induction children with
  | nil => rfl
  | cons c children ih => simp [comparedAll, ih]

theorem comparedAll_members (children : List Tree) :
    comparedAll true children = (children.filter fun c => !c.isLeftOut).flatMap compared := by
  induction children with
  | nil => rfl
  | cons c children ih => cases hc : c.isLeftOut <;> simp [comparedAll, ih, hc]

/-- Whether a member of a class counts can be seen before it is loosened. -/
theorem isCompared_loosen {c : Tree}
    (h : (∃ t, c = .token t) ∨ Label.members.admits c.label) :
    c.loosen.isCompared = !c.isLeftOut := by
  rcases h with ⟨t, rfl⟩ | hmember
  · rfl
  · obtain ⟨k, hk, span, children, rfl⟩ := exists_node hmember
    rw [loosen_node]
    have hkeeps : changes k = false ∨ k = .signalStmt ∨ k = .classDef := by
      revert hk
      cases k <;> decide
    rcases hkeeps with hkeeps | rfl | rfl
    · rw [loosenNode_of_not_changes hkeeps]
      cases k <;> rfl
    · unfold loosenNode
      split <;> first | rfl | simp_all
    · rfl

theorem IsRegular.forall_member (h : (Tree.node k span children).IsRegular)
    (hk : k = .start ∨ k = .classDef) :
    ∀ c ∈ children, (∃ t, c = .token t) ∨ Label.members.admits c.label := by
  have hrow := h.row
  rcases hk with rfl | rfl
  · exact fun c hc => .inr (hrow.forall_mem c hc)
  · obtain ⟨name, members, rfl, hname, hmembers⟩ := hrow.exists_cons
    obtain ⟨t, rfl, -⟩ := exists_leaf hname
    exact forall_mem_cons.mpr ⟨.inl ⟨t, rfl⟩, fun c hc => .inr (hmembers.forall_mem c hc)⟩

theorem filter_loosen
    (h : ∀ c ∈ children, (∃ t, c = .token t) ∨ Label.members.admits c.label) :
    (children.map loosen).filter isCompared =
      (children.filter fun c => !c.isLeftOut).map loosen := by
  rw [filter_map]
  congr 1
  exact filter_congr fun c hc => isCompared_loosen (h c hc)

theorem wordsAll_loosen (h : ∀ c ∈ children, c.loosen.words = c.compared.map normal) :
    wordsAll (children.map loosen) = (children.flatMap compared).map normal := by
  rw [wordsAll_eq_flatMap, flatMap_map, map_flatMap]
  exact flatMap_congr h

end Node

/-- The words of a loosened tree are the normal forms of its literals, as far as they are compared. -/
theorem words_loosen {t : Tree} (h : t.IsRegular) : t.loosen.words = t.compared.map normal := by
  induction h with
  | token t => rfl
  | @node k span children hfits hlocated heach ih =>
    have hregular : (node k span children).IsRegular := .node hfits hlocated heach
    have hall := wordsAll_loosen ih
    rw [loosen_node]
    by_cases hk : changes k = false
    · rw [loosenNode_of_not_changes hk, compared_of_not_changes hk, comparedAll_eq_flatMap]
      exact hall
    · cases k <;> simp only [changes, not_true_eq_false] at hk
      case string | rawString =>
        obtain ⟨l, rfl, -⟩ := hregular.exists_literal rfl
        rfl
      case parExpr | parPattern =>
        obtain ⟨c, rfl, -⟩ := hregular.row.exists_singleton
        simpa [compared, comparedAll_eq_flatMap, loosenNode] using ih c mem_cons_self
      case start | classDef =>
        have hmembers := hregular.forall_member (by decide)
        simp only [loosenNode, filter_loosen hmembers, words, compared, comparedAll_members]
        exact wordsAll_loosen fun c hc => ih c (mem_filter.mp hc).1
      case inlinePropertyBody => rfl
      case signalStmt =>
        rw [words_loosenNode_signal, hall, compared, comparedAll_eq_flatMap]
        all_goals rintro ⟨⟩
      case aslessActualNegExpr =>
        obtain ⟨sign, more, rfl, hsign, hmore⟩ := hregular.row.exists_cons
        obtain ⟨t, rfl, -⟩ := exists_leaf hsign
        obtain ⟨c, rfl, -⟩ := hmore.exists_singleton
        have hc := ih c (mem_cons_of_mem _ mem_cons_self)
        simpa [compared, comparedAll_eq_flatMap, loosen, shape, Shape.loosen] using
          (words_loosenNode_negative _ _ _).trans hc

/-! ## Trees that differ in literals -/

theorem withoutLiteralsAll_eq_map (ts : List Tree) :
    withoutLiteralsAll ts = ts.map withoutLiterals := by
  induction ts with
  | nil => rfl
  | cons t ts ih => rw [withoutLiteralsAll, ih, map_cons]

theorem withoutLiterals_node {k : Kind} (hk : holdsLiteral k = false) (span : Option Span)
    (children : List Tree) :
    (node k span children).withoutLiterals = .node k (children.map withoutLiterals) := by
  rw [← withoutLiteralsAll_eq_map]
  cases k <;> first | rfl | cases hk

/-- Up to words a loosened tree can be told from the tree without its literals. -/
theorem skeleton_loosen {t : Tree} (h : t.IsRegular) :
    t.loosen.skeleton = t.withoutLiterals.loosen.skeleton := by
  induction h with
  | token t => rfl
  | @node k span children hfits hlocated heach ih =>
    cases hk : holdsLiteral k with
    | true =>
      have hregular : (node k span children).IsRegular := .node hfits hlocated heach
      obtain ⟨l, rfl, -⟩ := hregular.exists_literal hk
      cases k <;> rfl
    | false =>
      rw [loosen_node, withoutLiterals_node hk, Shape.loosen, loosenAll_eq_map,
        ← skeleton_loosenNode, ← skeleton_loosenNode k (map _ _)]
      simp only [skeletonAll_eq_map, map_map]
      congr 2
      exact map_congr_left ih

theorem exists_of_mem_comparedAll {areMembers : Bool} {children : List Tree} {l : Token}
    (h : l ∈ comparedAll areMembers children) : ∃ c ∈ children, l ∈ c.compared := by
  cases areMembers with
  | false =>
    rw [comparedAll_eq_flatMap] at h
    exact mem_flatMap.mp h
  | true =>
    rw [comparedAll_members] at h
    obtain ⟨c, hc, hl⟩ := mem_flatMap.mp h
    exact ⟨c, (mem_filter.mp hc).1, hl⟩

theorem mem_compared {t : Tree} (h : t.IsRegular) :
    ∀ l ∈ t.compared, l ∈ t.tokens ∧ l.isString := by
  induction h with
  | token t => exact forall_mem_nil _
  | @node k span children hfits hlocated heach ih =>
    intro l hl
    cases hk : holdsLiteral k with
    | true =>
      have hregular : (node k span children).IsRegular := .node hfits hlocated heach
      obtain ⟨m, rfl, hm⟩ := hregular.exists_literal hk
      have hone : (node k span [.token m]).compared = [m] := by
        cases k <;> first | rfl | cases hk
      rw [hone, mem_singleton] at hl
      subst hl
      exact ⟨mem_singleton_self l, hm⟩
    | false =>
      have hinside : ∃ c ∈ children, l ∈ c.compared := by
        cases k <;> first
          | exact exists_of_mem_comparedAll hl
          | cases hl
          | exact nomatch hk
      obtain ⟨c, hc, hl⟩ := hinside
      obtain ⟨hmem, hstring⟩ := ih c hc l hl
      exact ⟨mem_tokensAll.mpr ⟨c, hc, hmem⟩, hstring⟩

end Tree

namespace Safety

theorem checkTree_iff {given formatted : Text} {tree : Tree} (h : parse given = .ok tree) :
    checkTree given formatted = .ok () ↔
      ∃ after, parse formatted = .ok after ∧ tree.loosen.same after.loosen := by
  simp only [checkTree, h, ofSyntax, bind, Except.bind]
  cases parse formatted with
  | error e => simp
  | ok after =>
    by_cases hsame : tree.loosen.same after.loosen <;> simp [compareTrees, hsame]

/-- Trees that differ in literals are the same if the literals that are compared have the same normal
forms. -/
theorem same_iff_forall₂ {t u : Tree} (ht : t.IsRegular) (hu : u.IsRegular)
    (h : t.withoutLiterals = u.withoutLiterals) :
    t.loosen.same u.loosen ↔
      Forall₂ (fun l m => l.normal = m.normal) t.compared u.compared := by
  have hskeleton : t.loosen.skeleton = u.loosen.skeleton := by
    rw [Tree.skeleton_loosen ht, h, Tree.skeleton_loosen hu]
  rw [same_iff_words_eq hskeleton, Tree.words_loosen ht, Tree.words_loosen hu,
    ← forall₂_eq_eq_eq, forall₂_map_left_iff, forall₂_map_right_iff]

/-- If two texts differ in nothing but string literals, the comparison of their trees passes exactly if
the literals outside annotations and properties of classes have the same normal forms, pair by pair.
Such literals stand for the same, where normal forms tell values apart. -/
theorem checkTree_literals {given formatted : Text} {t u : Tree} (ht : parse given = .ok t)
    (hu : parse formatted = .ok u) (h : t.withoutLiterals = u.withoutLiterals) :
    (checkTree given formatted = .ok () ↔
        List.Forall₂ (fun l m => l.normal = m.normal) t.compared u.compared) ∧
      (checkTree given formatted = .ok () →
        List.Forall₂ (fun l m => Token.Discerned l m → l.value = m.value) t.compared u.compared) := by
  have hregular := (isRegular_of_parse ht).1
  have hregular' := (isRegular_of_parse hu).1
  have hiff : checkTree given formatted = .ok () ↔
      List.Forall₂ (fun l m => l.normal = m.normal) t.compared u.compared := by
    rw [checkTree_iff ht, ← same_iff_forall₂ hregular hregular' h]
    simp [hu]
  refine ⟨hiff, fun hpasses => ?_⟩
  obtain ⟨hlength, hnormal⟩ := List.forall₂_iff_zip.mp (hiff.mp hpasses)
  refine List.forall₂_iff_zip.mpr ⟨hlength, fun {l m} hmem hdiscerned => ?_⟩
  obtain ⟨hl, hstring⟩ := Tree.mem_compared hregular l (of_mem_zip hmem).1
  obtain ⟨hm, hstring'⟩ := Tree.mem_compared hregular' m (of_mem_zip hmem).2
  exact Token.value_eq_of_normal (Parse.isScanned_of_parse ht l hl) hstring
    (Parse.isScanned_of_parse hu m hm) hstring' hdiscerned (hnormal hmem)

/-- An escaped mark in its own marks and the same mark in others. -/
theorem checkTree_literals_escapedMark :
    ∃ t u, parse "var x = 'a\\'b'".toList = .ok t ∧ parse "var x = \"a'b\"".toList = .ok u ∧
      t.withoutLiterals = u.withoutLiterals ∧
      checkTree "var x = 'a\\'b'".toList "var x = \"a'b\"".toList = .ok () ∧
      List.Forall₂ (fun l m => l.value = m.value) t.compared u.compared := by
  let l : Token := ⟨.regularString, some "'a\\'b'".toList, ⟨some 1, some 9, some 1, some 15⟩, some 8⟩
  let m : Token := ⟨.regularString, some "\"a'b\"".toList, ⟨some 1, some 9, some 1, some 14⟩, some 8⟩
  have hgiven : (parse "var x = 'a\\'b'".toList).toOption.map (·.compared) = some [l] := by
    decide +kernel
  have hformatted : (parse "var x = \"a'b\"".toList).toOption.map (·.compared) = some [m] := by
    decide +kernel
  have hshape : (parse "var x = 'a\\'b'".toList).toOption.map (·.withoutLiterals) =
      (parse "var x = \"a'b\"".toList).toOption.map (·.withoutLiterals) := by decide +kernel
  cases ht : parse "var x = 'a\\'b'".toList with
  | error => rw [ht] at hgiven; cases hgiven
  | ok t =>
    cases hu : parse "var x = \"a'b\"".toList with
    | error => rw [hu] at hformatted; cases hformatted
    | ok u =>
      rw [ht] at hgiven hshape
      rw [hu] at hformatted hshape
      have hl : t.compared = [l] := Option.some.inj hgiven
      have hm : u.compared = [m] := Option.some.inj hformatted
      have hsame : t.withoutLiterals = u.withoutLiterals := Option.some.inj hshape
      obtain ⟨hiff, hvalue⟩ := checkTree_literals ht hu hsame
      rw [hl, hm] at hiff hvalue
      have hpasses := hiff.mpr (.cons (by decide) .nil)
      refine ⟨t, u, rfl, rfl, hsame, hpasses, ?_⟩
      rw [hl, hm]
      exact .cons ((List.forall₂_cons.mp (hvalue hpasses)).1 (.ordinary rfl rfl rfl rfl)) .nil

/-- Annotations of a class are not compared. -/
theorem checkTree_annotation :
    let given := "@x(\"a\")\nvar x".toList
    let formatted := "@x(\"b\")\nvar x".toList
    (do
      let t ← parse given
      let u ← parse formatted
      return t.withoutLiterals.same u.withoutLiterals).toOption = some true ∧
    (checkTree given formatted).isOk = true ∧
    (parse given).toOption.map (·.strings.map Token.value) = some [[.char 'a']] ∧
    (parse formatted).toOption.map (·.strings.map Token.value) = some [[.char 'b']] := by
  decide +kernel

end Safety

end GDWorkbench
