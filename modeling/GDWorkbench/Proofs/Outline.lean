import GDWorkbench.Outline
import GDWorkbench.Proofs.Outline.Contents

/-!
Every regular tree has an outline, unless it ignores a warning: whether such an annotation belongs to
the next statement depends on its first argument, and there may be none. The outline of a function lists
what its blocks hold; all members of a class have a place in the text and are of the kinds that a class is
made of. Classes and functions are listed in the order of the text, static functions apart, and below a
function the statements of its blocks, with the guards of branches among them.
-/

namespace GDWorkbench

open List Label GDWorkbench.Tree

variable {ts : List Tree} {t : Tree} {children : List Tree} {span : Option Span}

namespace Outline

namespace Statement

variable {kinds : List Kind} {block : List Tree}

/-! ## Statements -/

def trees (ss : List Statement) : List Tree :=
  (withNested ss).map tree

theorem trees_cons (s : Statement) (ss : List Statement) :
    trees (s :: ss) = s.tree :: s.nested.map tree ++ trees ss := by
  rw [trees, withNested, map_append, map_cons]
  rfl

theorem trees_append (ss us : List Statement) : trees (ss ++ us) = trees ss ++ trees us := by
  induction ss with
  | nil => rfl
  | cons s ss ih => rw [cons_append, trees_cons, trees_cons, ih, append_assoc]

/-- The tree makes a statement, and what its blocks hold is inside. -/
def Makes (t : Tree) : Prop :=
  Gives (ofTree t) fun s => s.tree = t ∧ s.nested.map tree = t.statements true

def Holds (held : List Tree) (x : Except Fault (List Statement)) : Prop :=
  Gives x fun ss => trees ss = held

theorem holds_ofTrees (h : ∀ t ∈ ts, Makes t) :
    Holds (ts.flatMap fun t => t :: t.statements true) (ofTrees 0 ts) := by
  induction ts with
  | nil => exact gives_ok rfl
  | cons t ts ih =>
    obtain ⟨ht, hts⟩ := forall_mem_cons.mp h
    rw [ofTrees]
    refine ht.bind fun s hs => (ih hts).bind fun ss hss => gives_ok ?_
    rw [trees_cons, hs.1, hs.2, hss, flatMap_cons]

theorem holds_ofBranches (h : ∀ t ∈ ts, Holds (t.statements true) (ofBranch t)) :
    Holds (ts.flatMap (Tree.statements true)) (ofBranches ts) := by
  induction ts with
  | nil => exact gives_ok rfl
  | cons t ts ih =>
    obtain ⟨ht, hts⟩ := forall_mem_cons.mp h
    rw [ofBranches]
    refine ht.bind fun ss hss => (ih hts).bind fun us hus => gives_ok ?_
    rw [trees_append, hss, hus, flatMap_cons]

/-- Kinds of trees whose children are statements behind a condition or a pattern, or have none. -/
def isBranch : Kind → Bool
  | .ifBranch | .elifBranch | .elseBranch | .matchBranch | .guardedMatchBranch | .pattern
  | .expr => true
  | _ => false

/-- Everything but the bodies of properties and branches may be a statement. -/
def isEligible : Kind → Bool
  | .propertyBodyDef | .ifBranch | .elifBranch | .elseBranch | .matchBranch | .guardedMatchBranch => false
  | _ => true

def IsOf (p : Kind → Bool) (t : Tree) : Prop :=
  ∃ k, t.isKind k = true ∧ p k = true

theorem isOf_of_admits {p : Kind → Bool} (h : (Label.nodes kinds).admits t.label)
    (hkinds : ∀ k ∈ kinds, p k) : IsOf p t := by
  obtain ⟨k, hk, span, children, rfl⟩ := Label.exists_node h
  exact ⟨k, decide_eq_true rfl, hkinds k hk⟩

/-- What is known of the children of a node when it comes to the node itself. -/
structure Ready (t : Tree) : Prop where
  makes : IsOf isEligible t → Makes t
  branch : IsOf isBranch t → Holds (t.statements true) (ofBranch t)

section Node

variable {k : Kind} {span : Option Span} {children : List Tree}
  (hfits : k.children.Fits (children.map label)) (hready : ∀ t ∈ children, Ready t)

include hready

theorem holds_block (hblock : block <:+ children) (hrow : Label.statements.Row [] (block.map label)) :
    Holds (statementsIn true k block) (ofTrees 0 block) := by
  rw [statementsIn_block hrow]
  exact holds_ofTrees fun t ht => (hready t (hblock.subset ht)).makes
    (isOf_of_admits (hrow.forall_mem t ht) (by decide))

theorem holds_branches (h : ∀ t ∈ children, IsOf isBranch t)
    (hcounts : ∀ t ∈ children, k.counts true t.label = false) :
    Holds (statementsIn true k children) (ofBranches children) := by
  rw [statementsIn_branches hcounts]
  exact holds_ofBranches fun t ht => (hready t ht).branch (h t ht)

include hfits

theorem holds_branch (hk : isBranch k) :
    Holds ((Tree.node k span children).statements true) (ofBranch (.node k span children)) := by
  rw [ofBranch]
  cases k <;> try cases hk
  case ifBranch | elifBranch | matchBranch =>
    obtain ⟨c, block, rfl, hc, hrow⟩ := hfits.exists_cons
    rw [statements_eq rfl, statementsIn_cons_of_admits hc (by decide)]
    exact holds_block hready (suffix_cons c block) hrow
  case elseBranch => exact holds_block hready suffix_rfl hfits
  case guardedMatchBranch =>
    -- The guard is taken for the first statement of the branch.
    obtain ⟨c, rest, rfl, hc, hrest⟩ := hfits.exists_cons
    obtain ⟨e, block, rfl, he, hrow⟩ := hrest.exists_cons
    rw [statements_eq rfl, statementsIn_cons_of_admits hc (by decide), statementsIn]
    have hmakes := (hready e (by simp)).makes (isOf_of_admits he (by decide))
    obtain ⟨span', inner, rfl⟩ := exists_node_of_mem he
    have hblock := holds_block (k := .guardedMatchBranch) hready ⟨[c, _], rfl⟩ hrow
    refine hmakes.bind fun s hs => hblock.bind fun ss hss => gives_ok ?_
    rw [trees_cons, hs.1, hs.2, hss]
    rfl
  case pattern | expr =>
    obtain ⟨c, rfl, -⟩ := hfits.exists_singleton
    exact gives_ok rfl

theorem makes_node (h : isEligible k) : Makes (.node k span children) := by
  have hmakes {inner : Except Fault (List Statement)}
      (hinner : Holds ((Tree.node k span children).statements true) inner)
      (heq : ofTree (.node k span children) = inner >>= fun inner =>
        .ok (.mk (.node k span children) [] inner)) : Makes (.node k span children) := by
    rw [Makes, heq]
    exact hinner.bind fun inner hinner => gives_ok ⟨rfl, hinner⟩
  cases k
  case propertyBodyDef | ifBranch | elifBranch | elseBranch | matchBranch | guardedMatchBranch => cases h
  case funcDef | whileStmt =>
    obtain ⟨c, block, rfl, hc, hrow⟩ := hfits.exists_cons
    refine hmakes ?_ rfl
    rw [statements_eq rfl, statementsIn_cons_of_admits hc (by decide)]
    exact holds_block hready (suffix_cons c block) hrow
  case staticFuncDef =>
    obtain ⟨c, rfl, -⟩ := hfits.exists_singleton
    exact hmakes (gives_ok rfl) rfl
  case forStmt =>
    obtain ⟨name, rest, rfl, hname, hrow⟩ := hfits.exists_cons
    obtain ⟨e, block, rfl, he, hrow⟩ := hrow.exists_cons
    refine hmakes ?_ rfl
    rw [statements_eq rfl, statementsIn_cons_of_admits hname (by decide),
      statementsIn_cons_of_admits he (by decide)]
    exact holds_block hready ⟨[name, e], rfl⟩ hrow
  case forStmtTyped =>
    obtain ⟨name, rest, rfl, hname, hrow⟩ := hfits.exists_cons
    obtain ⟨hint, rest, rfl, hhint, hrow⟩ := hrow.exists_cons
    obtain ⟨e, block, rfl, he, hrow⟩ := hrow.exists_cons
    refine hmakes ?_ rfl
    rw [statements_eq rfl, statementsIn_cons_of_admits hname (by decide),
      statementsIn_cons_of_admits hhint (by decide),
      statementsIn_cons_of_admits he (by decide)]
    exact holds_block hready ⟨[name, hint, e], rfl⟩ hrow
  case ifStmt | matchStmt =>
    obtain ⟨first, rest, rfl, hfirst, hrow⟩ := hfits.exists_cons
    refine hmakes (holds_branches hready (forall_mem_cons.mpr ⟨?_, fun t ht => ?_⟩)
      (forall_mem_cons.mpr ⟨?_, fun t ht => ?_⟩)) rfl
    · exact isOf_of_admits hfirst (by decide)
    · exact isOf_of_admits (hrow.forall_mem t ht) (by decide)
    · exact Kind.counts_eq_false hfirst (by decide)
    · exact Kind.counts_eq_false (hrow.forall_mem t ht) (by decide)
  all_goals exact hmakes (gives_ok rfl) rfl

end Node

theorem ready_of_isRegular (h : t.IsRegular) : Ready t := by
  induction h with
  | token t => exact ⟨by rintro ⟨_, ⟨⟩, -⟩, by rintro ⟨_, ⟨⟩, -⟩⟩
  | @node k span children hfits hlocated heach ih =>
    have hkind {k' : Kind} (h : (Tree.node k span children).isKind k') : k = k' :=
      Option.some.inj (of_decide_eq_true h)
    constructor
    · rintro ⟨k', hk, heligible⟩
      exact makes_node hfits ih (hkind hk ▸ heligible)
    · rintro ⟨k', hk, hbranch⟩
      exact holds_branch hfits ih (hkind hk ▸ hbranch)

end Statement

/-! ## Functions -/

namespace Function

theorem succeeds_parameter {k : Kind}
    (h : (Tree.node k span children).IsArgument) (hk : k ≠ .trailingComma) :
    Succeeds (parameter (.node k span children)) := by
  cases h with
  | plain hkind hnamed =>
    dsimp only [parameter, Tree.kind, bind, Except.bind]
    split
    · exact absurd rfl hkind
    · exact hnamed.word.bind fun _ => succeeds_ok
  | comma => exact absurd rfl hk
  | variadic span hnamed => exact hnamed.word.bind fun _ => succeeds_ok

theorem succeeds_parametersOf {arguments : List Tree} (h : ∀ a ∈ arguments, a.IsArgument) :
    Succeeds (parametersOf arguments) := by
  induction arguments with
  | nil => exact succeeds_ok
  | cons a arguments ih =>
    obtain ⟨ha, hrest⟩ := forall_mem_cons.mp h
    have hmore := ih hrest
    cases a with
    | token t => cases ha
    | node k span children =>
      dsimp only [parametersOf, Tree.kind, bind, Except.bind]
      split
      · exact hmore
      · rename_i hk
        exact (succeeds_parameter ha hk).bind fun _ => hmore.bind fun _ => succeeds_ok

theorem gives_ofStatement {s : Statement} (h : s.tree.IsRegular)
    (hk : s.isKind .funcDef ∨ s.isKind .abstractFuncDef) :
    Gives (ofStatement s) fun f => f.statement = s := by
  obtain ⟨k, span, children, htree, hfunction⟩ : ∃ k span children, s.tree = .node k span children ∧
      (k = .funcDef ∨ k = .abstractFuncDef) := by
    rcases hk with hk | hk
    · obtain ⟨span, children, htree⟩ := exists_of_isKind hk
      exact ⟨_, span, children, htree, .inl rfl⟩
    · obtain ⟨span, children, htree⟩ := exists_of_isKind hk
      exact ⟨_, span, children, htree, .inr rfl⟩
  rw [htree] at h
  obtain ⟨header, rest, name, arguments, rfl, ⟨k', span', list, more, rfl⟩, hname, harguments⟩ :=
    h.exists_header hfunction
  have hnamed : (Tree.node k' span' (.token name :: .node .funcArgs list arguments :: more)).IsNamed :=
    ⟨_, _, _, _, rfl, hname⟩
  rw [ofStatement, htree]
  refine Gives.bind (gives_ok rfl) fun header hheader => ?_
  subst hheader
  exact hnamed.nameToken.bind fun _ _ => (succeeds_parametersOf harguments).bind fun _ => gives_ok rfl

end Function

end Outline

/-! ## Annotations -/

def Tree.IgnoresNothing (t : Tree) : Prop :=
  ∀ a ∈ t.subtreesOf .annot, Annotations.isNamed "warning_ignore" a = false

instance (t : Tree) : Decidable t.IgnoresNothing :=
  inferInstanceAs (Decidable (∀ a ∈ t.subtreesOf .annot, Annotations.isNamed "warning_ignore" a = false))

theorem Tree.IgnoresNothing.child {c : Tree} (h : t.IgnoresNothing) (hc : c ∈ t.children) :
    c.IgnoresNothing := by
  intro a ha
  obtain ⟨hkind, hinside⟩ := mem_subtreesOf_iff.mp ha
  exact h a (mem_subtreesOf_iff.mpr ⟨hkind, .child hc hinside⟩)

theorem Annotations.delivers_belongsToNext {sure : Prop} (h : t.IsRegular) (hignores : sure → t.IgnoresNothing) :
    Delivers sure (belongsToNext t) fun belongs => belongs → t.isKind .annot := by
  cases hkind : t.isKind .annot with
  | false =>
    rw [belongsToNext, hkind]
    exact delivers_ok fun h => h
  | true =>
    refine ⟨fun belongs _ _ => rfl, fun hsure => ?_⟩
    have hother := hignores hsure t (Tree.mem_subtreesOf_iff.mpr ⟨hkind, .refl⟩)
    obtain ⟨span, children, rfl⟩ := exists_of_isKind hkind
    obtain ⟨name, hname, -⟩ := (h.isNamed (by decide)).word
    rw [isNamed, Annotations.name, hname] at hother
    rw [belongsToNext, if_neg (by simp [hkind]), Annotations.name, hname]
    change Succeeds (if _ then _ else _)
    split
    · exact succeeds_ok
    · split
      · exact succeeds_ok
      · rename_i heq
        exact absurd (Decidable.not_not.mp heq) (of_decide_eq_false hother)

namespace Outline

/-! ## Classes -/

/-- A statement of a class. -/
structure Statement.IsMember (s : Statement) : Prop where
  regular : s.tree.IsRegular
  located : s.tree.span?.isSome = true
  kind : Label.members.admits s.tree.label = true
  isStatement : s.isKind .propertyBodyDef = false

def Function.IsLocated (f : Function) : Prop :=
  ∀ s ∈ f.statements, s.tree.span?.isSome = true

/-- A class with members has a place. -/
structure Class.IsSound (c : Class) : Prop where
  located : c.members ≠ [] → c.tree.span?.isSome = true
  statements : ∀ s ∈ c.statements, s.IsMember

def isStatic (t : Tree) : Bool :=
  t.isKind .staticFuncDef

/-- What is known of the members that trees make, and of the classes and functions among them at any
depth. Static functions are left out. -/
structure Member.AreSound (ts : List Tree) (ms : List Member) : Prop where
  statements : ∀ m ∈ ms, m.asStatement.IsMember
  classes : ∀ c ∈ Class.nestedIn ms, c.IsSound
  functions : ∀ f ∈ Class.functionsIn ms, f.IsLocated
  classTrees : (Class.nestedIn ms).map Class.tree = classesIn ts
  functionTrees : (Class.functionsIn ms).map (·.statement.tree) =
    (Tree.functionsIn ts).filter (!isStatic ·)

namespace Member.AreSound

variable {s : Statement} {ms : List Member}

theorem nil : AreSound [] [] :=
  ⟨forall_mem_nil _, forall_mem_nil _, forall_mem_nil _, rfl, rfl⟩

/-- Nothing is lost with a tree that defines nothing. -/
theorem skip (hclasses : t.classes = []) (hfunctions : t.functions.filter (!isStatic ·) = [])
    (h : AreSound ts ms) : AreSound (t :: ts) ms where
  statements := h.statements
  classes := h.classes
  functions := h.functions
  classTrees := by rw [h.classTrees, classesIn, hclasses, nil_append]
  functionTrees := by rw [h.functionTrees, Tree.functionsIn, filter_append, hfunctions, nil_append]

theorem statement (hs : s.IsMember) (h : AreSound ts ms) : AreSound ts (.statement s :: ms) :=
  ⟨forall_mem_cons.mpr ⟨hs, h.statements⟩, h.classes, h.functions, h.classTrees, h.functionTrees⟩

theorem function {f : Function} (hs : f.statement.IsMember) (hf : f.IsLocated)
    (hclasses : f.statement.tree.classes = [])
    (hfunctions : f.statement.tree.functions.filter (!isStatic ·) = [f.statement.tree])
    (h : AreSound ts ms) : AreSound (f.statement.tree :: ts) (.function f :: ms) where
  statements := forall_mem_cons.mpr ⟨hs, h.statements⟩
  classes := h.classes
  functions := forall_mem_cons.mpr ⟨hf, h.functions⟩
  classTrees := by rw [classesIn, hclasses, nil_append, ← h.classTrees, Class.nestedIn]
  functionTrees := by
    rw [Tree.functionsIn, filter_append, hfunctions, ← h.functionTrees, Class.functionsIn, map_cons]
    rfl

theorem innerClass {c : Class} (hs : s.IsMember)
    (htree : c.tree = .node .classDef span children) (hc : c.tree.span?.isSome)
    (hmembers : AreSound children c.members) (h : AreSound ts ms) :
    AreSound (.node .classDef span children :: ts) (.innerClass s c :: ms) := by
  obtain ⟨t, name, inner⟩ := c
  obtain rfl : t = _ := htree
  have hsound : Class.IsSound (.mk (.node .classDef span children) name inner) :=
    ⟨fun _ => hc, forall_mem_map.mpr hmembers.statements⟩
  refine ⟨forall_mem_cons.mpr ⟨hs, h.statements⟩, ?_, ?_, ?_, ?_⟩
  · exact forall_mem_append.mpr ⟨forall_mem_cons.mpr ⟨hsound, hmembers.classes⟩, h.classes⟩
  · exact forall_mem_append.mpr ⟨hmembers.functions, h.functions⟩
  · rw [classesIn, Tree.classes, if_pos (by decide), ← h.classTrees, ← hmembers.classTrees,
      Class.nestedIn, map_append]
    rfl
  · rw [Tree.functionsIn, Tree.functions, if_neg (by decide), filter_append, ← h.functionTrees,
      ← hmembers.functionTrees, Class.functionsIn, map_append]
    rfl

end Member.AreSound

namespace Class

section Makes

-- Whether there is an outline for sure.
variable {sure : Prop}

def Makes (sure : Prop) (t : Tree) : Prop :=
  Delivers sure (ofTree t) fun c =>
    c.tree = t ∧ (c.members ≠ [] → t.children ≠ []) ∧ Member.AreSound t.children c.members

/-- What is known of a child of a class. -/
structure Ready (sure : Prop) (t : Tree) : Prop where
  conforms : t.Conforms Fragment.keepsTokens
  regular : t.IsRegular
  located : t.span?.isSome = true
  ignoresNothing : sure → t.IgnoresNothing
  kind : Label.members.admits t.label = true
  makes : t.isKind .classDef = true → Makes sure t

theorem Ready.skip {k : Kind} {ms : List Member}
    (ht : Ready sure (.node k span children)) (hk : k ∉ [.classDef, .funcDef, .abstractFuncDef])
    (h : Member.AreSound ts ms) : Member.AreSound (.node k span children :: ts) ms := by
  obtain ⟨_, hmem, _, _, heq⟩ := exists_node ht.kind
  obtain ⟨rfl, -⟩ := Tree.node.inj heq
  have hclass : (Label.node k).definesClass = false :=
    (by decide : ∀ k ∈ _, k ∉ [Kind.classDef, .funcDef, .abstractFuncDef] →
      (Label.node k).definesClass = false) k hmem hk
  refine h.skip (ht.conforms.classes_eq_nil hclass) ?_
  by_cases hstatic : k = .staticFuncDef
  · subst hstatic
    rfl
  · rw [ht.conforms.functions_eq_nil, filter_nil]
    exact (by decide : ∀ k ∈ _, k ∉ [Kind.classDef, .funcDef, .abstractFuncDef] →
      k ≠ .staticFuncDef → (Label.node k).isDefinition = false) k hmem hk hstatic

theorem gives_function {s : Statement} (ht : Ready sure s.tree) (hs : s.IsMember)
    (hnested : s.nested.map Statement.tree = s.tree.statements true)
    (hk : s.isKind .funcDef ∨ s.isKind .abstractFuncDef) :
    Gives (Function.ofStatement s) fun f =>
      ∀ ts ms, Member.AreSound ts ms → Member.AreSound (s.tree :: ts) (.function f :: ms) := by
  refine (Function.gives_ofStatement hs.regular hk).mono fun f hf ts ms hms => ?_
  subst hf
  have hlocated : f.IsLocated := by
    refine forall_mem_cons.mpr ⟨hs.located, fun u hu => ?_⟩
    exact hs.regular.span_of_mem_statements _ (hnested ▸ mem_map_of_mem hu)
  have hlabel : f.statement.tree.label.definesClass = false ∧
      f.statement.tree.functions.filter (!isStatic ·) = [f.statement.tree] := by
    rcases hk with hk | hk <;>
    · obtain ⟨span, children, htree⟩ := exists_of_isKind hk
      rw [htree]
      exact ⟨rfl, rfl⟩
  exact .function hs hlocated (ht.conforms.classes_eq_nil hlabel.1) hlabel.2 hms

theorem delivers_membersOf (h : ∀ t ∈ ts, Ready sure t) (pending : List Text) :
    Delivers sure (membersOf 0 pending ts) (Member.AreSound ts) := by
  induction ts generalizing pending with
  | nil => exact delivers_ok .nil
  | cons t ts ih =>
    obtain ⟨ht, hts⟩ := forall_mem_cons.mp h
    rw [membersOf]
    refine (Annotations.delivers_belongsToNext ht.regular ht.ignoresNothing).bind fun belongs hbelongs => ?_
    cases belongs with
    | true =>
      obtain ⟨span, children, rfl⟩ := exists_of_isKind (hbelongs rfl)
      obtain ⟨name, hname, -⟩ := (ht.regular.isNamed (by decide)).word
      rw [if_pos rfl, Annotations.name, hname]
      exact (ih hts _).mono fun ms hms => ht.skip (by decide) hms
    | false =>
      obtain ⟨k, hmem, span, children, rfl⟩ := exists_node ht.kind
      rw [if_neg Bool.false_ne_true]
      change Delivers sure (pure k >>= _) _
      rw [pure_bind]
      split
      · exact (ih hts pending).mono fun ms hms => ht.skip (by decide) hms
      rename_i hk
      have hbody : (Tree.node k span children).isKind .propertyBodyDef = false :=
        decide_eq_false fun h => hk (Option.some.inj h)
      have hready := Statement.ready_of_isRegular ht.regular
      have heligible : Statement.isEligible k :=
        (by decide : ∀ k ∈ _, k ≠ .propertyBodyDef → Statement.isEligible k) k hmem hk
      refine (hready.makes ⟨k, decide_eq_true rfl, heligible⟩).delivers.bind fun s hnested => ?_
      obtain ⟨t, _, inner⟩ := s
      replace hnested := hnested.2
      have hs : (Statement.mk (.node k span children) pending inner).IsMember :=
        ⟨ht.regular, ht.located, ht.kind, hbody⟩
      dsimp only
      split
      · refine (ht.makes rfl).bind fun c hc => (ih hts []).bind fun ms hms => delivers_ok ?_
        exact .innerClass hs hc.1 (hc.1 ▸ ht.located) hc.2.2 hms
      · refine (gives_function ht hs hnested (.inl rfl)).delivers.bind fun f hf => ?_
        exact (ih hts []).bind fun ms hms => delivers_ok (hf ts ms hms)
      · refine (gives_function ht hs hnested (.inr rfl)).delivers.bind fun f hf => ?_
        exact (ih hts []).bind fun ms hms => delivers_ok (hf ts ms hms)
      · rename_i hclass hfunction habstract
        refine (ih hts []).bind fun ms hms => delivers_ok (.statement hs (ht.skip ?_ hms))
        simpa using ⟨hclass, hfunction, habstract⟩

theorem makes_of_isRegular (hconforms : t.Conforms Fragment.keepsTokens) (h : t.IsRegular)
    (hignores : sure → t.IgnoresNothing)
    (hkind : t.isKind .start ∨ t.isKind .classDef) : Makes sure t := by
  induction h with
  | token t => rcases hkind with h | h <;> cases h
  | @node k span children hfits hlocated heach ih =>
    have hready {ts : List Tree} (hts : ts <:+ children)
        (hrow : Label.members.Row [] (ts.map label)) : ∀ t ∈ ts, Ready sure t := fun t ht =>
      have hmem := hts.subset ht
      have hsub := fun hsure => (hignores hsure).child hmem
      ⟨hconforms.child hmem, heach t hmem, hlocated t hmem, hsub, hrow.forall_mem t ht,
        fun hclass => ih t hmem (hconforms.child hmem) hsub (.inr hclass)⟩
    rcases hkind with hkind | hkind <;>
      obtain rfl : k = _ := Option.some.inj (of_decide_eq_true hkind)
    · have hmembers := delivers_membersOf (hready suffix_rfl hfits) []
      rw [Makes, ofTree]
      refine (delivers_self hmembers).bind fun ms hms => delivers_ok ⟨rfl, fun hne hnil => hne ?_, hms.2⟩
      obtain rfl : children = [] := hnil
      exact (Except.ok.inj hms.1).symm
    · have hnamed : (Tree.node .classDef span children).IsNamed :=
        (Tree.IsRegular.node hfits hlocated heach).isNamed (by decide)
      obtain ⟨name, members, rfl, hname, hrow⟩ := hfits.exists_cons
      obtain ⟨token, rfl, -⟩ := exists_leaf hname
      have hmembers := delivers_membersOf (hready (suffix_cons _ _) hrow) []
      rw [Makes, ofTree]
      refine hnamed.nameToken.delivers.bind fun name _ => hmembers.bind fun ms hms => delivers_ok ?_
      exact ⟨rfl, fun _ => cons_ne_nil _ _, hms.skip rfl rfl⟩

end Makes

end Class

theorem delivers_ofTree (sure : Prop) (hconforms : t.Conforms Fragment.keepsTokens) (h : t.IsRegular)
    (hstart : t.isKind .start) (hspan : t.children ≠ [] → t.span?.isSome)
    (hignores : sure → t.IgnoresNothing) :
    Delivers sure (Class.ofTree t) fun file =>
      (∀ c ∈ classes file, c.IsSound) ∧ (∀ f ∈ file.allFunctions, f.IsLocated) ∧
      (classes file).map Class.tree = t.classes ∧
      file.allFunctions.map (·.statement.tree) = t.functions.filter (!isStatic ·) := by
  refine (Class.makes_of_isRegular hconforms h hignores (.inl hstart)).mono fun file hfile => ?_
  obtain ⟨htree, hmembers, hsound⟩ := hfile
  obtain ⟨t, name, ms⟩ := file
  obtain rfl : t = _ := htree
  obtain ⟨span, children, rfl⟩ := exists_of_isKind hstart
  have hfile : Class.IsSound (.mk (.node .start span children) name ms) :=
    ⟨fun hne => hspan (hmembers hne), forall_mem_map.mpr hsound.statements⟩
  refine ⟨forall_mem_cons.mpr ⟨hfile, hsound.classes⟩, hsound.functions, ?_, hsound.functionTrees⟩
  exact congrArg (Tree.node .start span children :: ·) hsound.classTrees

/-! ## What is listed -/

variable {code : Text} {root : Tree}

/-- Every class is listed, and every function that is not static. -/
theorem ofTree_lists_definitions {file : Class} (hparse : parse code = .ok root)
    (hfile : Class.ofTree root = .ok file) :
    (classes file).map Class.tree = root.classes ∧
      file.allFunctions.map (·.statement.tree) = root.functions.filter (!isStatic ·) ∧
      (file.allFunctions.map (·.statement.tree) = root.functions ↔
        ∀ t ∈ root.functions, isStatic t = false) := by
  obtain ⟨hregular, hkind, hspan⟩ := isRegular_of_parse hparse
  obtain ⟨-, -, hclasses, hfunctions⟩ := (delivers_ofTree False (conforms_of_parse hparse)
    hregular (decide_eq_true hkind) hspan False.elim).1 file hfile
  refine ⟨hclasses, hfunctions, ?_⟩
  rw [hfunctions, filter_eq_self]
  simp

def nestedClasses : Text :=
  "func f():\n\tpass\nclass A:\n\tclass B:\n\t\tfunc g():\n\t\t\tpass\n".toList

theorem ofTree_lists_nestedClasses :
    ∃ root file, parse nestedClasses = .ok root ∧ Class.ofTree root = .ok file ∧
      (classes file).map Class.tree = root.classes ∧ root.classes.length = 3 ∧
      file.allFunctions.map (·.statement.tree) = root.functions ∧ root.functions.length = 2 := by
  have hparse : (parse nestedClasses).toOption.any (fun root => decide (root.classes.length = 3 ∧
      root.functions.length = 2 ∧ (∀ t ∈ root.functions, isStatic t = false) ∧
      (Class.ofTree root).isOk = true)) = true := by
    decide +kernel
  obtain ⟨root, hroot, hthree, hfunctions, hplain, hok⟩ := exists_eq_ok_of_any hparse
  obtain ⟨file, hfile, -⟩ := succeeds_of_isOk hok
  obtain ⟨hclasses, -, hall⟩ := ofTree_lists_definitions hroot hfile
  exact ⟨root, file, hroot, hfile, hclasses, hthree, hall.mpr hplain, hfunctions⟩

def staticFunction : Text :=
  "static func f():\n\tpass\n".toList

theorem ofTree_misses_staticFunction :
    ∃ root file, parse staticFunction = .ok root ∧ Class.ofTree root = .ok file ∧
      root.functions.length = 1 ∧ file.allFunctions = [] := by
  have hparse : (parse staticFunction).toOption.any (fun root => decide (root.functions.length = 1 ∧
      (Class.ofTree root).toOption.any (fun file => decide (file.allFunctions.length = 0)) = true)) = true := by
    decide +kernel
  obtain ⟨root, hroot, hone, hnone⟩ := exists_eq_ok_of_any hparse
  obtain ⟨file, hfile, hempty⟩ := exists_eq_ok_of_any hnone
  exact ⟨root, file, hroot, hfile, hone, length_eq_zero_iff.mp hempty⟩

/-- Below a function stands what its blocks hold, in the order of the text. It is the list of its
statements unless there is a guard among them. -/
theorem ofTree_lists_statements {t : Tree} (hparse : parse code = .ok root)
    (ht : t ∈ root.subtreesOf .funcDef) :
    ∃ s f, Statement.ofTree t = .ok s ∧ Function.ofStatement s = .ok f ∧ f.statement = s ∧ s.tree = t ∧
      s.nested.map Statement.tree = t.statements true ∧
      (t.statements true).filter (fun u => Label.statements.admits u.label) = t.statements false ∧
      (s.nested.map Statement.tree = t.statements false ↔
        ∀ u ∈ s.nested, Label.statements.admits u.tree.label = true) := by
  obtain ⟨hkind, hinside⟩ := Tree.mem_subtreesOf_iff.mp ht
  have hregular := hinside.isRegular (isRegular_of_parse hparse).1
  obtain ⟨s, hs, htree, hnested⟩ := (Statement.ready_of_isRegular hregular).makes ⟨_, hkind, rfl⟩
  have hfunction : s.isKind .funcDef = true := by
    rw [Statement.isKind, htree]
    exact hkind
  obtain ⟨f, hf, hstatement⟩ := Function.gives_ofStatement (htree ▸ hregular) (.inl hfunction)
  have hfilter := hregular.filter_statements
  refine ⟨s, f, hs, hf, hstatement, htree, hnested, hfilter, ?_⟩
  rw [← hfilter, ← hnested, eq_comm, filter_eq_self, forall_mem_map]

def nestedBlocks : Text :=
  "func f(x):\n\tfor i: int in x:\n\t\tmatch i:\n\t\t\t_:\n\t\t\t\tpass\n".toList

theorem ofTree_lists_nestedBlocks :
    ∃ root, ∃ t ∈ root.subtreesOf .funcDef, parse nestedBlocks = .ok root ∧
      (t.statements false).length = 3 ∧
      ∃ s, Statement.ofTree t = .ok s ∧ s.nested.map Statement.tree = t.statements false := by
  have hparse : (parse nestedBlocks).toOption.any (fun root => decide (∃ t ∈ root.subtreesOf .funcDef,
      (t.statements false).length = 3 ∧
      (t.statements true).all (Label.statements.admits ·.label) = true)) = true := by
    decide +kernel
  obtain ⟨root, hroot, t, ht, hlength, hplain⟩ := exists_eq_ok_of_any hparse
  obtain ⟨s, -, hs, -, -, -, hnested, hfilter, -⟩ := ofTree_lists_statements hroot ht
  refine ⟨root, t, ht, hroot, hlength, s, hs, ?_⟩
  rw [hnested, ← hfilter, eq_comm, filter_eq_self]
  exact all_eq_true.mp hplain

def guardedBranch : Text :=
  "func f():\n\tmatch x:\n\t\t_ when a:\n\t\t\tpass\n".toList

theorem ofTree_lists_guard :
    ∃ root, ∃ t ∈ root.subtreesOf .funcDef, parse guardedBranch = .ok root ∧
      ∃ s, Statement.ofTree t = .ok s ∧ ∃ u ∈ s.nested, u.isKind .expr = true := by
  have hparse : (parse guardedBranch).toOption.any (fun root => decide (∃ t ∈ root.subtreesOf .funcDef,
      (Statement.ofTree t).toOption.any (fun s => decide (∃ u ∈ s.nested, u.isKind .expr = true)) = true))
      = true := by
    decide +kernel
  obtain ⟨root, hroot, t, ht, hguard⟩ := exists_eq_ok_of_any hparse
  obtain ⟨s, hs, hany⟩ := exists_eq_ok_of_any hguard
  exact ⟨root, t, ht, hroot, s, hs, hany⟩

end Outline

end GDWorkbench
