import GDWorkbench.Proofs.Grammar.Templates
import Mathlib.Data.List.Perm.Basic

/-!
Regular trees: the children of every node have the template of its kind, and all of them have a place in
the text. The tree of a text is regular, and then so are all of its subtrees. Only the root may be
without a place, if the text has no tokens.
-/

namespace GDWorkbench

open List

variable {t : Tree}

/-! ## Nodes with a place -/

/-- Every node has a place. -/
inductive Tree.IsLocated : Tree → Prop
  | token (t : Token) : IsLocated (.token t)
  | node {k : Kind} {span : Span} {children : List Tree}
      (each : ∀ child ∈ children, IsLocated child) : IsLocated (.node k (some span) children)

theorem Tree.IsLocated.isSome_span? (h : t.IsLocated) : t.span?.isSome := by
  cases h <;> rfl

namespace Parse

def Head.mayVanish : Head → Bool
  | .nonterminal (.node .start) | .nonterminal (.part .lambdaSuite)
  | .nonterminal (.part .standaloneLambdaStmt) => true
  | _ => false

/-- A production of anything else has a symbol that cannot vanish. -/
theorem exists_solid_symbol (head : Nonterminal) (h : (Head.nonterminal head).mayVanish = false) :
    ∀ p ∈ head.productions, ∃ s ∈ p.symbols, (headOf s).mayVanish = false := by
  revert head
  decide +kernel

theorem headOf_ne_start (head : Nonterminal) :
    ∀ p ∈ head.productions, ∀ s ∈ p.symbols, headOf s ≠ .nonterminal (.node .start) := by
  revert head
  decide +kernel

theorem build_start : ∀ p ∈ (Nonterminal.node .start).productions, p.build = .node .start := by
  decide +kernel

theorem isSome_extentOf {frames : List (Symbol × Frame)} {f : Symbol × Frame} (hf : f ∈ frames)
    (h : f.2.extent.isSome) : (extentOf frames).isSome := by
  induction frames with
  | nil => cases hf
  | cons first frames ih =>
    obtain ⟨span, hspan⟩ := Option.isSome_iff_exists.mp h
    rw [extentOf]
    rcases mem_cons.mp hf with rfl | hf
    · rw [hspan]
      cases extentOf frames <;> rfl
    · obtain ⟨later, hlater⟩ := Option.isSome_iff_exists.mp (ih hf)
      rw [hlater]
      cases first.2.extent <;> rfl

/-- What a frame holds has a place, and so has the frame if there must be a token in it or if it holds
anything. A whole text has a place if it has children. -/
structure Frame.Located (frame : Frame) : Prop where
  solid : frame.head.mayVanish = false → frame.extent.isSome = true
  filled : frame.head ≠ .nonterminal (.node .start) → frame.trees ≠ [] → frame.extent.isSome = true
  each : frame.head ≠ .nonterminal (.node .start) → ∀ tree ∈ frame.trees, tree.IsLocated
  root : frame.head = .nonterminal (.node .start) → ∀ tree ∈ frame.trees,
    ∀ child ∈ tree.children, child.IsLocated ∧ tree.span?.isSome = true

/-- A production makes located trees of located ones, unless it builds a node that covers nothing. -/
theorem located_build {b : Build} {kept : List Tree} {extent : Option Span}
    (hkept : ∀ tree ∈ kept, tree.IsLocated) (hextent : b = .splice ∨ extent.isSome) :
    (∀ tree ∈ (build b kept extent).1, tree.IsLocated) ∧
      (extent.isSome → (build b kept extent).2.isSome) := by
  have hnode (k : Kind) (h : extent.isSome) :
      ∀ tree ∈ [Tree.node k extent kept], tree.IsLocated := by
    obtain ⟨span, rfl⟩ := Option.isSome_iff_exists.mp h
    exact forall_mem_singleton.mpr (.node hkept)
  unfold build
  split
  · exact ⟨hkept, id⟩
  · exact ⟨hnode _ (hextent.resolve_left nofun), id⟩
  · exact ⟨forall_mem_singleton.mpr (.token _), fun _ => rfl⟩
  · refine ⟨forall_mem_singleton.mpr ?_, id⟩
    cases hkept _ mem_cons_self with
    | token t => exact .token t
    | node heach => exact .node heach
  · exact ⟨hnode _ (hextent.resolve_left nofun), id⟩

theorem tracks_located : Tracks fun frame _ => frame.Located where
  shift state t :=
    { solid := fun _ => rfl
      filled := fun _ _ => rfl
      each := fun _ => forall_mem_singleton.mpr (.token t)
      root := nofun }
  complete := by
    intro head p hp frames words hsymbols hheads hwords target
    have hframes : ∀ f ∈ frames, f.2.Located := by
      intro f hf
      obtain ⟨i, hi, rfl⟩ := getElem_of_mem hf
      exact (forall₂_iff_get.mp hwords).2 i hi (by rwa [← hwords.length_eq])
    have hinner : ∀ f ∈ frames, f.2.head ≠ .nonterminal (.node .start) := by
      intro f hf
      rw [← hheads f hf]
      exact headOf_ne_start head p hp f.1 (hsymbols ▸ mem_map_of_mem hf)
    have hkept : ∀ tree ∈ frames.flatMap keep, tree.IsLocated := by
      intro tree htree
      obtain ⟨f, hf, htree⟩ := mem_flatMap.mp htree
      exact (hframes f hf).each (hinner f hf) tree (mem_of_keep htree)
    have hfilled : frames.flatMap keep ≠ [] → (extentOf frames).isSome := by
      intro hne
      obtain ⟨tree, htree⟩ := exists_mem_of_ne_nil _ hne
      obtain ⟨f, hf, htree⟩ := mem_flatMap.mp htree
      exact isSome_extentOf hf
        ((hframes f hf).filled (hinner f hf) (ne_nil_of_mem (mem_of_keep htree)))
    have hsolid : (Head.nonterminal head).mayVanish = false → (extentOf frames).isSome := by
      intro h
      obtain ⟨s, hs, hvanish⟩ := exists_solid_symbol head h p hp
      obtain ⟨f, hf, rfl⟩ := mem_map.mp (hsymbols ▸ hs)
      exact isSome_extentOf hf ((hframes f hf).solid (hheads f hf ▸ hvanish))
    cases head with
    | part f =>
      rw [build_part f p hp]
      exact
        { solid := hsolid
          filled := fun _ => hfilled
          each := fun _ => hkept
          root := nofun }
    | node k =>
      by_cases hk : k = .start
      · subst hk
        rw [build_start p hp]
        refine ⟨nofun, fun h => absurd rfl h, fun h => absurd rfl h, fun _ => ?_⟩
        exact forall_mem_singleton.mpr fun child hchild =>
          ⟨hkept child hchild, hfilled (ne_nil_of_mem hchild)⟩
      · have hextent := hsolid (by cases k <;> first | rfl | exact absurd rfl hk)
        obtain ⟨heach, hcovered⟩ := located_build (b := p.build) hkept (.inr hextent)
        exact
          { solid := fun _ => hcovered hextent
            filled := fun _ _ => hcovered hextent
            each := fun _ => heach
            root := fun h => absurd (Nonterminal.node.inj (Head.nonterminal.inj h)) hk }

end Parse

namespace Tree

variable {s : Tree} {trees level : List Tree} {bound : Nat}

/-! ## Regular trees -/

/-- The children of every node have the template of its kind and a place in the text. -/
inductive IsRegular : Tree → Prop
  | token (t : Token) : IsRegular (.token t)
  | node {k : Kind} {span : Option Span} {children : List Tree}
      (fits : k.children.Fits (children.map label))
      (located : ∀ child ∈ children, child.span?.isSome = true)
      (each : ∀ child ∈ children, IsRegular child) : IsRegular (.node k span children)

theorem Conforms.isRegular (h : t.Conforms Fragment.keepsTokens)
    (hlocated : ∀ child ∈ t.children, child.IsLocated) : t.IsRegular := by
  induction h with
  | token t => exact .token t
  | node hexpands heach ih =>
    refine .node hexpands.fits (fun child hchild => (hlocated child hchild).isSome_span?)
      fun child hchild => ih child hchild ?_
    cases hlocated child hchild with
    | token t => exact forall_mem_nil _
    | node hinner => exact hinner

/-! ## Subtrees -/

/-- A tree is inside another one: the tree itself, or inside a child. -/
inductive Inside (s : Tree) : Tree → Prop
  | refl : Inside s s
  | child {c t : Tree} (mem : c ∈ t.children) (inside : Inside s c) : Inside s t

theorem Inside.isRegular (h : Inside s t) (ht : t.IsRegular) : s.IsRegular := by
  induction h with
  | refl => exact ht
  | child hmem hinside ih =>
    cases ht with
    | token t => cases hmem
    | node hfits hlocated heach => exact ih (heach _ hmem)

theorem Inside.trans {u : Tree} (h : Inside s t) (hu : Inside t u) : Inside s u := by
  induction hu with
  | refl => exact h
  | child hmem hinside ih => exact .child hmem ih

theorem Inside.exists_parent (h : Inside s t) (hne : s ≠ t) : ∃ u, Inside u t ∧ s ∈ u.children := by
  induction h with
  | refl => exact absurd rfl hne
  | @child c t hmem hinside ih =>
    by_cases hc : s = c
    · exact ⟨t, .refl, hc ▸ hmem⟩
    · obtain ⟨u, hu, hs⟩ := ih hc
      exact ⟨u, .child hmem hu, hs⟩

theorem Inside.mem_tokens {token : Token} (h : Inside (.token token) t) : token ∈ t.tokens := by
  induction h with
  | refl => exact mem_singleton_self token
  | @child c t hmem hinside ih =>
    cases t with
    | token t => cases hmem
    | node k span children => exact mem_tokensAll.mpr ⟨c, hmem, ih⟩

theorem Inside.isSome_span? (h : Inside s t) (ht : t.IsRegular) (hne : s ≠ t) : s.span?.isSome := by
  induction h with
  | refl => exact absurd rfl hne
  | @child c t hmem hinside ih =>
    cases ht with
    | token t => cases hmem
    | node hfits hlocated heach =>
      by_cases hc : s = c
      · exact hc ▸ hlocated c hmem
      · exact ih (heach c hmem) hc

theorem isNode_of_mem_children {c : Tree} (h : c ∈ t.children) : t.isNode := by
  cases t with
  | token t => cases h
  | node => rfl

theorem Inside.isNode (h : Inside s t) (hs : s.isNode) : t.isNode := by
  cases h with
  | refl => exact hs
  | child hmem hinside => exact isNode_of_mem_children hmem

theorem mem_nodes : t ∈ nodes trees ↔ t ∈ trees ∧ t.isNode :=
  mem_filter

theorem size_le_sizeAll (h : t ∈ trees) : t.size ≤ sizeAll trees := by
  induction trees with
  | nil => cases h
  | cons first trees ih =>
    rw [sizeAll]
    rcases mem_cons.mp h with rfl | h
    · exact Nat.le_add_right _ _
    · exact Nat.le_trans (ih h) (Nat.le_add_left _ _)

theorem sizeAll_append (ts us : List Tree) : sizeAll (ts ++ us) = sizeAll ts + sizeAll us := by
  induction ts with
  | nil => simp [sizeAll]
  | cons t ts ih => simp [sizeAll, ih, Nat.add_assoc]

theorem size_lt_of_mem {c : Tree} (h : c ∈ t.children) : c.size < t.size := by
  cases t with
  | token t => cases h
  | node k span children =>
    rw [size]
    exact Nat.lt_one_add_iff.mpr (size_le_sizeAll h)

theorem size_pos (t : Tree) : 0 < t.size := by
  cases t with
  | token t => exact Nat.one_pos
  | node k span children =>
    rw [size]
    exact Nat.lt_of_lt_of_le Nat.one_pos (Nat.le_add_right _ _)

mutual

/-- The nodes of a tree, parents before their children. -/
def allNodes : Tree → List Tree
  | .token _ => []
  | .node k span cs => .node k span cs :: allNodesIn cs

def allNodesIn : List Tree → List Tree
  | [] => []
  | t :: ts => allNodes t ++ allNodesIn ts

end

theorem allNodesIn_eq (ts : List Tree) : allNodesIn ts = (nodes ts).flatMap allNodes := by
  induction ts with
  | nil => rfl
  | cons t ts ih =>
    rw [allNodesIn, ih]
    cases t <;> rfl

theorem levelsFrom_perm (h : ∀ t ∈ level, t.isNode ∧ t.size ≤ bound) :
    (levelsFrom bound level).Perm (level.flatMap allNodes) := by
  induction bound generalizing level with
  | zero =>
    cases level with
    | nil => rfl
    | cons t rest => exact absurd (h t mem_cons_self).2 (Nat.not_le_of_lt t.size_pos)
  | succ bound ih =>
    let next := level.flatMap fun t => (nodes t.children).reverse
    have hnext : next.flatMap allNodes ~ level.flatMap fun t => allNodesIn t.children := by
      rw [flatMap_assoc]
      refine Perm.flatMap_left level fun t _ => ?_
      rw [allNodesIn_eq]
      exact (reverse_perm _).flatMap_right _
    have hsmaller : ∀ c ∈ next, c.isNode ∧ c.size ≤ bound := by
      intro c hc
      obtain ⟨t, ht, hc⟩ := mem_flatMap.mp hc
      obtain ⟨hmem, hnode⟩ := mem_nodes.mp (mem_reverse.mp hc)
      exact ⟨hnode, Nat.le_of_lt_succ (Nat.lt_of_lt_of_le (size_lt_of_mem hmem) (h t ht).2)⟩
    have hnodes : level.flatMap allNodes = level.flatMap fun t => t :: allNodesIn t.children := by
      refine flatMap_congr fun t ht => ?_
      cases t with
      | token => cases (h _ ht).1
      | node => rfl
    rw [levelsFrom, hnodes]
    split
    · rename_i hempty
      rw [List.isEmpty_iff.mp hempty]
      rfl
    · refine (((ih hsmaller).trans hnext).append_left level).trans ?_
      simpa using map_append_flatMap_perm level id fun t => allNodesIn t.children

theorem subtrees_perm (t : Tree) : t.subtrees ~ t.allNodes := by
  refine (reverse_perm _).trans ((levelsFrom_perm fun u hu => ?_).trans ?_)
  · obtain ⟨hmem, hnode⟩ := mem_nodes.mp hu
    exact ⟨hnode, mem_singleton.mp hmem ▸ Nat.le_refl _⟩
  · rw [← allNodesIn_eq, allNodesIn, allNodesIn, append_nil]

mutual

theorem inside_of_mem_allNodes (t : Tree) (h : s ∈ t.allNodes) : s.isNode ∧ Inside s t := by
  cases t with
  | token => cases h
  | node k span cs =>
    rcases mem_cons.mp h with rfl | h
    · exact ⟨rfl, .refl⟩
    · obtain ⟨hs, c, hc, hinside⟩ := exists_of_mem_allNodesIn cs h
      exact ⟨hs, .child hc hinside⟩

theorem exists_of_mem_allNodesIn (ts : List Tree) (h : s ∈ allNodesIn ts) :
    s.isNode ∧ ∃ t ∈ ts, Inside s t := by
  cases ts with
  | nil => cases h
  | cons t ts =>
    rcases mem_append.mp h with h | h
    · exact (inside_of_mem_allNodes t h).imp_right fun h => ⟨t, mem_cons_self, h⟩
    · obtain ⟨hs, u, hu, hinside⟩ := exists_of_mem_allNodesIn ts h
      exact ⟨hs, u, mem_cons_of_mem t hu, hinside⟩

end

theorem mem_allNodes_iff : s ∈ t.allNodes ↔ s.isNode ∧ Inside s t := by
  refine ⟨inside_of_mem_allNodes t, ?_⟩
  rintro ⟨hs, hinside⟩
  induction hinside with
  | refl =>
    cases s with
    | token => cases hs
    | node => exact mem_cons_self
  | @child c t hmem hinside ih =>
    cases t with
    | token => cases hmem
    | node k span cs =>
      refine mem_cons_of_mem _ ?_
      rw [allNodesIn_eq]
      exact mem_flatMap.mpr ⟨c, mem_nodes.mpr ⟨hmem, hinside.isNode hs⟩, ih⟩

theorem mem_subtrees_iff : s ∈ t.subtrees ↔ s.isNode ∧ Inside s t :=
  (subtrees_perm t).mem_iff.trans mem_allNodes_iff

theorem mem_subtreesOf_iff {k : Kind} : s ∈ t.subtreesOf k ↔ s.isKind k ∧ Inside s t := by
  rw [subtreesOf, mem_filter, mem_subtrees_iff]
  constructor
  · rintro ⟨⟨-, hinside⟩, hk⟩
    exact ⟨hk, hinside⟩
  · rintro ⟨hk, hinside⟩
    refine ⟨⟨?_, hinside⟩, hk⟩
    cases s with
    | token t => cases hk
    | node => rfl

end Tree

/-- The tree of a text is regular. Its root stands for a whole text, and has a place if it has
children. -/
theorem isRegular_of_parse {code : Text} (h : parse code = .ok t) :
    t.IsRegular ∧ t.kind? = some .start ∧ (t.children ≠ [] → t.span?.isSome) := by
  obtain ⟨state, extent, hconforms⟩ := Parse.tracks_conforms.parse h
  obtain ⟨state', extent', hlocated⟩ := Parse.tracks_located.parse h
  have hroot := hlocated.root rfl t mem_cons_self
  refine ⟨(hconforms.each t mem_cons_self).isRegular fun c hc => (hroot c hc).1, ?_, ?_⟩
  · have hyields := hconforms.nonterminal _ rfl _ rfl
    have hlabel : t.label = .node .start := by
      cases Templates.fits_of_yields Templates.isClosed_table (fun _ h => by cases h; rfl) hyields with
      | place hfirst hmore =>
        have hmakes : Kind.makes .start = some [.node .start] := by decide
        change (Kind.makes .start).admits t.label at hfirst
        rw [hmakes] at hfirst
        exact mem_singleton.mp (of_decide_eq_true hfirst)
    cases t with
    | token t => cases hlabel
    | node k span children =>
      cases hlabel
      rfl
  · intro hne
    obtain ⟨c, hc⟩ := exists_mem_of_ne_nil _ hne
    exact (hroot c hc).2

end GDWorkbench
