import GDWorkbench.Proofs.Parse.Regular
import GDWorkbench.Proofs.Results

/-!
The parts of regular trees. What a pass counts on is there: the template of a kind says what stands at
each place among the children, so that taking a part, its kind or its name does not fail.
-/

namespace GDWorkbench

open List

/-! ## Rows of trees -/

namespace Place.Row

variable {rest : Place} {children : List Tree}

theorem exists_cons {p : Place} {front : List Place}
    (h : rest.Row (p :: front) (children.map Tree.label)) :
    ∃ c more, children = c :: more ∧ p.admits c.label ∧
      rest.Row front (more.map Tree.label) := by
  cases children with
  | nil => cases h
  | cons c more =>
    cases h with
    | place hfirst hmore => exact ⟨c, more, rfl, hfirst, hmore⟩

theorem forall_mem (h : rest.Row [] (children.map Tree.label)) :
    ∀ c ∈ children, rest.admits c.label := by
  cases h with
  | rest hall => exact fun c hc => hall c.label (mem_map_of_mem hc)

theorem drop {front : List Place} {labels : List Label} (h : rest.Row front labels) (n : Nat) :
    rest.Row (front.drop n) (labels.drop n) := by
  induction n generalizing front labels with
  | zero => exact h
  | succ n ih =>
    cases h with
    | rest hall => exact .rest fun l hl => hall l (mem_of_mem_drop hl)
    | place hfirst hmore => exact ih hmore

theorem eq_nil (h : Place.Row (some []) [] (children.map Tree.label)) : children = [] :=
  map_eq_nil_iff.mp (length_eq_zero_iff.mp (h.length_eq rfl))

theorem exists_singleton {p : Place} (h : Place.Row (some []) [p] (children.map Tree.label)) :
    ∃ c, children = [c] ∧ p.admits c.label := by
  obtain ⟨c, more, rfl, hc, hmore⟩ := h.exists_cons
  exact ⟨c, by rw [hmore.eq_nil], hc⟩

end Place.Row

namespace Label

theorem exists_leaf {terminals : List Terminal} {t : Tree}
    (h : (leaves terminals).admits t.label) :
    ∃ token, t = .token token ∧ token.terminal ∈ terminals := by
  obtain ⟨terminal, hmem, hlabel⟩ := mem_map.mp (of_decide_eq_true h)
  cases t with
  | token token =>
    cases hlabel
    exact ⟨token, rfl, hmem⟩
  | node => cases hlabel

theorem exists_node {kinds : List Kind} {t : Tree} (h : (nodes kinds).admits t.label) :
    ∃ k ∈ kinds, ∃ span children, t = .node k span children := by
  obtain ⟨k, hmem, hlabel⟩ := mem_map.mp (of_decide_eq_true h)
  cases t with
  | token token => cases hlabel
  | node kind span children =>
    cases hlabel
    exact ⟨_, hmem, span, children, rfl⟩

theorem exists_node_of_mem {k : Kind} {t : Tree} (h : (nodes [k]).admits t.label) :
    ∃ span children, t = .node k span children := by
  obtain ⟨_, hmem, span, children, rfl⟩ := exists_node h
  rw [mem_singleton.mp hmem]
  exact ⟨span, children, rfl⟩

end Label

def Kind.isNamed (k : Kind) : Bool :=
  k.children.front.head? = some (Label.leaves [.identifier])

/-- The first child of such a node is a node that begins with a name. -/
def Kind.holdsName (k : Kind) : Bool :=
  match k.children.front.head? with
  | some (some labels) => labels.all fun
    | .node inner => inner.isNamed
    | .leaf _ => false
  | _ => false

namespace Tree

/-! ## Children -/

section Children

variable {k : Kind} {span : Option Span} {children : List Tree} {t c : Tree}

theorem IsRegular.row (h : (Tree.node k span children).IsRegular) :
    k.children.rest.Row k.children.front (children.map label) := by
  cases h with
  | node hfits => exact hfits

theorem IsRegular.child (h : t.IsRegular) (hc : c ∈ t.children) : c.IsRegular ∧ c.span?.isSome := by
  cases h with
  | token t => cases hc
  | node hfits hlocated heach => exact ⟨heach c hc, hlocated c hc⟩

theorem exists_of_isKind (h : t.isKind k) : ∃ span children, t = node k span children := by
  cases t with
  | token t => cases h
  | node kind span children =>
    obtain rfl : kind = k := Option.some.inj (of_decide_eq_true h)
    exact ⟨span, children, rfl⟩

theorem isKind_iff_label : t.isKind k ↔ t.label = .node k := by
  cases t with
  | token t => simp [isKind, kind?, label]
  | node kind span children => simp [isKind, kind?, label]

/-! ## Names -/

def IsNamed (t : Tree) : Prop :=
  ∃ k span name rest, t = node k span (.token name :: rest) ∧ name.terminal = .identifier

theorem IsRegular.isNamed (h : (Tree.node k span children).IsRegular) (hk : k.isNamed) :
    (Tree.node k span children).IsNamed := by
  have hrow := h.row
  have hfront : k.children.front.head? = some (Label.leaves [.identifier]) := of_decide_eq_true hk
  obtain ⟨front, hcons⟩ := head?_eq_some_iff.mp hfront
  rw [hcons] at hrow
  obtain ⟨c, more, rfl, hc, -⟩ := hrow.exists_cons
  obtain ⟨name, rfl, hname⟩ := Label.exists_leaf hc
  exact ⟨k, span, name, more, rfl, mem_singleton.mp hname⟩

theorem IsRegular.exists_isNamed (h : (Tree.node k span children).IsRegular)
    (hk : k.holdsName) : ∃ inner rest, children = inner :: rest ∧ inner.IsNamed := by
  unfold Kind.holdsName at hk
  split at hk
  · rename_i labels hfront
    obtain ⟨front, hcons⟩ := head?_eq_some_iff.mp hfront
    have hrow := h.row
    rw [hcons] at hrow
    obtain ⟨inner, rest, rfl, hinner, -⟩ := hrow.exists_cons
    have hnamed := all_eq_true.mp hk inner.label (of_decide_eq_true hinner)
    refine ⟨inner, rest, rfl, ?_⟩
    cases inner with
    | token t => cases hnamed
    | node => exact (h.child mem_cons_self).1.isNamed hnamed
  · cases hk

theorem IsRegular.nameToken?_call (h : (Tree.node .standaloneCall span children).IsRegular) :
    ∃ name rest, children = .token name :: rest ∧
      (Tree.node .standaloneCall span children).nameToken? = some name := by
  obtain ⟨c, rest, rfl, hc, -⟩ := h.row.exists_cons
  obtain ⟨name, rfl, hname⟩ := Label.exists_leaf hc
  refine ⟨name, rest, rfl, ?_⟩
  simp only [mem_cons, not_mem_nil, or_false] at hname
  rcases hname with hname | hname | hname <;>
    simp [Tree.nameToken?, Tree.children, token?, hname]

theorem IsNamed.nameToken? (h : t.IsNamed) :
    ∃ name, t.nameToken? = some name ∧ name.terminal = .identifier ∧ .token name ∈ t.children := by
  obtain ⟨k, span, name, rest, rfl, hname⟩ := h
  refine ⟨name, ?_, hname, mem_cons_self⟩
  simp [Tree.nameToken?, Tree.children, token?, hname]

theorem IsNamed.nameToken (h : t.IsNamed) :
    Gives t.nameToken fun name => name.terminal = .identifier ∧ .token name ∈ t.children := by
  obtain ⟨name, hname, hterminal, hmem⟩ := h.nameToken?
  rw [Tree.nameToken, hname]
  exact gives_ok ⟨hterminal, hmem⟩

theorem IsNamed.word (h : t.IsNamed) : Succeeds (t.word 0) := by
  obtain ⟨k, span, name, rest, rfl, -⟩ := h
  exact succeeds_ok

/-! ## Functions -/

/-- A plain argument, the comma behind the last one, or an argument that takes all that are left. -/
inductive IsArgument : Tree → Prop
  | plain {k : Kind} {span : Option Span} {children : List Tree} (kind : k ≠ .funcArgVariadic)
      (named : (Tree.node k span children).IsNamed) : IsArgument (.node k span children)
  | comma (span : Option Span) (children : List Tree) : IsArgument (.node .trailingComma span children)
  | variadic (span : Option Span) {inner : Tree} (named : inner.IsNamed) :
      IsArgument (.node .funcArgVariadic span [inner])

theorem IsRegular.isArgument (h : t.IsRegular)
    (hlabel : (Label.arguments.union (Label.nodes [.trailingComma])).admits t.label) :
    t.IsArgument := by
  have hkinds : (Label.nodes [.funcArgVariadic, .funcArgRegular, .funcArgInf, .funcArgTyped,
      .trailingComma]).admits t.label := hlabel
  obtain ⟨k, hk, span, children, rfl⟩ := Label.exists_node hkinds
  simp only [mem_cons, not_mem_nil, or_false] at hk
  rcases hk with rfl | rfl | rfl | rfl | rfl
  · obtain ⟨inner, rfl, hinner⟩ := h.row.exists_singleton
    obtain ⟨k, hk, span', children, rfl⟩ := Label.exists_node hinner
    refine .variadic span ((h.child mem_cons_self).1.isNamed ?_)
    exact (by decide : ∀ k ∈ [Kind.funcArgRegular, .funcArgTyped], k.isNamed) k hk
  · exact .plain (by decide) (h.isNamed (by decide))
  · exact .plain (by decide) (h.isNamed (by decide))
  · exact .plain (by decide) (h.isNamed (by decide))
  · exact .comma span children

/-- A header has a name and a list of arguments. -/
structure IsHeader (t : Tree) (name : Token) (arguments : List Tree) : Prop where
  form : ∃ k span list rest, t = node k span (.token name :: node .funcArgs list arguments :: rest)
  name : name.terminal = .identifier
  arguments : ∀ a ∈ arguments, a.IsArgument

theorem IsHeader.inside {name : Token} {arguments : List Tree} {a : Tree} (h : t.IsHeader name arguments)
    (ha : a ∈ arguments) : Inside a t := by
  obtain ⟨k, span, list, rest, rfl⟩ := h.form
  exact .child (mem_cons_of_mem _ mem_cons_self) (.child ha .refl)

theorem IsRegular.isHeader (h : t.IsRegular)
    (hlabel : (Label.nodes [.funcHeader, .abstractFuncHeader]).admits t.label) :
    ∃ name arguments, t.IsHeader name arguments := by
  obtain ⟨k, hk, span, children, rfl⟩ := Label.exists_node hlabel
  have hrow : Place.Row (Label.leaves [.typeHint]) [Label.leaves [.identifier],
      Label.nodes [.funcArgs]] (children.map label) := by
    simp only [mem_cons, not_mem_nil, or_false] at hk
    rcases hk with rfl | rfl <;> exact h.row
  obtain ⟨c, more, rfl, hc, hrow⟩ := hrow.exists_cons
  obtain ⟨list, rest, rfl, hlist, -⟩ := hrow.exists_cons
  obtain ⟨name, rfl, hname⟩ := Label.exists_leaf hc
  obtain ⟨place, arguments, rfl⟩ := Label.exists_node_of_mem hlist
  have hregular := (h.child (mem_cons_of_mem _ mem_cons_self)).1
  refine ⟨name, arguments, ⟨k, span, place, rest, rfl⟩, mem_singleton.mp hname, fun a ha => ?_⟩
  exact (hregular.child ha).1.isArgument (hregular.row.forall_mem a ha)

theorem IsRegular.exists_header (h : (Tree.node k span children).IsRegular)
    (hk : k = .funcDef ∨ k = .abstractFuncDef) :
    ∃ header rest name arguments, children = header :: rest ∧ header.IsHeader name arguments := by
  have hfirst : ∃ header rest, children = header :: rest ∧
      (Label.nodes [.funcHeader, .abstractFuncHeader]).admits header.label := by
    rcases hk with rfl | rfl
    · obtain ⟨header, rest, rfl, hheader, -⟩ := h.row.exists_cons
      exact ⟨header, rest, rfl, Place.admits_of_isWithin (by decide) hheader⟩
    · obtain ⟨header, rest, rfl, hheader, -⟩ := h.row.exists_cons
      exact ⟨header, rest, rfl, Place.admits_of_isWithin (by decide) hheader⟩
  obtain ⟨header, rest, rfl, hheader⟩ := hfirst
  obtain ⟨name, arguments, hform⟩ := (h.child mem_cons_self).1.isHeader hheader
  exact ⟨header, rest, name, arguments, rfl, hform⟩

end Children

end Tree

end GDWorkbench
