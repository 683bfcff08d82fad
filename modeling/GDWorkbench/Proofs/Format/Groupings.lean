import GDWorkbench.Format.Fold
import GDWorkbench.Proofs.Results
import Mathlib.Data.List.Basic

/-!
Groupings of trees while lines are broken. What holds of a tree and of all that stands in it holds of every
tree in a grouping that is made of it: of the tree inside its brackets, and of the links of a chain.
-/

namespace GDWorkbench.Format

open List GDWorkbench.Format.Expr

/-- All trees of an expression have the property. -/
inductive Expr.MadeOf (Q : Tree → Prop) : Expr → Prop
  | tree {t : Tree} (h : Q t) : MadeOf Q (.tree t)
  | listed {ts : List Tree} {first last : Option Int} (h : ∀ t ∈ ts, Q t) :
    MadeOf Q (.listed ts first last)
  | items {ts : List Tree} {first last : Option Int} (h : ∀ t ∈ ts, Q t) :
    MadeOf Q (.items ts first last)
  | operations {ps : List Expr} {first last : Option Int} (h : ∀ p ∈ ps, MadeOf Q p) :
    MadeOf Q (.operations ps first last)
  | joined {ps : List Expr} {first last : Option Int} (h : ∀ p ∈ ps, MadeOf Q p) :
    MadeOf Q (.joined ps first last)
  | call {callee : Expr} {ts : List Tree} {first last : Option Int} (hcallee : MadeOf Q callee)
    (h : ∀ t ∈ ts, Q t) : MadeOf Q (.call callee ts first last)
  | subscript {base : Expr} {index : Tree} {first last : Option Int} (hbase : MadeOf Q base)
    (hindex : Q index) : MadeOf Q (.subscript base index first last)

def Hereditary (Q : Tree → Prop) : Prop :=
  ∀ t, Q t → ∀ c ∈ t.children, Q c

variable {Q : Tree → Prop}

theorem madeOf_map_tree {ts : List Tree} (h : ∀ t ∈ ts, Q t) : ∀ e ∈ ts.map Expr.tree, e.MadeOf Q := by
  intro e he
  obtain ⟨t, ht, rfl⟩ := mem_map.mp he
  exact .tree (h t ht)

/-! ## Links of a chain -/

/-- A tree that is taken apart into more than itself. -/
def isLinked : Tree → Bool
  | .node .getattr _ (_ :: _) | .node .getattrCall _ (.node .getattr _ (_ :: _) :: _)
  | .node .subscrExpr _ (_ :: _ :: _) => true
  | _ => false

theorem links_of_not_isLinked {t : Tree} (h : isLinked t = false) : links t = [.tree t] := by
  rw [links.eq_def]
  split
  · cases h
  · cases h
  · cases h
  · rfl

theorem not_isLinked {t : Tree} (hattr : ∀ span base rest, t ≠ .node .getattr span (base :: rest))
    (hcall : ∀ span inner base rest arguments,
      t ≠ .node .getattrCall span (.node .getattr inner (base :: rest) :: arguments))
    (hsubscript : ∀ span base index rest, t ≠ .node .subscrExpr span (base :: index :: rest)) :
    isLinked t = false := by
  unfold isLinked
  split
  · exact absurd rfl (hattr _ _ _)
  · exact absurd rfl (hcall _ _ _ _ _)
  · exact absurd rfl (hsubscript _ _ _ _)
  · rfl

theorem links_ne_nil (t : Tree) : links t ≠ [] := by
  induction t using links.induct with
  | case1 span base rest ih => simp [links, ih]
  | case2 span inner base rest arguments attr hattr ih => simp [links, hattr]
  | case3 span inner base rest arguments hattr ih => simpa [links, hattr] using ih
  | case4 span base index rest chain link hlink ih =>
    simp [links, show (links base).getLast? = some link from hlink]
  | case5 span base index rest chain hlink ih => exact absurd (getLast?_eq_none_iff.mp hlink) ih
  | case6 t hattr hcall hsubscript => simp [links_of_not_isLinked (not_isLinked hattr hcall hsubscript)]

/-- How the links of a tree come about: attributes go behind the links of what they belong to, the last one with
the arguments of a call if there are any, and a subscript goes to the last link. -/
theorem links_induction {motive : Tree → List Expr → Prop}
    (attrs : ∀ span base rest, motive base (links base) →
      motive (.node .getattr span (base :: rest)) (links base ++ rest.map Expr.tree))
    (call : ∀ span inner base front attr arguments first last, motive base (links base) →
      motive (.node .getattrCall span (.node .getattr inner (base :: (front ++ [attr])) :: arguments))
        (links base ++ front.map Expr.tree ++ [Expr.call (.tree attr) arguments first last]))
    (bare : ∀ span inner base arguments, motive base (links base) →
      motive (.node .getattrCall span (.node .getattr inner [base] :: arguments)) (links base))
    (subscript : ∀ span base index rest front link first last, links base = front ++ [link] →
      motive base (front ++ [link]) →
      motive (.node .subscrExpr span (base :: index :: rest)) (front ++ [Expr.subscript link index first last]))
    (other : ∀ t, isLinked t = false → motive t [.tree t]) (t : Tree) : motive t (links t) := by
  induction t using links.induct with
  | case1 span base rest ih => exact attrs span base rest ih
  | case2 span inner base rest arguments attr hattr ih =>
    have hrest := dropLast_append_getLast? attr hattr
    simp only [links, hattr]
    have hcall := call span inner base rest.dropLast attr arguments
      (attr.span?.bind fun s => s.line.map Int.ofNat) (span.bind fun s => s.endLine.map Int.ofNat) ih
    rw [hrest] at hcall
    exact hcall
  | case3 span inner base rest arguments hattr ih =>
    obtain rfl := getLast?_eq_none_iff.mp hattr
    exact bare span inner base arguments ih
  | case4 span base index rest chain link hlink ih =>
    have hlink : (links base).getLast? = some link := hlink
    have hchain := (dropLast_append_getLast? link hlink).symm
    rw [links]
    simp only [hlink]
    exact subscript span base index rest _ link _ _ hchain (hchain ▸ ih)
  | case5 span base index rest chain hlink ih =>
    exact absurd (getLast?_eq_none_iff.mp hlink) (links_ne_nil base)
  | case6 t hattr hcall hsubscript =>
    have hother := not_isLinked hattr hcall hsubscript
    rw [links_of_not_isLinked hother]
    exact other t hother

namespace Hereditary

variable (hQ : Hereditary Q) {t : Tree} (h : Q t)

include hQ h

theorem part {i : Nat} {c : Tree} (hc : t.part i = .ok c) : Q c :=
  hQ _ h _ (Tree.mem_of_part hc)

theorem unwrap : Q (unwrap t) := by
  induction t using unwrap.induct with
  | case1 span t rest ih => exact ih (hQ _ h t mem_cons_self)
  | case2 t hnone =>
    unfold Format.unwrap
    split
    · exact absurd rfl (hnone _ _ _)
    · exact h

theorem links : ∀ e ∈ links t, e.MadeOf Q := by
  refine links_induction (motive := fun t chain => Q t → ∀ e ∈ chain, e.MadeOf Q)
    ?attrs ?call ?bare ?subscript (fun t _ h => forall_mem_singleton.mpr (.tree h)) t h
  case attrs =>
    intro span base rest ih h
    exact forall_mem_append.mpr ⟨ih (hQ _ h base mem_cons_self),
      madeOf_map_tree fun t ht => hQ _ h t (mem_cons_of_mem base ht)⟩
  case call =>
    intro span inner base front attr arguments first last ih h
    have hinner : ∀ t ∈ base :: (front ++ [attr]), Q t := hQ _ (hQ _ h _ mem_cons_self)
    obtain ⟨hbase, hrest⟩ := forall_mem_cons.mp hinner
    obtain ⟨hfront, hattr⟩ := forall_mem_append.mp hrest
    refine forall_mem_append.mpr ⟨forall_mem_append.mpr ⟨ih hbase, madeOf_map_tree hfront⟩, ?_⟩
    exact forall_mem_singleton.mpr (.call (.tree (hattr attr mem_cons_self))
      fun t ht => hQ _ h t (mem_cons_of_mem _ ht))
  case bare => exact fun _ _ _ _ ih h => ih (hQ _ (hQ _ h _ mem_cons_self) _ mem_cons_self)
  case subscript =>
    intro span base index rest front link first last _ ih h
    obtain ⟨hfront, hlink⟩ := forall_mem_append.mp (ih (hQ _ h base mem_cons_self))
    have hindex : Q index := hQ _ h index (mem_cons_of_mem base mem_cons_self)
    exact forall_mem_append.mpr ⟨hfront,
      forall_mem_singleton.mpr (.subscript (hlink link mem_cons_self) hindex)⟩

end Hereditary

theorem Fold.ensures_first {R : List Line → Prop} {parts : List Expr} {lines : Option Int → Lines}
    (h : ∀ n, Ensures (lines n) R) :
    Ensures (match parts.head? with
      | some part => part.first >>= lines
      | none => Except.error .missingPart >>= lines) R := by
  split
  · exact .skip fun n => h n
  · exact ensures_error

end GDWorkbench.Format
