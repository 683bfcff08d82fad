import GDWorkbench.Proofs.Print.Core

/-!
Chains of dots. A chain is nested to the left in a tree; taken apart, its links and the dots between them come
in turn, and their lines one behind the other are the line of the tree, however attributes, calls and
subscripts follow each other.
-/

namespace GDWorkbench.Format

open List GDWorkbench.Format.Expr

theorem hasPairs_conforms : HasPairs (·.Conforms Fragment.keepsTokens) where
  hereditary _ h _ hc := h.child hc
  pairs h := by
    cases h with
    | node hexpands _ =>
      obtain ⟨_, _, ⟨⟩, -, hpairs⟩ := exists_pairs_of_expands hexpands
      exact hpairs

/-! ## Where dots stand -/

def Expr.isDot : Expr → Bool
  | .tree t => t.label = .leaf .dot
  | _ => false

/-- There are dots at the positions of a parity, and nowhere else. -/
def Alternates (parity : Nat) (parts : List Expr) : Prop :=
  ∀ i e, parts[i]? = some e → (e.isDot = true ↔ i % 2 = parity)

theorem alternates_of_isPairs {ts : List Tree} (h : IsPairs ts) : Alternates 0 (ts.map .tree) := by
  obtain ⟨names, hlabels, -, hnames⟩ := h
  have hpairs : ∀ (names : List Label), (∀ l ∈ names, l ≠ .leaf .dot) → ∀ i l,
      (names.flatMap fun l => [Label.leaf .dot, l])[i]? = some l → (l = .leaf .dot ↔ i % 2 = 0) := by
    intro names
    induction names with
    | nil => simp
    | cons name names ih =>
      intro hnames i l hl
      obtain ⟨hname, hnames⟩ := forall_mem_cons.mp hnames
      rcases i with _ | _ | i
      · simpa using hl.symm
      · obtain rfl : name = l := by simpa using hl
        simpa using hname
      · simpa [Nat.add_assoc] using ih hnames i l (by simpa using hl)
  intro i e he
  rw [getElem?_map] at he
  obtain ⟨t, ht, rfl⟩ := Option.map_eq_some_iff.mp he
  have hlabel : (ts.map Tree.label)[i]? = some t.label := by rw [getElem?_map, ht]; rfl
  rw [hlabels] at hlabel
  simpa [isDot] using hpairs names hnames i t.label hlabel

namespace Alternates

variable {parity : Nat} {parts more front : List Expr} {x y : Expr}

theorem append (h : Alternates 1 parts) (hodd : parts.length % 2 = 1) (hmore : Alternates 0 more) :
    Alternates 1 (parts ++ more) := by
  intro i e he
  rw [getElem?_append] at he
  split at he
  · exact h i e he
  · rw [hmore _ e he]
    omega

/-- One link may stand for another at the end. -/
theorem replaceLast (h : Alternates parity (front ++ [x])) (hxy : x.isDot = y.isDot) :
    Alternates parity (front ++ [y]) := by
  intro i e he
  rw [getElem?_append] at he
  split at he
  · rename_i hi
    exact h i e (by rw [getElem?_append, if_pos hi, he])
  · rename_i hi
    obtain ⟨hzero, rfl⟩ : i - front.length = 0 ∧ y = e := by
      cases hj : i - front.length <;> simp_all
    rw [← hxy]
    exact h i x (by rw [getElem?_append, if_neg hi, hzero]; rfl)

theorem isDot_last (h : Alternates parity (front ++ [x])) (hlength : front.length % 2 ≠ parity) :
    x.isDot = false :=
  Bool.eq_false_iff.mpr fun hdot => hlength ((h front.length x (by simp)).mp hdot)

end Alternates

theorem alternates_links {t : Tree} (ht : t.Conforms Fragment.keepsTokens) (hdot : t.label ≠ .leaf .dot) :
    Alternates 1 (links t) := by
  have hQ := hasPairs_conforms
  refine links_induction (motive := fun t chain => t.Conforms Fragment.keepsTokens → t.label ≠ .leaf .dot →
    Alternates 1 chain) ?attrs ?call ?bare ?subscript ?other t ht hdot
  case attrs =>
    intro span base rest ih ht _
    have hbase := hQ.hereditary _ ht base mem_cons_self
    refine (ih hbase ?_).append (hQ.length_links hbase) (alternates_of_isPairs (hQ.pairs ht))
    cases ht with
    | node hexpands _ =>
      obtain ⟨_, _, ⟨⟩, hbase, -⟩ := exists_pairs_of_expands hexpands
      exact hbase
  case call =>
    intro span inner base front attr arguments first last ih ht _
    have hinner := hQ.hereditary _ ht _ mem_cons_self
    have hbase := hQ.hereditary _ hinner base mem_cons_self
    have hpairs := hQ.pairs hinner
    have hattrs : Alternates 0 (front.map Expr.tree ++ [Expr.tree attr]) := by
      simpa using alternates_of_isPairs hpairs
    have hlength := hpairs.length_eq
    have hattr := hattrs.isDot_last (by simp only [length_append, length_map, length_singleton] at *; omega)
    rw [append_assoc]
    refine (ih hbase ?_).append (hQ.length_links hbase) (hattrs.replaceLast hattr)
    cases hinner with
    | node hexpands _ =>
      obtain ⟨_, _, ⟨⟩, hbase, -⟩ := exists_pairs_of_expands hexpands
      exact hbase
  case bare =>
    intro span inner base arguments ih ht
    cases (hQ.pairs (hQ.hereditary _ ht _ mem_cons_self)).length_eq.2
  case subscript =>
    intro span base index rest front link first last hlinks ih ht _
    have hbase := hQ.hereditary _ ht base mem_cons_self
    have hodd := hQ.length_links hbase
    have hlabel : base.label ≠ .leaf .dot := by
      cases ht with
      | node hexpands _ =>
        have hlabels := isClosed_operands.of_expands (by decide +kernel) hexpands
        exact of_decide_eq_true (hlabels base.label mem_cons_self)
    have hchain := ih hbase hlabel
    refine hchain.replaceLast (hchain.isDot_last ?_)
    rw [hlinks, length_append, length_singleton] at hodd
    omega
  case other =>
    intro t _ _ hdot i e he
    cases i with
    | zero =>
      obtain rfl : tree t = e := by simpa using he
      simpa [isDot] using hdot
    | succ i => simp at he

/-- A chain of a text that is parsed has an odd number of links and dots, with the dots at the odd positions,
and their lines, one behind the other, are the line of the tree. -/
theorem links_spell_chain {code : Text} {root t : Tree} (hparse : parse code = .ok root)
    (ht : t ∈ root.subtrees) :
    (links t).length % 2 = 1 ∧
      (∀ i e, (links t)[i]? = some e → (e.isDot = true ↔ i % 2 = 1)) ∧
      Expr.joinedLine (links t) = t.line := by
  obtain ⟨hnode, hinside⟩ := Tree.mem_subtrees_iff.mp ht
  have hconforms := (conforms_of_parse hparse).inside hinside
  refine ⟨hasPairs_conforms.length_links hconforms, alternates_links hconforms ?_,
    hasPairs_conforms.joinedLine_links hconforms⟩
  cases t with
  | token => cases hnode
  | node => exact fun h => by cases h

def mixedChain : Text :=
  "var x = a.b(1)[2].get(3)[4][5].c\n".toList

theorem links_spell_mixedChain :
    ∃ root t, parse mixedChain = .ok root ∧ t ∈ root.subtrees ∧ (links t).length = 7 ∧
      (∀ i e, (links t)[i]? = some e → (e.isDot = true ↔ i % 2 = 1)) ∧
      Expr.joinedLine (links t) = .ok "a.b(1)[2].get(3)[4][5].c".toList := by
  have hparse : (parse mixedChain).toOption.any (fun root => decide (∃ t ∈ root.subtrees,
      (links t).length = 7 ∧ t.line.toOption = some "a.b(1)[2].get(3)[4][5].c".toList)) = true := by
    decide +kernel
  obtain ⟨root, hroot, t, ht, hlength, hline⟩ := exists_eq_ok_of_any hparse
  obtain ⟨-, hdots, hjoined⟩ := links_spell_chain hroot ht
  exact ⟨root, t, hroot, ht, hlength, hdots, hjoined.trans (eq_ok_of_toOption hline)⟩

end GDWorkbench.Format
