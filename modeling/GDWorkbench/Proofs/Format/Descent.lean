import GDWorkbench.Format.Statement
import GDWorkbench.Proofs.Format.Chains

/-!
Folding comes to an end. It calls itself on groupings that it has just made, not only on parts of a tree, but
whatever it calls itself on is lighter than what it folds, so the depth it starts with is never used up: two
ways to go on beyond that depth lead to the same lines. The same is true of the blocks inside lambdas.
-/

namespace GDWorkbench

open List

namespace Format

/-! ## Weights -/

namespace Expr

mutual

/-- How much there is to fold. A list weighs more between brackets than on lines of its own, and a link that is
called weighs more than its arguments between brackets. -/
def weight : Expr → Nat
  | .tree t => 4 * t.size
  | .listed ts _ _ => 4 * Tree.sizeAll ts + 2
  | .items ts _ _ => 4 * Tree.sizeAll ts + 1
  | .operations ps _ _ => weightAll ps + 1
  | .joined ps _ _ => weightAll ps
  | .call callee ts _ _ => weight callee + 4 * Tree.sizeAll ts + 3
  | .subscript base index _ _ => weight base + 4 * index.size + 1

def weightAll : List Expr → Nat
  | [] => 0
  | p :: ps => weight p + weightAll ps

end

theorem weightAll_append (ps qs : List Expr) : weightAll (ps ++ qs) = weightAll ps + weightAll qs := by
  induction ps with
  | nil => simp [weightAll]
  | cons p ps ih => simp [weightAll, ih, Nat.add_assoc]

theorem weightAll_map_tree (ts : List Tree) : weightAll (ts.map .tree) = 4 * Tree.sizeAll ts := by
  induction ts with
  | nil => rfl
  | cons t ts ih =>
    simp only [map_cons, weightAll, weight, ih, Tree.sizeAll]
    omega

theorem weight_le_weightAll {p : Expr} {ps : List Expr} (h : p ∈ ps) : p.weight ≤ weightAll ps := by
  obtain ⟨front, rest, rfl⟩ := append_of_mem h
  rw [weightAll_append, weightAll]
  omega

end Expr

/-- A chain that is taken apart has lost the weight of a node at least. -/
theorem weightAll_links (t : Tree) :
    Expr.weightAll (links t) + (if isLinked t then 3 else 0) ≤ 4 * t.size := by
  refine links_induction (motive := fun t chain =>
    Expr.weightAll chain + (if isLinked t then 3 else 0) ≤ 4 * t.size) ?attrs ?call ?bare ?subscript ?other t
  case attrs =>
    intro span base rest ih
    rw [Expr.weightAll_append, Expr.weightAll_map_tree, isLinked, if_pos rfl, Tree.size, Tree.sizeAll]
    omega
  case call =>
    intro span inner base front attr arguments first last ih
    simp only [Expr.weightAll_append, Expr.weightAll_map_tree, Expr.weightAll, Expr.weight, isLinked,
      if_true, Tree.size, Tree.sizeAll, Tree.sizeAll_append]
    omega
  case bare =>
    intro span inner base arguments ih
    simp only [isLinked, if_true, Tree.size, Tree.sizeAll]
    omega
  case subscript =>
    intro span base index rest front link first last _ ih
    simp only [Expr.weightAll_append, Expr.weightAll, Expr.weight, isLinked, if_true, Tree.size,
      Tree.sizeAll] at ih ⊢
    omega
  case other =>
    intro t ht
    rw [if_neg (by simp [ht]), Expr.weightAll, Expr.weightAll, Expr.weight]
    omega

theorem size_unwrap_le (t : Tree) : (unwrap t).size ≤ t.size := by
  induction t using unwrap.induct with
  | case1 span t rest ih =>
    rw [unwrap, Tree.size, Tree.sizeAll]
    omega
  | case2 t hnone => rw [unwrap.eq_2 t hnone]

/-! ## What folding calls itself on -/

/-- Trees in which every chain can be taken apart. -/
structure HasLinks (Q : Tree → Prop) : Prop where
  hereditary : Hereditary Q
  linked {k : Kind} {span : Option Span} {children : List Tree} (h : Q (.node k span children))
    (hk : k = .getattr ∨ k = .getattrCall ∨ k = .subscrExpr) : isLinked (.node k span children) = true

/-- Two ways to fold agree on what is lighter than `n`. -/
def Agree (Q : Tree → Prop) (n : Nat) (next next' : Formatter) : Prop :=
  ∀ e, e.MadeOf Q → e.weight < n → ∀ a c, next e a c = next' e a c

/-- Two ways to lay out the bodies of lambdas agree. -/
def AgreeOnBodies (Q : Tree → Prop) (body body' : BodyFormatter) : Prop :=
  ∀ t, Q t → ∀ c, body t.children.tail c = body' t.children.tail c

def IsLighter (Q : Tree → Prop) (n : Nat) (t : Tree) : Prop :=
  Q t ∧ 4 * t.size < n

variable {Q : Tree → Prop} {a : Affixes} {c : Context} {t : Tree}

section

variable {n : Nat} {next next' : Formatter} {body body' : BodyFormatter}

theorem Agree.tree (h : Agree Q n next next') (ht : IsLighter Q n t) : next (.tree t) a c = next' (.tree t) a c :=
  h _ (.tree ht.1) (by simpa [Expr.weight] using ht.2) a c

section

variable (hQ : Hereditary Q)

include hQ

theorem IsLighter.part_of_self (h : Q t) (i : Nat) : Ensures (t.part i) (IsLighter Q (4 * t.size)) := by
  intro u hu
  have hsize := Tree.size_lt_of_mem (Tree.mem_of_part hu)
  exact ⟨hQ.part h hu, by omega⟩

theorem IsLighter.part (h : IsLighter Q n t) (i : Nat) : Ensures (t.part i) (IsLighter Q n) :=
  (part_of_self hQ h.1 i).mono fun _ hu => ⟨hu.1, Nat.lt_trans hu.2 h.2⟩

theorem IsLighter.unwrap (h : IsLighter Q n t) : IsLighter Q n (unwrap t) := by
  have hsize := size_unwrap_le t
  exact ⟨hQ.unwrap h.1, by have := h.2; omega⟩

end

namespace Fold

/-! ### Lists and operators -/

theorem itemLines_congr (hQ : Hereditary Q) (h : Agree Q n next next') (commaAtEnd : Bool) {ts : List Tree}
    (hts : ∀ t ∈ ts, IsLighter Q n t) : itemLines next c commaAtEnd ts = itemLines next' c commaAtEnd ts := by
  induction ts with
  | nil => rfl
  | cons t ts ih =>
    obtain ⟨ht, hts⟩ := forall_mem_cons.mp hts
    simp only [itemLines, h.tree (ht.unwrap hQ), ih hts]

theorem operationLines_congr (h : Agree Q n next next') {parts : List Expr}
    (hparts : ∀ e ∈ parts, e.MadeOf Q ∧ e.weight < n) :
    operationLines next c parts = operationLines next' c parts := by
  induction parts using operationLines.induct with
  | case1 sign operand rest ih =>
    obtain ⟨-, hparts⟩ := forall_mem_cons.mp hparts
    obtain ⟨hoperand, hrest⟩ := forall_mem_cons.mp hparts
    simp only [operationLines, h operand hoperand.1 hoperand.2, ih hrest]
  | case2 parts hshort => rw [operationLines.eq_2 _ _ _ hshort, operationLines.eq_2 _ _ _ hshort]

theorem operations_congr (h : Agree Q n next next') {parts : List Expr}
    (hparts : ∀ e ∈ parts, e.MadeOf Q ∧ e.weight < n) : operations next c parts = operations next' c parts := by
  cases parts with
  | nil => rfl
  | cons operand rest =>
    obtain ⟨hoperand, hrest⟩ := forall_mem_cons.mp hparts
    simp only [operations, h operand hoperand.1 hoperand.2, operationLines_congr h hrest]

theorem chain_congr (h : Agree Q n next next') {parts : List Expr} (hparts : ∀ e ∈ parts, e.MadeOf Q)
    (hweight : Expr.weightAll parts + 1 < n) : chain next parts a c = chain next' parts a c := by
  simp only [chain, h _ (.operations hparts) (by simpa [Expr.weight] using hweight)]

theorem listed_congr (h : Agree Q n next next') {ts : List Tree} (hts : ∀ t ∈ ts, Q t)
    (hsize : 4 * Tree.sizeAll ts + 2 < n) : listed next ts a c = listed next' ts a c :=
  h _ (.listed hts) (by simpa [Expr.weight] using hsize) a c

/-! ### Calls, subscripts and chains of dots -/

theorem call_congr (h : Agree Q n next next') (callee : Expr) {arguments : List Tree} (last : Option Int)
    (harguments : ∀ t ∈ arguments, Q t) (hsize : 4 * Tree.sizeAll arguments + 2 < n) :
    call next callee arguments last a c = call next' callee arguments last a c := by
  simp only [call, listed_congr h harguments hsize]

theorem subscript_congr (h : Agree Q n next next') {base : Expr} {index : Tree} (hbase : base.MadeOf Q)
    (hweight : base.weight < n) (hindex : IsLighter Q n index) :
    subscript next base index a c = subscript next' base index a c := by
  simp only [subscript, h base hbase hweight, h.tree hindex]

variable {parts : List Expr}

theorem insideLastLink_congr (h : Agree Q n next next') (hparts : ∀ e ∈ parts, e.MadeOf Q)
    (hweight : Expr.weightAll parts + 1 < n) :
    insideLastLink next parts a c = insideLastLink next' parts a c := by
  have hchain := chain_congr (a := a) (c := c) h hparts hweight
  rcases eq_nil_or_concat' parts with rfl | ⟨front, link, rfl⟩
  · rfl
  · obtain ⟨hfront, hlink⟩ := forall_mem_append.mp hparts
    have hlink := hlink link mem_cons_self
    have hjoined {part : Expr} (hpart : part.MadeOf Q) (first last : Option Int) :
        Expr.MadeOf Q (.joined (front ++ [part]) first last) :=
      .joined (forall_mem_append.mpr ⟨hfront, forall_mem_singleton.mpr hpart⟩)
    simp only [insideLastLink, getLast?_concat, dropLast_concat]
    cases hlink with
    | call hcallee harguments =>
      rename_i callee arguments first last
      have hnext (first joinedLast : Option Int) := h
        (.call (.joined (front ++ [callee]) first joinedLast) arguments first last)
        (.call (hjoined hcallee _ _) harguments)
        (by simp only [Expr.weight, Expr.weightAll_append, Expr.weightAll] at hweight ⊢; omega)
      simp only [hchain, hnext]
    | subscript hbase hindex =>
      rename_i base index first last
      have hnext (first joinedLast : Option Int) := h
        (.subscript (.joined (front ++ [base]) first joinedLast) index first last)
        (.subscript (hjoined hbase _ _) hindex)
        (by simp only [Expr.weight, Expr.weightAll_append, Expr.weightAll] at hweight ⊢; omega)
      simp only [hnext]
    | _ => simp only [hchain]

theorem dots_congr (h : Agree Q n next next') (hparts : ∀ e ∈ parts, e.MadeOf Q)
    (hweight : Expr.weightAll parts + 1 < n) : dots next parts a c = dots next' parts a c := by
  simp only [dots, insideLastLink_congr h hparts hweight, chain_congr h hparts hweight]

theorem linked_congr (hQ : Hereditary Q) (h : Agree Q (4 * t.size) next next') (ht : Q t)
    (hlinked : isLinked t = true) : linked next t a c = linked next' t a c := by
  have hparts := hQ.links ht
  have hweight := weightAll_links t
  rw [if_pos hlinked] at hweight
  unfold linked
  split
  · rename_i base index first last hlinks
    rw [hlinks] at hparts hweight
    simp only [Expr.weightAll, Expr.weight] at hweight
    cases hparts _ mem_cons_self with
    | subscript hbase hindex => exact subscript_congr h hbase (by omega) ⟨hindex, by omega⟩
  · exact dots_congr h hparts (by omega)

/-! ### Other expressions -/

section

variable (hQ : Hereditary Q) (h : Agree Q (4 * t.size) next next') (ht : Q t)

include hQ h ht

/-- A part is folded between affixes that may depend on it. -/
theorem bind_part_congr (i : Nat) (f : Tree → Affixes) :
    (t.part i >>= fun u => next (.tree u) (f u) c) = t.part i >>= fun u => next' (.tree u) (f u) c :=
  (IsLighter.part_of_self hQ ht i).bind_eq fun _ hu => h.tree hu

theorem assignment_congr : assignment next t a c = assignment next' t a c := by
  simp only [assignment, behind, bind_part_congr hQ h ht]

theorem negation_congr : negation next t a c = negation next' t a c := by
  simp only [negation, behind, bind_part_congr hQ h ht]

theorem signed_congr : signed next t a c = signed next' t a c := by
  simp only [signed, behind, bind_part_congr hQ h ht]

theorem awaited_congr : awaited next t a c = awaited next' t a c := by
  simp only [awaited, behind, Tree.lastPart, bind_part_congr hQ h ht]

theorem annotationLines_congr : annotationLines next t c = annotationLines next' t c := by
  simp only [annotationLines, Tree.lastPart, bind_part_congr hQ h ht]

theorem lambdaHeader_congr : lambdaHeader next t a c = lambdaHeader next' t a c := by
  simp only [lambdaHeader, bind_part_congr hQ h ht]

theorem pair_congr (sign : String) : pair next sign t a c = pair next' sign t a c := by
  refine (IsLighter.part_of_self hQ ht 0).bind_eq fun key hkey => ?_
  rw [h.tree (hkey.unwrap hQ)]
  refine bind_congr fun _ => (IsLighter.part_of_self hQ ht 1).bind_eq fun value hvalue => ?_
  rw [h.tree (hvalue.unwrap hQ)]

theorem defaultValue_congr (before : Text) : defaultValue next before t a c = defaultValue next' before t a c :=
  (IsLighter.part_of_self hQ ht _).bind_eq fun _ hdefault => (hdefault.part hQ 0).bind_eq fun _ hvalue =>
    h.tree (hvalue.unwrap hQ)

theorem argument_congr (kind : Kind) : argument next kind t a c = argument next' kind t a c := by
  refine (IsLighter.part_of_self hQ ht 0).bind_eq fun name hname => ?_
  simp only [behind, h.tree hname, defaultValue_congr hQ h ht, bind_part_congr hQ h ht]

theorem lambda_congr (hbody : AgreeOnBodies Q body body') : lambda next body t a c = lambda next' body' t a c := by
  refine (IsLighter.part_of_self hQ ht 0).bind_eq fun header hheader => ?_
  rw [h.tree hheader]
  simp only [hbody t ht]

end

theorem tree_congr (hQ : HasLinks Q) (h : Agree Q (4 * t.size) next next') (hbody : AgreeOnBodies Q body body')
    (ht : Q t) : tree next body t a c = tree next' body' t a c := by
  have hH := hQ.hereditary
  cases t with
  | token => rfl
  | node k span children =>
    have hsize : 4 * Tree.sizeAll children + 4 = 4 * (Tree.node k span children).size := by
      rw [Tree.size]
      omega
    have hchildren : ∀ u ∈ children, Q u := hH _ ht
    have hlisted {a : Affixes} := listed_congr (a := a) (c := c) h hchildren (by omega)
    have hlinked := linked_congr (a := a) (c := c) hH h ht
    cases k
    case assnmntExpr => exact assignment_congr hH h ht
    case aslessActualNotTest => exact negation_congr hH h ht
    case aslessActualNegExpr | aslessActualBitwNot => exact signed_congr hH h ht
    case awaitExpr => exact awaited_congr hH h ht
    case standaloneCall | callPattern =>
      have htail : Tree.sizeAll children.tail ≤ Tree.sizeAll children := by
        cases children with
        | nil => exact Nat.le_refl _
        | cons u rest => exact Nat.le_add_left _ _
      exact bind_congr fun callee => bind_congr fun last =>
        call_congr h (.tree callee) last (fun u hu => hchildren u (mem_of_mem_tail hu)) (by omega)
    case getattrCall | getattr | subscrExpr => exact hlinked (hQ.linked ht (by simp))
    case parExpr | parPattern =>
      exact (IsLighter.part_of_self hH ht 0).bind_eq fun _ hu => bind_congr fun _ => h.tree (hu.unwrap hH)
    case array | arrayPattern | dict | enumBody | dictPattern | funcArgs | signalArgs | annotationArgs =>
      exact bind_congr fun _ => hlisted
    case cDictElement | kvPairPattern | eqDictElement => exact pair_congr hH h ht _
    case lambda => exact lambda_congr hH h ht hbody
    case lambdaHeader => exact lambdaHeader_congr hH h ht
    case funcArgVariadic => exact bind_part_congr hH h ht 0 _
    case funcArgRegular => exact argument_congr hH h ht .funcArgRegular
    case funcArgInf => exact argument_congr hH h ht .funcArgInf
    case funcArgTyped => exact argument_congr hH h ht .funcArgTyped
    case annot => exact annotationLines_congr hH h ht
    -- What is left are chains of operators, and nodes in which nothing is folded.
    all_goals first
      | rfl
      | exact chain_congr h (madeOf_map_tree hchildren) (by rw [Expr.weightAll_map_tree]; omega)

theorem step_congr (hQ : HasLinks Q) {e : Expr} (he : e.MadeOf Q) (h : Agree Q e.weight next next')
    (hbody : AgreeOnBodies Q body body') : step next body e a c = step next' body' e a c := by
  have hH := hQ.hereditary
  cases he with
  | tree ht => exact tree_congr hQ h hbody ht
  | listed hts =>
    rename_i ts first last
    have hitems (first last : Option Int) :=
      h (.items ts first last) (.items hts) (by simp only [Expr.weight]; omega)
    simp only [step, listLines, hitems]
  | items hts =>
    refine itemLines_congr hH h _ fun t ht => ?_
    have ht := mem_of_mem_filter ht
    have hsize := Tree.size_le_sizeAll ht
    exact ⟨hts t ht, by simp only [Expr.weight]; omega⟩
  | operations hparts =>
    exact operations_congr h fun e he => ⟨hparts e he, Nat.lt_succ_of_le (Expr.weight_le_weightAll he)⟩
  | joined => rfl
  | call _ hts => exact call_congr h _ _ hts (by simp only [Expr.weight]; omega)
  | subscript hbase hindex =>
    exact subscript_congr h hbase (by simp only [Expr.weight]; omega) ⟨hindex, by simp only [Expr.weight]; omega⟩

theorem oneLineOr_congr {fold fold' : Formatter} {e : Expr} (h : fold e a c = fold' e a c) :
    oneLineOr fold e a c = oneLineOr fold' e a c := by
  simp only [oneLineOr, h]

/-- Folds an expression as far as `depth` goes, and from there on as `bottom` does. -/
def upFrom (bottom : Formatter) (body : BodyFormatter) : Nat → Formatter
  | 0 => bottom
  | depth + 1 => step (oneLineOr (upFrom bottom body depth)) body

theorem upTo_eq_upFrom (body : BodyFormatter) (depth : Nat) :
    upTo body depth = upFrom (fun _ _ _ => .error .tooDeep) body depth := by
  induction depth with
  | zero => rfl
  | succ depth ih => rw [upTo, upFrom, ih]

/-- What is lighter than the depth is folded without going to the bottom. -/
theorem upFrom_congr (hQ : HasLinks Q) (hbody : AgreeOnBodies Q body body') (bottom bottom' : Formatter)
    {depth depth' : Nat} {e : Expr} (he : e.MadeOf Q) (hdepth : e.weight < depth) (hdepth' : e.weight < depth') :
    upFrom bottom body depth e a c = upFrom bottom' body' depth' e a c := by
  induction depth generalizing depth' e a c with
  | zero => cases hdepth
  | succ depth ih =>
    cases depth' with
    | zero => cases hdepth'
    | succ depth' =>
      refine step_congr hQ he (fun part hpart hlighter a c => oneLineOr_congr ?_) hbody
      exact ih hpart (by omega) (by omega)

end Fold

theorem concrete_congr (hQ : HasLinks Q) (hbody : AgreeOnBodies Q body body') (ht : Q t) :
    concrete body t a c = concrete body' t a c := by
  have hdepth : (Expr.tree t).weight < Fold.depthOf t := by
    simp only [Expr.weight, Fold.depthOf]
    omega
  refine Fold.oneLineOr_congr ?_
  rw [Fold.upTo_eq_upFrom, Fold.upTo_eq_upFrom]
  exact Fold.upFrom_congr hQ hbody _ _ (.tree ht) hdepth hdepth

/-! ## Annotations -/

namespace Annotations

variable (hQ : HasLinks Q) (hbody : AgreeOnBodies Q body body')

include hQ hbody

theorem standaloneLines_congr (ht : Q t) : standaloneLines body t c = standaloneLines body' t c := by
  simp only [standaloneLines, concrete_congr hQ hbody ht]

theorem putBefore_congr {pending : List Tree} (hpending : ∀ t ∈ pending, Q t) (line : Line) :
    putBefore body c pending line = putBefore body' c pending line := by
  have hall : allStandaloneLines body c pending = allStandaloneLines body' c pending := by
    induction pending with
    | nil => rfl
    | cons t pending ih =>
      obtain ⟨ht, hpending⟩ := forall_mem_cons.mp hpending
      simp only [allStandaloneLines, standaloneLines_congr hQ hbody ht, ih hpending]
  simp only [putBefore, hall]

end Annotations

end

/-! ## Statements -/

/-- Two ways to lay out blocks agree on what stands in a tree behind its first children. -/
def AgreeOnBlocks (Q : Tree → Prop) (block block' : BlockFormatter) : Prop :=
  ∀ t, Q t → ∀ i c, block (t.children.drop i) c = block' (t.children.drop i) c

variable {block block' : BlockFormatter}

namespace Statement

variable (hQ : HasLinks Q) (hblock : AgreeOnBlocks Q block block')

include hblock

theorem agreeOnBodies : AgreeOnBodies Q (body block) (body block') := by
  intro t ht c
  simp only [body, ← drop_one, hblock t ht]

include hQ

theorem expression_congr (ht : Q t) : expression (body block) t a c = expression (body block') t a c :=
  Ensures.bind_eq (fun _ => hQ.hereditary.part ht) fun _ he =>
    concrete_congr hQ (agreeOnBodies hblock) (hQ.hereditary.unwrap he)

theorem behind_congr (before : Text) (s : Tree) (afterLine : Option Int) (ht : Q t) :
    behind block before s t afterLine c = behind block' before s t afterLine c := by
  simp only [behind, expression_congr hQ hblock ht]

theorem bind_assigned_congr (ht : Q t) (i : Nat) (before : Text) (s : Tree) :
    (t.part i >>= fun e => assigned block before s e c) = t.part i >>= fun e => assigned block' before s e c :=
  Ensures.bind_eq (fun _ => hQ.hereditary.part ht) fun _ he =>
    bind_congr fun _ => behind_congr hQ hblock _ _ _ he

theorem declared_congr (ht : Q t) (modifier : Text) : declared block modifier t c = declared block' modifier t c :=
  Ensures.bind_eq (fun _ => hQ.hereditary.part ht) fun _ hinner => by
    simp only [bind_assigned_congr hQ hblock hinner]

theorem constant_congr (ht : Q t) : constant block t c = constant block' t c :=
  Ensures.bind_eq (fun _ => hQ.hereditary.part ht) fun _ hinner => by
    simp only [Tree.lastPart, bind_assigned_congr hQ hblock hinner]

theorem branch_congr (ht : Q t) (before : Text) (i : Nat) :
    branch block before i t c = branch block' before i t c :=
  Ensures.bind_eq (fun _ => hQ.hereditary.part ht) fun _ he => by
    simp only [expression_congr hQ hblock he, under, hblock t ht]

theorem ifBranch_congr (ht : Q t) : ifBranch block t c = ifBranch block' t c := by
  have hchildren (c : Context) : block t.children c = block' t.children c := hblock t ht 0 c
  simp only [ifBranch, branch_congr hQ hblock ht, under, hchildren]

theorem moreBranches_congr {ts : List Tree} (hts : ∀ t ∈ ts, Q t) (previous : Option Int) :
    moreBranches block c previous ts = moreBranches block' c previous ts := by
  induction ts generalizing previous with
  | nil => rfl
  | cons t ts ih =>
    obtain ⟨ht, hts⟩ := forall_mem_cons.mp hts
    simp only [moreBranches, ifBranch_congr hQ hblock ht, ih hts]

theorem branches_congr {ts : List Tree} (hts : ∀ t ∈ ts, Q t) : branches block c ts = branches block' c ts := by
  cases ts with
  | nil => rfl
  | cons t ts =>
    obtain ⟨ht, hts⟩ := forall_mem_cons.mp hts
    simp only [branches, ifBranch_congr hQ hblock ht, moreBranches_congr hQ hblock hts]

theorem returned_congr (ht : Q t) : returned block t c = returned block' t c := by
  unfold returned
  split
  · rfl
  · rename_i e rest hchildren
    have he : Q e := hQ.hereditary t ht e (hchildren ▸ mem_cons_self)
    simp only [behind_congr hQ hblock _ _ _ he]

theorem format_congr (ht : Q t) : format block t c = format block' t c := by
  have hbehind : (t.part 0 >>= fun e => firstLine t >>= fun n => behind block [] t e n c) =
      t.part 0 >>= fun e => firstLine t >>= fun n => behind block' [] t e n c :=
    Ensures.bind_eq (fun _ => hQ.hereditary.part ht) fun _ he =>
      bind_congr fun _ => behind_congr hQ hblock _ _ _ he
  simp only [format, declared_congr hQ hblock ht, constant_congr hQ hblock ht, hbehind,
    returned_congr hQ hblock ht, branches_congr hQ hblock (hQ.hereditary t ht), forLoop, typedForLoop, guarded,
    branch_congr hQ hblock ht, Annotations.standaloneLines_congr hQ (agreeOnBodies hblock) ht]

end Statement

/-! ## Blocks -/

namespace Block

variable {format format' : StatementFormatter} {body body' : BodyFormatter} (hQ : HasLinks Q)
  (hformat : ∀ t, Q t → ∀ c, format t c = format' t c) (hbody : AgreeOnBodies Q body body')
  {inFunction : Bool} {s : State} (hpending : ∀ t ∈ s.pending, Q t)

include hpending in
theorem pending_step (ht : Q t) (following : Option Tree) :
    Ensures (step inFunction format body c s t following) fun s => ∀ t ∈ s.pending, Q t := by
  refine (ensures_true _).bind fun kind _ => (ensures_true _).bind fun belongs _ => ?_
  refine Ensures.ite (ensures_ok ?_) ((ensures_true _).bind fun blanks _ =>
    Ensures.ite (ensures_ok ?_) ((ensures_true _).bind fun result _ => ?_))
  · exact forall_mem_append.mpr ⟨hpending, forall_mem_singleton.mpr ht⟩
  · exact forall_mem_singleton.mpr ht
  · obtain ⟨lines, previous⟩ := result
    dsimp only
    split
    · exact ensures_ok (forall_mem_nil _)
    · exact ensures_error
    · exact (ensures_true _).bind fun before _ => ensures_ok (forall_mem_nil _)

include hQ hformat hbody

include hpending in
theorem statement_congr (ht : Q t) (kind : Kind) (blanks : List Text) :
    statement format body c s kind t blanks = statement format' body' c s kind t blanks := by
  rw [statement, statement, hformat t ht]
  refine bind_congr fun result => ?_
  obtain ⟨lines, previous⟩ := result
  dsimp only
  split
  · rfl
  · rfl
  · rw [Annotations.putBefore_congr hQ hbody hpending]

include hpending in
theorem steps_congr {ts : List Tree} (hts : ∀ t ∈ ts, Q t) :
    steps inFunction format body c s ts = steps inFunction format' body' c s ts := by
  induction ts generalizing s with
  | nil => rfl
  | cons t ts ih =>
    obtain ⟨ht, hts⟩ := forall_mem_cons.mp hts
    have hstep : step inFunction format body c s t ts.head? = step inFunction format' body' c s t ts.head? := by
      simp only [step, statement_congr hQ hformat hbody hpending ht]
    rw [steps, steps, ← hstep]
    exact (pending_step hpending ht _).bind_eq fun _ hnext => ih hnext hts

end Block

theorem block_congr (hQ : HasLinks Q) (hblock : AgreeOnBlocks Q block block') {ts : List Tree}
    (hts : ∀ t ∈ ts, Q t) (inFunction : Bool) :
    Format.block inFunction (Statement.format block) (Statement.body block) ts c =
      Format.block inFunction (Statement.format block') (Statement.body block') ts c := by
  simp only [Format.block, Block.steps_congr hQ (fun t ht c => Statement.format_congr hQ hblock ht)
    (Statement.agreeOnBodies hblock) (s := ⟨[], c.previous, none, []⟩) (forall_mem_nil _) hts]

/-- Lays out blocks as far as `depth` goes, and from there on as `bottom` does. -/
def blockOver (bottom : BlockFormatter) : Nat → BlockFormatter
  | 0 => bottom
  | depth + 1 =>
    Format.block true (Statement.format (blockOver bottom depth)) (Statement.body (blockOver bottom depth))

theorem functionBlock_eq_blockOver (depth : Nat) :
    functionBlock depth = blockOver (fun _ _ => .error .tooDeep) depth := by
  induction depth with
  | zero => rfl
  | succ depth ih => rw [functionBlock, blockOver, ih]

/-! ## Texts -/

def Within (n : Nat) (t : Tree) : Prop :=
  t.Conforms Fragment.keepsTokens ∧ t.size ≤ n

theorem hasLinks_within (n : Nat) : HasLinks (Within n) where
  hereditary t h u hu := ⟨h.1.child hu, Nat.le_of_lt (Nat.lt_of_lt_of_le (Tree.size_lt_of_mem hu) h.2)⟩
  linked {k span children} h hk := by
    cases h.1 with
    | node hexpands heach =>
      rcases hk with rfl | rfl | rfl
      · obtain ⟨base, rest, rfl, -⟩ := exists_pairs_of_expands hexpands
        rfl
      · obtain ⟨labels, hlabels⟩ := hexpands.exists_first rfl
        obtain ⟨callee, rest, rfl, hcallee, -⟩ := exists_of_map_label hlabels
        cases heach callee mem_cons_self with
        | token => cases hcallee
        | node hinner _ =>
          obtain rfl := Label.node.inj hcallee
          obtain ⟨base, rest, rfl, -⟩ := exists_pairs_of_expands hinner
          rfl
      · have hlength := hexpands.fits.length_eq rfl
        rw [length_map] at hlength
        obtain ⟨base, index, rfl⟩ := length_eq_two.mp hlength
        rfl

theorem agreeOnBlocks_within (bottom bottom' : BlockFormatter) {n depth depth' : Nat} (hdepth : n ≤ depth)
    (hdepth' : n ≤ depth') : AgreeOnBlocks (Within n) (blockOver bottom depth) (blockOver bottom' depth') := by
  induction n generalizing depth depth' with
  | zero => exact fun t ht => absurd ht.2 (Nat.not_le.mpr t.size_pos)
  | succ n ih =>
    obtain ⟨depth, rfl⟩ := Nat.exists_eq_succ_of_ne_zero (Nat.ne_zero_of_lt hdepth)
    obtain ⟨depth', rfl⟩ := Nat.exists_eq_succ_of_ne_zero (Nat.ne_zero_of_lt hdepth')
    intro t ht i c
    refine block_congr (hasLinks_within n) (ih (by omega) (by omega)) (fun u hu => ?_) true
    have hu := mem_of_mem_drop hu
    have hsize := Tree.size_lt_of_mem hu
    exact ⟨ht.1.child hu, by have := ht.2; omega⟩

/-- Folding any part of a text that is parsed goes to the bottom nowhere, neither that of expressions nor that of
blocks: in every context, whatever stands there, the lines are the same. -/
theorem concrete_eq_upFrom {code : Text} {root t : Tree} (hparse : parse code = .ok root) (ht : t ∈ root.subtrees)
    (bottom : Formatter) (bottomBlock : BlockFormatter) {depth nesting : Nat} (hdepth : 4 * t.size < depth)
    (hnesting : t.size ≤ nesting) (a : Affixes) (c : Context) :
    Fold.oneLineOr (Fold.upFrom bottom (Statement.body (blockOver bottomBlock nesting)) depth) (.tree t) a c =
      concrete (Statement.body (functionBlock t.size)) t a c := by
  have hwithin : Within t.size t :=
    ⟨(conforms_of_parse hparse).inside (Tree.mem_subtrees_iff.mp ht).2, Nat.le_refl _⟩
  refine Fold.oneLineOr_congr ?_
  rw [Fold.upTo_eq_upFrom, functionBlock_eq_blockOver]
  refine Fold.upFrom_congr (hasLinks_within t.size) (Statement.agreeOnBodies
    (agreeOnBlocks_within _ _ hnesting (Nat.le_refl _))) _ _ (.tree hwithin) ?_ ?_
  · simpa only [Expr.weight] using hdepth
  · simp only [Expr.weight, Fold.depthOf]
    omega

/-- A lambda in a chain, with no room for anything. -/
def nestedCalls : Text :=
  "var x = a.b(func(): return [c, d])[0].e\n".toList

def noRoom : Context :=
  ⟨⟨-1, 2, tabWidth, ['\t'], [], [], []⟩, 0, some 0⟩

theorem concrete_eq_upFrom_nestedCalls :
    ∃ root t lines, parse nestedCalls = .ok root ∧ t ∈ root.subtrees ∧ lines.length = 12 ∧
      ∀ bottom bottomBlock, Fold.oneLineOr (Fold.upFrom bottom (Statement.body (blockOver bottomBlock 18)) 73)
        (.tree t) ⟨[], some 1, [], some 1⟩ noRoom = .ok lines := by
  have hparse : (parse nestedCalls).toOption.any (fun root => decide (∃ t ∈ root.subtrees, t.size = 18 ∧
      ((concrete (Statement.body (functionBlock t.size)) t ⟨[], some 1, [], some 1⟩ noRoom).toOption.map
        List.length) = some 12)) = true := by
    decide +kernel
  obtain ⟨root, hroot, t, ht, hsize, hlength⟩ := exists_eq_ok_of_any hparse
  obtain ⟨lines, hlines, hlength⟩ := Option.map_eq_some_iff.mp hlength
  refine ⟨root, t, lines, hroot, ht, hlength, fun bottom bottomBlock => ?_⟩
  rw [concrete_eq_upFrom hroot ht bottom bottomBlock (by omega) (by omega)]
  exact eq_ok_of_toOption hlines

end Format

end GDWorkbench
