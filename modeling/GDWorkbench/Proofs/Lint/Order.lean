import GDWorkbench.Lint.Order
import GDWorkbench.Proofs.Outline

/-!
The order of the declarations in a class. A statement is judged against all that stand before it: it is
reported if its section has no rank, or a lower one than some section before. The check itself keeps only
one rank, the highest that it has come to.
-/

namespace GDWorkbench.Lint

theorem Problem.succeeds_ofTree {check : Check} {description : Text} {t : Tree} (h : t.span?.isSome) :
    Succeeds (Problem.ofTree check description t) := by
  obtain ⟨span, hspan⟩ := Option.isSome_iff_exists.mp h
  rw [Problem.ofTree, hspan]
  exact succeeds_ok

namespace Order

open List Outline

variable {name : Text}

variable {s : Statement} {ss : List Statement} {rank : Text → Option Nat} {before sections : List Text}

/-! ## Sections -/

theorem succeeds_visibility (hs : s.IsMember) (hk : s.isKind .classVarStmt) :
    Succeeds (visibility s) := by
  obtain ⟨span, children, htree⟩ := Tree.exists_of_isKind hk
  have hregular := hs.regular
  rw [htree] at hregular
  obtain ⟨inner, rest, rfl, hnamed⟩ := hregular.exists_isNamed (by decide)
  rw [visibility, htree]
  exact hnamed.nameToken.bind fun _ _ => succeeds_ok

theorem succeeds_variableSection (hs : s.IsMember)
    (hk : s.isKind .classVarStmt) : Succeeds (variableSection s) := by
  rw [variableSection]
  split
  · exact succeeds_ok
  · exact (succeeds_visibility hs hk).bind fun _ => succeeds_ok

theorem succeeds_sectionOf (hs : s.IsMember) (hrelevant : isIrrelevant s = false) :
    Succeeds (sectionOf s) := by
  obtain ⟨⟨hpass, hclass⟩, -⟩ : (s.isKind .passStmt = false ∧ s.isKind .classDef = false) ∧ _ := by
    simpa only [isIrrelevant, Bool.or_eq_false_iff] using hrelevant
  obtain ⟨k, hk, span, children, htree⟩ := Label.exists_node hs.kind
  have hkind {k' : Kind} (h : s.isKind k' = false) : k ≠ k' := by
    rintro rfl
    rw [Statement.isKind, htree] at h
    exact of_decide_eq_false h rfl
  rw [sectionOf, htree]
  simp only [mem_cons, not_mem_nil, or_false] at hk
  rcases hk with rfl | rfl | rfl | rfl | rfl | rfl | rfl | rfl | rfl | rfl | rfl | rfl | rfl | rfl |
    rfl | rfl
  case inl => exact absurd rfl (hkind hpass)
  all_goals try exact succeeds_ok
  · exact succeeds_variableSection hs (by rw [Statement.isKind, htree]; rfl)
  · exact absurd rfl (hkind hclass)
  · exact absurd rfl (hkind hs.isStatement)

/-! ## Ranks -/

def isMisplaced (rank : Text → Option Nat) (before : List Text) (name : Text) : Bool :=
  match rank name with
  | none => true
  | some r => before.any fun other => (rank other).any fun r' => decide (r < r')

/-- The statements that are out of place, each with its section and behind the sections `before`. -/
def misplaced (rank : Text → Option Nat) : List Text → List (Statement × Text) → List Statement
  | _, [] => []
  | before, (s, name) :: rest =>
    (if isMisplaced rank before name then [s] else []) ++ misplaced rank (before ++ [name]) rest

/-- The highest rank among sections, or zero. -/
def Reached (rank : Text → Option Nat) (before : List Text) (reached : Nat) : Prop :=
  ∀ r, reached ≤ r ↔ ∀ name ∈ before, ∀ r' ∈ rank name, r' ≤ r

theorem Reached.append {reached : Nat} (h : Reached rank before reached)
    (hname : ∀ r ∈ rank name, r ≤ reached) : Reached rank (before ++ [name]) reached := by
  intro r
  rw [forall_mem_append, forall_mem_singleton, ← h r]
  exact ⟨fun hr => ⟨hr, fun r' hr' => (hname r' hr').trans hr⟩, And.left⟩

theorem Reached.raise {reached r : Nat} (h : Reached rank before reached)
    (hname : rank name = some r) (hr : reached ≤ r) : Reached rank (before ++ [name]) r := by
  intro x
  rw [forall_mem_append, forall_mem_singleton, ← h x, hname]
  constructor
  · rintro hx
    exact ⟨hr.trans hx, by rintro _ ⟨⟩; exact hx⟩
  · rintro ⟨-, hx⟩
    exact hx r rfl

theorem Reached.isMisplaced_iff {reached r : Nat} (h : Reached rank before reached)
    (hname : rank name = some r) : isMisplaced rank before name ↔ ¬ reached ≤ r := by
  rw [isMisplaced, hname, h r]
  simp only [any_eq_true, Option.any_eq_true, decide_eq_true_eq, not_forall, not_le, exists_prop,
    Option.mem_def]

/-! ## The check -/

def relevant (ss : List Statement) : List Statement :=
  ss.filter (!isIrrelevant ·)

def Reports (s : Statement) (p : Problem) : Prop :=
  ∃ description, Problem.ofTree .classDefinitionsOrder description s.tree = .ok p

def AreSections (ss : List Statement) (sections : List Text) : Prop :=
  Forall₂ (fun s name => sectionOf s = .ok name) ss sections

/-- Going on from a rank reports what is out of place behind the sections that led to it. -/
theorem gives_checkFrom (order : SectionOrder) (c : Outline.Class) (h : ∀ s ∈ ss, s.IsMember) (current : Text)
    {reached : Nat} (hreached : Reached order.rank before reached) :
    ∃ sections, AreSections (relevant ss) sections ∧
      Gives (checkFrom order c current reached ss)
        (Forall₂ Reports (misplaced order.rank before ((relevant ss).zip sections))) := by
  induction ss generalizing before current reached with
  | nil => exact ⟨[], .nil, gives_ok .nil⟩
  | cons s ss ih =>
    obtain ⟨hs, hss⟩ := forall_mem_cons.mp h
    rw [checkFrom]
    cases hirrelevant : isIrrelevant s with
    | true =>
      rw [if_pos rfl, relevant, filter_cons_of_neg (by simp [hirrelevant])]
      exact ih hss current hreached
    | false =>
      rw [if_neg Bool.false_ne_true, relevant, filter_cons_of_pos (by simp [hirrelevant])]
      obtain ⟨name, hname, -⟩ := succeeds_sectionOf hs hirrelevant
      rw [hname]
      have hreport (description : Text) (hmisplaced : isMisplaced order.rank before name)
          (hstays : Reached order.rank (before ++ [name]) reached) :
          ∃ sections, AreSections (s :: relevant ss) sections ∧ Gives (do
            let p ← Problem.ofTree .classDefinitionsOrder description s.tree
            return p :: (← checkFrom order c current reached ss))
            (Forall₂ Reports (misplaced order.rank before ((s :: relevant ss).zip sections))) := by
        obtain ⟨sections, hsections, hmore⟩ := ih hss current hstays
        obtain ⟨p, hp, -⟩ := Problem.succeeds_ofTree hs.located
        refine ⟨name :: sections, .cons hname hsections, ?_⟩
        rw [hp]
        refine hmore.bind fun problems hproblems => gives_ok ?_
        rw [zip_cons_cons, misplaced, if_pos hmisplaced]
        exact .cons ⟨description, hp⟩ hproblems
      dsimp only [bind, Except.bind]
      cases hrank : order.rank name with
      | none =>
        refine hreport _ (by rw [isMisplaced, hrank]) (hreached.append ?_)
        rw [hrank]
        exact fun r hr => absurd hr (Option.not_mem_none r)
      | some r =>
        by_cases hr : reached ≤ r
        · obtain ⟨sections, hsections, hmore⟩ := ih hss name (hreached.raise hrank hr)
          refine ⟨name :: sections, .cons hname hsections, ?_⟩
          have hplaced : ¬ isMisplaced order.rank before name :=
            fun h => (hreached.isMisplaced_iff hrank).mp h hr
          rw [zip_cons_cons, misplaced, if_neg hplaced, nil_append]
          dsimp only
          rw [if_pos hr]
          exact hmore
        · dsimp only
          rw [if_neg hr]
          refine hreport _ ((hreached.isMisplaced_iff hrank).mpr hr) (hreached.append ?_)
          rw [hrank]
          rintro _ ⟨⟩
          omega

/-! ## Orders that are kept -/

def InOrder (rank : Text → Option Nat) (a b : Text) : Prop :=
  ∀ r ∈ rank a, ∀ r' ∈ rank b, r ≤ r'

theorem isMisplaced_eq_false_iff : isMisplaced rank before name = false ↔
    (rank name).isSome ∧ ∀ other ∈ before, InOrder rank other name := by
  unfold isMisplaced
  cases hrank : rank name with
  | none => simp
  | some r =>
    simp only [InOrder, hrank, any_eq_false, Option.isSome_some, true_and]
    refine forall₂_congr fun other _ => ?_
    cases rank other <;> simp

theorem misplaced_eq_nil_iff (h : AreSections ss sections) :
    misplaced rank before (ss.zip sections) = [] ↔ (∀ name ∈ sections, (rank name).isSome) ∧
      (∀ other ∈ before, ∀ name ∈ sections, InOrder rank other name) ∧
      sections.Pairwise (InOrder rank) := by
  induction h generalizing before with
  | nil => simp [misplaced]
  | @cons s name ss sections hs hmore ih =>
    rw [zip_cons_cons, misplaced, append_eq_nil_iff, ih, pairwise_cons, forall_mem_cons]
    have hif : (if isMisplaced rank before name then [s] else []) = [] ↔
        (rank name).isSome ∧ ∀ other ∈ before, InOrder rank other name := by
      rw [← isMisplaced_eq_false_iff]
      cases isMisplaced rank before name <;> simp
    rw [hif]
    simp only [forall_mem_append, forall_mem_singleton, forall_mem_cons]
    constructor
    · rintro ⟨⟨hname, hbefore⟩, hall, ⟨hrest, hlater⟩, hpairs⟩
      exact ⟨⟨hname, hall⟩, fun other hother => ⟨hbefore other hother, hrest other hother⟩, hlater, hpairs⟩
    · rintro ⟨⟨hname, hall⟩, hbefore, hlater, hpairs⟩
      exact ⟨⟨hname, fun other hother => (hbefore other hother).1⟩, hall,
        ⟨fun other hother => (hbefore other hother).2, hlater⟩, hpairs⟩

/-- A section that is listed has its first position in the list as its rank. -/
theorem exists_orderIn {names : List Text} (h : names ≠ []) :
    ∃ order, Config.orderIn (.list (names.map .text)) = .ok order ∧ order.rank = names.idxOf? := by
  obtain ⟨name, names, rfl⟩ := exists_cons_of_ne_nil h
  refine ⟨_, rfl, funext fun found => ?_⟩
  change ((name :: names).map Configuration.Value.text).findIdx? _ = _
  rw [findIdx?_map, idxOf?]
  refine congrArg (findIdx? · _) (funext fun x => ?_)
  rw [Bool.eq_iff_iff]
  simp [Configuration.Value.isText]

/-- The check reports what is out of place, each statement once and in their order. It has nothing to
report if all sections are listed and stand in the order of the list. -/
theorem checkClass_reports_misplaced {code : Text} {root : Tree} {file c : Outline.Class} {names : List Text}
    (hparse : parse code = .ok root) (hfile : Class.ofTree root = .ok file) (hc : c ∈ classes file)
    (hnames : names ≠ []) :
    ∃ sections problems, AreSections (relevant c.statements) sections ∧
      checkClass (Config.orderIn (.list (names.map .text))) c = .ok problems ∧
      Forall₂ Reports (misplaced names.idxOf? [] ((relevant c.statements).zip sections)) problems ∧
      (problems = [] ↔
        (∀ name ∈ sections, name ∈ names) ∧ sections.Pairwise (InOrder names.idxOf?)) := by
  obtain ⟨hregular, hkind, hspan⟩ := isRegular_of_parse hparse
  obtain ⟨hclasses, -⟩ := (delivers_ofTree False (conforms_of_parse hparse) hregular
    (decide_eq_true hkind) hspan False.elim).1 file hfile
  obtain ⟨order, horder, hrank⟩ := exists_orderIn hnames
  have hreached : Reached order.rank [] 0 := fun r => iff_of_true (Nat.zero_le r) (forall_mem_nil _)
  obtain ⟨sections, hsections, problems, hproblems, hreports⟩ :=
    gives_checkFrom order c (hclasses c hc).statements order.first hreached
  rw [hrank] at hreports
  refine ⟨sections, problems, hsections, ?_, hreports, ?_⟩
  · rw [checkClass, horder]
    exact hproblems
  · have hnil : problems = [] ↔ misplaced names.idxOf? [] ((relevant c.statements).zip sections) = [] := by
      rw [← length_eq_zero_iff, ← length_eq_zero_iff, hreports.length_eq]
    rw [hnil, misplaced_eq_nil_iff hsections]
    simp only [isSome_idxOf?, not_mem_nil, false_imp_iff, implies_true, true_and]

def signalBehindVariable : Text :=
  "var a\nsignal s\nfunc f():\n\tpass\n".toList

def signalsFirst : List Text :=
  ["signals".toList, "pubvars".toList, "others".toList]

theorem checkClass_reports_signal :
    ∃ root file sections problems, parse signalBehindVariable = .ok root ∧ Class.ofTree root = .ok file ∧
      AreSections (relevant file.statements) sections ∧
      checkClass (Config.orderIn (.list (signalsFirst.map .text))) file = .ok problems ∧
      Forall₂ Reports (misplaced signalsFirst.idxOf? [] ((relevant file.statements).zip sections)) problems ∧
      problems.length = 1 := by
  have hparse : (parse signalBehindVariable).toOption.any (fun root => decide
      ((Class.ofTree root).toOption.any (fun file => decide
        ((checkClass (Config.orderIn (.list (signalsFirst.map .text))) file).toOption.any
          (fun problems => decide (problems.length = 1)) = true)) = true)) = true := by
    decide +kernel
  obtain ⟨root, hroot, hfile⟩ := exists_eq_ok_of_any hparse
  obtain ⟨file, hfile, hcheck⟩ := exists_eq_ok_of_any hfile
  obtain ⟨problems, hcheck, hone⟩ := exists_eq_ok_of_any hcheck
  obtain ⟨sections, _, hsections, hproblems, hreports, -⟩ :=
    checkClass_reports_misplaced hroot hfile mem_cons_self (by decide : signalsFirst ≠ [])
  cases hcheck.symm.trans hproblems
  exact ⟨root, file, sections, problems, hroot, hfile, hsections, hcheck, hreports, hone⟩

end Order

end GDWorkbench.Lint
