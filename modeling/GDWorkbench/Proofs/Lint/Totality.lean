import GDWorkbench.Lint
import GDWorkbench.Proofs.Lint.Order

/-!
The checks come to an end with a list of problems wherever the configuration fits and the tree is
regular, those of needless branches apart: what a check counts on is there.
-/

namespace GDWorkbench.Lint

open List Problem GDWorkbench.Tree

variable {file : Outline.Class}

/-! ## Configurations -/

def readPattern (text : Except Fault Text) : Except Fault Pattern :=
  text >>= fun text => (Pattern.read text).mapError Names.faultOf

/-- All values can be used. Negative limits are left out: with one, a check reports the last return of
a function that has none. -/
structure Config.IsFit (config : Config) : Prop where
  disabled : Succeeds config.disabled
  pattern : ∀ rule ∈ Names.rules, Succeeds (readPattern (config.pattern rule.check))
  order : Succeeds config.order
  maxReturns : Gives config.maxReturns fun limit => 0 ≤ limit.bound
  maxPublicMethods : Gives config.maxPublicMethods fun limit => 0 ≤ limit.bound
  maxArguments : Succeeds config.maxArguments
  maxFileLines : Succeeds config.maxFileLines
  maxLineLength : Succeeds config.maxLineLength
  tabWidth : Succeeds config.tabWidth

theorem isOk_readPattern_default : ∀ rule ∈ Names.rules,
    (readPattern (Config.default.pattern rule.check)).isOk := by
  decide +kernel

theorem Config.isFit_default : Config.default.IsFit where
  disabled := succeeds_ok
  pattern rule hrule := succeeds_of_isOk (isOk_readPattern_default rule hrule)
  order := succeeds_ok
  maxReturns := gives_ok (by decide)
  maxPublicMethods := gives_ok (by decide)
  maxArguments := succeeds_ok
  maxFileLines := succeeds_ok
  maxLineLength := succeeds_ok
  tabWidth := succeeds_ok

variable {config : Config} {check : Check} {problems : Problems}

theorem Config.IsFit.run (hconfig : config.IsFit) (h : Succeeds problems) :
    Succeeds (config.run check problems) := by
  refine (hconfig.disabled.bind (R := fun _ => True) fun _ => succeeds_ok).bind fun enabled _ => ?_
  cases enabled with
  | true => exact h
  | false => exact succeeds_ok

theorem Limit.ne_zero_of_isExceeded {limit : Limit} {n : Nat} (hlimit : 0 ≤ limit.bound)
    (h : limit.isExceeded n) : n ≠ 0 := by
  have := of_decide_eq_true h
  omega

/-! ## Sizes -/

namespace Design

variable {limit : Except Fault Limit} {f : Outline.Function}

open Outline

theorem succeeds_publicMethods (hlimit : Gives limit fun l => 0 ≤ l.bound)
    {c : Outline.Class} (hc : c.IsSound) : Succeeds (publicMethods limit c) := by
  refine hlimit.bind fun limit hbound => ?_
  dsimp only
  split
  · exact succeeds_ok
  · rename_i hexceeded
    have hne : c.members ≠ [] := by
      intro hnil
      refine Limit.ne_zero_of_isExceeded hbound (by simpa using hexceeded) ?_
      simp [Class.functions, hnil]
    exact (succeeds_ofTree (hc.located hne)).bind fun _ => succeeds_ok

theorem succeeds_returns (hlimit : Gives limit fun l => 0 ≤ l.bound)
    (hf : f.IsLocated) : Succeeds (returns limit f) := by
  refine hlimit.bind fun limit hbound => ?_
  dsimp only
  split
  · exact succeeds_ok
  · rename_i hexceeded
    split
    · rename_i hlast
      refine absurd ?_ (Limit.ne_zero_of_isExceeded hbound (by simpa using hexceeded))
      rw [getLast?_eq_none_iff.mp hlast, length_nil]
    · rename_i last hlast
      have hmem := mem_of_mem_filter (mem_of_getLast? hlast)
      exact (succeeds_ofTree (hf last hmem)).bind fun _ => succeeds_ok

theorem succeeds_arguments (hlimit : Succeeds limit) (hf : f.IsLocated) : Succeeds (arguments limit f) := by
  refine hlimit.bind fun limit => ?_
  split
  · exact succeeds_ok
  · exact (succeeds_ofTree (hf _ mem_cons_self)).bind fun _ => succeeds_ok

theorem succeeds_check (hconfig : config.IsFit)
    (hclasses : ∀ c ∈ classes file, c.IsSound) (hfunctions : ∀ f ∈ file.allFunctions, f.IsLocated) :
    Succeeds (Design.check config file) := by
  refine (hconfig.run (.filterMapM fun c hc => ?_)).bind fun _ =>
    (hconfig.run (.filterMapM fun f hf => ?_)).bind fun _ =>
    (hconfig.run (.filterMapM fun f hf => ?_)).bind fun _ => succeeds_ok
  · exact succeeds_publicMethods hconfig.maxPublicMethods (hclasses c hc)
  · exact succeeds_returns hconfig.maxReturns (hfunctions f hf)
  · exact succeeds_arguments hconfig.maxArguments (hfunctions f hf)

end Design

/-! ## Lines -/

namespace Lines

theorem succeeds_tooLong (hconfig : config.IsFit) (n : Nat) (lines : List Text) :
    Succeeds (tooLong config n lines) := by
  induction lines generalizing n with
  | nil => exact succeeds_ok
  | cons line rest ih =>
    exact hconfig.tabWidth.bind fun _ => hconfig.maxLineLength.bind fun _ =>
      (ih (n + 1)).bind fun _ => succeeds_ok

theorem succeeds_tooMany (hconfig : config.IsFit) (lines : List Text) :
    Succeeds (tooMany config lines) := by
  refine hconfig.maxFileLines.bind fun limit => ?_
  split <;> exact succeeds_ok

theorem succeeds_check (hconfig : config.IsFit) (code : Text) : Succeeds (Lines.check config code) :=
  (hconfig.run (succeeds_tooLong hconfig 1 _)).bind fun _ =>
    (hconfig.run (succeeds_tooMany hconfig _)).bind fun _ =>
      (hconfig.run succeeds_ok).bind fun _ => (hconfig.run succeeds_ok).bind fun _ => succeeds_ok

end Lines

/-! ## Order -/

namespace Order

open Outline

theorem succeeds_check (hconfig : config.IsFit)
    (hclasses : ∀ c ∈ classes file, c.IsSound) : Succeeds (Order.check config file) := by
  refine hconfig.run (Succeeds.bind (.mapM fun c hc => ?_) fun _ => succeeds_ok)
  refine hconfig.order.bind fun order => ?_
  have hreached : Reached order.rank [] 0 := fun r => iff_of_true (Nat.zero_le r) (forall_mem_nil _)
  obtain ⟨_, -, hproblems⟩ := gives_checkFrom order c (hclasses c hc).statements order.first hreached
  exact hproblems.succeeds

end Order

/-! ## Names -/

namespace Names

variable {rule : Rule} {t : Tree}

theorem succeeds_calledName {children : List Tree} (h : ∀ c ∈ children, c.IsRegular) :
    Succeeds (calledName children) := by
  fun_induction calledName children with
  | case1 => exact succeeds_ok
  | case2 => exact succeeds_ok
  | case3 span' span arguments rest hnone =>
    have hcall := ((h _ mem_cons_self).child mem_cons_self).1
    obtain ⟨name, -, -, hname⟩ := hcall.nameToken?_call
    rw [hname] at hnone
    cases hnone
  | case4 _ _ _ ih => exact ih fun c hc => h c (mem_cons_of_mem _ hc)

theorem succeeds_calls (h : t.IsRegular) (names : List String) : Succeeds (calls names t) :=
  (succeeds_calledName fun _ hc => (h.child hc).1).bind fun _ => succeeds_ok

theorem succeeds_accepts (h : t.IsRegular) (filter : Filter) : Succeeds (filter.accepts t) := by
  cases filter with
  | all => exact succeeds_ok
  | loads => exact succeeds_calls h _
  | doesNotLoad => exact (succeeds_calls h _).bind fun _ => succeeds_ok
  | preloads => exact succeeds_calls h _

def Declares (t : Tree) : Prop :=
  t.IsNamed ∨ ∃ k span inner rest, t = .node k span (inner :: rest) ∧ inner.IsNamed

theorem isNamed_or_holdsName : ∀ rule ∈ rules, ∀ k ∈ rule.kinds, k.isNamed ∨ k.holdsName := by
  decide

theorem declares_of_isKind (h : t.IsRegular) (hrule : rule ∈ rules) {k : Kind}
    (hk : k ∈ rule.kinds) (ht : t.isKind k) : Declares t := by
  obtain ⟨span, children, rfl⟩ := exists_of_isKind ht
  rcases isNamed_or_holdsName rule hrule k hk with hname | hname
  · exact .inl (h.isNamed hname)
  · obtain ⟨inner, rest, rfl, hinner⟩ := h.exists_isNamed hname
    exact .inr ⟨k, span, inner, rest, rfl, hinner⟩

theorem succeeds_declaredName (h : t.IsRegular) (hdeclares : Declares t) (filter : Filter) :
    Succeeds (declaredName filter t) := by
  rw [declaredName]
  split
  · exact (succeeds_accepts h filter).bind fun _ => succeeds_ok
  · rename_i hnone
    rcases hdeclares with hnamed | ⟨k, span, inner, rest, rfl, hnamed⟩
    · obtain ⟨name, hname, -⟩ := hnamed.nameToken?
      rw [hname] at hnone
      cases hnone
    · obtain ⟨name, hname, -⟩ := hnamed.nameToken?
      have haccepts := succeeds_accepts (h.child mem_cons_self).1 filter
      obtain ⟨k', span', name', rest', rfl, -⟩ := hnamed
      refine haccepts.bind fun _ => ?_
      rw [hname]
      exact succeeds_ok

theorem succeeds_tokens (h : t.IsRegular) (hrule : rule ∈ rules) : Succeeds (rule.tokens t) := by
  refine Succeeds.bind (.mapM fun k hk => .filterMapM fun s hs => ?_) fun _ => succeeds_ok
  obtain ⟨hkind, hinside⟩ := mem_subtreesOf_iff.mp hs
  have hregular := hinside.isRegular h
  exact succeeds_declaredName hregular (declares_of_isKind hregular hrule hk hkind) rule.filter

theorem succeeds_problems {pattern : Except Fault Text} (h : Succeeds (readPattern pattern))
    {names : List Token} : Succeeds (rule.problems pattern names) := by
  have heq : rule.problems pattern names = readPattern pattern >>= fun pattern =>
      .ok ((names.filter fun name => !pattern.holds name.content).map rule.problem) := by
    cases pattern <;> rfl
  rw [heq]
  exact h.bind fun _ => succeeds_ok

theorem succeeds_check (hconfig : config.IsFit) (h : t.IsRegular) :
    Succeeds (Names.check config t) := by
  have hgathered : Gives (rules.mapM fun rule => do return (rule, ← rule.tokens t)) fun gathered =>
      ∀ entry ∈ gathered, entry.1 ∈ rules :=
    .mapM fun rule hrule => (succeeds_tokens h hrule).bind fun _ => gives_ok hrule
  refine hgathered.bind fun gathered hrules => Succeeds.bind (.mapM fun entry hentry => ?_)
    fun _ => succeeds_ok
  exact hconfig.run (succeeds_problems (hconfig.pattern entry.1 (hrules entry hentry)))

end Names

/-! ## Statements and expressions -/

namespace Basic

variable {ts : List Tree} {name : Text} {t : Tree}

theorem succeeds_unnecessaryPass (h : t.IsRegular) : Succeeds (unnecessaryPass t) := by
  refine .mapM fun pass hpass => succeeds_ofTree ?_
  obtain ⟨s, hs, hpass⟩ := mem_flatMap.mp hpass
  have hmem : pass ∈ s.children := by
    rw [needlessPasses] at hpass
    split at hpass
    · exact mem_of_mem_filter hpass
    · cases hpass
  exact (((mem_subtrees_iff.mp hs).2.isRegular h).child hmem).2

theorem isSome_span?_unwrap (h : t.IsRegular) (hspan : t.span?.isSome) :
    (Format.unwrap t).span?.isSome := by
  fun_induction Format.unwrap t with
  | case1 span inner rest ih =>
    have hinner := h.child mem_cons_self
    exact ih hinner.1 hinner.2
  | case2 => exact hspan

theorem succeeds_notAssigned (h : t.IsRegular) (ht : t.isKind .exprStmt) :
    Succeeds (notAssigned t) := by
  obtain ⟨span, children, rfl⟩ := exists_of_isKind ht
  obtain ⟨e, rfl, he⟩ := h.row.exists_singleton
  obtain ⟨span', children, rfl⟩ := Label.exists_node_of_mem he
  have hexpr := (h.child mem_cons_self).1
  obtain ⟨value, rfl, -⟩ := hexpr.row.exists_singleton
  have hvalue := hexpr.child mem_cons_self
  change Succeeds (if isEffective (Format.unwrap value) then _ else _)
  split
  · exact succeeds_ok
  · have hspan := isSome_span?_unwrap hvalue.1 hvalue.2
    exact (succeeds_ofTree hspan).bind fun _ => succeeds_ok

theorem succeeds_expressionNotAssigned (h : t.IsRegular) : Succeeds (expressionNotAssigned t) := by
  refine .filterMapM fun s hs => ?_
  obtain ⟨hkind, hinside⟩ := mem_subtreesOf_iff.mp hs
  exact succeeds_notAssigned (hinside.isRegular h) hkind

/-! ### Loading -/

theorem mem_insertByLine {s : Tree} : s ∈ insertByLine t ts ↔ s = t ∨ s ∈ ts := by
  induction ts with
  | nil => simp [insertByLine]
  | cons u us ih =>
    rw [insertByLine]
    split
    · exact mem_cons
    · rw [mem_cons, ih, mem_cons, or_left_comm]

theorem mem_foldr_insertByLine {s : Tree} : s ∈ ts.foldr insertByLine [] ↔ s ∈ ts := by
  induction ts with
  | nil => rfl
  | cons t ts ih => rw [foldr_cons, mem_insertByLine, ih, mem_cons]

def IsString (t : Tree) : Prop :=
  t.IsRegular ∧ t.span?.isSome = true ∧ t.isKind .string = true

theorem gives_loadedString (h : t.IsRegular) (ht : t.isKind .standaloneCall) :
    Gives (loadedString t) fun found => ∀ s ∈ found, IsString s := by
  obtain ⟨span, children, rfl⟩ := exists_of_isKind ht
  obtain ⟨name, rest, rfl, -⟩ := h.nameToken?_call
  refine gives_ok fun s hs => ?_
  cases rest with
  | nil => cases hs
  | cons second rest =>
    have hsecond := h.child (mem_cons_of_mem _ mem_cons_self)
    dsimp only [Tree.children] at hs
    split at hs
    · rename_i hload
      cases hs
      exact ⟨hsecond.1, hsecond.2, (Bool.and_eq_true_iff.mp hload).2⟩
    · cases hs

theorem succeeds_loadedAgain (seen : List Text) {strings : List Tree}
    (h : ∀ s ∈ strings, IsString s) : Succeeds (loadedAgain seen strings) := by
  induction strings generalizing seen with
  | nil => exact succeeds_ok
  | cons s strings ih =>
    obtain ⟨⟨hregular, hspan, hkind⟩, hmore⟩ := forall_mem_cons.mp h
    obtain ⟨span, children, rfl⟩ := exists_of_isKind hkind
    obtain ⟨c, rfl, hc⟩ := hregular.row.exists_singleton
    obtain ⟨token, rfl, -⟩ := Label.exists_leaf hc
    change Succeeds (if seen.contains token.content then _ else _)
    split
    · exact (succeeds_ofTree hspan).bind fun _ => (ih seen hmore).bind fun _ => succeeds_ok
    · exact ih _ hmore

theorem succeeds_duplicatedLoad (h : t.IsRegular) : Succeeds (duplicatedLoad t) := by
  refine Gives.bind (.filterMapM fun call hcall => ?_) fun strings hstrings =>
    succeeds_loadedAgain [] hstrings
  obtain ⟨hkind, hinside⟩ := mem_subtreesOf_iff.mp (mem_foldr_insertByLine.mp hcall)
  exact gives_loadedString (hinside.isRegular h) hkind

/-! ### Arguments -/

theorem gives_argumentName (h : t.IsArgument) (hcomma : t.isTrailingComma = false) :
    Gives (argumentName t) fun name => name.terminal = .identifier ∧ Inside (.token name) t := by
  cases h with
  | @plain k span children hkind hnamed =>
    dsimp only [argumentName, kind, bind, Except.bind]
    split
    · exact absurd rfl hkind
    · exact hnamed.nameToken.mono fun name hname => hname.imp_right fun hmem => .child hmem .refl
  | comma => cases hcomma
  | variadic span hnamed =>
    exact hnamed.nameToken.mono fun name hname =>
      hname.imp_right fun hmem => .child mem_cons_self (.child hmem .refl)

theorem mem_of_mem_distinctNames {names : List Text} (h : name ∈ distinctNames names) : name ∈ names := by
  have hfold (found : List Text) : name ∈ names.foldl (fun found name =>
      if found.contains name then found else found ++ [name]) found → name ∈ found ∨ name ∈ names := by
    clear h
    induction names generalizing found with
    | nil => exact .inl
    | cons first names ih =>
      intro h
      rcases ih _ h with h | h
      · dsimp only at h
        split at h
        · exact .inl h
        · rcases mem_append.mp h with h | h
          · exact .inl h
          · exact .inr (mem_singleton.mp h ▸ mem_cons_self)
      · exact .inr (mem_cons_of_mem _ h)
  exact (hfold [] h).resolve_left nofun

theorem succeeds_unusedName {arguments : List Token} {occurrences : List Text}
    (h : name ∈ occurrences) : Succeeds (unusedName arguments occurrences name) := by
  have hcount : occurrences.count name ≠ 0 := Nat.pos_iff_ne_zero.mp (count_pos_iff.mpr h)
  rw [unusedName, if_neg hcount]
  split <;> exact succeeds_ok

theorem succeeds_unusedIn (h : t.IsRegular) (ht : t.isKind .funcDef) : Succeeds (unusedIn t) := by
  obtain ⟨span, children, rfl⟩ := exists_of_isKind ht
  obtain ⟨header, rest, name, arguments, rfl, hheader⟩ := h.exists_header (.inl rfl)
  have hnames : Gives ((arguments.filter fun c => !c.isTrailingComma).mapM argumentName) fun names =>
      ∀ name ∈ names, name.terminal = .identifier ∧
        Inside (.token name) (.node .funcDef span (header :: rest)) := by
    refine .mapM fun a ha => ?_
    obtain ⟨hmem, hcomma⟩ := mem_filter.mp ha
    refine (gives_argumentName (hheader.arguments a hmem) (by simpa using hcomma)).mono
      fun name ⟨hterminal, hinside⟩ => ⟨hterminal, ?_⟩
    exact .child mem_cons_self (hinside.trans (hheader.inside hmem))
  obtain ⟨k', span', list, more, rfl⟩ := hheader.form
  refine hnames.bind fun names hnames => Succeeds.filterMapM fun word hword => succeeds_unusedName ?_
  obtain ⟨name, hmem, rfl⟩ := mem_map.mp (mem_of_mem_distinctNames hword)
  obtain ⟨hterminal, hinside⟩ := hnames name hmem
  exact mem_map_of_mem (mem_filter.mpr ⟨hinside.mem_tokens, decide_eq_true hterminal⟩)

theorem succeeds_unusedArgument (h : t.IsRegular) : Succeeds (unusedArgument t) := by
  refine Succeeds.bind (.mapM fun s hs => ?_) fun _ => succeeds_ok
  obtain ⟨hkind, hinside⟩ := mem_subtreesOf_iff.mp hs
  exact succeeds_unusedIn (hinside.isRegular h) hkind

/-! ### Comparisons -/

def isComparison (t : Tree) : Bool :=
  t.isKind .comparison || t.isKind .aslessComparison

def isRedundant (t : Tree) : Bool :=
  match t.children with
  | [left, _, right] => left.same right
  | _ => false

theorem exists_operands (h : t.IsRegular) (ht : isComparison t) :
    ∃ left operator right, t.children = [left, .token operator, right] ∧
      Label.comparators.admits (.leaf operator.terminal) := by
  have hrow : Place.Row (some []) [none, Label.comparators, none] (t.children.map label) := by
    rcases Bool.or_eq_true_iff.mp ht with ht | ht
    all_goals
      obtain ⟨span, children, rfl⟩ := exists_of_isKind ht
      exact h.row
  obtain ⟨left, rest, hchildren, -, hrow⟩ := hrow.exists_cons
  obtain ⟨middle, rest, rfl, hmiddle, hrow⟩ := hrow.exists_cons
  obtain ⟨right, rfl, -⟩ := hrow.exists_singleton
  obtain ⟨operator, rfl, -⟩ := Label.exists_leaf hmiddle
  exact ⟨left, operator, right, hchildren, hmiddle⟩

theorem comparisonWithItself_eq (h : t.IsRegular) :
    comparisonWithItself t = ((t.subtreesOf .comparison).filter isRedundant).mapM
      (ofTree .comparisonWithItself "Redundant comparison".toList) := by
  have hoperands : ∀ s ∈ t.subtreesOf .comparison,
      ∃ left sign right, s.children = [left, sign, right] := by
    intro s hs
    obtain ⟨hs, hinside⟩ := mem_subtreesOf_iff.mp hs
    obtain ⟨left, sign, right, hchildren, -⟩ :=
      exists_operands (hinside.isRegular h) (by rw [isComparison, hs]; rfl)
    exact ⟨left, _, right, hchildren⟩
  rw [comparisonWithItself]
  generalize t.subtreesOf .comparison = compared at hoperands
  induction compared with
  | nil => rfl
  | cons s ts ih =>
    obtain ⟨⟨left, sign, right, hs⟩, hts⟩ := forall_mem_cons.mp hoperands
    rw [filterMapM_cons, comparedWithItself, filter_cons, isRedundant, hs, ih hts]
    dsimp only
    split
    · rw [mapM_cons]
      cases ofTree .comparisonWithItself "Redundant comparison".toList s <;> rfl
    · rfl

theorem succeeds_comparisonWithItself (h : t.IsRegular) (hstart : t.isKind .start) :
    Succeeds (comparisonWithItself t) := by
  rw [comparisonWithItself_eq h]
  refine .mapM fun s hs => ?_
  obtain ⟨hkind, hinside⟩ := mem_subtreesOf_iff.mp (mem_of_mem_filter hs)
  have hne : s ≠ t := by
    rintro rfl
    cases (of_decide_eq_true hkind).symm.trans (of_decide_eq_true hstart)
  exact succeeds_ofTree (hinside.isSome_span? h hne)

theorem succeeds_check (hconfig : config.IsFit) (h : t.IsRegular) (hstart : t.isKind .start) :
    Succeeds (Basic.check config t) :=
  (hconfig.run (succeeds_unnecessaryPass h)).bind fun _ =>
    (hconfig.run (succeeds_expressionNotAssigned h)).bind fun _ =>
    (hconfig.run (succeeds_duplicatedLoad h)).bind fun _ =>
    (hconfig.run (succeeds_unusedArgument h)).bind fun _ =>
    (hconfig.run (succeeds_comparisonWithItself h hstart)).bind fun _ => succeeds_ok

end Basic

end GDWorkbench.Lint
