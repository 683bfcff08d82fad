import GDWorkbench.Lint
import GDWorkbench.Proofs.Results

/-!
Checks do not interfere. A check that is off reports nothing and changes nothing for the others, and
every problem bears the name of the check that reported it. So switching checks off takes their
problems off the list and leaves the rest as it was, in its order.
-/

namespace GDWorkbench

open List Lint.Config Lint.Problem

namespace Lint

/-! ## Names of problems -/

def Bears (check : Check) (problems : Problems) : Prop :=
  Ensures problems fun found => ∀ p ∈ found, p.check = check

section Bears

variable {check : Check} {description : Text}

theorem ensures_ofTree (t : Tree) :
    Ensures (ofTree check description t) fun p => p.check = check := by
  unfold ofTree
  split
  · exact ensures_ok rfl
  · exact ensures_error

theorem ensures_some_ofTree (t : Tree) :
    Ensures (do return some (← ofTree check description t)) fun found =>
      ∀ p ∈ found, p.check = check :=
  (ensures_ofTree t).bind fun p hp => ensures_ok (by simpa using hp)

theorem bears_mapM_ofTree (trees : List Tree) :
    Bears check (trees.mapM (ofTree check description)) :=
  Ensures.mapM fun t _ => ensures_ofTree t

theorem bears_flatten {α : Type} {xs : List α} {f : α → Problems} (h : ∀ x ∈ xs, Bears check (f x)) :
    Bears check (do return (← xs.mapM f).flatten) :=
  (Ensures.mapM h).bind fun found hfound => ensures_ok fun p hp => by
    obtain ⟨problems, hproblems, hp⟩ := mem_flatten.mp hp
    exact hfound problems hproblems p hp

theorem bears_cons {t : Tree} {rest : Problems} (h : Bears check rest) :
    Bears check (do
      let p ← ofTree check description t
      return p :: (← rest)) :=
  (ensures_ofTree t).bind fun _ hp => h.bind fun _ hfound =>
    ensures_ok (forall_mem_cons.mpr ⟨hp, hfound⟩)

end Bears

namespace Design

theorem bears_publicMethods (limit : Except Fault Limit) (classes : List Outline.Class) :
    Bears .maxPublicMethods (classes.filterMapM (publicMethods limit)) := by
  refine Ensures.filterMapM fun c _ => .skip fun limit => ?_
  exact .ite (ensures_ok nofun) (ensures_some_ofTree _)

theorem bears_returns (limit : Except Fault Limit) (functions : List Outline.Function) :
    Bears .maxReturns (functions.filterMapM (returns limit)) := by
  refine Ensures.filterMapM fun f _ => .skip fun limit => ?_
  refine .ite (ensures_ok nofun) ?_
  split
  · exact ensures_error
  · exact ensures_some_ofTree _

theorem bears_arguments (limit : Except Fault Limit) (functions : List Outline.Function) :
    Bears .functionArgumentsNumber (functions.filterMapM (arguments limit)) := by
  refine Ensures.filterMapM fun f _ => .skip fun limit => ?_
  exact .ite (ensures_ok nofun) (ensures_some_ofTree _)

end Design

namespace Lines

theorem bears_tooLong (config : Config) (n : Nat) (lines : List Text) :
    Bears .maxLineLength (tooLong config n lines) := by
  induction lines generalizing n with
  | nil => exact ensures_ok (forall_mem_nil _)
  | cons line rest ih =>
    refine .skip fun tab => .skip fun limit => (ih (n + 1)).bind fun more hmore => ensures_ok ?_
    split
    · exact forall_mem_cons.mpr ⟨rfl, hmore⟩
    · exact hmore

theorem bears_tooMany (config : Config) (lines : List Text) :
    Bears .maxFileLines (tooMany config lines) := by
  refine .skip fun limit => .ite (ensures_ok (forall_mem_nil _)) ?_
  exact ensures_ok (forall_mem_singleton.mpr rfl)

theorem bears_whichever (check : Check) (description : String) (isBad : Text → Bool)
    (lines : List Text) : Bears check (.ok (whichever check description isBad lines)) := by
  refine ensures_ok fun p hp => ?_
  obtain ⟨⟨line, i⟩, -, hline⟩ := mem_filterMap.mp hp
  dsimp only at hline
  split at hline
  · cases hline
    rfl
  · cases hline

end Lines

namespace Names

theorem bears_problems (rule : Rule) (pattern : Except Fault Text) (names : List Token) :
    Bears rule.check (rule.problems pattern names) := by
  refine .skip fun text => .skip fun read => ensures_ok fun p hp => ?_
  obtain ⟨name, -, rfl⟩ := mem_map.mp hp
  rfl

end Names

namespace Order

theorem bears_checkFrom (order : SectionOrder) (c : Outline.Class) (current : Text) (reached : Nat)
    (statements : List Outline.Statement) :
    Bears .classDefinitionsOrder (checkFrom order c current reached statements) := by
  induction statements generalizing current reached with
  | nil => exact ensures_ok (forall_mem_nil _)
  | cons s rest ih =>
    unfold checkFrom
    refine .ite (ih _ _) (.skip fun found => ?_)
    split
    · exact .ite (ih _ _) (bears_cons (ih _ _))
    · exact bears_cons (ih _ _)

theorem bears_checkClass (order : Except Fault SectionOrder) (c : Outline.Class) :
    Bears .classDefinitionsOrder (checkClass order c) :=
  .skip fun order => bears_checkFrom order c _ _ _

end Order

namespace Basic

theorem bears_expressionNotAssigned (t : Tree) :
    Bears .expressionNotAssigned (expressionNotAssigned t) := by
  refine Ensures.filterMapM fun s _ => .skip fun first => .skip fun e => ?_
  exact .ite (ensures_ok nofun) (ensures_some_ofTree _)

theorem bears_loadedAgain (seen : List Text) (strings : List Tree) :
    Bears .duplicatedLoad (loadedAgain seen strings) := by
  induction strings generalizing seen with
  | nil => exact ensures_ok (forall_mem_nil _)
  | cons string rest ih =>
    refine .skip fun text => .ite (bears_cons (ih seen)) (ih _)

theorem bears_duplicatedLoad (t : Tree) : Bears .duplicatedLoad (duplicatedLoad t) :=
  .skip fun strings => bears_loadedAgain [] strings

theorem ensures_unusedName (arguments : List Token) (occurrences : List Text) (name : Text) :
    Ensures (unusedName arguments occurrences name) fun found =>
      ∀ p ∈ found, p.check = .unusedArgument := by
  refine .ite ensures_error (.ite (ensures_ok fun p hp => ?_) (ensures_ok nofun))
  obtain ⟨token, -, rfl⟩ := Option.map_eq_some_iff.mp hp
  rfl

theorem bears_unusedIn (t : Tree) : Bears .unusedArgument (unusedIn t) := by
  refine .skip fun header => .skip fun kind => ?_
  split
  · refine .skip fun arguments => Ensures.filterMapM fun name _ => ?_
    exact ensures_unusedName _ _ _
  · exact ensures_ok (forall_mem_nil _)

theorem bears_comparisonWithItself (t : Tree) :
    Bears .comparisonWithItself (comparisonWithItself t) := by
  refine Ensures.filterMapM fun s _ => ?_
  unfold comparedWithItself
  split
  · exact .ite (ensures_some_ofTree s) (ensures_ok nofun)
  · exact ensures_error

end Basic

namespace Returns

theorem bears_noElifReturn (t : Tree) : Bears .noElifReturn (noElifReturn t) :=
  .skip fun _ => bears_mapM_ofTree _

theorem bears_noElseReturn (t : Tree) : Bears .noElseReturn (noElseReturn t) :=
  .skip fun _ => bears_mapM_ofTree _

end Returns

/-! ## Checks that are off -/

/-- The same configuration with these checks off and no others. -/
def Config.disabling (config : Config) (off : List Text) : Config :=
  { config with disabled := .ok off }

/-- Whether the check of a problem is none of those that are off. -/
def Problem.isOn (off : List Text) (p : Problem) : Bool :=
  p.check.text ∉ off

/-- What is found with checks off is what is found with all of them on, without their problems. -/
def Thins (off : List Text) (all rest : Problems) : Prop :=
  ∀ found, all = .ok found → rest = .ok (found.filter (isOn off))

section Thins

variable {off : List Text} {config : Config}

theorem thins_ok (found : List Problem) :
    Thins off (.ok found) (.ok (found.filter (isOn off))) := by
  rintro _ ⟨⟩
  rfl

theorem Thins.bind {all rest : Problems} {f g : List Problem → Problems} (h : Thins off all rest)
    (hf : ∀ found, Thins off (f found) (g (found.filter (isOn off)))) :
    Thins off (all >>= f) (rest >>= g) := by
  intro found hfound
  cases hall : all with
  | error e =>
    rw [hall] at hfound
    cases hfound
  | ok first =>
    rw [hall] at hfound
    rw [h first hall]
    exact hf first found hfound

theorem thins_run {check : Check} {problems : Problems} (h : Bears check problems) :
    Thins off ((config.disabling []).run check problems)
      ((config.disabling off).run check problems) := by
  intro found hfound
  have hall : problems = .ok found := hfound
  have hrun : (config.disabling off).run check problems =
      if !off.contains check.text then problems else .ok [] := rfl
  by_cases hoff : check.text ∈ off
  · have hnone : found.filter (isOn off) = [] := by
      refine filter_eq_nil_iff.mpr fun p hp => ?_
      simpa [isOn, h found hall p hp] using hoff
    rw [hrun, hnone, contains_iff_mem.mpr hoff]
    rfl
  · have hsame : found.filter (isOn off) = found := by
      refine filter_eq_self.mpr fun p hp => ?_
      simpa [isOn, h found hall p hp] using hoff
    rw [hrun, hsame, if_pos (by simpa using hoff)]
    exact hall

theorem thins_mapM {α : Type} {xs : List α} {f g : α → Problems}
    (h : ∀ x ∈ xs, Thins off (f x) (g x)) :
    Thins off (do return (← xs.mapM f).flatten) (do return (← xs.mapM g).flatten) := by
  induction xs with
  | nil => exact thins_ok []
  | cons x xs ih =>
    obtain ⟨hx, hxs⟩ := forall_mem_cons.mp h
    have hcons (f : α → Problems) : (do return (← (x :: xs).mapM f).flatten) =
        (f x >>= fun first => (do return (← xs.mapM f).flatten) >>= fun more =>
          (.ok (first ++ more) : Problems)) := by
      rw [mapM_cons]
      cases f x with
      | error e => rfl
      | ok first => cases xs.mapM f <;> rfl
    rw [hcons, hcons]
    refine hx.bind fun first => (ih hxs).bind fun more => ?_
    rw [← filter_append]
    exact thins_ok _

theorem thins_design (file : Outline.Class) :
    Thins off (Design.check (config.disabling []) file) (Design.check (config.disabling off) file) := by
  refine (thins_run (Design.bears_publicMethods _ _)).bind fun methods =>
    (thins_run (Design.bears_returns _ _)).bind fun returns =>
    (thins_run (Design.bears_arguments _ _)).bind fun arguments => ?_
  rw [← filter_append, ← filter_append]
  exact thins_ok _

theorem tooLong_disabling (off : List Text) (n : Nat) (lines : List Text) :
    Lines.tooLong (config.disabling off) n lines = Lines.tooLong config n lines := by
  induction lines generalizing n with
  | nil => rfl
  | cons line rest ih =>
    rw [Lines.tooLong, ih]
    rfl

theorem thins_lines (code : Text) :
    Thins off (Lines.check (config.disabling []) code) (Lines.check (config.disabling off) code) := by
  dsimp only [Lines.check]
  rw [tooLong_disabling [], tooLong_disabling off]
  refine (thins_run (Lines.bears_tooLong _ _ _)).bind fun long =>
    (thins_run (Lines.bears_tooMany _ _)).bind fun many =>
    (thins_run (Lines.bears_whichever _ _ _ _)).bind fun blank =>
    (thins_run (Lines.bears_whichever _ _ _ _)).bind fun mixed => ?_
  rw [← filter_append, ← filter_append, ← filter_append]
  exact thins_ok _

theorem thins_names (t : Tree) :
    Thins off (Names.check (config.disabling []) t) (Names.check (config.disabling off) t) := by
  unfold Names.check
  -- Names are gathered in the same way whatever is off.
  cases Names.rules.mapM fun rule => do return (rule, ← rule.tokens t) with
  | error e => exact fun _ h => nomatch h
  | ok gathered =>
    exact thins_mapM fun rule _ => thins_run (Names.bears_problems rule.1 _ rule.2)

theorem thins_order (file : Outline.Class) :
    Thins off (Order.check (config.disabling []) file) (Order.check (config.disabling off) file) :=
  thins_run (bears_flatten fun c _ => Order.bears_checkClass _ c)

theorem thins_basic (t : Tree) :
    Thins off (Basic.check (config.disabling []) t) (Basic.check (config.disabling off) t) := by
  refine (thins_run (bears_mapM_ofTree _)).bind fun passes =>
    (thins_run (Basic.bears_expressionNotAssigned t)).bind fun values =>
    (thins_run (Basic.bears_duplicatedLoad t)).bind fun loads =>
    (thins_run (bears_flatten fun f _ => Basic.bears_unusedIn f)).bind fun arguments =>
    (thins_run (Basic.bears_comparisonWithItself t)).bind fun comparisons => ?_
  rw [← filter_append, ← filter_append, ← filter_append, ← filter_append]
  exact thins_ok _

theorem thins_returns (t : Tree) :
    Thins off (Returns.check (config.disabling []) t) (Returns.check (config.disabling off) t) := by
  refine (thins_run (Returns.bears_noElifReturn t)).bind fun elifs =>
    (thins_run (Returns.bears_noElseReturn t)).bind fun elses => ?_
  rw [← filter_append]
  exact thins_ok _

theorem thins_problems (code : Text) (t : Tree) :
    Thins off (problems (config.disabling []) code t) (problems (config.disabling off) code t) := by
  unfold problems
  cases Outline.Class.ofTree t with
  | error e => exact fun _ h => nomatch h
  | ok file =>
    refine (thins_design file).bind fun design => (thins_lines code).bind fun lines =>
      (thins_names t).bind fun names => (thins_order file).bind fun order =>
      (thins_basic t).bind fun basic => (thins_returns t).bind fun returns => ?_
    simp only [← filter_append]
    exact thins_ok _

end Thins

end Lint

/-! ## Configurations -/

def Configuration.disabling (c : Configuration) (off : List Text) : Configuration :=
  ("disable".toList, .list (off.map .text)) :: c

namespace Lint

theorem get_disabling (c : Configuration) (off : List Text) {key : String}
    (h : "disable".toList ≠ key.toList) : (c.disabling off).get key = c.get key := by
  have hfind : (c.disabling off).get? key.toList = c.get? key.toList :=
    congrArg (Option.map Prod.snd) (find?_cons_of_neg fun hsame => h (of_decide_eq_true hsame))
  rw [Configuration.get, hfind]
  rfl

theorem ofConfiguration_disabling (c : Configuration) (off : List Text) :
    ofConfiguration (c.disabling off) = (ofConfiguration c).disabling off := by
  have hdisabled : disabledIn ((c.disabling off).get "disable") = .ok off := by
    have hnames : (off.map Configuration.Value.text).filterMap Configuration.Value.text? = off := by
      rw [filterMap_map]
      exact filterMap_some
    exact congrArg Except.ok hnames
  have hpattern (check : Check) : (c.disabling off).get check.name = c.get check.name :=
    get_disabling c off (by cases check <;> decide)
  rw [ofConfiguration, disabling, ofConfiguration, Config.mk.injEq]
  refine ⟨hdisabled, funext fun check => by rw [hpattern], ?_, ?_, ?_, ?_, ?_, ?_, ?_⟩
  all_goals rw [get_disabling c off (by decide)]

theorem lint_eq_ok_iff {config : Config} {code : Text} {found : List Problem} :
    lint config code = .ok found ↔
      ∃ t all, parse code = .ok t ∧ problems config code t = .ok all ∧
        all.filter (isReported (Directives.ofText code)) = found := by
  unfold lint
  cases parse code with
  | error e => simp [Failure.ofSyntax, bind, Except.bind]
  | ok t =>
    cases hall : problems config code t <;>
      simp [Failure.ofSyntax, Failure.ofFault, bind, Except.bind, pure, Except.pure, hall]

/-- With checks off, linting finds what it finds with all checks on, without the problems of those
checks and in the same order. -/
theorem lint_disabling {c : Configuration} {code : Text} {found : List Problem} (off : List Text)
    (h : lint (.ofConfiguration (c.disabling [])) code = .ok found) :
    lint (.ofConfiguration (c.disabling off)) code =
      .ok (found.filter fun p => p.check.text ∉ off) := by
  rw [ofConfiguration_disabling] at h ⊢
  obtain ⟨t, all, hparse, hall, rfl⟩ := lint_eq_ok_iff.mp h
  refine lint_eq_ok_iff.mpr ⟨t, _, hparse, thins_problems code t all hall, ?_⟩
  rw [filter_filter, filter_filter]
  simp only [Problem.isOn, Bool.and_comm]

def untidy : Text :=
  "class_name a\nvar B \n".toList

theorem lint_disabling_untidy :
    ∃ found, lint (.ofConfiguration (defaults.disabling [])) untidy = .ok found ∧
      found.map (·.check) = [.trailingWhitespace, .className, .classVariableName] ∧
      lint (.ofConfiguration (defaults.disabling ["unused-argument".toList, "class-name".toList]))
        untidy = .ok (found.filter fun p =>
          p.check.text ∉ ["unused-argument".toList, "class-name".toList]) := by
  have hchecks : ((lint (.ofConfiguration (defaults.disabling [])) untidy).toOption.map
      fun found => found.map (·.check)) =
        some [.trailingWhitespace, .className, .classVariableName] := by decide +kernel
  cases hlint : lint (.ofConfiguration (defaults.disabling [])) untidy with
  | error failure =>
    rw [hlint] at hchecks
    cases hchecks
  | ok found =>
    rw [hlint] at hchecks
    exact ⟨found, rfl, Option.some.inj hchecks, lint_disabling _ hlint⟩

end Lint

end GDWorkbench
