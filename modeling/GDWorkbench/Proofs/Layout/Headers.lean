import GDWorkbench.Layout

/-!
Headers of lambdas. Whether a header has just ended is found out backwards, part by part and with a count
of the brackets that are still to be opened. What is found is what a header looks like from its beginning:
`func`, perhaps a name, arguments between round brackets that match, perhaps a type, and a colon.

Reading backwards, the last closing bracket is taken for the one behind the arguments. So it must not stand
in the part behind them, where it could only be as a token with the text of an arrow.
-/

namespace GDWorkbench.Layout

open List

/-! ## Headers -/

def isParen (t : Token) : Bool :=
  t.terminal = .leftParen || t.terminal = .rightParen

/-- Round brackets match, and nothing is said about other tokens. -/
inductive Balanced : List Token → Prop
  | nil : Balanced []
  | other {t : Token} {rest : List Token} (plain : isParen t = false) (balanced : Balanced rest) :
      Balanced (t :: rest)
  | nested {left right : Token} {inner rest : List Token} (opens : left.terminal = .leftParen)
      (within : Balanced inner) (closes : right.terminal = .rightParen) (balanced : Balanced rest) :
      Balanced (left :: inner ++ right :: rest)

def isLineEnd (t : Token) : Bool :=
  t.terminal = .newline

def isHeaderName (t : Token) : Bool :=
  t.terminal = .newline || t.terminal = .identifier

/-- What may stand between the arguments and the colon. -/
def isResult (t : Token) : Bool :=
  t.terminal = .newline || t.terminal = .typeHint || t.text = some ['-', '>']

/-- The header of a lambda, with the line ends behind it. -/
structure Header where
  func : Token
  names : List Token
  left : Token
  arguments : List Token
  right : Token
  result : List Token
  colon : Token
  lineEnds : List Token
  isFunc : func.terminal = .kwFunc
  areNames : ∀ t ∈ names, isHeaderName t = true
  isLeft : left.terminal = .leftParen
  isBalanced : Balanced arguments
  isRight : right.terminal = .rightParen
  areResult : ∀ t ∈ result, isResult t = true
  isColon : colon.terminal = .colon
  areLineEnds : ∀ t ∈ lineEnds, isLineEnd t = true

def Header.tokens (h : Header) : List Token :=
  h.func :: h.names ++ h.left :: h.arguments ++ h.right :: h.result ++ h.colon :: h.lineEnds

variable {t : Token} {tokens : List Token}

namespace Balanced

theorem append {first second : List Token} (hfirst : Balanced first) (hsecond : Balanced second) :
    Balanced (first ++ second) := by
  induction hfirst with
  | nil => exact hsecond
  | other plain _ ih => exact .other plain ih
  | nested opens within closes _ _ ih =>
    rw [append_assoc, cons_append]
    exact .nested opens within closes ih

theorem concat (h : Balanced tokens) (ht : isParen t = false) : Balanced (tokens ++ [t]) :=
  h.append (.other ht .nil)

end Balanced

/-! ## One part after the other -/

theorem endsHeaderFrom_cons {part : HeaderPart} (hpart : part ≠ .complete) (t : Token)
    (before : List Token) :
    endsHeaderFrom part (t :: before) = (part.next t).any (endsHeaderFrom · before) := by
  cases hnext : part.next t <;> cases part <;> simp_all [endsHeaderFrom]

theorem not_endsHeaderFrom_nil {part : HeaderPart} (hpart : part ≠ .complete) :
    ¬ endsHeaderFrom part [] := by
  cases part <;> simp_all [endsHeaderFrom]

/-- A part that passes over some tokens and goes on at another is found at the first of these. -/
theorem endsHeaderFrom_iff {part : HeaderPart} (later : HeaderPart) (passes stops : Token → Bool)
    (hpart : part ≠ .complete)
    (hnext : ∀ t, part.next t = if stops t then some later else if passes t then some part else none) :
    endsHeaderFrom part tokens ↔ ∃ passed t before, tokens = passed ++ t :: before ∧
      (∀ u ∈ passed, passes u = true ∧ stops u = false) ∧ stops t = true ∧
        endsHeaderFrom later before = true := by
  induction tokens with
  | nil => simp [not_endsHeaderFrom_nil hpart]
  | cons t before ih =>
    rw [endsHeaderFrom_cons hpart, hnext]
    cases hstops : stops t with
    | true =>
      simp only [if_true, Option.any_some]
      constructor
      · exact fun h => ⟨[], t, before, rfl, forall_mem_nil _, hstops, h⟩
      · rintro ⟨passed, u, rest, heq, hpassed, -, h⟩
        cases passed with
        | nil => obtain ⟨rfl, rfl⟩ := cons.inj heq; exact h
        | cons p passed =>
          obtain ⟨rfl, -⟩ := cons.inj heq
          cases hstops.symm.trans (hpassed _ mem_cons_self).2
    | false =>
      have hmore : (∃ passed u rest, t :: before = passed ++ u :: rest ∧
            (∀ u ∈ passed, passes u = true ∧ stops u = false) ∧ stops u = true ∧
              endsHeaderFrom later rest = true) ↔
          passes t = true ∧ endsHeaderFrom part before = true := by
        rw [ih]
        constructor
        · rintro ⟨passed, u, rest, heq, hpassed, hu, h⟩
          cases passed with
          | nil => obtain ⟨rfl, rfl⟩ := cons.inj heq; cases hstops.symm.trans hu
          | cons p passed =>
            obtain ⟨rfl, rfl⟩ := cons.inj heq
            obtain ⟨hp, hpassed⟩ := forall_mem_cons.mp hpassed
            exact ⟨hp.1, passed, u, rest, rfl, hpassed, hu, h⟩
        · rintro ⟨ht, passed, u, rest, rfl, hpassed, hu, h⟩
          exact ⟨t :: passed, u, rest, rfl, forall_mem_cons.mpr ⟨⟨ht, hstops⟩, hpassed⟩, hu, h⟩
      rw [hmore]
      cases passes t <;> simp

/-! ## Arguments -/

theorem next_inside (n : Nat) (t : Token) :
    (HeaderPart.inside n).next t =
      if t.terminal = .rightParen then some (.inside (n + 1))
      else if t.terminal = .leftParen then some (if n = 0 then .name else .inside (n - 1))
      else some (.inside n) := by
  cases n with
  | zero => by_cases h : t.terminal = .leftParen <;> simp [HeaderPart.next, h]
  | succ n => simp [HeaderPart.next]

theorem endsHeaderFrom_inside (n : Nat) (t : Token) (before : List Token) :
    endsHeaderFrom (.inside n) (t :: before) =
      if t.terminal = .rightParen then endsHeaderFrom (.inside (n + 1)) before
      else if t.terminal = .leftParen then
        endsHeaderFrom (if n = 0 then .name else .inside (n - 1)) before
      else endsHeaderFrom (.inside n) before := by
  rw [endsHeaderFrom_cons (by simp), next_inside]
  split
  · rfl
  · split <;> rfl

/-- Reading backwards passes over brackets that match. -/
theorem Balanced.endsHeaderFrom_inside {arguments : List Token} (h : Balanced arguments) (n : Nat)
    (before : List Token) :
    endsHeaderFrom (.inside n) (arguments.reverse ++ before) = endsHeaderFrom (.inside n) before := by
  induction h generalizing n before with
  | nil => rfl
  | @other t rest plain _ ih =>
    simp only [isParen, Bool.or_eq_false_iff, decide_eq_false_iff_not] at plain
    rw [reverse_cons, append_assoc, ih, singleton_append, Layout.endsHeaderFrom_inside,
      if_neg plain.2, if_neg plain.1]
  | @nested left right inner rest opens _ closes _ ihInner ihRest =>
    have hleft : left.terminal ≠ .rightParen := by rw [opens]; decide
    rw [reverse_append, reverse_cons, append_assoc, append_assoc, ihRest, singleton_append,
      Layout.endsHeaderFrom_inside, if_pos closes, reverse_cons, append_assoc, ihInner,
      singleton_append, Layout.endsHeaderFrom_inside, if_neg hleft, if_pos opens,
      if_neg (Nat.succ_ne_zero n), Nat.add_sub_cancel]

/-- Back to the bracket that opens them, the tokens that were read match. -/
theorem exists_balanced (tokens : List Token) (n : Nat) (h : endsHeaderFrom (.inside n) tokens) :
    ∃ arguments left before, tokens = arguments.reverse ++ left :: before ∧ Balanced arguments ∧
      left.terminal = .leftParen ∧
        endsHeaderFrom (if n = 0 then .name else .inside (n - 1)) before = true := by
  induction hlength : tokens.length using Nat.strongRecOn generalizing tokens n with
  | _ length ih =>
    subst hlength
    cases tokens with
    | nil => exact absurd h (not_endsHeaderFrom_nil (by simp))
    | cons t rest =>
      rw [endsHeaderFrom_inside] at h
      by_cases hright : t.terminal = .rightParen
      · -- The bracket that it closes comes first, and behind that one the bracket that is looked for.
        rw [if_pos hright] at h
        obtain ⟨inner, left, middle, rfl, hinner, hleft, hmiddle⟩ := ih _ (by simp) rest (n + 1) h rfl
        obtain ⟨outer, left', before, rfl, houter, hleft', hbefore⟩ :=
          ih _ (by simp; omega) middle n hmiddle rfl
        exact ⟨outer ++ (left :: inner ++ [t]), left', before, by simp,
          houter.append (.nested hleft hinner hright .nil), hleft', hbefore⟩
      · rw [if_neg hright] at h
        by_cases hleft : t.terminal = .leftParen
        · rw [if_pos hleft] at h
          exact ⟨[], t, rest, rfl, .nil, hleft, h⟩
        · rw [if_neg hleft] at h
          obtain ⟨arguments, left, before, rfl, harguments, hopens, hbefore⟩ :=
            ih _ (by simp) rest n h rfl
          exact ⟨arguments ++ [t], left, before, by simp,
            harguments.concat (by simp [isParen, hleft, hright]), hopens, hbefore⟩

theorem endsHeaderFrom_inside_iff :
    endsHeaderFrom (.inside 0) tokens ↔ ∃ arguments left before,
      tokens = arguments.reverse ++ left :: before ∧ Balanced arguments ∧
        left.terminal = .leftParen ∧ endsHeaderFrom .name before = true := by
  constructor
  · exact exists_balanced tokens 0
  · rintro ⟨arguments, left, before, rfl, harguments, hleft, h⟩
    have hnot : left.terminal ≠ .rightParen := by rw [hleft]; decide
    rwa [harguments.endsHeaderFrom_inside, endsHeaderFrom_inside, if_neg hnot, if_pos hleft]

/-! ## The whole header -/

theorem endsHeaderFrom_name_iff :
    endsHeaderFrom .name tokens ↔ ∃ names func before, tokens = names ++ func :: before ∧
      (∀ t ∈ names, isHeaderName t = true) ∧ func.terminal = .kwFunc := by
  rw [endsHeaderFrom_iff .complete isHeaderName (fun t => t.terminal = .kwFunc)
    (by simp) fun t => by simp [HeaderPart.next, isHeaderName]]
  constructor
  · rintro ⟨names, func, before, rfl, hnames, hfunc, -⟩
    exact ⟨names, func, before, rfl, fun t ht => (hnames t ht).1, of_decide_eq_true hfunc⟩
  · rintro ⟨names, func, before, rfl, hnames, hfunc⟩
    refine ⟨names, func, before, rfl, fun t ht => ⟨hnames t ht, ?_⟩, decide_eq_true hfunc, ?_⟩
    · have hname := hnames t ht
      simp only [isHeaderName, Bool.or_eq_true, decide_eq_true_eq] at hname
      rcases hname with hname | hname <;> simp [hname]
    · cases before <;> rfl

theorem endsHeaderFrom_arguments_iff :
    endsHeaderFrom .arguments tokens ↔ ∃ result right before, tokens = result ++ right :: before ∧
      (∀ t ∈ result, isResult t = true ∧ t.terminal ≠ .rightParen) ∧ right.terminal = .rightParen ∧
        endsHeaderFrom (.inside 0) before = true := by
  rw [endsHeaderFrom_iff (.inside 0) isResult (fun t => t.terminal = .rightParen)
    (by simp) fun t => by simp [HeaderPart.next, isResult]]
  simp only [decide_eq_true_eq, decide_eq_false_iff_not, ne_eq]

theorem endsHeader_iff_colon :
    endsHeader tokens ↔ ∃ lineEnds colon before, tokens = lineEnds ++ colon :: before ∧
      (∀ t ∈ lineEnds, isLineEnd t = true) ∧ colon.terminal = .colon ∧
        endsHeaderFrom .arguments before = true := by
  rw [endsHeader, endsHeaderFrom_iff .arguments isLineEnd (fun t => t.terminal = .colon)
    (by simp) fun t => by simp [HeaderPart.next, isLineEnd]]
  constructor
  · rintro ⟨lineEnds, colon, before, rfl, hends, hcolon, h⟩
    exact ⟨lineEnds, colon, before, rfl, fun t ht => (hends t ht).1, of_decide_eq_true hcolon, h⟩
  · rintro ⟨lineEnds, colon, before, rfl, hends, hcolon, h⟩
    refine ⟨lineEnds, colon, before, rfl, fun t ht => ⟨hends t ht, ?_⟩, decide_eq_true hcolon, h⟩
    simp [of_decide_eq_true (hends t ht)]

/-- Tokens end just behind the header of a lambda exactly if a header stands at their end, with no closing
bracket between its arguments and its colon. -/
theorem endsHeader_iff (tokens : List Token) :
    endsHeader tokens.reverse = true ↔ ∃ before, ∃ h : Header, tokens = before ++ h.tokens ∧
      ∀ t ∈ h.result, t.terminal ≠ .rightParen := by
  constructor
  · intro hends
    obtain ⟨lineEnds, colon, rest, hcolon, hlineEnds, hisColon, hends⟩ := endsHeader_iff_colon.mp hends
    obtain ⟨result, right, rest, rfl, hresult, hright, hends⟩ := endsHeaderFrom_arguments_iff.mp hends
    obtain ⟨arguments, left, rest, rfl, hbalanced, hleft, hends⟩ := endsHeaderFrom_inside_iff.mp hends
    obtain ⟨names, func, before, rfl, hnames, hfunc⟩ := endsHeaderFrom_name_iff.mp hends
    refine ⟨before.reverse,
      { func, left, arguments, right, colon
        names := names.reverse
        result := result.reverse
        lineEnds := lineEnds.reverse
        isFunc := hfunc
        areNames := fun t ht => hnames t (mem_reverse.mp ht)
        isLeft := hleft
        isBalanced := hbalanced
        isRight := hright
        areResult := fun t ht => (hresult t (mem_reverse.mp ht)).1
        isColon := hisColon
        areLineEnds := fun t ht => hlineEnds t (mem_reverse.mp ht) },
      ?_, fun t ht => (hresult t (mem_reverse.mp ht)).2⟩
    rw [← reverse_reverse tokens, hcolon]
    simp [Header.tokens]
  · rintro ⟨before, h, rfl, hfree⟩
    have hreverse : (before ++ h.tokens).reverse = h.lineEnds.reverse ++ h.colon ::
        (h.result.reverse ++ h.right :: (h.arguments.reverse ++ h.left ::
          (h.names.reverse ++ h.func :: before.reverse))) := by
      simp [Header.tokens]
    rw [hreverse]
    refine endsHeader_iff_colon.mpr ⟨_, _, _, rfl,
      fun t ht => h.areLineEnds t (mem_reverse.mp ht), h.isColon, ?_⟩
    refine endsHeaderFrom_arguments_iff.mpr ⟨_, _, _, rfl, fun t ht => ?_, h.isRight, ?_⟩
    · exact ⟨h.areResult t (mem_reverse.mp ht), hfree t (mem_reverse.mp ht)⟩
    refine endsHeaderFrom_inside_iff.mpr ⟨_, _, _, rfl, h.isBalanced, h.isLeft, ?_⟩
    exact endsHeaderFrom_name_iff.mpr ⟨_, _, _, rfl, fun t ht => h.areNames t (mem_reverse.mp ht), h.isFunc⟩

def plainToken (terminal : Terminal) (text : String) : Token :=
  { (default : Token) with terminal, text := some text.toList }

/-- A header with a closing bracket that has the text of an arrow. -/
def arrowBracket : Header where
  func := plainToken .kwFunc "func"
  names := []
  left := plainToken .leftParen "("
  arguments := []
  right := plainToken .rightParen ")"
  result := [plainToken .rightParen "->"]
  colon := plainToken .colon ":"
  lineEnds := []
  isFunc := rfl
  areNames := by decide
  isLeft := rfl
  isBalanced := .nil
  isRight := rfl
  areResult := by decide
  isColon := rfl
  areLineEnds := by decide

/-- Such a bracket is taken for the one behind the arguments, which is then not opened. -/
theorem not_endsHeader_arrowBracket : endsHeader arrowBracket.tokens.reverse = false := by
  decide

end GDWorkbench.Layout
