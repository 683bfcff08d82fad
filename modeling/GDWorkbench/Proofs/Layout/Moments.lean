import GDWorkbench.Layout
import Mathlib.Algebra.GroupWithZero.Nat
import Mathlib.Data.List.Chain
import Mathlib.Logic.Function.Basic

/-!
The layout pass, one move at a time. A moment of a run holds what has been handed on, the widths of
the open blocks, the depth of brackets, and one counter for every depth, which says how many lambda
bodies are open there. The counters are kept in one table: brackets that open or close leave it
alone, and only a body that opens or closes changes the entry of the depth at hand.

Each move keeps a moment sound, and every run is a sequence of moves. The second part rests on one
fact about the pass: the bodies open in brackets are all among the open blocks, so that a bracket or a
comma never closes the block of the file itself.
-/

namespace GDWorkbench.Layout

open List

variable {l : Layout} {produced : List Token}

variable {levels outer : List Nat} {newline : Token} {count : Nat} {tokens : List Token} {t : Token}

/-! ## Moments and moves -/

def opened (tokens : List Token) : Nat :=
  tokens.countP fun t => t.terminal = .indent

def closed (tokens : List Token) : Nat :=
  tokens.countP fun t => t.terminal = .dedent

@[simp]
theorem opened_append (first second : List Token) :
    opened (first ++ second) = opened first + opened second :=
  countP_append

@[simp]
theorem closed_append (first second : List Token) :
    closed (first ++ second) = closed first + closed second :=
  countP_append

structure Moment where
  /-- What has been handed on. -/
  produced : List Token
  /-- The widths of the open blocks, innermost first. -/
  levels : List Nat
  /-- How many brackets are open; -1 after a closing bracket too many. -/
  depth : Int
  /-- How many lambda bodies are open at each depth of brackets. -/
  lambdas : Int → Nat

namespace Moment

def start : Moment := ⟨[], [0], 0, fun _ => 0⟩

def IsPlain (t : Token) : Prop :=
  t.terminal ≠ .indent ∧ t.terminal ≠ .dedent

/-- One thing the pass does. A block that opens or closes and the token that says so go together, with
the line end that stands right before that token in brackets. -/
inductive Next : Moment → Moment → Prop where
  | hand (m : Moment) {t : Token} (plain : IsPlain t) :
      Next m { m with produced := m.produced ++ [t] }
  | openBracket (m : Moment) :
      Next m { m with depth := m.depth + 1 }
  | closeBracket (m : Moment) (none : m.lambdas m.depth = 0) :
      Next m { m with depth := m.depth - 1 }
  | openBlock (m : Moment) {width top : Nat} {outer : List Nat} {t : Token}
      (levels : m.levels = top :: outer) (deeper : top < width) (outside : m.depth = 0)
      (opens : t.terminal = .indent) :
      Next m { m with levels := width :: m.levels, produced := m.produced ++ [t] }
  | openLambda (m : Moment) {width top : Nat} {outer : List Nat} {newline t : Token}
      (levels : m.levels = top :: outer) (deeper : top < width) (inside : 0 < m.depth)
      (plain : IsPlain newline) (opens : t.terminal = .indent) :
      Next m
        { m with
          levels := width :: m.levels
          lambdas := Function.update m.lambdas m.depth (m.lambdas m.depth + 1)
          produced := m.produced ++ [newline, t] }
  | closeBlock (m : Moment) {top below : Nat} {outer : List Nat} {t : Token}
      (levels : m.levels = top :: below :: outer) (closes : t.terminal = .dedent) :
      Next m { m with levels := below :: outer, produced := m.produced ++ [t] }
  | closeLambda (m : Moment) {top below count : Nat} {outer : List Nat} {lineEnd : List Token}
      {t : Token} (levels : m.levels = top :: below :: outer)
      (some : m.lambdas m.depth = count + 1) (plain : ∀ u ∈ lineEnd, IsPlain u)
      (closes : t.terminal = .dedent) :
      Next m
        { m with
          levels := below :: outer
          lambdas := Function.update m.lambdas m.depth count
          produced := m.produced ++ (lineEnd ++ [t]) }

/-- What holds at every moment. -/
structure Sound (m : Moment) : Prop where
  /-- The outermost block is the file. -/
  bottom : m.levels.getLast? = some 0
  /-- Every block is indented more than the one around it. -/
  increasing : m.levels.Pairwise (· > ·)
  /-- No lambda body is open outside brackets, or in brackets that are not open. -/
  counters : ∀ depth, depth = 0 ∨ m.depth < depth → m.lambdas depth = 0
  /-- The blocks that are open are those that were opened and not closed. -/
  balance : (opened m.produced : Int) - closed m.produced = m.levels.length - 1
  /-- No block is closed before it is opened. -/
  ahead : ∀ tokens, tokens <+: m.produced → closed tokens ≤ opened tokens

theorem sound_start : start.Sound where
  bottom := rfl
  increasing := pairwise_singleton _ 0
  counters _ _ := rfl
  balance := rfl
  ahead tokens h := by
    obtain rfl := prefix_nil.mp h
    exact Nat.le_refl 0

/-- A prefix of what has been handed on after a move: all of it, or one from before the move with
perhaps plain tokens behind it. -/
theorem ahead_append {produced plain : List Token}
    (hahead : ∀ tokens, tokens <+: produced → closed tokens ≤ opened tokens)
    (hplain : ∀ u ∈ plain, IsPlain u)
    (hall : closed (produced ++ (plain ++ [t])) ≤ opened (produced ++ (plain ++ [t]))) :
    ∀ tokens, tokens <+: produced ++ (plain ++ [t]) → closed tokens ≤ opened tokens := by
  intro tokens h
  rw [← append_assoc, prefix_concat_iff] at h
  rcases h with rfl | h
  · rwa [append_assoc]
  rcases prefix_or_prefix_of_prefix h (prefix_append produced plain) with h' | ⟨rest, rfl⟩
  · exact hahead tokens h'
  · have hrest : rest <+: plain := (prefix_append_right_inj produced).mp h
    have hnone : closed rest = 0 := by
      refine countP_eq_zero.mpr fun u hu => ?_
      simpa using (hplain u (hrest.subset hu)).2
    have hbefore := hahead produced prefix_rfl
    rw [closed_append, opened_append, hnone]
    omega

theorem IsPlain.opened (h : IsPlain t) : Layout.opened [t] = 0 := by
  simp [Layout.opened, h.1]

theorem IsPlain.closed (h : IsPlain t) : Layout.closed [t] = 0 := by
  simp [Layout.closed, h.2]

/-- Handing on tokens that change nothing but a balance that is kept. -/
theorem Sound.grow {m : Moment} (hm : m.Sound) (plain : List Token)
    (hplain : ∀ u ∈ plain, IsPlain u) {lambdas : Int → Nat}
    (hbottom : levels.getLast? = some 0) (hincreasing : levels.Pairwise (· > ·))
    (hcounters : ∀ depth, depth = 0 ∨ m.depth < depth → lambdas depth = 0)
    (hbalance : (opened [t] : Int) - closed [t] = levels.length - m.levels.length) :
    Sound ⟨m.produced ++ (plain ++ [t]), levels, m.depth, lambdas⟩ := by
  have hopened : opened plain = 0 := countP_eq_zero.mpr fun u hu => by simpa using (hplain u hu).1
  have hclosed : closed plain = 0 := countP_eq_zero.mpr fun u hu => by simpa using (hplain u hu).2
  have hlength : 0 < levels.length := by
    cases levels with
    | nil => cases hbottom
    | cons top outer => exact Nat.succ_pos _
  have hbefore := hm.balance
  have hafter : (opened (m.produced ++ (plain ++ [t])) : Int) -
      closed (m.produced ++ (plain ++ [t])) = levels.length - 1 := by
    simp only [opened_append, closed_append, hopened, hclosed]
    omega
  exact ⟨hbottom, hincreasing, hcounters, hafter, ahead_append hm.ahead hplain (by omega)⟩

theorem Sound.push {m : Moment} (hm : m.Sound) {width top : Nat}
    (hlevels : m.levels = top :: outer) (hdeeper : top < width) :
    (width :: m.levels).getLast? = some 0 ∧ (width :: m.levels).Pairwise (· > ·) := by
  have hincreasing := hm.increasing
  refine ⟨?_, pairwise_cons.mpr ⟨fun level hlevel => ?_, hincreasing⟩⟩
  · have hbottom := hm.bottom
    rw [hlevels] at hbottom ⊢
    rw [getLast?_cons_cons, hbottom]
  · rw [hlevels] at hlevel hincreasing
    rcases mem_cons.mp hlevel with rfl | hlevel
    · exact hdeeper
    · exact Nat.lt_trans ((pairwise_cons.mp hincreasing).1 level hlevel) hdeeper

theorem Sound.pop {m : Moment} (hm : m.Sound) {top below : Nat} (hlevels : m.levels = top :: below :: outer) :
    (below :: outer).getLast? = some 0 ∧ (below :: outer).Pairwise (· > ·) := by
  have hbottom := hm.bottom
  have hincreasing := hm.increasing
  rw [hlevels] at hbottom hincreasing
  exact ⟨getLast?_cons_cons.symm.trans hbottom, (pairwise_cons.mp hincreasing).2⟩

theorem opened_indent (h : t.terminal = .indent) : opened [t] = 1 ∧ closed [t] = 0 := by
  simp [opened, closed, h]

theorem closed_dedent (h : t.terminal = .dedent) : opened [t] = 0 ∧ closed [t] = 1 := by
  simp [opened, closed, h]

theorem Next.sound {m m' : Moment} (h : Next m m') (hm : m.Sound) : m'.Sound := by
  cases h with
  | @hand t plain =>
    have hbalance : (opened [t] : Int) - closed [t] = m.levels.length - m.levels.length := by
      rw [plain.opened, plain.closed]
      omega
    exact hm.grow [] (forall_mem_nil _) hm.bottom hm.increasing hm.counters hbalance
  | openBracket =>
    refine { hm with counters := fun depth hdepth => hm.counters depth ?_ }
    dsimp only at hdepth
    omega
  | closeBracket none =>
    refine { hm with counters := fun depth hdepth => ?_ }
    by_cases hself : depth = m.depth
    · rw [hself]
      exact none
    · refine hm.counters depth ?_
      dsimp only at hdepth
      omega
  | @openBlock width top outer t levels deeper outside opens =>
    obtain ⟨hbottom, hincreasing⟩ := hm.push levels deeper
    have hcount := opened_indent opens
    refine hm.grow [] (forall_mem_nil _) hbottom hincreasing hm.counters ?_
    rw [hcount.1, hcount.2, length_cons]
    omega
  | @openLambda width top outer newline t levels deeper inside plain opens =>
    obtain ⟨hbottom, hincreasing⟩ := hm.push levels deeper
    have hcount := opened_indent opens
    refine hm.grow [newline] (by simpa using plain) hbottom hincreasing (fun depth hdepth => ?_) ?_
    · rw [Function.update_of_ne (by omega)]
      exact hm.counters depth hdepth
    · rw [hcount.1, hcount.2, length_cons]
      omega
  | @closeBlock top below outer t levels closes =>
    obtain ⟨hbottom, hincreasing⟩ := hm.pop levels
    have hcount := closed_dedent closes
    refine hm.grow [] (forall_mem_nil _) hbottom hincreasing hm.counters ?_
    simp only [hcount.1, hcount.2, levels, length_cons]
    omega
  | @closeLambda top below count outer lineEnd t levels some plain closes =>
    obtain ⟨hbottom, hincreasing⟩ := hm.pop levels
    have hcount := closed_dedent closes
    refine hm.grow lineEnd plain hbottom hincreasing (fun depth hdepth => ?_) ?_
    · have hne : depth ≠ m.depth := by
        rintro rfl
        rw [hm.counters m.depth hdepth] at some
        omega
      rw [Function.update_of_ne hne]
      exact hm.counters depth hdepth
    · simp only [hcount.1, hcount.2, levels, length_cons]
      omega

/-- One moment comes after the other, with any number of moves between them. -/
abbrev Reaches : Moment → Moment → Prop :=
  Relation.ReflTransGen Next

theorem sound_of_reaches {m m' : Moment} (h : Reaches m m') (hm : m.Sound) : m'.Sound := by
  induction h with
  | refl => exact hm
  | tail _ hnext ih => exact hnext.sound ih

end Moment

open Moment

/-! ## The table of counters -/

/-- The counters of the open brackets, by depth. Brackets are given innermost first. -/
def table : List Nat → Int → Nat
  | [], _ => 0
  | n :: outer, depth => if depth = outer.length + 1 then n else table outer depth

theorem table_of_lt {brackets : List Nat} {depth : Int} (h : brackets.length < depth) :
    table brackets depth = 0 := by
  induction brackets with
  | nil => rfl
  | cons n outer ih =>
    rw [length_cons] at h
    rw [table, if_neg (by omega)]
    exact ih (by omega)

theorem table_self (n : Nat) (outer : List Nat) :
    table (n :: outer) ((n :: outer).length : Int) = n := by
  simp [table]

/-- A bracket without a lambda body leaves no trace in the table. -/
theorem table_zero_cons (outer : List Nat) : table (0 :: outer) = table outer := by
  funext depth
  by_cases h : depth = outer.length + 1
  · rw [table, if_pos h, table_of_lt (by omega)]
  · rw [table, if_neg h]

theorem update_table (n count : Nat) (outer : List Nat) :
    Function.update (table (n :: outer)) ((n :: outer).length : Int) count =
      table (count :: outer) := by
  funext depth
  by_cases h : depth = outer.length + 1
  · simp [Function.update, table, h]
  · simp [Function.update, table, h]

def moment (l : Layout) (produced : List Token) : Moment :=
  ⟨produced, l.levels, l.brackets.length, table l.brackets⟩

/-! ## Steps as moves -/

/-- Every lambda body that is open in brackets is among the open blocks. -/
def IsCovered (l : Layout) : Prop :=
  l.brackets.sum < l.levels.length

theorem isPlain_newline (h : t.terminal = .newline) : IsPlain t := by
  simp [IsPlain, h]

theorem reaches_closeTo (hnewline : newline.terminal = .newline) (width : Nat)
    (hbottom : levels.getLast? = some 0) (produced : List Token)
    (lambdas : Int → Nat) :
    Reaches ⟨produced, levels, 0, lambdas⟩
      ⟨produced ++ (closeTo newline width levels).1, (closeTo newline width levels).2, 0,
        lambdas⟩ := by
  induction levels generalizing produced with
  | nil => cases hbottom
  | cons top outer ih =>
    by_cases hwidth : width < top
    · cases outer with
      | nil =>
        obtain rfl : top = 0 := Option.some.inj hbottom
        omega
      | cons below outer =>
        have hclose : Next ⟨produced, top :: below :: outer, 0, lambdas⟩
            ⟨produced ++ [blockEnd newline], below :: outer, 0, lambdas⟩ :=
          .closeBlock _ rfl rfl
        have hhand : Next ⟨produced ++ [blockEnd newline], below :: outer, 0, lambdas⟩
            ⟨produced ++ [blockEnd newline] ++ [newline], below :: outer, 0, lambdas⟩ :=
          .hand _ (isPlain_newline hnewline)
        have hmore := ih (getLast?_cons_cons.symm.trans hbottom)
          (produced ++ [blockEnd newline] ++ [newline])
        rw [closeTo, if_pos hwidth]
        simpa using (hmore.head hhand).head hclose
    · rw [closeTo, if_neg hwidth]
      simpa using Relation.ReflTransGen.refl

/-- The block that is left innermost is not deeper than the line. -/
theorem exists_closeTo (newline : Token) (width : Nat) (hbottom : levels.getLast? = some 0) :
    ∃ top outer, (closeTo newline width levels).2 = top :: outer ∧ top ≤ width := by
  induction levels with
  | nil => cases hbottom
  | cons top outer ih =>
    by_cases hwidth : width < top
    · rw [closeTo, if_pos hwidth]
      cases outer with
      | nil =>
        obtain rfl : top = 0 := Option.some.inj hbottom
        omega
      | cons below outer => exact ih (getLast?_cons_cons.symm.trans hbottom)
    · rw [closeTo, if_neg hwidth]
      exact ⟨top, outer, rfl, by omega⟩

/-- A lambda body that closes takes one block and one count of the innermost bracket. -/
theorem next_dropLambda (hbrackets : l.brackets = (count + 1) :: outer) (hcovered : l.IsCovered)
    (produced lineEnd : List Token) (hplain : ∀ u ∈ lineEnd, IsPlain u)
    (hcloses : t.terminal = .dedent) :
    (dropLambda l).brackets = count :: outer ∧ (dropLambda l).IsCovered ∧
      Next (moment l produced) (moment (dropLambda l) (produced ++ (lineEnd ++ [t]))) := by
  have hdropped : (dropLambda l).brackets = count :: outer := by simp [dropLambda, hbrackets]
  unfold IsCovered at hcovered
  rw [hbrackets, sum_cons] at hcovered
  cases hlevels : l.levels with
  | nil => simp [hlevels] at hcovered
  | cons top below =>
    cases below with
    | nil =>
      rw [hlevels] at hcovered
      simp at hcovered
    | cons below rest =>
      have htail : (dropLambda l).levels = below :: rest := by simp [dropLambda, hlevels]
      refine ⟨hdropped, ?_, ?_⟩
      · rw [hlevels, length_cons] at hcovered
        rw [IsCovered, hdropped, htail, sum_cons]
        omega
      · have hself : (moment l produced).lambdas (moment l produced).depth = count + 1 := by
          simp only [moment, hbrackets]
          exact table_self (count + 1) outer
        have hclose := Next.closeLambda (moment l produced) hlevels hself hplain hcloses
        simp only [moment, hbrackets, update_table] at hclose
        simpa only [moment, hbrackets, hdropped, htail, length_cons] using hclose

theorem reaches_closeLambdasTo (hnewline : newline.terminal = .newline) (width : Nat)
    (hbrackets : l.brackets = count :: outer) (hcovered : l.IsCovered) (produced : List Token) :
    let r := closeLambdasTo newline width count l
    r.2.brackets.length = l.brackets.length ∧ r.2.IsCovered ∧
      Reaches (moment l produced) (moment r.2 (produced ++ r.1)) := by
  induction count generalizing l produced with
  | zero => exact ⟨rfl, hcovered, by simpa [closeLambdasTo] using Relation.ReflTransGen.refl⟩
  | succ count ih =>
    by_cases hwidth : width < l.level
    · obtain ⟨hdropped, hstill, hclose⟩ := next_dropLambda hbrackets hcovered produced
        [] (forall_mem_nil _) (t := blockEnd newline) rfl
      let inner : Layout := { dropLambda l with afterNewline := count != 0 }
      have hlength : inner.brackets.length = l.brackets.length := by simp [inner, hdropped, hbrackets]
      have hclosing : closeLambdasTo newline width (count + 1) l =
          (blockEnd newline :: (if count = 0 then (closeLambdasTo newline width count inner).1
            else newline :: (closeLambdasTo newline width count inner).1),
            (closeLambdasTo newline width count inner).2) := by
        rw [closeLambdasTo, if_pos hwidth]
      rw [hclosing]
      by_cases hlast : count = 0
      · obtain ⟨hsame, hleft, hmore⟩ := ih (l := inner) hdropped hstill (produced ++ [blockEnd newline])
        refine ⟨hsame.trans hlength, hleft, ?_⟩
        simpa [hlast] using hmore.head hclose
      · have hhand : Next (moment inner (produced ++ [blockEnd newline]))
            (moment inner (produced ++ [blockEnd newline] ++ [newline])) :=
          .hand _ (isPlain_newline hnewline)
        obtain ⟨hsame, hleft, hmore⟩ := ih (l := inner) hdropped hstill
          (produced ++ [blockEnd newline] ++ [newline])
        refine ⟨hsame.trans hlength, hleft, ?_⟩
        simpa [hlast] using (hmore.head hhand).head hclose
    · have hnone : closeLambdasTo newline width (count + 1) l = ([], l) := by
        rw [closeLambdasTo, if_neg hwidth]
      rw [hnone]
      exact ⟨rfl, hcovered, by simpa using Relation.ReflTransGen.refl⟩

theorem reaches_closeLambdasAt
    (hbrackets : l.brackets = count :: outer) (hcovered : l.IsCovered) (produced : List Token) :
    let r := closeLambdasAt t count l
    r.2.brackets = 0 :: outer ∧ r.2.IsCovered ∧
      Reaches (moment l produced) (moment r.2 (produced ++ r.1)) := by
  induction count generalizing l produced with
  | zero => exact ⟨hbrackets, hcovered, by simpa [closeLambdasAt] using Relation.ReflTransGen.refl⟩
  | succ count ih =>
    let lineEnd := if l.afterNewline then [] else [t.borrow .newline noText]
    have hplain : ∀ u ∈ lineEnd, IsPlain u := by
      intro u hu
      have hnewline : u.terminal = .newline := by
        cases hafter : l.afterNewline <;> simp [lineEnd, hafter] at hu
        rw [hu]
        rfl
      exact isPlain_newline hnewline
    obtain ⟨hdropped, hstill, hclose⟩ := next_dropLambda hbrackets hcovered produced lineEnd hplain
      (t := t.borrow .dedent noText) rfl
    let inner : Layout := { dropLambda l with afterNewline := false }
    obtain ⟨hleft, hleftCovered, hmore⟩ := ih (l := inner) hdropped hstill
      (produced ++ (lineEnd ++ [t.borrow .dedent noText]))
    have hclosing : closeLambdasAt t (count + 1) l =
        (lineEnd ++ t.borrow .dedent noText :: (closeLambdasAt t count inner).1,
          (closeLambdasAt t count inner).2) := rfl
    rw [hclosing]
    exact ⟨hleft, hleftCovered, by simpa using hmore.head hclose⟩

def Step.moment (s : Step) (produced : List Token) : Moment :=
  ⟨produced ++ s.tokens, s.layout.levels, depthAt s.layout s.fault, table s.layout.brackets⟩

/-- A step is a sequence of moves, and leaves the bodies in brackets covered if it does not fail. -/
def Step.Follows (s : Step) (l : Layout) (produced : List Token) : Prop :=
  Reaches (l.moment produced) (s.moment produced) ∧ (s.fault = none → s.layout.IsCovered)

section Steps

variable {l : Layout} {t : Token} {produced : List Token}

theorem exists_levels (hs : (l.moment produced).Sound) : ∃ top outer, l.levels = top :: outer := by
  cases hlevels : l.levels with
  | nil =>
    have hbottom := hs.bottom
    simp [Layout.moment, hlevels] at hbottom
  | cons top outer => exact ⟨top, outer, rfl⟩

theorem follows_newlineOutside (hs : (l.moment produced).Sound) (hbrackets : l.brackets = [])
    (ht : t.terminal = .newline) : (newlineOutside l t).Follows l produced := by
  have hhand : Next (l.moment produced) (l.moment (produced ++ [t])) := .hand _ (isPlain_newline ht)
  obtain ⟨top, outer, hlevels⟩ := exists_levels hs
  unfold newlineOutside
  cases hindent : indentOf t.content with
  | none => exact ⟨.single hhand, nofun⟩
  | some indent =>
    dsimp only
    by_cases hdeeper : l.level < indentWidth indent
    · rw [if_pos hdeeper]
      have htop : top < indentWidth indent := by simpa [level, hlevels] using hdeeper
      have hopen : Next (l.moment (produced ++ [t]))
          ⟨produced ++ [t] ++ [t.borrow .indent indent], indentWidth indent :: l.levels,
            l.brackets.length, table l.brackets⟩ :=
        .openBlock _ hlevels htop (by simp [Layout.moment, hbrackets]) rfl
      refine ⟨?_, fun _ => by simp [IsCovered, hbrackets]⟩
      simpa [Step.moment, depthAt] using (Relation.ReflTransGen.single hopen).head hhand
    · rw [if_neg hdeeper]
      have hclose := reaches_closeTo ht (indentWidth indent) hs.bottom (produced ++ [t])
        (table l.brackets)
      have hstart : l.moment (produced ++ [t]) =
          ⟨produced ++ [t], (l.moment produced).levels, 0, table l.brackets⟩ := by
        simp [Layout.moment, hbrackets]
      rw [← hstart] at hclose
      have hreach := hclose.head hhand
      refine ⟨?_, fun _ => ?_⟩
      · have hdepth : ∀ fault : Option Fault, fault ≠ some .unmatchedBracket → depthAt { l with
              levels := (closeTo t (indentWidth indent) l.levels).2, afterNewline := true } fault =
              0 := by
          rintro (_ | _ | _ | _) hfault <;> simp_all [depthAt]
        rw [Step.moment, hdepth _ (by split <;> simp)]
        simpa [Layout.moment] using hreach
      · obtain ⟨left, rest, hleft, -⟩ := exists_closeTo t (indentWidth indent) hs.bottom
        have hlevels : (closeTo t (indentWidth indent) l.levels).2 = left :: rest := hleft
        simp [IsCovered, hbrackets, hlevels]

theorem follows_newlineInside (hs : (l.moment produced).Sound) (hl : l.IsCovered)
    (hbrackets : l.brackets ≠ []) (ht : t.terminal = .newline) :
    (newlineInside l t).Follows l produced := by
  obtain ⟨count, inner, hinner⟩ := exists_cons_of_ne_nil hbrackets
  obtain ⟨top, outer, hlevels⟩ := exists_levels hs
  have hnothing : (⟨[], l, none⟩ : Step).Follows l produced := by
    refine ⟨?_, fun _ => hl⟩
    simpa [Step.moment, Layout.moment, depthAt] using Relation.ReflTransGen.refl
  unfold newlineInside
  cases hindent : indentOf t.content with
  | none =>
    refine ⟨?_, nofun⟩
    simpa [Step.moment, Layout.moment, depthAt] using Relation.ReflTransGen.refl
  | some indent =>
    dsimp only
    by_cases hdeeper : l.level < indentWidth indent
    · rw [if_pos hdeeper]
      split
      · have htop : top < indentWidth indent := by simpa [level, hlevels] using hdeeper
        have hadded : addLambda l = (count + 1) :: inner := by simp [addLambda, hinner]
        have hself : (l.moment produced).lambdas (l.moment produced).depth = count := by
          simp only [Layout.moment, hinner]
          exact table_self count inner
        have hopen := Next.openLambda (l.moment produced) hlevels htop
          (by simp [Layout.moment, hinner]) (isPlain_newline ht)
          (t := t.borrow .indent indent) rfl
        rw [hself] at hopen
        simp only [Layout.moment, hinner, update_table] at hopen
        refine ⟨.single ?_, fun _ => ?_⟩
        · simpa [Step.moment, Layout.moment, depthAt, hadded, hinner] using hopen
        · unfold IsCovered at hl ⊢
          simp only [hinner, hadded, sum_cons, length_cons] at hl ⊢
          omega
      · exact hnothing
    · rw [if_neg hdeeper]
      split
      · have hhand : Next (l.moment produced) (l.moment (produced ++ [t])) :=
          .hand _ (isPlain_newline ht)
        have hcount : l.lambdas = count := by simp [lambdas, hinner]
        obtain ⟨hlength, hcovered, hclose⟩ := reaches_closeLambdasTo ht (indentWidth indent)
          (l := { l with afterNewline := true }) hinner hl (produced ++ [t])
        rw [hcount]
        refine ⟨?_, fun _ => hcovered⟩
        simpa [Step.moment, Layout.moment, depthAt] using hclose.head hhand
      · exact hnothing

theorem reaches_before (t : Token) (hl : l.IsCovered) (produced : List Token) :
    let r := closeLambdasAt t l.lambdas l
    r.2.brackets = (if l.brackets = [] then [] else 0 :: l.brackets.tail) ∧ r.2.IsCovered ∧
      Reaches (l.moment produced) (r.2.moment (produced ++ r.1)) := by
  cases hbrackets : l.brackets with
  | nil =>
    have hnone : closeLambdasAt t l.lambdas l = ([], l) := by
      rw [lambdas, hbrackets]
      rfl
    rw [hnone]
    exact ⟨by simp [hbrackets], hl, by simpa using Relation.ReflTransGen.refl⟩
  | cons count outer =>
    have hcount : l.lambdas = count := by simp [lambdas, hbrackets]
    rw [hcount]
    simpa using reaches_closeLambdasAt hbrackets hl produced

def closedBefore (l : Layout) (t : Token) : List Token × Layout :=
  if t.terminal.closesBracket || t.terminal = .comma then closeLambdasAt t l.lambdas l else ([], l)

theorem reaches_closedBefore (t : Token) (hl : l.IsCovered) (produced : List Token) :
    (t.terminal.closesBracket →
        (closedBefore l t).2.brackets = [] ∨ ∃ outer, (closedBefore l t).2.brackets = 0 :: outer) ∧
      (closedBefore l t).2.IsCovered ∧
      Reaches (l.moment produced) ((closedBefore l t).2.moment (produced ++ (closedBefore l t).1)) := by
  unfold closedBefore
  split
  · obtain ⟨hbrackets, hcovered, hreach⟩ := reaches_before t hl produced
    refine ⟨fun _ => ?_, hcovered, hreach⟩
    rw [hbrackets]
    split
    · exact .inl rfl
    · exact .inr ⟨_, rfl⟩
  · rename_i hnot
    exact ⟨fun h => absurd (by simp [h]) hnot, hl, by simpa using Relation.ReflTransGen.refl⟩

theorem ordinary_eq (l : Layout) (t : Token) :
    ordinary l t =
      let before := (closedBefore l t).2
      let tokens := (closedBefore l t).1 ++ [t]
      if t.terminal.opensBracket then
        ⟨tokens, { before with afterNewline := false, brackets := 0 :: before.brackets }, none⟩
      else if t.terminal.closesBracket then
        match before.brackets with
        | [] => ⟨tokens, { before with afterNewline := false }, some .unmatchedBracket⟩
        | _ :: outer => ⟨tokens, { before with afterNewline := false, brackets := outer }, none⟩
      else ⟨tokens, { before with afterNewline := false }, none⟩ :=
  rfl

theorem follows_ordinary (hl : l.IsCovered) (ht : IsPlain t) :
    (ordinary l t).Follows l produced := by
  obtain ⟨hempty, hcovered, hreach⟩ := reaches_closedBefore t hl produced
  rw [ordinary_eq]
  generalize closedBefore l t = r at hempty hcovered hreach
  obtain ⟨tokens, before⟩ := r
  dsimp only at hempty hcovered hreach ⊢
  have hhand : Reaches (l.moment produced) (before.moment (produced ++ tokens ++ [t])) :=
    hreach.tail (.hand _ ht)
  split
  · have hopen := hhand.tail (.openBracket _)
    refine ⟨?_, fun _ => by simpa [IsCovered] using hcovered⟩
    simpa [Step.moment, Layout.moment, depthAt, table_zero_cons] using hopen
  · split
    · rename_i hcloses
      rcases hempty hcloses with hnone | ⟨outer, houter⟩
      · rw [hnone]
        have hclose := hhand.tail (.closeBracket _ (by simp [Layout.moment, hnone, table]))
        refine ⟨?_, nofun⟩
        simpa [Step.moment, Layout.moment, depthAt, hnone] using hclose
      · rw [houter]
        have hclose := hhand.tail (.closeBracket _ (by
          simp only [Layout.moment, houter]
          exact table_self 0 outer))
        refine ⟨?_, fun _ => by simpa [IsCovered, houter] using hcovered⟩
        simpa [Step.moment, Layout.moment, depthAt, houter, table_zero_cons] using hclose
    · refine ⟨?_, fun _ => hcovered⟩
      simpa [Step.moment, Layout.moment, depthAt] using hhand

theorem follows_step (hs : (l.moment produced).Sound) (hl : l.IsCovered) (ht : IsPlain t) :
    (l.step t).Follows l produced := by
  -- what has been read does not show in a moment
  have hs' : (Layout.moment { l with seen := t :: l.seen } produced).Sound := hs
  unfold step
  dsimp only
  split
  · rename_i hnewline
    split
    · rename_i hbrackets
      exact follows_newlineOutside hs' (List.isEmpty_iff.mp hbrackets) hnewline
    · rename_i hbrackets
      exact follows_newlineInside hs' hl (fun h => hbrackets (List.isEmpty_iff.mpr h)) hnewline
  · exact follows_ordinary (l := { l with seen := t :: l.seen }) hl ht

end Steps

/-! ## Faults -/

/-- What the token at hand has to do with a fault: it is a line end whose width is that of no block, a
bracket that closes nothing, or a line end that ends no line. -/
def Fault.IsDue (fault : Fault) (t : Token) (levels : List Nat) (depth : Int) : Prop :=
  match fault with
  | .dedent found expected =>
    t.terminal = .newline ∧ (indentOf t.content).map indentWidth = some found ∧
      levels.head? = some expected ∧ expected < found
  | .unmatchedBracket => t.terminal.closesBracket = true ∧ depth = -1
  | .noLineFeed => t.terminal = .newline ∧ '\n' ∉ t.content

theorem not_mem_of_indentOf {text : Text} (h : indentOf text = none) : '\n' ∉ text := by
  intro hmem
  rw [indentOf, if_pos (elem_iff.mpr hmem)] at h
  cases h

section Faults

variable {l : Layout} {t : Token} {fault : Fault}

theorem isDue_newlineOutside (hbottom : l.levels.getLast? = some 0) (ht : t.terminal = .newline)
    (h : (newlineOutside l t).fault = some fault) (depth : Int) :
    fault.IsDue t (newlineOutside l t).layout.levels depth := by
  unfold newlineOutside at h ⊢
  cases hindent : indentOf t.content with
  | none =>
    rw [hindent] at h
    cases h
    exact ⟨ht, not_mem_of_indentOf hindent⟩
  | some indent =>
    simp only [hindent] at h ⊢
    by_cases hdeeper : l.level < indentWidth indent
    · rw [if_pos hdeeper] at h
      cases h
    · rw [if_neg hdeeper] at h ⊢
      obtain ⟨top, outer, hleft, hle⟩ := exists_closeTo t (indentWidth indent) hbottom
      simp only [hleft, headD_cons] at h ⊢
      by_cases hsame : indentWidth indent = top
      · rw [if_pos hsame] at h
        cases h
      · rw [if_neg hsame] at h
        cases h
        exact ⟨ht, by rw [hindent]; rfl, rfl, by omega⟩

theorem isDue_newlineInside (ht : t.terminal = .newline)
    (h : (newlineInside l t).fault = some fault) (levels : List Nat) (depth : Int) :
    fault.IsDue t levels depth := by
  unfold newlineInside at h
  cases hindent : indentOf t.content with
  | none =>
    rw [hindent] at h
    cases h
    exact ⟨ht, not_mem_of_indentOf hindent⟩
  | some indent =>
    rw [hindent] at h
    dsimp only at h
    split at h <;> split at h <;> cases h

theorem isDue_ordinary (h : (ordinary l t).fault = some fault) (levels : List Nat) :
    fault.IsDue t levels (depthAt (ordinary l t).layout (ordinary l t).fault) := by
  have hbracket : t.terminal.closesBracket ∧ fault = .unmatchedBracket := by
    rw [ordinary_eq] at h
    dsimp only at h
    split at h
    · cases h
    · split at h
      · rename_i hcloses
        split at h
        · cases h
          exact ⟨hcloses, rfl⟩
        · cases h
      · cases h
  rw [h]
  obtain ⟨hcloses, rfl⟩ := hbracket
  exact ⟨hcloses, rfl⟩

theorem isDue_step (hbottom : l.levels.getLast? = some 0) (h : (l.step t).fault = some fault) :
    fault.IsDue t (l.step t).layout.levels (depthAt (l.step t).layout (l.step t).fault) := by
  unfold step at h ⊢
  dsimp only at h ⊢
  by_cases ht : t.terminal = .newline
  · rw [if_pos ht] at h ⊢
    split at h
    · rename_i houtside
      rw [if_pos houtside]
      exact isDue_newlineOutside (l := { l with seen := t :: l.seen }) hbottom ht h _
    · exact isDue_newlineInside ht h _ _
  · rw [if_neg ht] at h ⊢
    exact isDue_ordinary h _

end Faults

/-! ## Runs -/

/-- The end of the file closes block after block, down to the file itself. -/
theorem reaches_finish (hbottom : levels.getLast? = some 0)
    (produced : List Token) (depth : Int) (lambdas : Int → Nat) :
    Reaches ⟨produced, levels, depth, lambdas⟩
      ⟨produced ++ replicate (levels.length - 1) finalBlockEnd, [0], depth, lambdas⟩ := by
  induction levels generalizing produced with
  | nil => cases hbottom
  | cons top outer ih =>
    cases outer with
    | nil =>
      obtain rfl : top = 0 := Option.some.inj hbottom
      simpa using Relation.ReflTransGen.refl
    | cons below outer =>
      have hclose : Next ⟨produced, top :: below :: outer, depth, lambdas⟩
          ⟨produced ++ [finalBlockEnd], below :: outer, depth, lambdas⟩ :=
        .closeBlock _ rfl rfl
      have hmore := ih (getLast?_cons_cons.symm.trans hbottom) (produced ++ [finalBlockEnd])
      simpa [replicate_succ] using hmore.head hclose

/-- What is handed on for a stream that is read without a fault, and the state behind it. -/
def through (l : Layout) : List Token → Option (List Token × Layout)
  | [] => some ([], l)
  | t :: rest =>
    match (l.step t).fault with
    | some _ => none
    | none => (through (l.step t).layout rest).map fun r => ((l.step t).tokens ++ r.1, r.2)

/-- Between two tokens a step leads from one state to the next. -/
theorem reaches_step (hs : (l.moment produced).Sound)
    (hl : l.IsCovered) (ht : IsPlain t) (hfault : (l.step t).fault = none) :
    Reaches (l.moment produced) ((l.step t).layout.moment (produced ++ (l.step t).tokens)) := by
  have hnext : (l.step t).moment produced =
      (l.step t).layout.moment (produced ++ (l.step t).tokens) := by
    simp [Step.moment, Layout.moment, hfault, depthAt]
  rw [← hnext]
  exact (follows_step hs hl ht).1

theorem exists_isChain_of_reaches {m m' : Moment} (h : Reaches m m') {moments : List Moment}
    (hchain : List.IsChain Next (m' :: moments)) :
    ∃ all, List.IsChain Next (m :: all) ∧ (m :: all).getLast? = (m' :: moments).getLast? ∧
      ∀ x ∈ m' :: moments, x ∈ m :: all := by
  induction h using Relation.ReflTransGen.head_induction_on with
  | refl => exact ⟨moments, hchain, rfl, fun x hx => hx⟩
  | @head m next hnext hrest ih =>
    obtain ⟨all, hall, hlast, hmem⟩ := ih
    refine ⟨next :: all, hall.cons_cons hnext, ?_, fun x hx => mem_cons_of_mem m (hmem x hx)⟩
    rw [getLast?_cons_cons, hlast]

theorem exists_moments_runFrom
    (hs : (l.moment produced).Sound) (hl : l.IsCovered)
    (ht : ∀ t ∈ tokens, IsPlain t) :
    ∃ moments lambdas, List.IsChain Next (l.moment produced :: moments) ∧
      (l.moment produced :: moments).getLast? =
        some ⟨produced ++ (runFrom l tokens).tokens, (runFrom l tokens).levels,
          (runFrom l tokens).depth, lambdas⟩ ∧
      ∀ first more l', first <+: tokens → through l first = some (more, l') →
        l'.moment (produced ++ more) ∈ l.moment produced :: moments := by
  induction tokens generalizing l produced with
  | nil =>
    obtain ⟨moments, hchain, hlast, -⟩ := exists_isChain_of_reaches
      (reaches_finish hs.bottom produced l.brackets.length (table l.brackets))
      (isChain_singleton _)
    refine ⟨moments, table l.brackets, hchain, hlast, fun first more l' hfirst hthrough => ?_⟩
    obtain rfl := prefix_nil.mp hfirst
    cases hthrough
    simp
  | cons t tokens ih =>
    have hplain := ht t mem_cons_self
    cases hfault : (l.step t).fault with
    | some fault =>
      obtain ⟨moments, hchain, hlast, -⟩ := exists_isChain_of_reaches
        (follows_step hs hl hplain).1 (isChain_singleton _)
      refine ⟨moments, table (l.step t).layout.brackets, hchain, ?_,
        fun first more l' hfirst hthrough => ?_⟩
      · simpa [runFrom, hfault, Step.moment] using hlast
      · cases first with
        | nil =>
          cases hthrough
          simp
        | cons u first =>
          obtain ⟨rfl, -⟩ := cons_prefix_cons.mp hfirst
          simp [through, hfault] at hthrough
    | none =>
      have hstep := reaches_step hs hl hplain hfault
      obtain ⟨moments, lambdas, hchain, hlast, hstates⟩ := ih (sound_of_reaches hstep hs)
        ((follows_step hs hl hplain).2 hfault) fun u hu => ht u (mem_cons_of_mem t hu)
      obtain ⟨all, hall, hsame, hmem⟩ := exists_isChain_of_reaches hstep hchain
      refine ⟨all, lambdas, hall, ?_, fun first more l' hfirst hthrough => ?_⟩
      · rw [hsame, hlast]
        simp [runFrom, hfault]
      · cases first with
        | nil =>
          cases hthrough
          simp
        | cons u first =>
          obtain ⟨rfl, hrest⟩ := cons_prefix_cons.mp hfirst
          simp only [through, hfault, Option.map_eq_some_iff] at hthrough
          obtain ⟨⟨rest, l''⟩, hthrough, heq⟩ := hthrough
          cases heq
          rw [← append_assoc]
          exact hmem _ (hstates first rest _ hrest hthrough)

theorem levels_runFrom (h : (runFrom l tokens).fault = none) : (runFrom l tokens).levels = [0] := by
  induction tokens generalizing l with
  | nil => rfl
  | cons t tokens ih =>
    cases hfault : (l.step t).fault with
    | some fault => simp [runFrom, hfault] at h
    | none =>
      simp only [runFrom, hfault] at h ⊢
      exact ih h

theorem isDue_runFrom (hs : (l.moment produced).Sound)
    (hl : l.IsCovered) (ht : ∀ t ∈ tokens, IsPlain t) {fault : Fault}
    (h : (runFrom l tokens).fault = some fault) :
    ∃ t ∈ tokens, fault.IsDue t (runFrom l tokens).levels (runFrom l tokens).depth := by
  induction tokens generalizing l produced with
  | nil => cases h
  | cons t tokens ih =>
    have hplain := ht t mem_cons_self
    cases hfault : (l.step t).fault with
    | some found =>
      have hdue := isDue_step hs.bottom hfault
      simp only [runFrom, hfault] at h ⊢
      cases h
      rw [hfault] at hdue
      exact ⟨t, mem_cons_self, hdue⟩
    | none =>
      have hstep := reaches_step hs hl hplain hfault
      simp only [runFrom, hfault] at h ⊢
      obtain ⟨u, hu, hdue⟩ := ih (sound_of_reaches hstep hs)
        ((follows_step hs hl hplain).2 hfault) (fun u hu => ht u (mem_cons_of_mem t hu)) h
      exact ⟨u, mem_cons_of_mem t hu, hdue⟩

/-- A run on any stream is a sequence of moves that goes through every state between two tokens, and
it is sound at every moment, up to the token that is to blame if it fails. No token closes a block that
is not open, and a run that comes to its end closes all. -/
theorem run_stays_balanced {tokens : List Token}
    (h : ∀ t ∈ tokens, t.terminal ≠ .indent ∧ t.terminal ≠ .dedent) :
    (∃ moments lambdas, List.IsChain Next (Moment.start :: moments) ∧
      (Moment.start :: moments).getLast? =
        some ⟨(run tokens).tokens, (run tokens).levels, (run tokens).depth, lambdas⟩ ∧
      (∀ first produced l, first <+: tokens → start.through first = some (produced, l) →
        l.moment produced ∈ Moment.start :: moments) ∧
      ∀ m ∈ Moment.start :: moments, m.Sound) ∧
    ((run tokens).fault = none → (run tokens).levels = [0] ∧
      opened (run tokens).tokens = closed (run tokens).tokens) ∧
    (∀ first, first <+: (run tokens).tokens → closed first ≤ opened first) ∧
    ∀ fault, (run tokens).fault = some fault →
      ∃ t ∈ tokens, fault.IsDue t (run tokens).levels (run tokens).depth := by
  have hstart : (start.moment []).Sound := sound_start
  have hcovered : start.IsCovered := Nat.zero_lt_one
  obtain ⟨moments, lambdas, hchain, hlast, hstates⟩ :=
    exists_moments_runFrom hstart hcovered h
  have hsound : ∀ m ∈ Moment.start :: moments, m.Sound :=
    hchain.induction Sound _ (fun _ _ hnext => hnext.sound) fun _ => sound_start
  have hend := hsound _ (mem_of_getLast? hlast)
  refine ⟨⟨moments, lambdas, hchain, hlast, hstates, hsound⟩, fun hdone => ?_, hend.ahead,
    fun fault hfault => isDue_runFrom hstart hcovered h hfault⟩
  have hlevels : (run tokens).levels = [0] := levels_runFrom hdone
  have hbalance := hend.balance
  simp only [nil_append] at hbalance
  refine ⟨hlevels, ?_⟩
  have hlength : (runFrom start tokens).levels.length = 1 := congrArg List.length hlevels
  unfold run
  omega

/-- A lambda on two lines in brackets, which the closing bracket ends. -/
def lambdaStream : List Token :=
  [(Terminal.leftParen, "("), (.kwFunc, "func"), (.leftParen, "("), (.rightParen, ")"),
    (.colon, ":"), (.newline, "\n\t"), (.kwPass, "pass"), (.rightParen, ")"),
    (.newline, "\n")].map fun (terminal, text) => ⟨terminal, some text.toList, Span.nowhere, none⟩

theorem run_stays_balanced_lambda :
    (∀ t ∈ lambdaStream, t.terminal ≠ .indent ∧ t.terminal ≠ .dedent) ∧
      (run lambdaStream).fault = none ∧ opened (run lambdaStream).tokens = 1 ∧
      closed (run lambdaStream).tokens = 1 := by
  have hplain : ∀ t ∈ lambdaStream, t.terminal ≠ .indent ∧ t.terminal ≠ .dedent := by decide
  have hdone : (run lambdaStream).fault = none := by decide
  have hopened : opened (run lambdaStream).tokens = 1 := by decide
  have hbalanced := ((run_stays_balanced hplain).2.1 hdone).2
  exact ⟨hplain, hdone, hopened, hbalanced ▸ hopened⟩

end GDWorkbench.Layout
