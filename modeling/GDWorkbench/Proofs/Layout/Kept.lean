import GDWorkbench.Proofs.Parse.Failures

/-!
Layout leaves code alone. Apart from line ends and from where blocks begin and end, the pass hands on what it
reads, unchanged and in order, up to the token that it fails at; and it passes on every line end that stands
outside of brackets.
-/

namespace GDWorkbench.Layout

open List

open Parse (bracketOf depthOf)

variable {l l' : Layout} {t : Token} {tokens before out : List Token} {p : Token → Bool}

/-! ## What a step keeps -/

section

variable {p : Token → Bool} (hp : ∀ t, IsMade t → p t = false)

include hp

theorem filter_of_isMade (h : ∀ t ∈ tokens, IsMade t) : tokens.filter p = [] :=
  filter_eq_nil_iff.mpr fun t ht => Bool.eq_false_iff.mp (hp t (h t ht))

theorem filter_step (l : Layout) (t : Token) : (l.step t).tokens.filter p = [t].filter p := by
  by_cases ht : t.terminal = .newline
  · have hmade : ∀ u ∈ (l.step t).tokens, IsMade u := by
      intro u hu
      rcases (counts_step l t).tokens u hu with rfl | hmade
      · exact .inl ht
      · exact hmade
    rw [filter_of_isMade hp hmade, filter_of_isMade hp (forall_mem_singleton.mpr (.inl ht))]
  · have htokens : (l.step t).tokens = (closedBefore { l with seen := t :: l.seen } t).1 ++ [t] := by
      rw [step, if_neg ht, ordinary_eq]
      dsimp only
      split
      · rfl
      · split
        · split <;> rfl
        · rfl
    rw [htokens, filter_append, filter_of_isMade hp (isMade_closedBefore _ t), nil_append]

end

/-- Outside of brackets a line end is the first thing that its step hands on. -/
theorem exists_step_newline (ht : t.terminal = .newline) (hl : l.brackets = []) :
    ∃ rest, (l.step t).tokens = t :: rest := by
  have hstep : l.step t = newlineOutside { l with seen := t :: l.seen } t := by simp [step, ht, hl]
  rw [hstep, newlineOutside]
  split
  · exact ⟨[], rfl⟩
  · dsimp only
    split
    · exact ⟨_, rfl⟩
    · exact ⟨_, rfl⟩

/-! ## What has been read without a fault -/

theorem through_cons (h : l.through (t :: tokens) = some (out, l')) :
    (l.step t).fault = none ∧
      ∃ more, (l.step t).layout.through tokens = some (more, l') ∧ out = (l.step t).tokens ++ more := by
  unfold through at h
  split at h
  · cases h
  · obtain ⟨⟨more, l''⟩, hmore, heq⟩ := Option.map_eq_some_iff.mp h
    cases heq
    exact ⟨‹_›, more, hmore, rfl⟩

/-- The pass goes on behind what it has read without a fault. -/
theorem runFrom_append (h : l.through before = some (out, l')) (after : List Token) :
    runFrom l (before ++ after) = { runFrom l' after with tokens := out ++ (runFrom l' after).tokens } := by
  induction before generalizing l out with
  | nil =>
    cases h
    rfl
  | cons t before ih =>
    obtain ⟨hfault, more, hmore, rfl⟩ := through_cons h
    simp [runFrom, hfault, ih hmore]

theorem filter_through (hp : ∀ t, IsMade t → p t = false)
    (h : l.through before = some (out, l')) : out.filter p = before.filter p := by
  induction before generalizing l out with
  | nil =>
    cases h
    rfl
  | cons t before ih =>
    obtain ⟨-, more, hmore, rfl⟩ := through_cons h
    rw [filter_append, filter_step hp, ih hmore, ← filter_append, singleton_append]

theorem brackets_through (h : l.through before = some (out, l')) :
    (l'.brackets.length : Int) = l.brackets.length + depthOf (headsOf before) := by
  induction before generalizing l out with
  | nil =>
    cases h
    simp [headsOf, depthOf]
  | cons t before ih =>
    obtain ⟨hfault, more, hmore, rfl⟩ := through_cons h
    have hcons : depthOf (headsOf (t :: before)) =
        bracketOf (.terminal t.terminal) + depthOf (headsOf before) := Parse.depthOf_cons _ _
    rw [ih hmore, (counts_step l t).brackets hfault, hcons]
    omega

/-- A pass reads all tokens, or up to one that is at fault. -/
theorem through_or_fault (l : Layout) (tokens : List Token) :
    (∃ out l', l.through tokens = some (out, l')) ∨
      ∃ before t after out l', tokens = before ++ t :: after ∧ l.through before = some (out, l') ∧
        (l'.step t).fault ≠ none := by
  induction tokens generalizing l with
  | nil => exact .inl ⟨[], l, rfl⟩
  | cons t tokens ih =>
    cases hfault : (l.step t).fault with
    | some fault => exact .inr ⟨[], t, tokens, [], l, rfl, rfl, hfault ▸ by simp⟩
    | none =>
      rcases ih (l.step t).layout with ⟨out, l', h⟩ | ⟨before, u, after, out, l', rfl, h, hu⟩
      · exact .inl ⟨(l.step t).tokens ++ out, l', by simp [through, hfault, h]⟩
      · exact .inr ⟨t :: before, u, after, (l.step t).tokens ++ out, l', rfl,
          by simp [through, hfault, h], hu⟩

theorem runFrom_of_through (h : l.through tokens = some (out, l')) :
    (runFrom l tokens).tokens = out ++ l'.finish ∧ (runFrom l tokens).fault = none := by
  have hrun := runFrom_append h []
  rw [append_nil] at hrun
  rw [hrun]
  exact ⟨rfl, rfl⟩

theorem runFrom_of_fault (h : (l.step t).fault ≠ none) (after : List Token) :
    (runFrom l (t :: after)).tokens = (l.step t).tokens ∧
      (runFrom l (t :: after)).fault = (l.step t).fault := by
  cases hfault : (l.step t).fault with
  | none => exact absurd hfault h
  | some fault => simp [runFrom, hfault]

theorem exists_through_of_runFrom (h : (runFrom l tokens).fault = none) :
    ∃ out l', l.through tokens = some (out, l') := by
  rcases through_or_fault l tokens with hall | ⟨before, t, after, out, l', rfl, hthrough, hfault⟩
  · exact hall
  · rw [runFrom_append hthrough] at h
    exact absurd ((runFrom_of_fault hfault after).2.symm.trans h) hfault

theorem filter_finish (hp : ∀ t, IsMade t → p t = false) (l : Layout) : l.finish.filter p = [] := by
  refine filter_of_isMade hp fun t ht => ?_
  rw [eq_of_mem_replicate ht]
  exact .inr (.inr rfl)

theorem filter_runFrom (hp : ∀ t, IsMade t → p t = false)
    (h : (runFrom l tokens).fault = none) : (runFrom l tokens).tokens.filter p = tokens.filter p := by
  obtain ⟨out, l', hthrough⟩ := exists_through_of_runFrom h
  rw [(runFrom_of_through hthrough).1, filter_append, filter_through hp hthrough, filter_finish hp, append_nil]

/-! ## Code -/

def isLayout (t : Token) : Bool :=
  t.terminal = .newline || t.terminal = .indent || t.terminal = .dedent

/-- What is left without line ends and without starts and ends of blocks. -/
def code (tokens : List Token) : List Token :=
  tokens.filter (!isLayout ·)

theorem isLayout_of_isMade (t : Token) (h : IsMade t) : (!isLayout t) = false := by
  rcases h with h | h | h <;> simp [isLayout, h]

/-- The code of a stream is handed on as it is, up to the token at which the pass fails, if it does. A line end
outside of brackets comes right behind what has been handed on before it, once more than it is added. -/
theorem run_keeps_code (tokens : List Token) :
    (∃ read rest, tokens = read ++ rest ∧ code (run tokens).tokens = code read ∧
      ((run tokens).fault = none → rest = []) ∧
      ((run tokens).fault ≠ none → ∃ before t, read = before ++ [t] ∧ (run before).fault = none ∧
        (run read).fault = (run tokens).fault)) ∧
    ∀ before t after, tokens = before ++ t :: after → (run before).fault = none →
      t.terminal = .newline → depthOf (headsOf before) = 0 →
        ∃ out ends rest, (run before).tokens = out ++ ends ∧ (∀ u ∈ ends, u = finalBlockEnd) ∧
          (run tokens).tokens = out ++ t :: rest := by
  constructor
  · rcases through_or_fault start tokens with ⟨out, l, h⟩ | ⟨before, t, after, out, l, rfl, h, hfault⟩
    · have hfault : (run tokens).fault = none := (runFrom_of_through h).2
      exact ⟨tokens, [], (append_nil _).symm, filter_runFrom isLayout_of_isMade hfault, fun _ => rfl,
        fun hne => absurd hfault hne⟩
    · have hrun (after : List Token) : (run (before ++ t :: after)).tokens = out ++ (l.step t).tokens ∧
          (run (before ++ t :: after)).fault = (l.step t).fault := by
        obtain ⟨htokens, hsame⟩ := runFrom_of_fault hfault after
        rw [run, runFrom_append h]
        exact ⟨congrArg (out ++ ·) htokens, hsame⟩
      refine ⟨before ++ [t], after, by simp, ?_, fun hnone => absurd ((hrun after).2.symm.trans hnone) hfault,
        fun _ => ⟨before, t, rfl, (runFrom_of_through h).2, (hrun []).2.trans (hrun after).2.symm⟩⟩
      rw [(hrun after).1, code, code, filter_append, filter_append, filter_through isLayout_of_isMade h,
        filter_step isLayout_of_isMade]
  · rintro before t after rfl hbefore ht hdepth
    obtain ⟨out, l, h⟩ := exists_through_of_runFrom hbefore
    have hlength := brackets_through h
    rw [hdepth] at hlength
    have hbrackets : l.brackets = [] := by
      refine length_eq_zero_iff.mp ?_
      simp only [start, length_nil] at hlength
      omega
    obtain ⟨rest, hstep⟩ := exists_step_newline ht hbrackets
    have hnext : ∃ more, (runFrom l (t :: after)).tokens = (l.step t).tokens ++ more := by
      cases hfault : (l.step t).fault with
      | none => exact ⟨_, by simp only [runFrom, hfault]; rfl⟩
      | some fault => exact ⟨[], by simp [runFrom, hfault]⟩
    obtain ⟨more, hmore⟩ := hnext
    refine ⟨out, l.finish, rest ++ more, (runFrom_of_through h).1, fun u hu => eq_of_mem_replicate hu, ?_⟩
    rw [run, runFrom_append h]
    simp [hmore, hstep]

def wordToken : Token :=
  { (default : Token) with terminal := .identifier, text := some ['a'] }

def lineEndToken (text : String) : Token :=
  { (default : Token) with terminal := .newline, text := some text.toList }

/-- A block that is open where a stream breaks off, and that the next line end closes. -/
theorem run_keeps_code_block :
    let before := [wordToken, lineEndToken "\n\t", wordToken]
    let t := lineEndToken "\n"
    (run before).fault = none ∧ depthOf (headsOf before) = 0 ∧
      ∃ out ends rest, (run before).tokens = out ++ ends ∧ (∀ u ∈ ends, u = finalBlockEnd) ∧
        (run (before ++ [t])).tokens = out ++ t :: rest := by
  intro before t
  have hfault : (run before).fault = none := by decide
  have hdepth : depthOf (headsOf before) = 0 := by decide
  exact ⟨hfault, hdepth, (run_keeps_code (before ++ [t])).2 before t [] rfl hfault rfl hdepth⟩

end GDWorkbench.Layout
