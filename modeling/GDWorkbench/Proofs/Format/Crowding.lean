import GDWorkbench.Proofs.Format.File
import GDWorkbench.Proofs.Format.OuterBlanks
import GDWorkbench.Proofs.Results
import GDWorkbench.Safety
import Mathlib.Data.List.Chain
import Mathlib.Data.List.TakeWhile

/-!
Narrow and wide blanks. The stability of a result is judged with wide blanks, whatever it was formatted
with. A file that is laid out with narrow blanks can be laid out with wide ones, and that doubles some
of its empty lines: those between a function or class of the outermost level and its neighbours. So a
stable result passes the judgement just if no function or class has a neighbour.
-/

namespace GDWorkbench

open List Annotations Text

namespace Format

variable {t : Tree} {c : Context} {lines : List Line}

variable {tail : List Text} {inFunction : Bool} {ts : List Tree} {style : Style} {comments : List Token}

/-! ## Widening -/

/-- The second list is the first one with `count` occurrences of an element doubled. -/
inductive Widens {α : Type} (e : α) : Nat → List α → List α → Prop
  | nil : Widens e 0 [] []
  | same (x : α) {count : Nat} {xs ys : List α} (h : Widens e count xs ys) :
    Widens e count (x :: xs) (x :: ys)
  | twice {count : Nat} {xs ys : List α} (h : Widens e count xs ys) :
    Widens e (count + 1) (e :: xs) (e :: e :: ys)

namespace Widens

variable {α β : Type} {e : α} {count more : Nat} {xs ys us vs : List α}

theorem refl (xs : List α) : Widens e 0 xs xs := by
  induction xs with
  | nil => exact .nil
  | cons x xs ih => exact .same x ih

theorem append (h : Widens e count xs ys) (hmore : Widens e more us vs) :
    Widens e (count + more) (xs ++ us) (ys ++ vs) := by
  induction h with
  | nil =>
    rw [Nat.zero_add]
    exact hmore
  | same x h ih => exact .same x ih
  | twice h ih =>
    rw [Nat.add_right_comm]
    exact .twice ih

theorem append_right (h : Widens e count xs ys) (us : List α) :
    Widens e count (xs ++ us) (ys ++ us) :=
  h.append (refl us)

theorem append_left (us : List α) (h : Widens e count xs ys) :
    Widens e count (us ++ xs) (us ++ ys) := by
  have hboth := (refl (e := e) us).append h
  rwa [Nat.zero_add] at hboth

theorem reverse (h : Widens e count xs ys) : Widens e count xs.reverse ys.reverse := by
  induction h with
  | nil => exact .nil
  | same x h ih =>
    rw [reverse_cons, reverse_cons]
    exact ih.append_right [x]
  | twice h ih =>
    rw [reverse_cons, reverse_cons, reverse_cons, append_assoc]
    exact ih.append (.twice .nil)

theorem map (f : α → β) (h : Widens e count xs ys) : Widens (f e) count (xs.map f) (ys.map f) := by
  induction h with
  | nil => exact .nil
  | same x h ih => exact .same (f x) ih
  | twice h ih => exact .twice ih

theorem eq_of_zero (h : Widens e count xs ys) (hcount : count = 0) : xs = ys := by
  induction h with
  | nil => rfl
  | same x h ih => rw [ih hcount]
  | twice h ih => cases hcount

theorem length_unlines {lines wide : List Text} (h : Widens [] count lines wide) :
    (unlines wide).length = (unlines lines).length + count := by
  induction h with
  | nil => rfl
  | same x h ih =>
    simp only [unlines, flatMap_cons, length_append] at ih ⊢
    omega
  | twice h ih =>
    simp only [unlines, flatMap_cons, length_append, length_cons, length_nil] at ih ⊢
    omega

theorem unlines_ne_iff {lines wide : List Text} (h : Widens [] count lines wide) :
    unlines lines ≠ unlines wide ↔ 0 < count := by
  have hlength := h.length_unlines
  constructor
  · intro hne
    by_contra hcount
    exact hne (congrArg unlines (h.eq_of_zero (by omega)))
  · intro hcount heq
    rw [heq] at hlength
    omega

end Widens

/-! ## Comments that are put back -/

def emptyLine : Line := ⟨none, []⟩

namespace Attach

variable {count : Nat} {lines wide : List Line}

theorem widens_inlineFromEnd (h : Widens emptyLine count lines wide)
    (comments : List (Option Text)) :
    Widens emptyLine count (inlineFromEnd comments lines) (inlineFromEnd comments wide) := by
  induction h generalizing comments with
  | nil => exact .nil
  | same line h ih =>
    obtain ⟨number, text⟩ := line
    cases number with
    | none => exact .same _ (ih comments)
    | some n => exact .same _ (ih _)
  | twice h ih => exact .twice (ih comments)

theorem widens_standaloneFromEnd (unit : Char) (h : Widens emptyLine count lines wide)
    (below : Option (Text × Int)) (comments : List (Option Text)) :
    Widens emptyLine count (standaloneFromEnd unit below comments lines)
      (standaloneFromEnd unit below comments wide) := by
  induction h generalizing below comments with
  | nil =>
    rw [standaloneFromEnd]
    exact .nil
  | same line h ih =>
    obtain ⟨number, text⟩ := line
    cases number with
    | none =>
      rw [standaloneFromEnd, standaloneFromEnd]
      exact .same _ (ih none comments)
    | some n =>
      cases below with
      | none => exact .same _ (ih _ comments)
      | some place => exact (Widens.same _ (ih _ _)).append_left _
  | twice h ih =>
    -- an empty line ends the statement below it, and so does a second one
    rw [emptyLine, standaloneFromEnd, standaloneFromEnd, standaloneFromEnd]
    exact .twice (ih none comments)

end Attach

/-- The lines of a file with its comments, without the line feed at the end. -/
def attached (settings : Settings) (lines : List Line) : List Line :=
  Attach.standalone (settings.unitText.headD '\t') settings.standalone
    (Attach.inline settings.inline lines)

theorem withComments_eq (settings : Settings) (lines : List Line) :
    withComments settings lines = attached settings lines ++ [emptyLine] := by
  simp [withComments, attached, emptyLine, Attach.inline, Attach.standalone, Attach.inlineFromEnd,
    Attach.standaloneFromEnd]

theorem widens_attached {count : Nat} {lines wide : List Line}
    (h : Widens emptyLine count lines wide) (settings : Settings) :
    Widens emptyLine count (attached settings lines) (attached settings wide) := by
  have hinline := (Attach.widens_inlineFromEnd h.reverse settings.inline).reverse
  exact (Attach.widens_standaloneFromEnd _ hinline.reverse none settings.standalone).reverse

/-! ## Separators -/

namespace Blanks

variable {lines : List Text}

def IsSqueezed (lines : List Text) : Prop :=
  lines.IsChain fun line next => line ≠ [] ∨ next ≠ []

theorem isSqueezed_squeezeAfter (empty : Bool) (lines : List Text) :
    IsSqueezed (squeezeAfter empty lines) ∧
      (empty → ∀ line ∈ (squeezeAfter empty lines).head?, line ≠ []) := by
  induction lines generalizing empty with
  | nil => exact ⟨isChain_nil, nofun⟩
  | cons line rest ih =>
    rw [squeezeAfter]
    split
    · exact ⟨(ih true).1, fun _ => (ih true).2 rfl⟩
    · rename_i hkept
      obtain ⟨hrest, hhead⟩ := ih line.isEmpty
      refine ⟨isChain_cons.mpr ⟨fun next hnext => ?_, hrest⟩, fun hempty => ?_⟩
      · by_cases hline : line = []
        · exact .inr (hhead (List.isEmpty_iff.mpr hline) next hnext)
        · exact .inl hline
      · intro first hfirst
        obtain rfl : line = first := by simpa using hfirst
        rintro rfl
        exact hkept (by simpa using hempty)

theorem isSqueezed_blanksBetween {first last : Int}
    (h : blanksBetween c first last = .ok lines) : IsSqueezed lines := by
  obtain ⟨found, -, heq⟩ := exists_of_bind_eq_ok h
  cases heq
  exact (isSqueezed_squeezeAfter false found).1

theorem IsSqueezed.getLast?_ne {front : List Text} (h : IsSqueezed (front ++ [] :: tail)) :
    front.getLast? ≠ some [] := by
  intro hlast
  have hjoint := (isChain_append.mp h).2.2 [] hlast [] rfl
  simp at hjoint

theorem exists_last_empty (h : [] ∈ lines) :
    ∃ front tail, lines = front ++ [] :: tail ∧ [] ∉ tail := by
  obtain ⟨tail, front, hsplit, htail⟩ := eq_append_cons_of_mem (mem_reverse.mpr h)
  refine ⟨front.reverse, tail.reverse, ?_, by simpa using htail⟩
  rw [← reverse_reverse lines, hsplit]
  simp

/-- The lines of a list without empty ones, from the last to the first. -/
theorem isEmpty_eq_false_of_not_mem (h : [] ∉ lines) : ∀ line ∈ lines.reverse, (!line.isEmpty) := by
  intro line hline
  have hne : line ≠ [] := fun hempty => h (hempty ▸ mem_reverse.mp hline)
  simpa using hne

/-- Without an empty line, those that are asked for go in front. -/
theorem beforeStatement_of_not_mem (h : [] ∉ lines) (n : Nat) :
    beforeStatement (some n) lines = empties n ++ lines := by
  simp [beforeStatement, takeWhile_eq_self_iff.mpr (isEmpty_eq_false_of_not_mem h)]

theorem beforeStatement_append (h : [] ∉ tail) (front : List Text) (n : Nat) :
    beforeStatement (some n) (front ++ [] :: tail) =
      front ++ empties (n - if front.getLast? = some [] then 2 else 1) ++ [] :: tail := by
  have htail : ((front ++ [] :: tail).reverse.takeWhile fun line => !line.isEmpty) =
      tail.reverse := by
    rw [reverse_append, reverse_cons, append_assoc,
      takeWhile_append_of_pos (isEmpty_eq_false_of_not_mem h)]
    simp
  have hhead : (front ++ [] :: tail).take ((front ++ [] :: tail).length - tail.length) =
      front ++ [[]] := by
    rw [append_cons]
    refine take_left' ?_
    simp only [length_append, length_cons, length_nil]
    omega
  have hpresent : (1 < (front ++ [[]]).length &&
      decide ((front ++ [[]]).dropLast.getLast? = some [])) =
        decide (front.getLast? = some []) := by
    rw [dropLast_concat]
    cases front with
    | nil => rfl
    | cons line front => simp
  simp only [beforeStatement, htail, reverse_reverse, hhead, hpresent]
  simp

theorem beforeStatement_narrow (h : [] ∈ lines) :
    beforeStatement (some narrowBlanks) lines = lines := by
  obtain ⟨front, tail, rfl, htail⟩ := exists_last_empty h
  have hnone : narrowBlanks - (if front.getLast? = some [] then 2 else 1) = 0 := by
    split <;> rfl
  rw [beforeStatement_append htail, hnone]
  simp [empties]

theorem exists_afterStatement (h : IsSqueezed lines) :
    ∃ rest, IsSqueezed ([] :: rest) ∧ afterStatement (some narrowBlanks) lines = [] :: rest ∧
      afterStatement (some wideBlanks) lines = [] :: [] :: rest := by
  cases lines with
  | nil => exact ⟨[], isChain_singleton _, rfl, rfl⟩
  | cons line rest =>
    by_cases hline : line = []
    · subst hline
      exact ⟨rest, h, rfl, rfl⟩
    · refine ⟨line :: rest, isChain_cons.mpr ⟨fun next hnext => .inr ?_, h⟩, ?_, ?_⟩
      · obtain rfl : line = next := by simpa using hnext
        exact hline
      · simp [afterStatement, hline, empties, narrowBlanks]
      · simp [afterStatement, hline, empties, wideBlanks, replicate_succ]

theorem widens_beforeStatement (h : IsSqueezed lines) :
    Widens [] 1 (beforeStatement (some narrowBlanks) lines)
      (beforeStatement (some wideBlanks) lines) := by
  by_cases hmem : [] ∈ lines
  · rw [beforeStatement_narrow hmem]
    obtain ⟨front, tail, rfl, htail⟩ := exists_last_empty hmem
    rw [beforeStatement_append htail, if_neg h.getLast?_ne, append_assoc]
    exact (Widens.twice (.refl tail)).append_left front
  · rw [beforeStatement_of_not_mem hmem, beforeStatement_of_not_mem hmem]
    exact .twice (.refl lines)

/-- Behind the previous statement and before the next one. The same line serves both if no other one
is empty. -/
theorem widens_beforeStatement_cons {rest : List Text} (h : IsSqueezed ([] :: rest)) :
    ∃ count, 0 < count ∧ Widens [] count (beforeStatement (some narrowBlanks) ([] :: rest))
      (beforeStatement (some wideBlanks) ([] :: [] :: rest)) := by
  rw [beforeStatement_narrow mem_cons_self]
  by_cases hmem : [] ∈ rest
  · obtain ⟨front, tail, rfl, htail⟩ := exists_last_empty hmem
    have hlast : ([] :: [] :: front).getLast? ≠ some [] := by
      have hfront : ([] :: front).getLast? ≠ some [] := IsSqueezed.getLast?_ne h
      simpa [getLast?_cons] using hfront
    have hwide := beforeStatement_append htail ([] :: [] :: front) wideBlanks
    rw [if_neg hlast, append_assoc] at hwide
    refine ⟨2, by decide, ?_⟩
    change Widens [] 2 _ (beforeStatement _ ([] :: [] :: front ++ [] :: tail))
    rw [hwide]
    exact .twice ((Widens.twice (.refl tail)).append_left front)
  · have hwide := beforeStatement_append hmem [[]] wideBlanks
    have hsame : beforeStatement (some wideBlanks) ([] :: [] :: rest) = [] :: [] :: rest := by
      simpa [empties, wideBlanks] using hwide
    rw [hsame]
    exact ⟨1, by decide, .twice (.refl rest)⟩

/-- As many empty lines as the statements on both sides ask for, if they do. -/
def spaced (n : Nat) (behind before : Bool) (lines : List Text) : List Text :=
  beforeStatement (if before then some n else none)
    (afterStatement (if behind then some n else none) lines)

theorem widens_spaced (h : IsSqueezed lines) (behind before : Bool) :
    ∃ count, Widens [] count (spaced narrowBlanks behind before lines)
        (spaced wideBlanks behind before lines) ∧
      (0 < count ↔ behind ∨ before) := by
  obtain ⟨rest, hrest, hnarrow, hwide⟩ := exists_afterStatement h
  cases behind with
  | false =>
    cases before with
    | false => exact ⟨0, .refl lines, by simp⟩
    | true => exact ⟨1, widens_beforeStatement h, by simp⟩
  | true =>
    simp only [spaced, if_true, hnarrow, hwide]
    cases before with
    | false => exact ⟨1, .twice (.refl rest), by simp⟩
    | true =>
      obtain ⟨count, hcount, hwidens⟩ := widens_beforeStatement_cons hrest
      exact ⟨count, hwidens, iff_of_true hcount (.inr rfl)⟩

end Blanks

/-! ## Neighbours -/

/-- Functions and classes ask for a number of empty lines around them. -/
def isSpaced : Kind → Bool
  | .classDef | .funcDef | .staticFuncDef => true
  | _ => false

theorem forcedBlanks_outermost (hc : c.depth = 0) (kind : Kind) :
    forcedBlanks c kind = if isSpaced kind then some c.settings.outerBlanks else none := by
  have hindent : c.indent = 0 := by simp [Context.indent, hc]
  cases kind <;> first | rfl | exact congrArg some (if_pos hindent)

/-- Whether a statement of a class is an annotation that waits for the next one. -/
def waits (t : Tree) (following : Option Tree) : Bool :=
  (belongsToNextIn false t).toOption.getD false
    || makesAbstract t following

/-- Whether a function or class has a neighbour among the statements. Annotations that wait for a
statement are no neighbours of it. -/
def isCrowded : List Tree → Bool
  | t :: next :: rest =>
    !waits t (some next) && (t.kind?.any isSpaced || next.kind?.any isSpaced)
      || isCrowded (next :: rest)
  | _ => false

/-! ## Steps of the outermost block -/

namespace Block

variable {kind : Kind} {following : Option Tree}

theorem kind?_of_kind (h : t.kind = .ok kind) : t.kind? = some kind := by
  cases t with
  | token t => cases h
  | node k span children => exact congrArg some (Except.ok.inj h)

/-- An annotation that waits joins those that wait already; all else comes behind what separates it
from the previous statement. -/
theorem step_eq {format : StatementFormatter} {body : BodyFormatter}
    {s : State} {belongs : Bool}
    (hkind : t.kind = .ok kind)
    (hbelongs : belongsToNextIn inFunction t = .ok belongs) :
    step inFunction format body c s t following =
      if (belongs || makesAbstract t following) then
        if s.pending = [] then
          blanksBefore c s kind t >>= fun blanks =>
            .ok { s with lines := s.lines ++ separators blanks, pending := [t] }
        else .ok { s with pending := s.pending ++ [t] }
      else blanksBefore c s kind t >>= statement format body c s kind t := by
  simp only [step, hkind, hbelongs, bind, Except.bind, Bool.and_eq_true, Bool.not_eq_true',
    isEmpty_eq_false_iff]
  split
  · rename_i h
    rw [if_pos h.1, if_neg h.2]
    rfl
  · rename_i h
    by_cases hwaits : (belongs || makesAbstract t following)
    · have hnone : s.pending = [] := by
        by_contra hpending
        exact h ⟨hwaits, hpending⟩
      simp only [if_pos hwaits, if_pos hnone]
      rfl
    · simp only [if_neg hwaits]

/-- Whether the previous statement or one of the kind asks for empty lines between them. -/
def State.Spaces (s : State) (kind : Kind) : Prop :=
  ∃ previous, s.previousKind = some previous ∧ (isSpaced previous = true ∨ isSpaced kind = true)

/-- The state right behind a statement. -/
structure State.Follows (s : State) (t : Tree) (following : Option Tree) : Prop where
  pending : s.pending = [] ↔ waits t following = false
  kind : ∃ kind, t.kind? = some kind ∧ (waits t following = false → s.previousKind = some kind)

theorem State.Follows.spaces_iff {s : State} {t next : Tree} (h : s.Follows t (some next))
    (hkind : next.kind? = some kind) :
    s.pending = [] ∧ s.Spaces kind ↔
      (!waits t (some next) && (t.kind?.any isSpaced || next.kind?.any isSpaced)) := by
  obtain ⟨previous, hprevious, hlast⟩ := h.kind
  rw [h.pending, hkind, hprevious]
  cases hwaits : waits t (some next) with
  | true => simp
  | false => simp [State.Spaces, hlast hwaits]

section Outermost

variable {blanks : List Text}

variable {c : Context} {s next : State} {t : Tree} {format : StatementFormatter}
  {body : BodyFormatter} (hformat : format.Blind) (hbody : body.Blind)
  (hunit : c.settings.unit ≠ 0) (hdepth : c.depth = 0)
  (hnarrow : c.settings.outerBlanks = narrowBlanks)

section

include hformat hbody hunit

theorem exists_of_statement (h : statement format body c s kind t blanks = .ok next) :
    ∃ added, next.previousKind = some kind ∧ next.pending = [] ∧
      next.lines = (if s.pending.isEmpty then s.lines ++ separators blanks else s.lines) ++ added ∧
      ∀ n lines wide, statement format body (c.withBlanks n) { s with lines := lines } kind t wide =
        .ok { next with
          lines := (if s.pending.isEmpty then lines ++ separators wide else lines) ++ added } := by
  obtain ⟨⟨found, previous⟩, hfound, h⟩ := exists_of_bind_eq_ok h
  cases hpending : s.pending with
  | nil =>
    simp only [hpending] at h
    cases h
    refine ⟨found, rfl, rfl, rfl, fun n lines wide => ?_⟩
    rw [statement_withBlanks hbody n hformat hunit]
    simp only [statement, hfound, bind, Except.bind]
    rfl
  | cons waiting pending =>
    simp only [hpending] at h
    cases found with
    | nil => cases h
    | cons first rest =>
      obtain ⟨put, hput, h⟩ := exists_of_bind_eq_ok h
      cases h
      refine ⟨put ++ rest, rfl, rfl, rfl, fun n lines wide => ?_⟩
      rw [statement_withBlanks hbody n hformat hunit]
      simp only [statement, hfound, hput, bind, Except.bind]
      rfl

theorem follows_of_step
    (h : step false format body c s t following = .ok next) : next.Follows t following := by
  obtain ⟨kind, hkind, hrest⟩ := exists_of_bind_eq_ok h
  obtain ⟨belongs, hbelongs, -⟩ := exists_of_bind_eq_ok hrest
  have hwaits : waits t following = (belongs || makesAbstract t following) := by
    rw [waits, hbelongs]
    rfl
  rw [step_eq hkind hbelongs, ← hwaits] at h
  cases heq : waits t following with
  | true =>
    rw [heq, if_pos rfl] at h
    split at h
    · obtain ⟨blanks, -, h⟩ := exists_of_bind_eq_ok h
      cases h
      exact ⟨by simp [heq], kind, kind?_of_kind hkind, by simp [heq]⟩
    · cases h
      exact ⟨by simp [heq], kind, kind?_of_kind hkind, by simp [heq]⟩
  | false =>
    rw [heq, if_neg Bool.false_ne_true] at h
    obtain ⟨blanks, -, h⟩ := exists_of_bind_eq_ok h
    obtain ⟨added, hprevious, hpending, -⟩ := exists_of_statement hformat hbody hunit h
    exact ⟨by simp [heq, hpending], kind, kind?_of_kind hkind, fun _ => hprevious⟩

end

section

include hdepth hnarrow

theorem widens_blanksBefore (h : blanksBefore c s kind t = .ok blanks) :
    ∃ wide count, blanksBefore (c.withBlanks wideBlanks) s kind t = .ok wide ∧
      Widens [] count blanks wide ∧ (0 < count ↔ s.Spaces kind) := by
  obtain ⟨first, hfirst, h⟩ := exists_of_bind_eq_ok h
  obtain ⟨line, hline, h⟩ := exists_of_bind_eq_ok h
  obtain ⟨last, hlast, h⟩ := exists_of_bind_eq_ok h
  obtain ⟨found, hfound, h⟩ := exists_of_bind_eq_ok h
  have hwide : (c.withBlanks wideBlanks).depth = 0 := hdepth
  simp only [blanksBefore, hfirst, hline, hlast, blanksBetween_withBlanks, hfound, bind, Except.bind]
  cases h
  cases hprevious : s.previousKind with
  | none => exact ⟨_, 0, rfl, .refl _, by simp [State.Spaces, hprevious]⟩
  | some previous =>
    simp only [forcedBlanks_outermost hdepth, forcedBlanks_outermost hwide, hnarrow]
    obtain ⟨count, hwidens, hcount⟩ := Blanks.widens_spaced (Blanks.isSqueezed_blanksBetween hfound)
      (isSpaced previous) (isSpaced kind)
    exact ⟨_, count, rfl, hwidens, by simpa [State.Spaces, hprevious] using hcount⟩

end

include hformat hbody hunit hdepth hnarrow

theorem widens_step (h : step false format body c s t following = .ok next)
    {count : Nat} (hlines : Widens emptyLine count s.lines lines) :
    ∃ wide all, step false format body (c.withBlanks wideBlanks) { s with lines := lines } t
        following = .ok { next with lines := wide } ∧ Widens emptyLine all next.lines wide ∧
      (0 < all ↔ 0 < count ∨ s.pending = [] ∧ ∃ kind, t.kind? = some kind ∧ s.Spaces kind) := by
  obtain ⟨kind, hkind, hrest⟩ := exists_of_bind_eq_ok h
  obtain ⟨belongs, hbelongs, -⟩ := exists_of_bind_eq_ok hrest
  rw [step_eq hkind hbelongs] at h ⊢
  simp only [kind?_of_kind hkind, Option.some.injEq, exists_eq_left']
  by_cases hjoins : (belongs || makesAbstract t following) ∧ s.pending ≠ []
  · obtain ⟨hwaits, hpending⟩ := hjoins
    rw [if_pos hwaits, if_neg hpending] at h ⊢
    cases h
    exact ⟨lines, count, rfl, hlines, by simp [hpending]⟩
  -- all else comes behind separators, which count unless something waits
  obtain ⟨blanks, hblanks⟩ : ∃ blanks, blanksBefore c s kind t = .ok blanks := by
    split at h
    · split at h
      · obtain ⟨blanks, hblanks, -⟩ := exists_of_bind_eq_ok h
        exact ⟨blanks, hblanks⟩
      · rename_i hwaits hpending
        exact absurd ⟨hwaits, hpending⟩ hjoins
    · obtain ⟨blanks, hblanks, -⟩ := exists_of_bind_eq_ok h
      exact ⟨blanks, hblanks⟩
  obtain ⟨wide, more, hwide, hwidens, hmore⟩ := widens_blanksBefore hdepth hnarrow hblanks
  have hsame : blanksBefore (c.withBlanks wideBlanks) { s with lines := lines } kind t = .ok wide :=
    hwide
  have hseparated : Widens emptyLine (count + more) (s.lines ++ separators blanks)
      (lines ++ separators wide) := hlines.append (hwidens.map (Line.mk none))
  rw [hblanks] at h
  rw [hsame]
  by_cases hwaits : (belongs || makesAbstract t following)
  · have hpending : s.pending = [] := by
      by_contra hpending
      exact hjoins ⟨hwaits, hpending⟩
    rw [if_pos hwaits, if_pos hpending] at h ⊢
    cases h
    refine ⟨lines ++ separators wide, count + more, rfl, hseparated, ?_⟩
    rw [Nat.add_pos_iff_pos_or_pos, hmore]
    simp [hpending]
  · rw [if_neg hwaits] at h ⊢
    obtain ⟨added, -, -, hnext, hadded⟩ := exists_of_statement hformat hbody hunit h
    have hstatement := hadded wideBlanks lines wide
    by_cases hpending : s.pending = []
    · rw [if_pos (List.isEmpty_iff.mpr hpending)] at hnext hstatement
      refine ⟨_, count + more, hstatement, ?_, ?_⟩
      · rw [hnext]
        exact hseparated.append_right added
      · rw [Nat.add_pos_iff_pos_or_pos, hmore]
        simp [hpending]
    · rw [if_neg (mt List.isEmpty_iff.mp hpending)] at hnext hstatement
      refine ⟨_, count, hstatement, ?_, by simp [hpending]⟩
      rw [hnext]
      exact hlines.append_right added

theorem widens_steps (hfollows : s.Follows t ts.head?)
    (h : steps false format body c s ts = .ok next) {count : Nat}
    (hlines : Widens emptyLine count s.lines lines) :
    ∃ wide all, steps false format body (c.withBlanks wideBlanks) { s with lines := lines } ts =
        .ok { next with lines := wide } ∧ Widens emptyLine all next.lines wide ∧
      (0 < all ↔ 0 < count ∨ isCrowded (t :: ts)) := by
  induction ts generalizing s t lines count with
  | nil =>
    cases h
    exact ⟨lines, count, rfl, hlines, by simp [isCrowded]⟩
  | cons u ts ih =>
    obtain ⟨middle, hstep, hsteps⟩ := exists_of_bind_eq_ok h
    have hbehind := follows_of_step hformat hbody hunit hstep
    obtain ⟨between, more, hbetween, hwidens, hmore⟩ :=
      widens_step hformat hbody hunit hdepth hnarrow hstep hlines
    obtain ⟨wide, all, hwide, hall, hcount⟩ := ih hbehind hsteps hwidens
    refine ⟨wide, all, ?_, hall, ?_⟩
    · rw [steps, hbetween]
      exact hwide
    · obtain ⟨kind, hkind, -⟩ := hbehind.kind
      rw [hcount, hmore, isCrowded, Bool.or_eq_true, ← hfollows.spaces_iff hkind, hkind]
      simp [or_assoc]

theorem widens_steps_start {previous : Option Int}
    (h : steps false format body c ⟨[], previous, none, []⟩ ts = .ok next) :
    ∃ wide all, steps false format body (c.withBlanks wideBlanks) ⟨[], previous, none, []⟩ ts =
        .ok { next with lines := wide } ∧ Widens emptyLine all next.lines wide ∧
      (0 < all ↔ isCrowded ts) := by
  cases ts with
  | nil =>
    cases h
    exact ⟨[], 0, rfl, .nil, by simp [isCrowded]⟩
  | cons t ts =>
    obtain ⟨first, hstep, hsteps⟩ := exists_of_bind_eq_ok h
    obtain ⟨lines, count, hlines, hwidens, hcount⟩ :=
      widens_step hformat hbody hunit hdepth hnarrow hstep .nil
    obtain ⟨wide, all, hwide, hall, hmore⟩ := widens_steps hformat hbody hunit hdepth hnarrow
      (follows_of_step hformat hbody hunit hstep) hsteps hwidens
    refine ⟨wide, all, ?_, hall, ?_⟩
    · rw [steps, hlines]
      exact hwide
    · rw [hmore, hcount]
      simp [State.Spaces]

end Outermost

end Block

/-! ## Files -/

theorem block_of_steps {format : StatementFormatter} {body : BodyFormatter}
    {s : Block.State} {previous : Int}
    (hsteps : Block.steps inFunction format body c ⟨[], c.previous, none, []⟩ ts = .ok s)
    (hprevious : number s.previous = .ok previous)
    (htail : blanksBetween c previous (dedentLine c previous) = .ok tail) :
    block inFunction format body ts c =
      .ok (s.lines ++ Block.separators (Blanks.dropEmptyEnd tail),
        some (dedentLine c previous - 1)) := by
  simp only [block, hsteps, hprevious, htail, bind, Except.bind]
  rfl

theorem widens_fileLines {settings : Settings} (hunit : settings.unit ≠ 0)
    (hnarrow : settings.outerBlanks = narrowBlanks)
    (h : fileLines settings t = .ok lines) :
    ∃ wide count, fileLines { settings with outerBlanks := wideBlanks } t = .ok wide ∧
      Widens emptyLine count lines wide ∧ (0 < count ↔ isCrowded t.children) := by
  have hfunctions := blind_functionBlock (t.size + 1)
  have hclasses := blind_classBlock hfunctions t.size
  let c : Context := ⟨settings, 0, some 0⟩
  obtain ⟨⟨found, last⟩, hblock, h⟩ := exists_of_bind_eq_ok h
  cases h
  obtain ⟨s, hsteps, hblock⟩ := exists_of_bind_eq_ok hblock
  obtain ⟨previous, hprevious, hblock⟩ := exists_of_bind_eq_ok hblock
  obtain ⟨tail, htail, hblock⟩ := exists_of_bind_eq_ok hblock
  cases hblock
  obtain ⟨wide, count, hwide, hwidens, hcount⟩ :=
    Block.widens_steps_start (c := c) (Declaration.blind_format hfunctions hclasses)
      (Statement.blind_body hfunctions) hunit rfl hnarrow hsteps
  refine ⟨wide ++ Block.separators (Blanks.dropEmptyEnd tail), count, ?_, hwidens.append_right _,
    hcount⟩
  have hblock := block_of_steps (c := c.withBlanks wideBlanks) hwide hprevious
    ((blanksBetween_withBlanks wideBlanks c previous _).trans htail)
  simp only [fileLines, classBlock]
  change (block _ _ _ _ (c.withBlanks wideBlanks) >>= _) = _
  rw [hblock]
  rfl

theorem ofTree_eq_ok_iff {code result : Text} : ofTree style code t comments = .ok result ↔
      ∃ s lines, settings style code comments = .ok s ∧ fileLines s t = .ok lines ∧
        result = unlines ((attached s lines).map Line.text) := by
  have hjoin (s : Settings) (lines : List Line) :
      join ['\n'] ((withComments s lines).map Line.text) =
        unlines ((attached s lines).map Line.text) := by
    rw [withComments_eq, map_append]
    exact join_append_nil _
  constructor
  · intro h
    obtain ⟨s, hs, h⟩ := exists_of_bind_eq_ok h
    obtain ⟨lines, hlines, h⟩ := exists_of_bind_eq_ok h
    exact ⟨s, lines, hs, hlines, hjoin s lines ▸ (Except.ok.inj h).symm⟩
  · rintro ⟨s, lines, hs, hlines, rfl⟩
    rw [← hjoin]
    simp only [ofTree, hs, hlines, bind, Except.bind]
    rfl

/-- With wide blanks a text comes out differently just if it is crowded. -/
theorem exists_ofTree_judged (hnarrow : style.outerBlanks = narrowBlanks) {code result : Text}
    (h : ofTree style code t comments = .ok result) :
    ∃ wide, ofTree (Safety.judged style) code t comments = .ok wide ∧
      (result ≠ wide ↔ isCrowded t.children) := by
  obtain ⟨s, lines, hs, hlines, rfl⟩ := ofTree_eq_ok_iff.mp h
  obtain ⟨⟨unit, unitText⟩, hunit, hsettings⟩ := exists_of_bind_eq_ok hs
  cases hsettings
  obtain ⟨wide, count, hwide, hwidens, hcount⟩ :=
    widens_fileLines (Nat.ne_of_gt (Style.width_pos hunit)) hnarrow hlines
  have hjudged : (Safety.judged style).unit = .ok (unit, unitText) := hunit
  have hsettings : settings (Safety.judged style) code comments =
      .ok ⟨style.maxWidth, wideBlanks, unit, unitText, [] :: Text.lines code,
        Comments.standalone code comments, Comments.inline code comments⟩ := by
    rw [settings, hjudged]
    rfl
  refine ⟨_, ofTree_eq_ok_iff.mpr ⟨_, wide, hsettings, hwide, rfl⟩, ?_⟩
  rw [← hcount]
  exact ((widens_attached hwidens _).map Line.text).unlines_ne_iff

end Format

/-! ## The judgement -/

namespace Safety

theorem compareComments_ne_unstable (given formatted : List Token) (diff : Text) :
    compareComments given formatted ≠ .error (.violation (.unstable diff)) := by
  unfold compareComments
  dsimp only
  split <;> simp

theorem compareTrees_ne_unstable (given formatted : Tree) (diff : Text) :
    compareTrees given formatted ≠ .error (.violation (.unstable diff)) := by
  unfold compareTrees
  dsimp only
  split <;> simp

/-- A result with narrow blanks that formatting leaves as it is counts as unstable just if the other
checks have nothing against it and some function or class of the outermost level has a neighbour. -/
theorem check_unstable_iff {style : Format.Style} (hnarrow : style.outerBlanks = Format.narrowBlanks)
    {code result : Text} (hformat : format style code = .ok result)
    (hstable : format style result = .ok result) :
    (∃ diff, check style code result = .error (.violation (.unstable diff))) ↔
      code ≠ result ∧ checkComments code result = .ok () ∧ checkTree code result = .ok () ∧
        ∃ t, parse result = .ok t ∧ Format.isCrowded t.children = true := by
  obtain ⟨given, comments, hgiven, hcomments, -⟩ := exists_of_format hformat
  obtain ⟨t, notes, ht, hnotes, hagain⟩ := exists_of_format hstable
  obtain ⟨wide, hwide, hcrowded⟩ := Format.exists_ofTree_judged hnarrow hagain
  have hcheckComments : checkComments code result = compareComments comments notes := by
    rw [checkComments, hcomments, hnotes]
    rfl
  have hcheckTree : checkTree code result = compareTrees given t := by
    rw [checkTree, hgiven, ht]
    rfl
  by_cases hsame : code = result
  · simp [check, hsame]
  have hcheck : check style code result = compareComments comments notes >>= fun _ =>
      compareTrees given t >>= fun _ => compareAgain result wide := by
    simp only [check, if_neg hsame, ht, hnotes, hcomments, hgiven, ofSyntax, bind, Except.bind, hwide]
    rfl
  rw [hcheck, hcheckComments, hcheckTree, ht]
  cases hlost : compareComments comments notes with
  | error e =>
    have hne := compareComments_ne_unstable comments notes
    rw [hlost] at hne
    exact iff_of_false (fun ⟨diff, h⟩ => hne diff h) (by simp)
  | ok _ =>
    cases hchanged : compareTrees given t with
    | error e =>
      have hne := compareTrees_ne_unstable given t
      rw [hchanged] at hne
      exact iff_of_false (fun ⟨diff, h⟩ => hne diff h) (by simp)
    | ok _ =>
      change (∃ diff, compareAgain result wide = .error (.violation (.unstable diff))) ↔ _
      rw [compareAgain]
      by_cases hstays : result = wide
      · have hfree : ¬ Format.isCrowded t.children = true := fun h => hcrowded.mpr h hstays
        simp [hstays, hfree]
      · have hfull : Format.isCrowded t.children = true := hcrowded.mp hstays
        simp [hstays, hsame, hfull]

/-- A function with an annotation that waits for it, and a class. -/
def neighbours : Text :=
  "var x\n@rpc\nfunc f():\n\tpass\nclass A:\n\tpass\n".toList

def spacedNeighbours : Text :=
  "var x\n@rpc\nfunc f():\n  pass\n\nclass A:\n  pass\n".toList

def Verdict.isUnstable : Verdict → Bool
  | .error (.violation (.unstable _)) => true
  | _ => false

theorem neighbours_runs :
    (format ⟨100, some 2, 1⟩ neighbours).toOption = some spacedNeighbours ∧
      (format ⟨100, some 2, 1⟩ spacedNeighbours).toOption = some spacedNeighbours ∧
      (checkComments neighbours spacedNeighbours).toOption = some () ∧
      (checkTree neighbours spacedNeighbours).toOption = some () ∧
      (parse spacedNeighbours).toOption.any (Format.isCrowded ·.children) ∧
      (check ⟨100, some 2, 1⟩ neighbours spacedNeighbours).isUnstable := by
  decide +kernel

theorem check_unstable_iff_neighbours :
    format ⟨100, some 2, 1⟩ neighbours = .ok spacedNeighbours ∧
      format ⟨100, some 2, 1⟩ spacedNeighbours = .ok spacedNeighbours ∧
      ∃ diff, check ⟨100, some 2, 1⟩ neighbours spacedNeighbours =
        .error (.violation (.unstable diff)) := by
  obtain ⟨hformat, hstable, hcomments, htree, hcrowded, -⟩ := neighbours_runs
  have hformat := eq_ok_of_toOption hformat
  have hstable := eq_ok_of_toOption hstable
  have hdiffers : neighbours ≠ spacedNeighbours := by decide +kernel
  cases ht : parse spacedNeighbours with
  | error e =>
    rw [ht] at hcrowded
    cases hcrowded
  | ok t =>
    rw [ht] at hcrowded
    exact ⟨hformat, hstable, (check_unstable_iff rfl hformat hstable).mpr ⟨hdiffers,
      eq_ok_of_toOption hcomments, eq_ok_of_toOption htree, t, ht, hcrowded⟩⟩

/-- A function and a class with one empty line between them are left as they are, and yet they are
refused. -/
theorem check_refuses_stable_neighbours :
    format ⟨100, some 2, 1⟩ neighbours = .ok spacedNeighbours ∧
      format ⟨100, some 2, 1⟩ spacedNeighbours = .ok spacedNeighbours ∧
      (check ⟨100, some 2, 1⟩ neighbours spacedNeighbours).isUnstable = true :=
  ⟨eq_ok_of_toOption neighbours_runs.1, eq_ok_of_toOption neighbours_runs.2.1,
    neighbours_runs.2.2.2.2.2⟩

end Safety

end GDWorkbench
