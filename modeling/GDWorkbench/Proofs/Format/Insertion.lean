import GDWorkbench.Proofs.Format.Attach
import GDWorkbench.Proofs.Format.File
import Mathlib.Data.List.TakeWhile

/-!
Comments on lines of their own inside a statement. The pass that puts them there goes from the last line
to the first, and every line takes from what the lines behind it have left. So the comments that are put in
stand in their order and none of them twice, whatever the numbers of the lines are: a number that is
negative, repeated or out of order only makes a line take more or less of what is left.

To speak of the places of the comments, the pass is run on comments that carry theirs; `pieces` is the
result, in which a line that was given and a comment that was put in are told apart.
-/

namespace GDWorkbench.Format

open List

namespace Attach

/-- A line that was given, or a comment that was put in with its place among the comments. -/
inductive Piece where
  | given (line : Line)
  | comment (margin text : Text) (place : Nat)
  deriving DecidableEq, Repr

namespace Piece

def line : Piece → Line
  | .given line => line
  | .comment margin text _ => ⟨none, margin ++ text⟩

def given? : Piece → Option Line
  | .given line => some line
  | .comment _ _ _ => none

def place? : Piece → Option Nat
  | .given _ => none
  | .comment _ _ place => some place

end Piece

/-- The comments that are there, with their places. -/
def placedOnes (comments : List (Option Text × Nat)) : List (Text × Nat) :=
  comments.filterMap fun (comment, place) => comment.map (·, place)

def inserted (margin : Text) (comments : List (Option Text × Nat)) : List Piece :=
  (placedOnes comments).reverse.map fun (text, place) => .comment margin text place

/-- The lines are given from the last to the first, and so are the pieces. -/
def piecesFromEnd (unit : Char) :
    Option (Text × Int) → List (Option Text × Nat) → List Line → List Piece
  | _, _, [] => []
  | _, comments, ⟨none, text⟩ :: rest =>
    .given ⟨none, text⟩ :: piecesFromEnd unit none comments rest
  | none, comments, ⟨some n, text⟩ :: rest =>
    .given ⟨some n, text⟩ :: piecesFromEnd unit (some (text, n)) comments rest
  | some (below, last), comments, ⟨some n, text⟩ :: rest =>
    inserted (greaterIndentation unit text below) (between comments (some n) (some last))
      ++ .given ⟨some n, text⟩ :: piecesFromEnd unit (some (text, last))
        (between comments none (some n)) rest

def pieces (unit : Char) (comments : List (Option Text)) (lines : List Line) : List Piece :=
  (piecesFromEnd unit none comments.zipIdx lines.reverse).reverse

/-! ## The lines of the pieces -/

theorem between_map {α β : Type} (f : α → β) (xs : List α) (first last : Option Int) :
    between (xs.map f) first last = (between xs first last).map f := by
  have hposition (i : Int) : position (xs.map f) i = position xs i := by
    simp only [position, length_map]
  cases first <;> cases last <;> simp only [between, upTo, hposition, map_take, map_drop]

theorem map_placedOnes (comments : List (Option Text × Nat)) :
    (placedOnes comments).map Prod.fst = presentOnes (comments.map Prod.fst) := by
  simp only [placedOnes, presentOnes, map_filterMap, filterMap_map]
  congr 1
  funext entry
  obtain ⟨comment, place⟩ := entry
  cases comment <;> rfl

theorem map_line_inserted (margin : Text) (comments : List (Option Text × Nat)) :
    (inserted margin comments).map Piece.line =
      (presentOnes (comments.map Prod.fst)).reverse.map fun text => ⟨none, margin ++ text⟩ := by
  rw [← map_placedOnes, inserted, ← map_reverse, map_map, map_map]
  rfl

theorem standaloneFromEnd_eq (unit : Char) (below : Option (Text × Int))
    (comments : List (Option Text × Nat)) (lines : List Line) :
    standaloneFromEnd unit below (comments.map Prod.fst) lines =
      (piecesFromEnd unit below comments lines).map Piece.line := by
  induction lines generalizing below comments with
  | nil => cases below <;> rfl
  | cons line rest ih =>
    obtain ⟨number, text⟩ := line
    cases number with
    | none =>
      simp only [standaloneFromEnd, piecesFromEnd, ih, map_cons]
      rfl
    | some n =>
      cases below with
      | none =>
        simp only [standaloneFromEnd, piecesFromEnd, ih, map_cons]
        rfl
      | some below =>
        obtain ⟨below, last⟩ := below
        simp only [standaloneFromEnd, piecesFromEnd, map_append, map_cons, map_line_inserted,
          between_map, ih]
        rfl

/-! ## The given lines among the pieces -/

theorem given?_inserted (margin : Text) (comments : List (Option Text × Nat)) :
    (inserted margin comments).filterMap Piece.given? = [] := by
  simp [inserted, filterMap_map, Function.comp_def, Piece.given?]

theorem given?_piecesFromEnd (unit : Char) (below : Option (Text × Int))
    (comments : List (Option Text × Nat)) (lines : List Line) :
    (piecesFromEnd unit below comments lines).filterMap Piece.given? = lines := by
  induction lines generalizing below comments with
  | nil => cases below <;> rfl
  | cons line rest ih =>
    obtain ⟨number, text⟩ := line
    cases number with
    | none => simp [piecesFromEnd, Piece.given?, ih]
    | some n => cases below <;> simp [piecesFromEnd, Piece.given?, given?_inserted, ih]

/-! ## The places of the comments -/

theorem place?_inserted (margin : Text) (comments : List (Option Text × Nat)) :
    (inserted margin comments).filterMap Piece.place? = ((placedOnes comments).map Prod.snd).reverse := by
  simp [inserted, filterMap_map, Function.comp_def, Piece.place?]

theorem placedOnes_sublist (comments : List (Option Text × Nat)) :
    ((placedOnes comments).map Prod.snd).Sublist (comments.map Prod.snd) := by
  induction comments with
  | nil => exact .slnil
  | cons entry comments ih =>
    obtain ⟨comment, place⟩ := entry
    cases comment with
    | none => exact ih.cons place
    | some text => exact ih.cons_cons place

theorem upTo_sublist {α : Type} (xs : List α) (last : Option Int) : (upTo xs last).Sublist xs := by
  cases last with
  | none => exact .refl _
  | some last => exact take_sublist _ _

/-- What a step keeps: a comment that is put in stands behind all that is left for the lines before, since
these are cut off where the line takes from. -/
theorem place?_piecesFromEnd (unit : Char) (below : Option (Text × Int))
    {comments : List (Option Text × Nat)} (hplaces : (comments.map Prod.snd).Pairwise (· < ·))
    (lines : List Line) :
    ((piecesFromEnd unit below comments lines).filterMap Piece.place?).Pairwise (· > ·) ∧
      ∀ place ∈ (piecesFromEnd unit below comments lines).filterMap Piece.place?,
        place ∈ comments.map Prod.snd := by
  induction lines generalizing below comments with
  | nil => cases below <;> exact ⟨.nil, nofun⟩
  | cons line rest ih =>
    obtain ⟨number, text⟩ := line
    cases number with
    | none => exact ih none hplaces
    | some n =>
      cases below with
      | none => exact ih (some (text, n)) hplaces
      | some below =>
        obtain ⟨below, last⟩ := below
        have hdivided : (between comments none (some n)).map Prod.snd ++
            (between comments (some n) none).map Prod.snd = comments.map Prod.snd := by
          rw [← map_append, between_append_between]
        have htaken : ((placedOnes (between comments (some n) (some last))).map Prod.snd).Sublist
            ((between comments (some n) none).map Prod.snd) :=
          (placedOnes_sublist _).trans (((upTo_sublist comments (some last)).drop _).map _)
        rw [← hdivided] at hplaces
        obtain ⟨hleft, hbehind, hbefore⟩ := pairwise_append.mp hplaces
        obtain ⟨hrest, hmem⟩ := ih (some (text, last)) hleft
        simp only [piecesFromEnd, filterMap_append, filterMap_cons, Piece.place?, place?_inserted]
        refine ⟨pairwise_append.mpr ⟨?_, hrest, fun i hi j hj => ?_⟩, fun i hi => ?_⟩
        · exact pairwise_reverse.mpr (hbehind.sublist htaken)
        · exact hbefore j (hmem j hj) i (htaken.subset (mem_reverse.mp hi))
        · rw [← hdivided]
          exact (mem_append.mp hi).symm.elim (fun h => mem_append_left _ (hmem i h))
            fun h => mem_append_right _ (htaken.subset (mem_reverse.mp h))

/-! ## The texts of the comments -/

theorem greaterIndentation_eq (unit : Char) (a b : Text) :
    ∀ c ∈ greaterIndentation unit a b, c = unit := by
  have hindentation (text : Text) : ∀ c ∈ indentation unit text, c = unit := by
    intro c hc
    simpa using mem_takeWhile_imp hc
  simp only [greaterIndentation]
  split
  · exact hindentation a
  · exact hindentation b

theorem mem_of_comment_mem {unit : Char} {below : Option (Text × Int)}
    {comments : List (Option Text × Nat)} {lines : List Line} {margin text : Text} {place : Nat}
    (h : .comment margin text place ∈ piecesFromEnd unit below comments lines) :
    (some text, place) ∈ comments ∧ ∀ c ∈ margin, c = unit := by
  induction lines generalizing below comments with
  | nil => cases below <;> cases h
  | cons line rest ih =>
    obtain ⟨number, first⟩ := line
    cases number with
    | none => exact ih (by simpa [piecesFromEnd] using h)
    | some n =>
      cases below with
      | none => exact ih (by simpa [piecesFromEnd] using h)
      | some below =>
        obtain ⟨below, last⟩ := below
        rcases mem_append.mp h with h | h
        · obtain ⟨⟨comment, i⟩, hcomment, heq⟩ := mem_map.mp h
          obtain ⟨rfl, rfl, rfl⟩ := Piece.comment.inj heq
          obtain ⟨⟨entry, j⟩, hentry, hsome⟩ := mem_filterMap.mp (mem_reverse.mp hcomment)
          obtain ⟨rfl, rfl⟩ : entry = some comment ∧ j = i := by
            cases entry with
            | none => cases hsome
            | some found =>
              cases hsome
              exact ⟨rfl, rfl⟩
          exact ⟨mem_of_mem_between hentry, greaterIndentation_eq unit _ _⟩
        · obtain ⟨hmem, hmargin⟩ := ih (by simpa using h)
          exact ⟨mem_of_mem_between hmem, hmargin⟩

theorem standalone_eq (unit : Char) (comments : List (Option Text)) (lines : List Line) :
    standalone unit comments lines = (pieces unit comments lines).map Piece.line := by
  have hfirsts : comments.zipIdx.map Prod.fst = comments := zipIdx_map_fst 0 comments
  rw [standalone, pieces, map_reverse, ← standaloneFromEnd_eq, hfirsts]

theorem given?_pieces (unit : Char) (comments : List (Option Text)) (lines : List Line) :
    (pieces unit comments lines).filterMap Piece.given? = lines := by
  rw [pieces, filterMap_reverse, given?_piecesFromEnd, reverse_reverse]

/-- What stands among the lines of statements was there, or is a comment behind an indentation. -/
theorem exists_of_mem_standalone {unit : Char} {comments : List (Option Text)} {lines : List Line}
    {line : Line} (h : line ∈ standalone unit comments lines) :
    line ∈ lines ∨ ∃ margin comment, line.text = margin ++ comment ∧ some comment ∈ comments ∧
      ∀ c ∈ margin, c = unit := by
  rw [standalone_eq] at h
  obtain ⟨piece, hpiece, rfl⟩ := mem_map.mp h
  cases piece with
  | given line =>
    rw [← given?_pieces unit comments lines]
    exact .inl (mem_filterMap.mpr ⟨_, hpiece, rfl⟩)
  | comment margin text place =>
    obtain ⟨hmem, hmargin⟩ := mem_of_comment_mem (mem_reverse.mp hpiece)
    exact .inr ⟨margin, text, rfl, mem_of_getElem? (mem_zipIdx_iff_getElem?.mp hmem), hmargin⟩

/-- Putting comments between the lines of statements gives `pieces`: without the comments these are the
lines that were given, in their order, and the places of the comments ascend, so that none is put in twice
and all stand in the order of the source. Each is the comment of its place behind an indentation. -/
theorem standalone_inserts_in_order (unit : Char) (comments : List (Option Text)) (lines : List Line) :
    standalone unit comments lines = (pieces unit comments lines).map Piece.line ∧
      (pieces unit comments lines).filterMap Piece.given? = lines ∧
      ((pieces unit comments lines).filterMap Piece.place?).Pairwise (· < ·) ∧
      ∀ margin text place, .comment margin text place ∈ pieces unit comments lines →
        comments[place]? = some (some text) ∧ ∀ c ∈ margin, c = unit := by
  have hplaces : (comments.zipIdx.map Prod.snd).Pairwise (· < ·) := by
    rw [zipIdx_map_snd]
    exact pairwise_lt_range'
  refine ⟨standalone_eq unit comments lines, given?_pieces unit comments lines, ?_,
    fun margin text place h => ?_⟩
  · rw [pieces, filterMap_reverse, pairwise_reverse]
    exact (place?_piecesFromEnd unit none hplaces lines.reverse).1
  · obtain ⟨hmem, hmargin⟩ := mem_of_comment_mem (mem_reverse.mp h)
    exact ⟨mem_zipIdx_iff_getElem?.mp hmem, hmargin⟩

/-- The numbers of the lines do not ascend, and one of them counts from the end. -/
def unsortedLines : List Line :=
  [⟨some 1, "x(".toList⟩, ⟨some (-2), "\ty".toList⟩, ⟨some 3, ")".toList⟩]

theorem standalone_inserts_in_order_unsorted :
    let comments := [none, some "# a".toList, some "# b".toList, some "# c".toList]
    standalone '\t' comments unsortedLines =
        [⟨some 1, "x(".toList⟩, ⟨none, "\t# a".toList⟩, ⟨some (-2), "\ty".toList⟩, ⟨none, "\t# b".toList⟩,
          ⟨some 3, ")".toList⟩] ∧
      (pieces '\t' comments unsortedLines).filterMap Piece.place? = [1, 2] ∧
      [1, 2].Pairwise (· < ·) := by
  intro comments
  have hplaces : (pieces '\t' comments unsortedLines).filterMap Piece.place? = [1, 2] := by decide
  obtain ⟨-, -, hascend, -⟩ := standalone_inserts_in_order '\t' comments unsortedLines
  exact ⟨by decide, hplaces, hplaces ▸ hascend⟩

end Attach

end GDWorkbench.Format
