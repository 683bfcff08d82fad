import GDWorkbench.Format.Attach
import Mathlib.Data.List.MinMax
import Mathlib.Order.Lattice

/-!
Comments behind lines. Every line with a number takes a segment of the comments, the last line the last
one, so that the comments are divided among the lines and none is taken twice; what is left in front
belongs to no line. This holds of any numbers, also of negative and repeated ones and of numbers that do
not ascend, since each line takes from what the lines behind it have left. Where no number is negative,
what is left is cut off at the smallest one.
-/

namespace GDWorkbench.Format

open List

namespace Attach

variable {lines : List Line}

def extended (text : Text) (segment : List (Option Text)) : Text :=
  text ++ (presentOnes segment).flatMap (gap ++ ·)

/-- The second lines are the first ones, where those with a number are extended by the segments, one for
each in their order. -/
inductive Extends : List (List (Option Text)) → List Line → List Line → Prop
  | nil : Extends [] [] []
  | separator {text : Text} {segments : List (List (Option Text))} {lines result : List Line}
      (more : Extends segments lines result) :
      Extends segments (⟨none, text⟩ :: lines) (⟨none, text⟩ :: result)
  | numbered {n : Int} {text : Text} {segment : List (Option Text)}
      {segments : List (List (Option Text))} {lines result : List Line}
      (more : Extends segments lines result) :
      Extends (segment :: segments) (⟨some n, text⟩ :: lines)
        (⟨some n, extended text segment⟩ :: result)

def numbers (lines : List Line) : List Int :=
  lines.filterMap Line.number

theorem join_gap (text : Text) (comments : List Text) :
    Text.join gap (text :: comments) = text ++ comments.flatMap (gap ++ ·) := by
  induction comments generalizing text with
  | nil => simp [Text.join]
  | cons comment comments ih =>
    rw [Text.join, intercalate_cons_cons, ← Text.join, ih, flatMap_cons]
    simp only [append_assoc]

namespace Extends

variable {segments : List (List (Option Text))} {lines result : List Line}

theorem append_separator (h : Extends segments lines result) (text : Text) :
    Extends segments (lines ++ [⟨none, text⟩]) (result ++ [⟨none, text⟩]) := by
  induction h with
  | nil => exact .separator .nil
  | separator more ih => exact .separator ih
  | numbered more ih => exact .numbered ih

theorem append_numbered (h : Extends segments lines result) (n : Int) (text : Text)
    (segment : List (Option Text)) :
    Extends (segments ++ [segment]) (lines ++ [⟨some n, text⟩])
      (result ++ [⟨some n, extended text segment⟩]) := by
  induction h with
  | nil => exact .numbered .nil
  | separator more ih => exact .separator ih
  | numbered more ih => exact .numbered ih

end Extends

/-- What is left of the comments for the lines before, once those behind have taken theirs. -/
def remaining : List (Option Text) → List Line → List (Option Text)
  | comments, [] => comments
  | comments, ⟨none, _⟩ :: rest => remaining comments rest
  | comments, ⟨some n, _⟩ :: rest => remaining (between comments none (some n)) rest

theorem between_append_between {α : Type} (xs : List α) (n : Int) :
    between xs none (some n) ++ between xs (some n) none = xs :=
  take_append_drop (position xs n) xs

/-- The step of the division: a line takes what stands from its number on, and the lines before it divide
what stands in front. -/
theorem exists_division (comments : List (Option Text)) (lines : List Line) :
    ∃ segments, comments = remaining comments lines ++ segments.flatten ∧
      Extends segments lines.reverse (inlineFromEnd comments lines).reverse := by
  induction lines generalizing comments with
  | nil => exact ⟨[], by simp [remaining], .nil⟩
  | cons line rest ih =>
    obtain ⟨number, text⟩ := line
    cases number with
    | none =>
      obtain ⟨segments, hcomments, hextends⟩ := ih comments
      refine ⟨segments, hcomments, ?_⟩
      rw [inlineFromEnd, reverse_cons, reverse_cons]
      exact hextends.append_separator text
    | some n =>
      obtain ⟨segments, hcomments, hextends⟩ := ih (between comments none (some n))
      refine ⟨segments ++ [between comments (some n) none], ?_, ?_⟩
      · rw [remaining, flatten_append, flatten_singleton, ← append_assoc, ← hcomments,
          between_append_between]
      · rw [inlineFromEnd, reverse_cons, reverse_cons, join_gap]
        exact hextends.append_numbered n text _

/-- A comment is left exactly if every number of a line is behind its place. -/
theorem lt_length_remaining_iff {comments : List (Option Text)}
    (hlines : ∀ n ∈ numbers lines, 0 ≤ n) (i : Nat) :
    i < (remaining comments lines).length ↔
      i < comments.length ∧ ∀ n ∈ numbers lines, (i : Int) < n := by
  induction lines generalizing comments with
  | nil => simp [remaining, numbers]
  | cons line rest ih =>
    obtain ⟨number, text⟩ := line
    cases number with
    | none => exact ih hlines
    | some n =>
      obtain ⟨hn, hrest⟩ : 0 ≤ n ∧ ∀ m ∈ numbers rest, 0 ≤ m := forall_mem_cons.mp hlines
      have hlength : (between comments none (some n)).length = min n.toNat comments.length := by
        simp [between, upTo, position, Int.not_lt.mpr hn]
      have hnumbers : (∀ m ∈ numbers (⟨some n, text⟩ :: rest), (i : Int) < m) ↔
          (i : Int) < n ∧ ∀ m ∈ numbers rest, (i : Int) < m := forall_mem_cons
      rw [remaining, ih hrest, hlength, hnumbers, lt_min_iff]
      have hplace : i < n.toNat ↔ (i : Int) < n := Int.lt_toNat
      tauto

theorem remaining_isPrefix (comments : List (Option Text)) (lines : List Line) :
    remaining comments lines <+: comments := by
  obtain ⟨segments, hcomments, -⟩ := exists_division comments lines
  exact ⟨_, hcomments.symm⟩

theorem remaining_eq {comments : List (Option Text)}
    (hlines : ∀ n ∈ numbers lines, 0 ≤ n) :
    remaining comments lines = upTo comments (numbers lines).min? := by
  have hleading := prefix_iff_eq_take.mp (remaining_isPrefix comments lines)
  have hlength (i : Nat) : i < (remaining comments lines).length ↔ _ := lt_length_remaining_iff hlines i
  cases hmin : (numbers lines).min? with
  | none =>
    have hle : comments.length ≤ (remaining comments lines).length := by
      refine Nat.le_of_not_lt fun hlt => ?_
      have hnone := min?_eq_none_iff.mp hmin
      exact Nat.lt_irrefl _ ((hlength _).mpr ⟨hlt, by simp [hnone]⟩)
    rwa [take_of_length_le hle] at hleading
  | some m =>
    obtain ⟨hmem, hleast⟩ := min?_eq_some_iff.mp hmin
    have hm := hlines m hmem
    have hleft : (remaining comments lines).length = min m.toNat comments.length := by
      refine eq_of_forall_lt_iff fun i => (hlength i).trans ?_
      rw [lt_min_iff, Int.lt_toNat, and_comm]
      exact and_congr_left fun _ => ⟨fun h => h m hmem, fun h n hn => h.trans_le (hleast n hn)⟩
    rw [hleading, hleft, upTo, position, if_neg (Int.not_lt.mpr hm), ← take_eq_take_min]

theorem mem_numbers_reverse {n : Int} : n ∈ numbers lines.reverse ↔ n ∈ numbers lines := by
  rw [numbers, filterMap_reverse, mem_reverse, numbers]

theorem min?_numbers_reverse (lines : List Line) :
    (numbers lines.reverse).min? = (numbers lines).min? := by
  rw [numbers, filterMap_reverse, ← numbers]
  cases hmin : (numbers lines).min? with
  | none => simpa using hmin
  | some m =>
    obtain ⟨hmem, hleast⟩ := min?_eq_some_iff.mp hmin
    exact min?_eq_some_iff.mpr ⟨mem_reverse.mpr hmem, fun n hn => hleast n (mem_reverse.mp hn)⟩

/-- The comments are divided into what belongs to no line and a segment for every line with a number.
Each such line is extended by its segment; nothing else changes, and no comment is put down more often
than it is there. If no number is negative, what belongs to no line is cut off at the smallest number: a
comment is dropped just if its place is before every number. -/
theorem inline_conserves (comments : List (Option Text)) (lines : List Line) :
    ∃ rest segments, comments = rest ++ segments.flatten ∧
      Extends segments lines (inline comments lines) ∧
      (∀ comment, (segments.flatMap presentOnes).count comment ≤ (presentOnes comments).count comment) ∧
      ((∀ n ∈ numbers lines, 0 ≤ n) → rest = upTo comments (numbers lines).min? ∧
        ∀ i, i < rest.length ↔ i < comments.length ∧ ∀ n ∈ numbers lines, (i : Int) < n) := by
  obtain ⟨segments, hcomments, hextends⟩ := exists_division comments lines.reverse
  rw [reverse_reverse, ← inline] at hextends
  refine ⟨remaining comments lines.reverse, segments, hcomments, hextends, fun comment => ?_, fun hlines => ?_⟩
  · have hpresent : presentOnes comments =
        presentOnes (remaining comments lines.reverse) ++ segments.flatMap presentOnes := by
      conv_lhs => rw [hcomments]
      simp only [presentOnes, filterMap_append, filterMap_flatten, List.flatMap]
      rfl
    rw [hpresent, count_append]
    exact Nat.le_add_left _ _
  · have hreverse : ∀ n ∈ numbers lines.reverse, 0 ≤ n :=
      fun n hn => hlines n (mem_numbers_reverse.mp hn)
    refine ⟨(remaining_eq hreverse).trans (by rw [min?_numbers_reverse]), fun i => ?_⟩
    simp only [lt_length_remaining_iff hreverse, mem_numbers_reverse]

/-- The numbers descend, and a comment stands before all of them. -/
def descendingLines : List Line :=
  [⟨some 3, ['a']⟩, ⟨none, []⟩, ⟨some 2, ['b']⟩]

theorem inline_conserves_descending :
    let comments := [none, some ['p'], some ['q'], none, some ['r']]
    (∀ n ∈ numbers descendingLines, 0 ≤ n) ∧
      inline comments descendingLines = [⟨some 3, ['a']⟩, ⟨none, []⟩, ⟨some 2, "b  q  r".toList⟩] ∧
      ∃ rest segments, comments = rest ++ segments.flatten ∧
        Extends segments descendingLines (inline comments descendingLines) ∧ rest = [none, some ['p']] := by
  intro comments
  have hlines : ∀ n ∈ numbers descendingLines, 0 ≤ n := by decide
  obtain ⟨rest, segments, hcomments, hextends, -, hrest⟩ := inline_conserves comments descendingLines
  exact ⟨hlines, by decide, rest, segments, hcomments, hextends, (hrest hlines).1⟩

end Attach

end GDWorkbench.Format
