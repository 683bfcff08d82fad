import GDWorkbench.Format

/-!
Parts of a formatted file: stretches of lines, the empty lines around a statement, the unit of
indentation, and the text that the lines are joined to.
-/

namespace GDWorkbench

open List Text Format.Blanks

namespace Format

variable {α : Type} {lines : List Text} {line : Text} {forced : Option Nat}

theorem position_natCast (xs : List α) (n : Nat) : position xs (n : Int) = n := by
  have h : ¬ (n : Int) < 0 := by omega
  simp [position, h]

theorem between_natCast (xs : List α) (i j : Nat) :
    between xs (some (i : Int)) (some (j : Int)) = (xs.take j).drop i := by
  simp [between, upTo, position_natCast]

theorem between_from (xs : List α) (i : Nat) : between xs (some (i : Int)) none = xs.drop i := by
  simp [between, upTo, position_natCast]

theorem mem_of_mem_between {x : α} {xs : List α} {first last : Option Int}
    (h : x ∈ between xs first last) : x ∈ xs := by
  have hupTo {y : α} (hy : y ∈ upTo xs last) : y ∈ xs := by
    cases last with
    | none => exact hy
    | some j => exact mem_of_mem_take hy
  cases first with
  | none => exact hupTo h
  | some i => exact hupTo (mem_of_mem_drop h)

/-! ## Between statements -/

theorem squeeze_sublist (lines : List Text) : (squeeze lines).Sublist lines := by
  have hafter (b : Bool) : (squeezeAfter b lines).Sublist lines := by
    induction lines generalizing b with
    | nil => exact Sublist.refl _
    | cons line lines ih =>
      rw [squeezeAfter]
      split
      · exact (ih true).cons line
      · exact (ih _).cons_cons line
  exact hafter false

theorem dropEmptyEnd_sublist (lines : List Text) : (dropEmptyEnd lines).Sublist lines := by
  rw [← reverse_sublist, dropEmptyEnd, reverse_reverse]
  exact dropWhile_sublist _

/-- Only empty lines are added after a statement, or before one. -/
theorem eq_nil_or_mem_of_mem_afterStatement
    (h : line ∈ afterStatement forced lines) : line = [] ∨ line ∈ lines := by
  cases forced with
  | none => exact .inr h
  | some n => exact (mem_append.mp h).imp_left eq_of_mem_replicate

theorem eq_nil_or_mem_of_mem_beforeStatement
    (h : line ∈ beforeStatement forced lines) : line = [] ∨ line ∈ lines := by
  cases forced with
  | none => exact .inr h
  | some n =>
    have hhead (k : Nat) : (lines.take k).dropLast.Sublist lines :=
      (dropLast_sublist _).trans (take_sublist _ _)
    have hlast (k m : Nat) : ((lines.take k).drop m).Sublist lines :=
      (drop_sublist _ _).trans (take_sublist _ _)
    have htail : (lines.reverse.takeWhile fun l => !l.isEmpty).reverse.Sublist lines := by
      simpa using (takeWhile_sublist (l := lines.reverse) fun l => !l.isEmpty).reverse
    simp only [beforeStatement] at h
    split at h
    · exact (mem_append.mp h).imp_left eq_of_mem_replicate
    · rcases mem_append.mp h with h | h
      · rcases mem_append.mp h with h | h
        · exact (mem_append.mp h).symm.imp eq_of_mem_replicate ((hhead _).subset ·)
        · exact .inr ((hlast _ _).subset h)
      · exact .inr (htail.subset h)

/-! ## Styles -/

section Style

variable {style : Style} {width : Nat} {unit : Text}

theorem Style.unit_cases (h : style.unit = .ok (width, unit)) :
    (width = tabWidth ∧ unit = ['\t']) ∨
      ∃ k, width = k + 1 ∧ unit = replicate (k + 1) ' ' := by
  unfold Style.unit at h
  split at h
  · obtain ⟨rfl, rfl⟩ := Prod.mk.inj (Except.ok.inj h)
    exact .inl ⟨rfl, rfl⟩
  · cases h
  · rename_i n hne _
    obtain ⟨rfl, rfl⟩ := Prod.mk.inj (Except.ok.inj h)
    cases n with
    | zero => exact absurd rfl hne
    | succ k => exact .inr ⟨k, rfl, rfl⟩
  · cases h

theorem Style.width_pos (h : style.unit = .ok (width, unit)) : 0 < width := by
  rcases unit_cases h with ⟨rfl, -⟩ | ⟨k, rfl, -⟩
  · decide
  · exact Nat.succ_pos k

end Style

end Format

/-! ## The text -/

theorem join_append_nil (lines : List Text) : Text.join ['\n'] (lines ++ [[]]) = unlines lines := by
  induction lines with
  | nil => rfl
  | cons line lines ih =>
    cases lines with
    | nil => simp [Text.join, unlines]
    | cons next lines => simpa [Text.join, unlines, intercalate_cons_cons] using ih

theorem exists_of_format {style : Format.Style} {code result : Text}
    (h : format style code = .ok result) :
    ∃ t comments, parse code = .ok t ∧ parseComments code = .ok comments ∧
      Format.ofTree style code t comments = .ok result := by
  rw [format] at h
  cases ht : parse code with
  | error e =>
    rw [ht] at h
    cases h
  | ok t =>
    cases hcomments : parseComments code with
    | error e =>
      rw [ht, hcomments] at h
      cases h
    | ok comments =>
      rw [ht, hcomments] at h
      change Failure.ofFault (Format.ofTree style code t comments) = .ok result at h
      cases hresult : Format.ofTree style code t comments with
      | error f =>
        rw [hresult] at h
        cases h
      | ok text =>
        rw [hresult] at h
        exact ⟨t, comments, rfl, rfl, hresult.trans (congrArg Except.ok (Except.ok.inj h))⟩

end GDWorkbench
