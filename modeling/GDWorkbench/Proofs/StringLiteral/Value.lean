import GDWorkbench.Proofs.StringLiteral

/-!
What a string literal stands for, and how much of that its normal form tells. Escaped quotation marks
and backslashes stand for themselves, other escapes for something that is not looked into here.

A change of marks can turn one value into another, but it loses nothing: a backslash in front of a mark
that was already escaped makes a pair of backslashes before a mark, which the text between two marks
never holds otherwise. `decoded` reads the value off the normal form. Only between three apostrophes can
a mark stand behind a pair of backslashes that was there before.
-/

namespace GDWorkbench.StringLiteral

open Text

variable {c mark : Char} {body text : Text} {old new : Char}

/-- A part of what a string stands for. -/
inductive Piece where
  | char (c : Char)
  | escape (c : Char)
  deriving DecidableEq, Repr

def Piece.ofPair (c : Char) : Piece :=
  if c = '\\' || c = '"' || c = '\'' then .char c else .escape c

def pieces : Text → List Piece
  | [] => []
  | '\\' :: c :: rest => .ofPair c :: pieces rest
  | c :: rest => .char c :: pieces rest

/-- Whether the mark is nowhere right behind a pair of backslashes. -/
def isClean (mark : Char) : Text → Bool
  | [] => true
  | '\\' :: c :: rest => (c != '\\' || rest.head? != some mark) && isClean mark rest
  | _ :: rest => isClean mark rest

/-- What a text stands for between marks that it has been given. A pair of backslashes before a mark
is one that escaped the mark and one that was added. -/
def decoded (mark : Char) : Text → List Piece
  | [] => []
  | '\\' :: c :: rest =>
    if c = '\\' ∧ rest.head? = some mark then decoded mark rest
    else .ofPair c :: decoded mark rest
  | c :: rest => .char c :: decoded mark rest

theorem Piece.ofPair_mark (h : IsMark c) : ofPair c = .char c := by
  rcases h with rfl | rfl <;> rfl

theorem pieces_cons (hc : c ≠ '\\') (rest : Text) : pieces (c :: rest) = .char c :: pieces rest := by
  rw [pieces]
  exact fun d rest' h _ => hc h

theorem decoded_cons (hc : c ≠ '\\') (rest : Text) :
    decoded mark (c :: rest) = .char c :: decoded mark rest := by
  rw [decoded]
  exact fun d rest' h _ => hc h

theorem isClean_of_isBody (hmark : IsMark mark) (h : isBody mark body) : isClean mark body := by
  fun_induction isBody mark body with
  | case1 => rfl
  | case2 c body ih =>
    simp only [Bool.and_eq_true] at h
    simp [isClean, ih h.2, head_ne_of_isBody hmark h.2]
  | case3 c body hpair ih =>
    simp only [Bool.and_eq_true] at h
    rw [isClean]
    · exact ih h.2
    · exact hpair

/-- Between marks that stay, a pair of backslashes before a mark is not met. -/
theorem decoded_of_isClean (h : isClean mark text) : decoded mark text = pieces text := by
  fun_induction isClean mark text with
  | case1 => rfl
  | case2 c text ih =>
    simp only [Bool.and_eq_true, Bool.or_eq_true, bne_iff_ne] at h
    have hpair : ¬ (c = '\\' ∧ text.head? = some mark) := fun hc => h.1.elim (· hc.1) (· hc.2)
    rw [decoded, if_neg hpair, pieces, ih h.2]
  | case3 c text hpair ih =>
    rw [decoded, pieces, ih h]
    · exact hpair
    · exact hpair

/-! ## Changing the marks -/

def restored (old new : Char) : Text → Text
  | [] => []
  | '\\' :: c :: rest =>
    if c = new then c :: restored old new rest
    else if c = '\\' ∧ rest.head? = some new then '\\' :: restored old new rest
    else '\\' :: c :: restored old new rest
  | c :: rest => if c = old then '\\' :: c :: restored old new rest else c :: restored old new rest

theorem restored_cons (hc : c ≠ '\\') (rest : Text) : restored old new (c :: rest) =
      if c = old then '\\' :: c :: restored old new rest else c :: restored old new rest := by
  rw [restored]
  exact fun d rest' h _ => hc h

section Change

variable {old new : Char} (hold : IsMark old) (hnew : IsMark new) (hne : old ≠ new)

include hold hnew hne

/-- The value of a literal can be read off what a change of marks makes of it. -/
theorem decoded_swapMarks (h : isClean old text) :
    decoded new (swapMarks old new text) = pieces text := by
  fun_induction isClean old text with
  | case1 => rfl
  | case2 c text ih =>
    simp only [Bool.and_eq_true, Bool.or_eq_true, bne_iff_ne] at h
    obtain ⟨hclean, hrest⟩ := h
    by_cases hc : c = old
    · subst hc
      rw [swapMarks_old_pair hne, decoded_cons hold.ne_backslash, ih hrest, pieces,
        Piece.ofPair_mark hold]
    · have hinner : c = '\\' → text.head? ≠ some old := fun hb => hclean.resolve_left (· hb)
      rw [swapMarks_pair hnew hc hinner, pieces]
      by_cases hcn : c = new
      · subst hcn
        rw [if_pos rfl, Piece.ofPair_mark hnew]
        have hplain : decoded c (c :: swapMarks old c text) = .char c :: pieces text := by
          rw [decoded_cons hnew.ne_backslash, ih hrest]
        simpa [decoded] using hplain
      · have hhead : (swapMarks old new text).head? ≠ some new := head_swapMarks_ne hnew text
        simp [hcn, decoded, hhead, ih hrest]
  | case3 c text hpair ih =>
    have hend : c = '\\' → text = [] := by
      intro hc
      cases text with
      | nil => rfl
      | cons d text => exact (hpair d text hc rfl).elim
    have hinner : c = '\\' → text.head? ≠ some old := fun hc => by simp [hend hc]
    rw [swapMarks_cons hinner, pieces]
    · by_cases hc : c = '\\'
      · obtain rfl := hend hc
        subst hc
        rw [if_neg (Ne.symm hnew.ne_backslash)]
        rfl
      · by_cases hcn : c = new
        · subst hcn
          simp [decoded, Piece.ofPair_mark hnew, hc, ih h]
        · simp [hcn, decoded_cons hc, ih h]
    · exact hpair

/-- Between single marks a change of marks loses nothing at all. -/
theorem restored_swapMarks (h : isBody old body) :
    restored old new (swapMarks old new body) = body := by
  fun_induction isBody old body with
  | case1 => rfl
  | case2 c body ih =>
    simp only [Bool.and_eq_true] at h
    have hrest := ih h.2
    have hhead := head_ne_of_isBody hold h.2
    by_cases hc : c = old
    · subst hc
      rw [swapMarks_old_pair hne, restored_cons hold.ne_backslash, if_pos rfl, hrest]
    · rw [swapMarks_pair hnew hc fun _ => hhead]
      by_cases hcn : c = new
      · subst hcn
        have hplain : restored old c (c :: swapMarks old c body) = c :: body := by
          rw [restored_cons hnew.ne_backslash, if_neg hc, hrest]
        simpa [restored, Ne.symm hnew.ne_backslash] using hplain
      · have hhead' : (swapMarks old new body).head? ≠ some new := head_swapMarks_ne hnew body
        simp [hcn, restored, hhead', hrest]
  | case3 c body hpair ih =>
    simp only [Bool.and_eq_true, bne_iff_ne] at h
    obtain ⟨⟨⟨hb, hc⟩, -⟩, hbody⟩ := h
    rw [swapMarks_cons fun _ => head_ne_of_isBody hold hbody]
    by_cases hcn : c = new
    · subst hcn
      simp [restored, ih hbody]
    · simp [hcn, restored_cons hb, hc, ih hbody]

theorem swapMarks_injective {body' : Text} (h : isBody old body)
    (h' : isBody old body') (heq : swapMarks old new body = swapMarks old new body') :
    body = body' := by
  rw [← restored_swapMarks hold hnew hne h, heq, restored_swapMarks hold hnew hne h']

end Change

theorem swapMarks_of_not_mem (hold : old ∉ text)
    (hnew : new ∉ text) : swapMarks old new text = text := by
  induction text with
  | nil => rfl
  | cons c text ih =>
    have hhead : c = '\\' → text.head? ≠ some old := fun _ h =>
      hold (List.mem_cons_of_mem c (List.mem_of_head? h))
    have hc : c ≠ new := fun h => hnew (h ▸ List.mem_cons_self)
    rw [swapMarks_cons hhead, if_neg hc, ih (fun h => hold (List.mem_cons_of_mem c h))
      fun h => hnew (List.mem_cons_of_mem c h)]
    rfl

theorem pieces_of_not_mem (h : '\\' ∉ text) : pieces text = text.map .char := by
  induction text with
  | nil => rfl
  | cons c text ih =>
    have hc : c ≠ '\\' := fun heq => h (heq ▸ List.mem_cons_self)
    rw [pieces_cons hc, ih fun hmem => h (List.mem_cons_of_mem c hmem), List.map_cons]

/-! ## Normal forms -/

theorem decoded_renewed (hmark : IsMark mark)
    (h : isClean mark body) : decoded (preferredMark body) (renewed mark body) = pieces body := by
  unfold renewed
  split
  · rename_i hsame
    rw [hsame]
    exact decoded_of_isClean h
  · rename_i hne
    exact decoded_swapMarks hmark (isMark_preferredMark body) (Ne.symm hne) h

theorem pieces_eq_of_short {mark' : Char} (hmark : IsMark mark) (hmark' : IsMark mark')
    {body' : Text} (hclean : isClean mark body) (hclean' : isClean mark' body')
    (h : short (mark :: body ++ [mark]) = short (mark' :: body' ++ [mark'])) :
    pieces body = pieces body' := by
  rw [short_enclosed hmark, short_enclosed hmark'] at h
  obtain ⟨hpreferred, hrest⟩ := List.cons.inj h
  rw [← decoded_renewed hmark hclean, ← decoded_renewed hmark' hclean', hpreferred,
    (List.append_inj' hrest rfl).1]

/-- Between the same single marks only one text has a given normal form. -/
theorem eq_of_short (hmark : IsMark mark) {body' : Text}
    (hbody : isBody mark body) (hbody' : isBody mark body')
    (h : short (mark :: body ++ [mark]) = short (mark :: body' ++ [mark])) : body = body' := by
  rw [short_enclosed hmark, short_enclosed hmark] at h
  obtain ⟨hpreferred, hrest⟩ := List.cons.inj h
  have hsame := (List.append_inj' hrest rfl).1
  unfold renewed at hsame
  rw [← hpreferred] at hsame
  split at hsame
  · exact hsame
  · rename_i hne
    exact swapMarks_injective hmark (isMark_preferredMark body) (Ne.symm hne) hbody hbody' hsame

/-- A text without quotation marks is put between the preferred ones as it is. -/
theorem short_of_not_mem (hmark : IsMark mark) (hdouble : '"' ∉ body)
    (hsingle : '\'' ∉ body) : short (mark :: body ++ [mark]) = '"' :: body ++ ['"'] := by
  have hpreferred : preferredMark body = '"' := by
    simp [preferredMark, List.count_eq_zero_of_not_mem hdouble]
  have hmem : mark ∉ body := by
    rcases hmark with rfl | rfl
    · exact hdouble
    · exact hsingle
  rw [short_enclosed hmark, renewed, hpreferred]
  split
  · rfl
  · rw [swapMarks_of_not_mem hmem hdouble]

theorem short_ne_long (hmark : IsMark mark) (hbody : mark = '"' → isBody mark body) (rest : Text) :
    short (mark :: body ++ [mark]) ≠ '"' :: '"' :: '"' :: rest := by
  rw [short_enclosed hmark]
  intro h
  obtain ⟨hpreferred, hrest⟩ := List.cons.inj h
  have hhead : (renewed mark body).head? ≠ some '"' := by
    rw [renewed, hpreferred]
    split
    · rename_i hsame
      rw [hsame]
      exact head_ne_of_isBody hmark (hbody hsame.symm)
    · exact head_swapMarks_ne (.inl rfl) body
  cases hrenewed : renewed mark body with
  | nil => simp [hrenewed] at hrest
  | cons c text =>
    rw [hrenewed] at hrest hhead
    exact hhead (congrArg some (List.cons.inj hrest).1)

end GDWorkbench.StringLiteral
