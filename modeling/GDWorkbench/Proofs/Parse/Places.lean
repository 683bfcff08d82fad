import GDWorkbench.Parse

/-!
The moments between two turns of a run. A turn reads one token, lays it out and hands the parser what
comes of it; `Reached` are the moments that a run over a text can come to.
-/

namespace GDWorkbench.Parse

/-- The stack after tokens that the parser shifts one after the other. -/
def shifted (stack : Stack) : List Token → Option Stack
  | [] => some stack
  | t :: rest =>
    match feed stack t with
    | .shifted stack => shifted stack rest
    | _ => none

theorem shifted_append (stack : Stack) (first second : List Token) :
    shifted stack (first ++ second) = (shifted stack first).bind (shifted · second) := by
  induction first generalizing stack with
  | nil => rfl
  | cons t first ih =>
    simp only [List.cons_append, shifted]
    split
    · exact ih _
    · rfl

theorem same_of_take {p q : Progress} {tokens : List Token} (h : take p tokens = .ok q) :
    q.cursor = p.cursor ∧ q.layout = p.layout := by
  induction tokens generalizing p with
  | nil =>
    cases h
    exact ⟨rfl, rfl⟩
  | cons t tokens ih =>
    rw [take] at h
    split at h
    · exact ih (p := { p with stack := _, taken := some t }) h
    · cases h
      exact ⟨rfl, rfl⟩
    · cases h

/-- A token has been read and laid out, and the parser has not seen it yet. -/
def Progress.reading (p : Progress) (t : Token) (cursor : Cursor) : Progress :=
  { p with cursor := cursor, layout := (p.layout.step t).layout, scanned := some t }

/-- Where the passes stand between two turns. -/
inductive Reached (text : Text) : Progress → Prop
  | start : Reached text ⟨Cursor.ofText text, Layout.start, [], none, none⟩
  | turn {p q : Progress} {t : Token} {cursor : Cursor} (before : Reached text p)
      (scans : p.stack.top.lexicon.next p.cursor = .token t cursor)
      (takes : take (p.reading t cursor) (p.layout.step t).tokens = .ok q)
      (fits : (p.layout.step t).fault = none) : Reached text q

theorem terminal_endToken (last : Option Token) : (endToken last).terminal = .endOfText := by
  unfold endToken
  split <;> rfl

end GDWorkbench.Parse
