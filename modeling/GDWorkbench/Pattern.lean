import GDWorkbench.Pattern.Char

/-!
Regular expressions, by which names are judged. Besides characters, sequences, alternatives and
repetitions they have groups that are remembered, so that a pattern can ask for the same text again
or depend on whether a group took part, and conditions on what stands before and behind a place.
-/

namespace GDWorkbench

namespace Pattern

inductive Anchor where
  | textStart
  | textEnd
  /-- The end of the text, or in front of a line feed that ends it. -/
  | lastLineEnd
  | lineStart
  | lineEnd
  | wordEdge (isAscii isNegated : Bool)
  deriving DecidableEq, Repr

/-- How a repetition chooses among the numbers of turns. -/
inductive Preference where
  | most
  | fewest
  /-- As many as there are, without giving any back. -/
  | allOrNone
  deriving DecidableEq, Repr

end Pattern

inductive Pattern where
  | empty
  | char (test : Pattern.CharTest) (casing : Pattern.Casing)
  | anchor (anchor : Pattern.Anchor)
  | seq (first second : Pattern)
  | or (first second : Pattern)
  /-- Brackets around a pattern with flags of its own. -/
  | group (inner : Pattern)
  /-- Brackets whose text is remembered under a number. -/
  | capture (number : Nat) (inner : Pattern)
  /-- The text that a group took last. -/
  | again (number : Nat) (casing : Pattern.Casing)
  /-- Depends on whether a group took part. -/
  | given (number : Nat) (yes no : Pattern)
  | repeated (low : Nat) (high : Option Nat) (preference : Pattern.Preference) (inner : Pattern)
  /-- Only the preferred match. -/
  | atomic (inner : Pattern)
  | ahead (isNegated : Bool) (inner : Pattern)
  /-- Looks at the given number of characters before. -/
  | behind (isNegated : Bool) (width : Nat) (inner : Pattern)
  deriving DecidableEq, Repr

namespace Pattern

/-! ## Width -/

/-- The least and the greatest number of characters that matches take. -/
structure Width where
  least : Nat
  greatest : Nat
  deriving DecidableEq, Repr

namespace Width

def unlimited : Nat := 0x10000000000000000

def exactly (n : Nat) : Width := ⟨n, n⟩

def plus (a b : Width) : Width :=
  ⟨a.least + b.least, a.greatest + b.greatest⟩

def either (a b : Width) : Width :=
  ⟨min a.least b.least, max a.greatest b.greatest⟩

def times (low : Nat) (high : Option Nat) (w : Width) : Width :=
  ⟨low * w.least,
    match high with
    | some high => high * w.greatest
    | none => if w.greatest = 0 then 0 else unlimited⟩

end Width

/-- The width of a pattern by the widths of the groups it refers to. -/
def width (groups : Nat → Width) : Pattern → Width
  | .empty | .anchor _ | .ahead _ _ | .behind _ _ _ => .exactly 0
  | .char _ _ => .exactly 1
  | .seq first second => (first.width groups).plus (second.width groups)
  | .or first second => (first.width groups).either (second.width groups)
  | .group inner | .capture _ inner | .atomic inner => inner.width groups
  | .again number _ => groups number
  | .given _ yes no => (yes.width groups).either (no.width groups)
  | .repeated low high _ inner => (inner.width groups).times low high

/-! ## References -/

def references : Pattern → List Nat
  | .empty | .anchor _ | .char _ _ => []
  | .seq first second | .or first second => first.references ++ second.references
  | .group inner | .capture _ inner | .atomic inner | .ahead _ inner | .behind _ _ inner
  | .repeated _ _ _ inner => inner.references
  | .again number _ => [number]
  | .given number yes no => number :: (yes.references ++ no.references)

/-- The same pattern, in which only the listed groups are remembered. -/
def keeping (numbers : List Nat) : Pattern → Pattern
  | .seq first second => .seq (first.keeping numbers) (second.keeping numbers)
  | .or first second => .or (first.keeping numbers) (second.keeping numbers)
  | .group inner => .group (inner.keeping numbers)
  | .capture number inner =>
    if numbers.contains number then .capture number (inner.keeping numbers)
    else .group (inner.keeping numbers)
  | .given number yes no => .given number (yes.keeping numbers) (no.keeping numbers)
  | .repeated low high preference inner => .repeated low high preference (inner.keeping numbers)
  | .atomic inner => .atomic (inner.keeping numbers)
  | .ahead isNegated inner => .ahead isNegated (inner.keeping numbers)
  | .behind isNegated width inner => .behind isNegated width (inner.keeping numbers)
  | p => p

def sequence : List Pattern → Pattern
  | [] => .empty
  | [p] => p
  | p :: ps => .seq p (sequence ps)

end Pattern

end GDWorkbench
