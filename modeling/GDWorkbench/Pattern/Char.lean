import GDWorkbench.Text.Case
import GDWorkbench.Text.Integer

/-!
What a pattern says about one character: that it is a given one, any one, or a member of a set, with
or without regard to case. Characters of patterns are code points, because a pattern may name one
that no text holds.
-/

namespace GDWorkbench.Pattern

inductive Casing where
  | exact
  /-- Capitals and small letters of ASCII are the same. -/
  | ascii
  /-- Capitals and small letters of all scripts are the same. -/
  | unicode
  deriving DecidableEq, Repr

namespace Casing

def lower : Casing → Nat → Nat
  | .exact, n => n
  | .ascii, n => Text.lowerAscii n
  | .unicode, n => Text.lower n

/-- Whether something holds of a character that is the same as the given one. -/
def anyForm (p : Nat → Bool) : Casing → Nat → Bool
  | .exact, n => p n
  | .ascii, n => (Text.caseFormsAscii n).any p
  | .unicode, n => (Text.caseForms n).any p

end Casing

inductive Category where
  | digit
  | blank
  | word
  deriving DecidableEq, Repr

namespace Category

def holds (isAscii : Bool) (k : Category) (c : Char) : Bool :=
  if isAscii && 0x80 ≤ c.toNat then false
  else
    match k with
    | .digit => Text.isDecimal c
    | .blank => Text.isBlank c && !(isAscii && 0x1C ≤ c.toNat && c.toNat ≤ 0x1F)
    | .word => Text.isWordPart c

end Category

def astral : Nat := 0x10000

inductive Member where
  | one (code : Nat)
  | range (first last : Nat)
  | category (category : Category) (isAscii isNegated : Bool)
  deriving DecidableEq, Repr

namespace Member

/-- Without regard to case, code points of more than sixteen bits are looked up by their small form
alone; a range that reaches that far also takes what its small form is the small form of. -/
def holds (casing : Casing) (c : Char) : Member → Bool
  | .one code =>
    if code < astral then casing.anyForm (· = code) c.toNat else casing.lower c.toNat = code
  | .range first last =>
    let isIn n := first ≤ n && n ≤ last
    let small := casing.lower c.toNat
    casing.anyForm (fun n => n < astral && isIn n) c.toNat
      || (astral ≤ last && (isIn small || (casing ≠ .exact && isIn (Text.upper small))))
  | .category k isAscii isNegated => k.holds isAscii c != isNegated

end Member

/-- What one character has to be. -/
inductive CharTest where
  | one (code : Nat) (isNegated : Bool)
  | set (members : List Member) (isNegated : Bool)
  | any
  | anyInLine
  deriving DecidableEq, Repr

namespace CharTest

def holds (casing : Casing) (c : Char) : CharTest → Bool
  | .one code isNegated => casing.anyForm (· = code) c.toNat != isNegated
  | .set members isNegated => members.any (·.holds casing c) != isNegated
  | .any => true
  | .anyInLine => c != '\n'

end CharTest

end GDWorkbench.Pattern
