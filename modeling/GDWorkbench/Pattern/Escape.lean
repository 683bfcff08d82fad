import GDWorkbench.Pattern.Reading
import GDWorkbench.Text.CharName

/-!
What a backslash with a character stands for: a character that is hard to write, a category of
characters, an anchor, or the text of a group.
-/

namespace GDWorkbench.Pattern

def isOctal (c : Char) : Bool :=
  '0' ≤ c && c ≤ '7'

def isHex (c : Char) : Bool :=
  c.isDigit || ('a' ≤ c && c ≤ 'f') || ('A' ≤ c && c ≤ 'F')

def hexValue (c : Char) : Nat :=
  if c.isDigit then c.toNat - '0'.toNat
  else if 'a' ≤ c then c.toNat - 'a'.toNat + 10
  else c.toNat - 'A'.toNat + 10

def valueIn (base : Nat) (digits : Text) : Nat :=
  digits.foldl (fun n c => base * n + hexValue c) 0

def controlCode : Char → Option Nat
  | 'a' => some 0x07
  | 'f' => some 0x0C
  | 'n' => some 0x0A
  | 'r' => some 0x0D
  | 't' => some 0x09
  | 'v' => some 0x0B
  | _ => none

def category (flags : Flags) : Char → Option Member
  | 'd' => some (.category .digit flags.isAscii false)
  | 'D' => some (.category .digit flags.isAscii true)
  | 's' => some (.category .blank flags.isAscii false)
  | 'S' => some (.category .blank flags.isAscii true)
  | 'w' => some (.category .word flags.isAscii false)
  | 'W' => some (.category .word flags.isAscii true)
  | _ => none

def escapedAnchor (flags : Flags) : Char → Option Anchor
  | 'A' => some .textStart
  | 'Z' => some .textEnd
  | 'b' => some (.wordEdge flags.isAscii false)
  | 'B' => some (.wordEdge flags.isAscii true)
  | _ => none

namespace Reader

def hexCode (digits : Nat) : Reader Nat := do
  let found ← takeUpTo isHex digits
  if found.length ≠ digits then fail
  let code := valueIn 16 found
  if 0x110000 ≤ code then fail
  return code

/-- A code point by octal digits, the first of which was taken. -/
def octalCode (first : Char) : Reader Nat := do
  let code := valueIn 8 (first :: (← takeUpTo isOctal 2))
  if 0o377 < code then fail
  return code

def namedCode : Reader Nat := do
  need '\x7b'
  match Text.codeOfName? (← name '\x7d') with
  | some code => return code
  | none => fail

/-- A character behind a backslash that is no digit. A letter without a meaning is refused. -/
def escapedCode (c : Char) : Reader Nat := do
  match controlCode c, c with
  | some code, _ => return code
  | none, 'x' => hexCode 2
  | none, 'u' => hexCode 4
  | none, 'U' => hexCode 8
  | none, 'N' => namedCode
  | none, _ => if Text.isLetter c.toNat then fail else return c.toNat

/-- Digits behind a backslash. They are a character with a leading zero, or if there are three octal
digits, and otherwise the number of a group. -/
def escapedDigits (flags : Flags) (c : Char) : Reader Pattern := do
  if c = '0' then return .char (.one (← octalCode c) false) flags.casing
  let second ← takeUpTo Char.isDigit 1
  let third ← if isOctal c && second.any isOctal then takeUpTo isOctal 1 else pure []
  if third.isEmpty then refer (valueIn 10 (c :: second)) flags
  else
    let code := valueIn 8 (c :: second ++ third)
    if 0o377 < code then fail
    return .char (.one code false) flags.casing

/-- What a backslash and a character stand for outside of sets. -/
def escaped (flags : Flags) (c : Char) : Reader Pattern := do
  match escapedAnchor flags c, category flags c with
  | some a, _ => return .anchor a
  | none, some member => return .char (.set [member] false) flags.casing
  | none, none =>
    if c.isDigit then escapedDigits flags c
    else return .char (.one (← escapedCode c) false) flags.casing

def escapedMember (flags : Flags) (c : Char) : Reader Member := do
  match category flags c with
  | some member => return member
  | none =>
    if c = 'b' then return .one 0x08
    else if isOctal c then return .one (← octalCode c)
    else if c.isDigit then fail
    else return .one (← escapedCode c)

end Reader

end GDWorkbench.Pattern
