import GDWorkbench.Pattern

/-!
The state in which a pattern is read. A pattern is a list of signs: a character, or a character with
a backslash in front of it. Groups are counted in the order in which they open, and can be referred
to when they are closed.
-/

namespace GDWorkbench.Pattern

inductive Sign where
  | plain (c : Char)
  | escaped (c : Char)
  /-- A backslash with nothing behind it. -/
  | broken
  deriving DecidableEq, Repr

def signs : Text → List Sign
  | [] => []
  | ['\\'] => [.broken]
  | '\\' :: c :: rest => .escaped c :: signs rest
  | c :: rest => .plain c :: signs rest

/-- Why a text is no pattern. -/
inductive Defect where
  | malformed
  /-- More turns than can be counted. -/
  | tooManyTurns
  /-- Characters cannot be those of ASCII and those of all scripts. -/
  | clashingFlags
  /-- A number with more digits than are read. -/
  | longNumber
  deriving DecidableEq, Repr

/-! ## Flags -/

structure Flags where
  ignoresCase : Bool
  dotIsAny : Bool
  anchorsLines : Bool
  /-- White space and comments in the pattern do not count. -/
  isSpaced : Bool
  isAscii : Bool
  isUnicode : Bool
  /-- Repetition is not allowed. -/
  isTemplate : Bool

namespace Flags

def none : Flags := ⟨false, false, false, false, false, false, false⟩

def ofLetter? : Char → Option Flags
  | 'i' => some { none with ignoresCase := true }
  | 's' => some { none with dotIsAny := true }
  | 'm' => some { none with anchorsLines := true }
  | 'x' => some { none with isSpaced := true }
  | 'a' => some { none with isAscii := true }
  | 'u' => some { none with isUnicode := true }
  | 't' => some { none with isTemplate := true }
  | _ => Option.none

def union (f g : Flags) : Flags where
  ignoresCase := f.ignoresCase || g.ignoresCase
  dotIsAny := f.dotIsAny || g.dotIsAny
  anchorsLines := f.anchorsLines || g.anchorsLines
  isSpaced := f.isSpaced || g.isSpaced
  isAscii := f.isAscii || g.isAscii
  isUnicode := f.isUnicode || g.isUnicode
  isTemplate := f.isTemplate || g.isTemplate

def without (f g : Flags) : Flags where
  ignoresCase := f.ignoresCase && !g.ignoresCase
  dotIsAny := f.dotIsAny && !g.dotIsAny
  anchorsLines := f.anchorsLines && !g.anchorsLines
  isSpaced := f.isSpaced && !g.isSpaced
  isAscii := f.isAscii && !g.isAscii
  isUnicode := f.isUnicode && !g.isUnicode
  isTemplate := f.isTemplate && !g.isTemplate

def overlaps (f g : Flags) : Bool :=
  (f.ignoresCase && g.ignoresCase) || (f.dotIsAny && g.dotIsAny)
    || (f.anchorsLines && g.anchorsLines) || (f.isSpaced && g.isSpaced)
    || (f.isAscii && g.isAscii) || (f.isUnicode && g.isUnicode) || (f.isTemplate && g.isTemplate)

/-- Flags inside a group that adds some and removes others. A choice of characters replaces the one
outside. -/
def inside (f added removed : Flags) : Flags :=
  let kept := if added.isAscii || added.isUnicode then { f with isAscii := false } else f
  (kept.union added).without removed

def casing (f : Flags) : Casing :=
  if !f.ignoresCase then .exact else if f.isAscii then .ascii else .unicode

end Flags

/-! ## State -/

structure Reading where
  rest : List Sign
  flags : Flags
  count : Nat
  names : List (Text × Nat)
  /-- The widths of the groups that are closed. -/
  closed : List (Nat × Width)
  /-- The number of groups in front of the outermost condition on what comes before. -/
  limit : Option Nat
  /-- Groups on which something depends, by number. -/
  conditions : List Nat
  /-- Whether something was found that makes the pattern useless, though it can be read. -/
  isUseless : Bool
  hasRepetition : Bool

namespace Reading

def start (text : Text) : Reading :=
  ⟨signs text, .none, 0, [], [], none, [], false, false⟩

def widthOf (r : Reading) (number : Nat) : Width :=
  ((r.closed.find? (·.1 == number)).map (·.2)).getD (.exactly 0)

def isClosed (r : Reading) (number : Nat) : Bool :=
  r.closed.any (·.1 == number)

end Reading

abbrev Reader := StateT Reading (Except Defect)

namespace Reader

def fail {α : Type} : Reader α :=
  throw .malformed

def peek : Reader (Option Sign) := do
  return (← get).rest.head?

/-- Takes the next sign. A broken one is noticed as soon as it is next. -/
def next : Reader (Option Sign) := do
  let r ← get
  match r.rest with
  | [] => return none
  | .broken :: _ => fail
  | sign :: rest =>
    set { r with rest }
    if rest.head? = some .broken then fail
    return some sign

def skip (c : Char) : Reader Bool := do
  if (← peek) = some (.plain c) then
    let _ ← next
    return true
  return false

def need (c : Char) : Reader Unit := do
  if !(← skip c) then fail

def takeUpTo (isKind : Char → Bool) : Nat → Reader Text
  | 0 => return []
  | n + 1 => do
    match ← peek with
    | some (.plain c) =>
      if isKind c then
        let _ ← next
        return c :: (← takeUpTo isKind n)
      return []
    | _ => return []

def takeAll (isKind : Char → Bool) : Reader Text := do
  takeUpTo isKind (← get).rest.length

/-- The signs up to a closing character, which is taken too. A name must not be empty, and no name
has a backslash. -/
def name (closing : Char) : Reader Text := do
  let text ← takeAll (· != closing)
  need closing
  if text.isEmpty then fail
  return text

/-- Refers to a group. Inside a condition on what comes before, only to groups that were closed in
front of it. -/
def checkLimit (number : Nat) : Reader Unit := do
  let r ← get
  match r.limit with
  | some limit => if !r.isClosed number || limit < number then fail
  | none => return

def refer (number : Nat) (flags : Flags) : Reader Pattern := do
  if !(← get).isClosed number then fail
  checkLimit number
  return .again number flags.casing

end Reader

end GDWorkbench.Pattern
