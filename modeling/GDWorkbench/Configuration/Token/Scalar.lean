import GDWorkbench.Configuration.Token.Cursor

/-!
The three ways to write a text: between quotation marks, plainly, and as a block of lines. Line
breaks inside the first two are folded: one becomes a space, and of several the first is dropped.
-/

namespace GDWorkbench.Configuration

namespace Scan

/-! ## Quotation marks -/

def escapes : List (Char × Char) :=
  [('0', '\x00'), ('a', '\x07'), ('b', '\x08'), ('t', '\t'), ('\t', '\t'), ('n', '\n'),
   ('v', '\x0b'), ('f', '\x0c'), ('r', '\r'), ('e', '\x1b'), (' ', ' '), ('"', '"'), ('\\', '\\'),
   ('/', '/'), ('N', '\x85'), ('_', '\xa0'), ('L', '\u2028'), ('P', '\u2029')]

def hexValue? (c : Char) : Option Nat :=
  if c.isDigit then some (c.toNat - '0'.toNat)
  else if 'a' ≤ c && c ≤ 'f' then some (c.toNat - 'a'.toNat + 10)
  else if 'A' ≤ c && c ≤ 'F' then some (c.toNat - 'A'.toNat + 10)
  else none

def numberedChar (digits : Nat) : Scan Text := do
  let text := (← rest).take digits
  let values := text.filterMap hexValue?
  if values.length < digits then throw .badToken
  let code := values.foldl (fun n d => 16 * n + d) 0
  if 0x10ffff < code then throw .badNumber
  advance digits
  return [Char.ofNat code]

/-- The empty lines after a line break, each as its line break. -/
def foldedLines : Nat → Scan Text
  | 0 => return []
  | bound + 1 => do
    if (← get).isAtSeparator then throw .badToken
    let _ ← takeWhile fun c => c = ' ' || c = '\t'
    if endsAt (!isBreak ·) (← rest) then return []
    let line ← lineBreak
    return line ++ (← foldedLines bound)

def folded (line lines : Text) : Text :=
  if line ≠ ['\n'] then line ++ lines
  else if lines.isEmpty then [' ']
  else lines

def escape : Scan Text := do
  match ← rest with
  | [] => throw .badToken
  | c :: _ =>
    match escapes.lookup c with
    | some char =>
      advance 1
      return [char]
    | none =>
      if c = 'x' then
        advance 1
        numberedChar 2
      else if c = 'u' then
        advance 1
        numberedChar 4
      else if c = 'U' then
        advance 1
        numberedChar 8
      else if isBreak c then
        let _ ← lineBreak
        foldedLines ((← rest).length + 1)
      else throw .badToken

/-- What stands between quotation marks up to the next gap. Between apostrophes an apostrophe is
written twice, and a backslash is nothing special. -/
def quotedWord (mark : Char) : Nat → Scan Text
  | 0 => return []
  | bound + 1 => do
    match ← rest with
    | [] => return []
    | c :: text =>
      if isGap c then return []
      else if c = mark then
        if mark = '\'' && text.head? = some '\'' then
          advance 2
          return '\'' :: (← quotedWord mark bound)
        else return []
      else if mark = '"' && c = '\\' then
        advance 1
        let char ← escape
        return char ++ (← quotedWord mark bound)
      else
        advance 1
        return c :: (← quotedWord mark bound)

def quotedGap : Scan Text := do
  let blanks ← takeWhile fun c => c = ' ' || c = '\t'
  match ← rest with
  | [] => throw .badToken
  | c :: text =>
    if isBreak c then
      let line ← lineBreak
      return folded line (← foldedLines (text.length + 1))
    else return blanks

def quotedRest (mark : Char) : Nat → Scan Text
  | 0 => throw .badToken
  | bound + 1 => do
    if (← rest).head? = some mark then
      advance 1
      return []
    let gap ← quotedGap
    let word ← quotedWord mark ((← rest).length + 1)
    return gap ++ word ++ (← quotedRest mark bound)

def quotedScalar (mark : Char) : Scan Text := do
  advance 1
  let word ← quotedWord mark ((← rest).length + 1)
  return word ++ (← quotedRest mark ((← rest).length + 1))

/-! ## Plain texts -/

def endsPlain (isInside : Bool) : Text → Bool
  | [] => true
  | c :: rest =>
    isGap c || (c = ':' && endsAt (fun d => isGap d || (isInside && isFlow d)) rest)
      || (isInside && (isFlow c || c = '?'))
where
  isFlow (c : Char) : Bool :=
    c = ',' || c = '[' || c = ']' || c = '\x7b' || c = '\x7d'

def plainWord (isInside : Bool) : Text → Text
  | [] => []
  | c :: rest => if endsPlain isInside (c :: rest) then [] else c :: plainWord isInside rest

/-- The empty lines between two lines of a plain text, unless a new document begins. -/
def plainLines : Nat → Scan (Option Text)
  | 0 => return some []
  | bound + 1 => do
    match ← rest with
    | [] => return some []
    | c :: _ =>
      if c = ' ' then
        advance 1
        plainLines bound
      else if isBreak c then
        let line ← lineBreak
        if (← get).isAtSeparator then return none
        return (← plainLines bound).map (line ++ ·)
      else return some []

/-- The gap between two words of a plain text. It is empty where the text ends. -/
def plainGap : Scan Text := do
  let spaces ← takeWhile (· = ' ')
  if endsAt (!isBreak ·) (← rest) then return spaces
  let line ← lineBreak
  modify fun c => { c with allowsKey := true }
  if (← get).isAtSeparator then return []
  match ← plainLines ((← rest).length + 1) with
  | none => return []
  | some lines => return folded line lines

/-- A plain text, after a gap. Outside brackets its lines are indented. -/
def plainWords (indent : Int) : Nat → Text → Scan Text
  | 0, _ => return []
  | bound + 1, gap => do
    if (← rest).head? = some '#' then return []
    let c ← get
    let word := plainWord c.isBetweenBrackets c.rest
    if word.isEmpty then return []
    modify fun c => { c with allowsKey := false }
    advance word.length
    let next ← plainGap
    let c ← get
    if next.isEmpty || c.rest.head? = some '#' || (!c.isBetweenBrackets && (c.column : Int) < indent)
      then return gap ++ word
    return gap ++ word ++ (← plainWords indent bound next)

def plainScalar : Scan Text := do
  let c ← get
  plainWords (c.indent + 1) (c.rest.length + 1) []

/-! ## Blocks -/

/-- What becomes of the line breaks at the end of a block. -/
inductive Ending where
  | dropped
  | single
  | kept
  deriving DecidableEq, Repr

def ending? : Text → Option Ending
  | '+' :: _ => some .kept
  | '-' :: _ => some .dropped
  | _ => none

def blockIndent : Scan (Option Nat) := do
  match ← rest with
  | c :: _ =>
    if !c.isDigit then return none
    if c = '0' then throw .badToken
    advance 1
    return some (c.toNat - '0'.toNat)
  | [] => return none

def blockEnding : Scan (Option Ending) := do
  match ending? (← rest) with
  | some e =>
    advance 1
    return some e
  | none => return none

/-- What the first line of a block says about it, in either order. -/
def blockHead : Scan (Ending × Option Nat) := do
  let head ← match ← blockEnding with
    | some e => pure (e, ← blockIndent)
    | none =>
      let indent ← blockIndent
      pure (((← if indent.isSome then blockEnding else pure none).getD .single), indent)
  expectAt isSpaceOrBreak
  skipLineEnd
  return head

/-- The empty lines at the start of a block, and the column of the widest of them or of the first
line that is not empty. -/
def blockStart : Nat → Nat → Scan (Text × Nat)
  | 0, widest => return ([], widest)
  | bound + 1, widest => do
    match ← rest with
    | [] => return ([], widest)
    | c :: _ =>
      if c = ' ' then
        advance 1
        blockStart bound (max widest (← get).column)
      else if isBreak c then
        let line ← lineBreak
        let (lines, widest) ← blockStart bound widest
        return (line ++ lines, widest)
      else return ([], widest)

def skipIndent (indent : Nat) : Nat → Scan Unit
  | 0 => return
  | bound + 1 => do
    let c ← get
    if c.column < indent && c.rest.head? = some ' ' then
      advance 1
      skipIndent indent bound

def blockLines (indent : Nat) : Nat → Scan Text
  | 0 => return []
  | bound + 1 => do
    skipIndent indent indent
    if endsAt (!isBreak ·) (← rest) then return []
    let line ← lineBreak
    return line ++ (← blockLines indent bound)

def isWithin (c : Cursor) (indent : Nat) : Bool :=
  c.column = indent && !c.rest.isEmpty

def blockBody (isFolded : Bool) (ending : Ending) (indent : Nat) : Nat → Text → Scan Text
  | 0, _ => return []
  | bound + 1, lines => do
    let isText := !(← rest).head?.any fun c => c = ' ' || c = '\t'
    let text ← takeWhile (!isBreak ·)
    let line ← lineBreak
    let next ← blockLines indent ((← rest).length + 1)
    let c ← get
    if isWithin c indent then
      let isJoined := isFolded && line = ['\n'] && isText
        && !c.rest.head?.any fun c => c = ' ' || c = '\t'
      let gap := if !isJoined then line else if next.isEmpty then [' '] else []
      return lines ++ text ++ gap ++ (← blockBody isFolded ending indent bound next)
    else
      return lines ++ text ++ atEnd ending line next
where
  atEnd (ending : Ending) (line lines : Text) : Text :=
    match ending with
    | .dropped => []
    | .single => line
    | .kept => line ++ lines

def blockScalar (isFolded : Bool) : Scan Text := do
  advance 1
  let (ending, given) ← blockHead
  let least := ((← get).indent + 1).toNat
  let least := if least < 1 then 1 else least
  let bound := (← rest).length + 1
  let (lines, indent) ← match given with
    | some n =>
      let indent := least + n - 1
      pure (← blockLines indent bound, indent)
    | none =>
      let (lines, widest) ← blockStart bound 0
      pure (lines, max least widest)
  if isWithin (← get) indent then blockBody isFolded ending indent bound lines
  else return blockBody.atEnd ending [] lines

end Scan

end GDWorkbench.Configuration
