import GDWorkbench.Pattern.Escape
import GDWorkbench.Pattern.Match

/-!
Reading regular expressions: alternatives of sequences of items, each of which may be repeated. A
text that breaks the rules is no pattern.
-/

namespace GDWorkbench.Pattern

/-- An item of a sequence. Brackets that are not remembered and have no flags only hold items
together, so they dissolve when the sequence ends. -/
inductive Item where
  | single (p : Pattern)
  | bracketed (parts : List Pattern)

namespace Item

def parts : Item → List Pattern
  | .single p => [p]
  | .bracketed parts => parts

def isRepeatable : Item → Bool
  | .single (.anchor _) => false
  | .single (.repeated _ _ _ _) => false
  | _ => true

def pattern (item : Item) : Pattern :=
  sequence item.parts

end Item

/-! ## Alternatives -/

def isElementary : Pattern → Bool
  | .char _ _ | .anchor _ | .again _ _ => true
  | _ => false

def startsWith (p : Pattern) : List Pattern → Bool
  | [] => false
  | q :: _ => q = p

def commonStart : List Pattern → List (List Pattern) → List Pattern × List (List Pattern)
  | [], others => ([], [] :: others)
  | p :: first, others =>
    if isElementary p && others.all (startsWith p) then
      let (start, ends) := commonStart first (others.map List.tail)
      (p :: start, ends)
    else ([], (p :: first) :: others)

/-- The members of a set that takes the place of a single character. -/
def membersOf : List Pattern → Option (List Member × Casing)
  | [.char (.one code false) casing] => some ([.one code], casing)
  | [.char (.set members false) casing] => some (members, casing)
  | _ => none

def anyOf : List (List Pattern) → Pattern
  | [] => .empty
  | [parts] => sequence parts
  | parts :: rest => .or (sequence parts) (anyOf rest)

/-- Alternatives in order. Characters to choose from are one set. -/
def choice : List (List Pattern) → List Pattern
  | [] => []
  | [parts] => parts
  | first :: others =>
    let (start, ends) := commonStart first others
    match ends.mapM membersOf with
    | some ((members, casing) :: more) =>
      start ++ [.char (.set (members ++ more.flatMap (·.1)) false) casing]
    | _ => start ++ [anyOf ends]

namespace Reader

/-! ## Sets of characters -/

def memberOf (flags : Flags) : Sign → Reader Member
  | .plain c => return .one c.toNat
  | .escaped c => escapedMember flags c
  | .broken => fail

def rangeOf : Member → Member → Reader Member
  | .one first, .one last => if first ≤ last then return .range first last else fail
  | _, _ => fail

/-- The members up to the closing bracket, which may be the first member itself. `found` is in
reverse. -/
def members (flags : Flags) : Nat → List Member → Reader (List Member)
  | 0, _ => fail
  | bound + 1, found => do
    match ← next with
    | none => fail
    | some sign =>
      if sign = .plain ']' && !found.isEmpty then return found.reverse
      let member ← memberOf flags sign
      if ← skip '-' then
        match ← next with
        | none => fail
        | some (.plain ']') => return (.one '-'.toNat :: member :: found).reverse
        | some sign =>
          let range ← rangeOf member (← memberOf flags sign)
          members flags bound (range :: found)
      else members flags bound (member :: found)

/-- A set of characters. One that has a single member is that character. -/
def set (flags : Flags) : Reader Pattern := do
  let isNegated ← skip '^'
  let found ← members flags ((← get).rest.length + 1) []
  match found.eraseDups with
  | [.one code] => return .char (.one code isNegated) flags.casing
  | found => return .char (.set found isNegated) flags.casing

/-! ## Repetition -/

def maxTurns : Nat := 0xffffffff

def count (digits : Text) : Reader (Option Nat) := do
  if digits.isEmpty then return none
  if Text.maxDigits < digits.length then throw .longNumber
  let n := valueIn 10 digits
  if maxTurns ≤ n then throw .tooManyTurns
  return some n

def bounds : Reader (Option (Nat × Option Nat)) := do
  if (← peek) = some (.plain '\x7d') then return none
  let before ← get
  let low ← takeAll Char.isDigit
  let isRange ← skip ','
  let high ← if isRange then takeAll Char.isDigit else pure low
  if !(← skip '\x7d') then
    StateT.set before
    return none
  let low ← count low
  let high ← count high
  if high.any (· < low.getD 0) then fail
  return some (low.getD 0, high)

/-- The numbers of turns that a sign asks for. A brace without bounds is an ordinary character. -/
def quantifier : Char → Reader (Option (Nat × Option Nat))
  | '*' => return some (0, none)
  | '+' => return some (1, none)
  | '?' => return some (0, some 1)
  | '\x7b' => bounds
  | _ => return none

def preference : Reader Preference := do
  if ← skip '?' then return .fewest
  if ← skip '+' then return .allOrNone
  return .most

def repeatItem (low : Nat) (high : Option Nat) (item : Item) : Reader Item := do
  if !item.isRepeatable then fail
  modify fun r => { r with hasRepetition := true }
  return .single (.repeated low high (← preference) item.pattern)

/-! ## Groups -/

def addedFlags : Nat → Flags → Char → Reader (Flags × Char)
  | 0, _, _ => fail
  | bound + 1, flags, c => do
    match Flags.ofLetter? c with
    | none => fail
    | some flag =>
      let flags := flags.union flag
      if flags.isAscii && flags.isUnicode then fail
      match ← next with
      | some (.plain c) =>
        if c = ')' || c = '-' || c = ':' then return (flags, c) else addedFlags bound flags c
      | _ => fail

def removedFlags : Nat → Flags → Reader Flags
  | 0, _ => fail
  | bound + 1, flags => do
    match ← next with
    | some (.plain c) =>
      match Flags.ofLetter? c with
      | none => fail
      | some flag =>
        let flags := flags.union flag
        if flags.isAscii || flags.isUnicode then fail
        if ← skip ':' then return flags else removedFlags bound flags
    | _ => fail

/-- Flags in brackets: for the whole pattern, or to add and to remove in a group. -/
inductive FlagChange where
  | everywhere (added : Flags)
  | inside (added removed : Flags)

def flagChange (c : Char) : Reader FlagChange := do
  let bound := (← get).rest.length + 1
  let (added, ending) ← if c = '-' then pure (.none, '-') else addedFlags bound .none c
  if ending = ')' then return .everywhere added
  if added.isTemplate then fail
  if ending = ':' then return .inside added .none
  let removed ← removedFlags bound .none
  if removed.isTemplate || added.overlaps removed then fail
  return .inside added removed

def openGroup (name : Option Text) : Reader Nat := do
  let r ← get
  let number := r.count + 1
  match name with
  | none => StateT.set { r with count := number }
  | some name =>
    if r.names.any (·.1 = name) then fail
    StateT.set { r with count := number, names := (name, number) :: r.names }
  return number

def closeGroup (number : Nat) (inner : Pattern) : Reader Unit := do
  modify fun r => { r with closed := (number, inner.width r.widthOf) :: r.closed }

def groupName (closing : Char) : Reader Text := do
  let text ← name closing
  if Text.isStandardIdentifier text then return text else fail

def numberOf (name : Text) : Reader Nat := do
  match (← get).names.find? (·.1 = name) with
  | some (_, number) => return number
  | none => fail

def maxGroups : Nat := 0x3fffffff

/-- The group on which something depends, by name or by number. Whether there is a group of that
number is seen at the end. -/
def condition : Reader Nat := do
  let text ← name ')'
  let number ←
    if Text.isStandardIdentifier text then numberOf text
    else
      match Text.integer? text with
      | some (.ofNat (n + 1)) =>
        if maxGroups ≤ n + 1 then fail
        modify fun r => { r with conditions := (n + 1) :: r.conditions }
        pure (n + 1)
      | _ => fail
  checkLimit number
  return number

/-- Reads a condition on what comes before, which may refer only to groups in front of it. -/
def lookingBack (read : Reader Pattern) : Reader Pattern := do
  let outer := (← get).limit
  modify fun r => { r with limit := some (outer.getD r.count) }
  let inner ← read
  modify fun r => { r with limit := outer }
  return inner

/-- A condition on what comes before looks at a fixed number of characters. -/
def behindOf (isNegated : Bool) (inner : Pattern) : Reader Pattern := do
  let width := inner.width (← get).widthOf
  if width.least ≠ width.greatest || maxTurns < width.least then
    modify fun r => { r with isUseless := true }
  return .behind isNegated width.least inner

def comment : Nat → Reader Unit
  | 0 => fail
  | bound + 1 => do
    match ← next with
    | none => fail
    | some sign => if sign = .plain ')' then return else comment bound

def lineComment : Nat → Reader Unit
  | 0 => return
  | bound + 1 => do
    match ← next with
    | none => return
    | some sign => if sign = .plain '\n' then return else lineComment bound

def isSpace (c : Char) : Bool :=
  c = ' ' || (0x09 ≤ c.toNat && c.toNat ≤ 0x0D)

def anyChar (flags : Flags) : Pattern :=
  .char (if flags.dotIsAny then .any else .anyInLine) .exact

/-! ## Patterns -/

mutual

/-- Alternatives up to a closing bracket or the end. `isOuter` says that they are in no brackets. -/
def alternatives (isOuter : Bool) : Nat → Flags → Reader (List Pattern)
  | 0, _ => fail
  | bound + 1, flags => do
    return choice (← sequences isOuter true bound flags)

def sequences (isOuter isFirst : Bool) : Nat → Flags → Reader (List (List Pattern))
  | 0, _ => fail
  | bound + 1, flags => do
    let parts ← items (isOuter && isFirst) bound flags []
    if ← skip '|' then
      let whole := (← get).flags
      let flags := if isOuter then whole else flags
      return parts :: (← sequences isOuter false bound flags)
    return [parts]

/-- A sequence of items up to a bar, a closing bracket or the end. `found` is in reverse. -/
def items (mayFlag : Bool) : Nat → Flags → List Item → Reader (List Pattern)
  | 0, _, _ => fail
  | bound + 1, flags, found => do
    let ended := (found.reverse.map Item.parts).flatten
    match ← peek with
    | none => return ended
    | some (.plain '|') => return ended
    | some (.plain ')') => return ended
    | some .broken => fail
    | some (.escaped c) =>
      let _ ← next
      items mayFlag bound flags (.single (← escaped flags c) :: found)
    | some (.plain c) =>
      let _ ← next
      if flags.isSpaced && isSpace c then items mayFlag bound flags found
      else if flags.isSpaced && c = '#' then
        lineComment bound
        items mayFlag bound flags found
      else
        match ← quantifier c with
        | some (low, high) =>
          match found with
          | [] => fail
          | item :: before =>
            items mayFlag bound flags ((← repeatItem low high item) :: before)
        | none =>
          match c with
          | '(' => brackets mayFlag bound flags found
          | '[' => items mayFlag bound flags (.single (← set flags) :: found)
          | '.' => items mayFlag bound flags (.single (anyChar flags) :: found)
          | '^' =>
            let anchor := if flags.anchorsLines then .lineStart else .textStart
            items mayFlag bound flags (.single (.anchor anchor) :: found)
          | '$' =>
            let anchor := if flags.anchorsLines then .lineEnd else .lastLineEnd
            items mayFlag bound flags (.single (.anchor anchor) :: found)
          | c =>
            items mayFlag bound flags (.single (.char (.one c.toNat false) flags.casing) :: found)

def brackets (mayFlag : Bool) : Nat → Flags → List Item → Reader (List Pattern)
  | 0, _, _ => fail
  | bound + 1, flags, found => do
    if !(← skip '?') then
      let item ← captured bound flags none
      items mayFlag bound flags (item :: found)
    else
      match ← next with
      | some (.plain 'P') =>
        if ← skip '<' then
          let item ← captured bound flags (some (← groupName '>'))
          items mayFlag bound flags (item :: found)
        else
          need '='
          let p ← refer (← numberOf (← groupName ')')) flags
          items mayFlag bound flags (.single p :: found)
      | some (.plain ':') =>
        let parts ← enclosed bound flags
        items mayFlag bound flags (.bracketed parts :: found)
      | some (.plain '#') =>
        comment bound
        items mayFlag bound flags found
      | some (.plain '>') =>
        let parts ← enclosed bound flags
        items mayFlag bound flags (.single (.atomic (sequence parts)) :: found)
      | some (.plain '=') =>
        let parts ← enclosed bound flags
        items mayFlag bound flags (.single (.ahead false (sequence parts)) :: found)
      | some (.plain '!') =>
        let parts ← enclosed bound flags
        items mayFlag bound flags (.single (.ahead true (sequence parts)) :: found)
      | some (.plain '<') =>
        let isPositive ← skip '='
        if !isPositive then need '!'
        let inner ← lookingBack (do return sequence (← alternatives false bound flags))
        need ')'
        let p ← behindOf (!isPositive) inner
        items mayFlag bound flags (.single p :: found)
      | some (.plain '(') =>
        let number ← condition
        let yes ← items false bound flags []
        let no ← if ← skip '|' then items false bound flags [] else pure []
        need ')'
        items mayFlag bound flags (.single (.given number (sequence yes) (sequence no)) :: found)
      | some (.plain c) =>
        match ← flagChange c with
        | .everywhere added =>
          if !mayFlag || !found.isEmpty then fail
          let flags := (← get).flags.union added
          modify fun r => { r with flags }
          items mayFlag bound flags found
        | .inside added removed =>
          let parts ← enclosed bound (flags.inside added removed)
          items mayFlag bound flags (.single (.group (sequence parts)) :: found)
      | _ => fail

def captured : Nat → Flags → Option Text → Reader Item
  | 0, _, _ => fail
  | bound + 1, flags, name => do
    let number ← openGroup name
    let inner := sequence (← enclosed bound flags)
    closeGroup number inner
    return .single (.capture number inner)

def enclosed : Nat → Flags → Reader (List Pattern)
  | 0, _ => fail
  | bound + 1, flags => do
    let parts ← alternatives false bound flags
    need ')'
    return parts

end

/-- A whole pattern. Groups that nothing refers to are not remembered. -/
def whole : Reader Pattern := do
  let r ← get
  let parts ← alternatives true (8 * r.rest.length + 8) .none
  let r ← get
  if r.flags.isAscii && r.flags.isUnicode then throw .clashingFlags
  if !r.rest.isEmpty || r.conditions.any (r.count < ·) then fail
  if r.isUseless || (r.flags.isTemplate && r.hasRepetition) then fail
  let p := sequence parts
  return p.keeping p.references

end Reader

def read (text : Text) : Except Defect Pattern :=
  (Reader.whole.run (.start text)).map (·.1)

end GDWorkbench.Pattern
