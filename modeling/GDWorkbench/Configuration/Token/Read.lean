import GDWorkbench.Configuration.Token.Scalar

/-!
Cutting the text of a configuration file into tokens. A colon shows that the token in front of it is
the name of an entry, so a token is settled only when its line is read.
-/

namespace GDWorkbench.Configuration

namespace Scan

/-! ## Candidates for names -/

def dropCandidate : Scan Unit := do
  let c ← get
  let (here, others) := c.candidates.partition (·.depth = c.depth)
  if here.any (·.isRequired) then throw .badToken
  set { c with candidates := others }

/-- Forgets the candidates that are on another line or too far away. -/
def dropStale : Scan Unit := do
  let c ← get
  let (stale, others) := c.candidates.partition fun k =>
    k.line != c.line || 1024 < c.index - k.index
  if stale.any (·.isRequired) then throw .badToken
  set { c with candidates := others }

def saveCandidate : Scan Unit := do
  let c ← get
  if c.allowsKey then
    let isRequired := !c.isBetweenBrackets && c.indent = c.column
    dropCandidate
    modify fun c =>
      let k : Candidate := ⟨c.depth, c.tokens.length, isRequired, c.index, c.line, c.column⟩
      { c with candidates := k :: c.candidates }

def allowKey (allows : Bool) : Scan Unit :=
  modify fun c => { c with allowsKey := allows }

/-! ## Indentation -/

def unwindUpTo (column : Int) : Nat → Scan Unit
  | 0 => return
  | bound + 1 => do
    let c ← get
    match c.indents with
    | outer :: outers =>
      if column < c.indent then
        set { c with indent := outer, indents := outers }
        push .blockEnd
        unwindUpTo column bound
    | [] => return

/-- Ends the lists and maps that are indented further than a column. -/
def unwind (column : Int) : Scan Unit := do
  let c ← get
  if !c.isBetweenBrackets then unwindUpTo column c.indents.length

/-- Starts a list or a map at a column, unless it has been started. -/
def indentTo (column : Nat) : Scan Bool := do
  let c ← get
  if c.indent < column then
    set { c with indent := (column : Int), indents := c.indent :: c.indents }
    return true
  else return false

/-! ## Names, kinds and directives -/

def markName : Scan Text := do
  advance 1
  let name ← takeWhile isNameChar
  if name.isEmpty then throw .badToken
  expectAt fun c => isGap c || "?:,]\x7d%@\x60".toList.contains c
  return name

def isKindChar (c : Char) : Bool :=
  c.isAlphanum || "-;/?:@&=+$,_.!~*'()[]%".toList.contains c

def numberedBytes : Nat → Scan (List Nat)
  | 0 => return []
  | bound + 1 => do
    match ← rest with
    | '%' :: text =>
      match (text.take 2).mapM hexValue? with
      | some [high, low] =>
        advance 3
        return (16 * high + low) :: (← numberedBytes bound)
      | _ => throw .badToken
    | _ => return []

def kindPart : Nat → Scan Text
  | 0 => return []
  | bound + 1 => do
    match ← rest with
    | '%' :: text =>
      let bytes ← numberedBytes (text.length + 1)
      match String.fromUTF8? (ByteArray.mk (bytes.map UInt8.ofNat).toArray) with
      | some part => return part.toList ++ (← kindPart bound)
      | none => throw .badToken
    | c :: _ =>
      if !isKindChar c then return []
      advance 1
      return c :: (← kindPart bound)
    | [] => return []

def kindName : Scan Text := do
  let name ← kindPart ((← rest).length + 1)
  if name.isEmpty then throw .badToken
  return name

/-- A short form: an exclamation mark, or a name between two of them. -/
def handle : Scan Text := do
  match ← rest with
  | '!' :: ' ' :: _ =>
    advance 1
    return ['!']
  | '!' :: text =>
    let name := text.takeWhile isNameChar
    match text.drop name.length with
    | '!' :: _ =>
      advance (name.length + 2)
      return '!' :: name ++ ['!']
    | _ => throw .badToken
  | _ => throw .badToken

def kindToken : Scan Token := do
  let token ← match ← rest with
    | '!' :: '<' :: _ =>
      advance 2
      let name ← kindName
      if (← rest).head? ≠ some '>' then throw .badToken
      advance 1
      pure (Token.kind none name)
    | _ :: text =>
      if endsAt isGap text then
        advance 1
        pure (Token.kind none ['!'])
      else
        let word := text.takeWhile (!isSpaceOrBreak ·)
        let short ← if word.contains '!' then handle else do
          advance 1
          pure ['!']
        pure (Token.kind (some short) (← kindName))
    | [] => throw .badToken
  expectAt isSpaceOrBreak
  return token

def digits : Scan Text := do
  let digits ← takeWhile Char.isDigit
  if digits.isEmpty then throw .badToken
  return digits

def versionDirective : Scan Directive := do
  skipSpaces
  let major ← digits
  if (← rest).head? ≠ some '.' then throw .badToken
  advance 1
  let _ ← digits
  expectAt isSpaceOrBreak
  return .version major

def handleDirective : Scan Directive := do
  skipSpaces
  let name ← handle
  if (← rest).head? ≠ some ' ' then throw .badToken
  skipSpaces
  let stem ← kindName
  expectAt isSpaceOrBreak
  return .handle name stem

def directive : Scan Directive := do
  advance 1
  let name ← takeWhile isNameChar
  if name.isEmpty then throw .badToken
  expectAt isSpaceOrBreak
  let directive ←
    if name = "YAML".toList then versionDirective
    else if name = "TAG".toList then handleDirective
    else do
      let _ ← takeWhile (!isBreak ·)
      pure .other
  skipLineEnd
  return directive

/-! ## Tokens -/

def skipGap : Nat → Scan Unit
  | 0 => return
  | bound + 1 => do
    skipSpaces
    if (← rest).head? = some '#' then
      let _ ← takeWhile (!isBreak ·)
    let line ← lineBreak
    if !line.isEmpty then
      if !(← get).isBetweenBrackets then allowKey true
      skipGap bound

def outermost (token : Scan Token) : Scan Unit := do
  unwind (-1)
  dropCandidate
  allowKey false
  push (← token)

def ofLength (n : Nat) (token : Token) : Scan Token := do
  advance n
  return token

def opening (token : Token) : Scan Unit := do
  saveCandidate
  modify fun c => { c with depth := c.depth + 1, allowsKey := true }
  advance 1
  push token

def closing (token : Token) : Scan Unit := do
  dropCandidate
  modify fun c => { c with depth := c.depth - 1, allowsKey := false }
  advance 1
  push token

def commaToken : Scan Unit := do
  allowKey true
  dropCandidate
  advance 1
  push .comma

/-- Starts a list or a map here, where there must be room for it. -/
def startBlock (token : Token) : Scan Unit := do
  let c ← get
  if !c.isBetweenBrackets then
    if !c.allowsKey then throw .badToken
    if ← indentTo c.column then push token

def dashToken : Scan Unit := do
  startBlock .listBlock
  allowKey true
  dropCandidate
  advance 1
  push .dash

def keyToken : Scan Unit := do
  startBlock .mapBlock
  allowKey (!(← get).isBetweenBrackets)
  dropCandidate
  advance 1
  push .key

/-- A colon. It makes the candidate in front of it the name of an entry. -/
def valueToken : Scan Unit := do
  let c ← get
  match c.candidates.find? (·.depth = c.depth) with
  | some k =>
    set { c with candidates := c.candidates.filter (·.depth ≠ c.depth) }
    insertAt k.position .key
    if !c.isBetweenBrackets then
      if ← indentTo k.column then insertAt k.position .mapBlock
    allowKey false
  | none =>
    startBlock .mapBlock
    allowKey (!c.isBetweenBrackets)
    dropCandidate
  advance 1
  push .value

def possibleKey (token : Scan Token) : Scan Unit := do
  saveCandidate
  allowKey false
  push (← token)

def blockToken (isFolded : Bool) : Scan Unit := do
  allowKey true
  dropCandidate
  push (.scalar (← blockScalar isFolded) false)

def startsPlain (isInside : Bool) : Text → Bool
  | [] => false
  | c :: rest =>
    !(isGap c || "-?:,[]\x7b\x7d#&*!|>'\"%@\x60".toList.contains c)
      || (!endsAt isGap rest && (c = '-' || (!isInside && (c = '?' || c = ':'))))

def tokenHere (c : Cursor) : Scan Unit :=
  let isInside := c.isBetweenBrackets
  match c.rest with
  | [] => return
  | char :: text =>
    if char = '%' && c.column = 0 then outermost do return .directive (← directive)
    else if char = '-' && c.column = 0 && c.isAtSeparator then outermost (ofLength 3 .documentStart)
    else if char = '.' && c.column = 0 && c.isAtSeparator then outermost (ofLength 3 .documentEnd)
    else if char = '[' then opening .openBracket
    else if char = '\x7b' then opening .openBrace
    else if char = ']' then closing .closeBracket
    else if char = '\x7d' then closing .closeBrace
    else if char = ',' then commaToken
    else if char = '-' && endsAt isGap text then dashToken
    else if char = '?' && (isInside || endsAt isGap text) then keyToken
    else if char = ':' && (isInside || endsAt isGap text) then valueToken
    else if char = '*' then possibleKey do return .alias (← markName)
    else if char = '&' then possibleKey do return .anchor (← markName)
    else if char = '!' then possibleKey kindToken
    else if char = '|' && !isInside then blockToken false
    else if char = '>' && !isInside then blockToken true
    else if char = '\'' || char = '"' then
      possibleKey do return .scalar (← quotedScalar char) false
    else if startsPlain isInside c.rest then possibleKey do return .scalar (← plainScalar) true
    else throw .badToken

/-- The next token, with those that end lists and maps in front of it. Tells whether it is the last
one. -/
def nextToken : Scan Bool := do
  dropStale
  let c ← get
  if c.index = 0 && c.rest.head? = some '\ufeff' then advance 1
  skipGap (c.rest.length + 1)
  dropStale
  unwind (← get).column
  let c ← get
  if c.rest.isEmpty then
    outermost (return .textEnd)
    return true
  else
    tokenHere c
    return false

end Scan

/-- The tokens from a place on. If the text goes wrong, those that may still be names of entries are
not settled. -/
def tokensFrom : Nat → Cursor → Tokens
  | 0, c => ⟨c.tokens.reverse, some .badToken⟩
  | bound + 1, c =>
    match Scan.nextToken.run c with
    | .ok (true, c) => ⟨c.tokens.reverse, none⟩
    | .ok (false, c) => tokensFrom bound c
    | .error defect =>
      let settled := (c.candidates.map (·.position)).foldl min c.tokens.length
      ⟨c.tokens.reverse.take settled, some defect⟩

/-- Characters that a text may hold: all but control characters and a few that stand for none. -/
def isPrintable (c : Char) : Bool :=
  let n := c.toNat
  n = 9 || n = 10 || n = 13 || (0x20 ≤ n && n ≤ 0x7e) || n = 0x85 || (0xa0 ≤ n && n ≤ 0xfffd)
    || 0x10000 ≤ n

namespace Tokens

def ofText (text : Text) : Tokens :=
  if text.all isPrintable then tokensFrom (text.length + 2) (Cursor.start text)
  else ⟨[], some .unprintable⟩

end Tokens

end GDWorkbench.Configuration
