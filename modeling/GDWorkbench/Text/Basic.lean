/-!
Text as a list of characters. Everything the workbench computes about source text is computed on
this type, by recursion on the list, so that it can be unfolded as well as run.
-/

namespace GDWorkbench

abbrev Text := List Char

namespace Text

def after? : Text → Text → Option Text
  | [], text => some text
  | _ :: _, [] => none
  | c :: head, d :: text => if c = d then after? head text else none

def startsWith (text head : Text) : Bool :=
  (after? head text).isSome

def endsWith (text tail : Text) : Bool :=
  startsWith text.reverse tail.reverse

def contains (part : Text) : Text → Bool
  | [] => part.isEmpty
  | c :: rest => startsWith (c :: rest) part || contains part rest

def position? (part : Text) : Text → Option Nat
  | [] => if part.isEmpty then some 0 else none
  | c :: rest =>
    if startsWith (c :: rest) part then some 0 else (position? part rest).map (· + 1)

def join (separator : Text) (parts : List Text) : Text :=
  List.intercalate separator parts

/-- The pieces between the occurrences of a character; there is always at least one. -/
def splitAt (separator : Char) : Text → List Text
  | [] => [[]]
  | c :: rest =>
    if c = separator then [] :: splitAt separator rest
    else match splitAt separator rest with
      | [] => [[c]]
      | piece :: pieces => (c :: piece) :: pieces

/-- Replaces a nonempty `part` wherever it occurs, from the left and without overlap. `skip`
characters belong to an occurrence that was already replaced. -/
def replaceFrom (part new : Text) : Nat → Text → Text
  | _, [] => []
  | skip + 1, _ :: rest => replaceFrom part new skip rest
  | 0, c :: rest =>
    if startsWith (c :: rest) part then new ++ replaceFrom part new (part.length - 1) rest
    else c :: replaceFrom part new 0 rest

def replace (part new text : Text) : Text :=
  if part.isEmpty then text else replaceFrom part new 0 text

def repeated (n : Nat) (text : Text) : Text :=
  (List.replicate n text).flatten

def ofNat (n : Nat) : Text :=
  Nat.toDigits 10 n

def ofInt : Int → Text
  | .ofNat n => ofNat n
  | .negSucc n => '-' :: ofNat (n + 1)

/-- Columns of a tab are the next multiples of `width`. A line break starts again at column 0. -/
def expandTabs (width : Nat) : Nat → Text → Text
  | _, [] => []
  | column, c :: rest =>
    if c = '\t' then
      let gap := width - column % width
      List.replicate gap ' ' ++ expandTabs width (column + gap) rest
    else c :: expandTabs width (if c = '\n' || c = '\r' then 0 else column + 1) rest

/-! ## White space -/

/-- White space in the sense of Unicode, with the four separators U+001C to U+001F. -/
def isBlank (c : Char) : Bool :=
  let n := c.toNat
  if n < 0x80 then (0x09 ≤ n && n ≤ 0x0D) || (0x1C ≤ n && n ≤ 0x20)
  else n = 0x85 || n = 0xA0 || n = 0x1680 || (0x2000 ≤ n && n ≤ 0x200A) || n = 0x2028
    || n = 0x2029 || n = 0x202F || n = 0x205F || n = 0x3000

def allBlank (text : Text) : Bool :=
  text.all isBlank

def trimStart (text : Text) : Text :=
  text.dropWhile isBlank

def trimEnd (text : Text) : Text :=
  (text.reverse.dropWhile isBlank).reverse

def trim (text : Text) : Text :=
  trimEnd (trimStart text)

/-- Takes every leading and trailing occurrence of one character away. -/
def trimChar (c : Char) (text : Text) : Text :=
  ((text.dropWhile (· == c)).reverse.dropWhile (· == c)).reverse

/-! ## Lines

Every Unicode line boundary ends a line, and a text that ends with one has no further, empty line. The
scanner counts lines differently: there only a line feed begins a new one. -/

def isLineBreak (c : Char) : Bool :=
  let n := c.toNat
  (0x0A ≤ n && n ≤ 0x0D) || (0x1C ≤ n && n ≤ 0x1E) || n = 0x85 || n = 0x2028 || n = 0x2029

def lines : Text → List Text
  | [] => []
  | '\r' :: '\n' :: rest => [] :: lines rest
  | c :: rest =>
    if isLineBreak c then [] :: lines rest
    else match lines rest with
      | [] => [[c]]
      | line :: more => (c :: line) :: more

def unlines (ls : List Text) : Text :=
  ls.flatMap (· ++ ['\n'])

end Text

end GDWorkbench
