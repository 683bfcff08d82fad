import GDWorkbench.Token

/-!
Blocks from indentation. Between the scanner and the parser stands a pass that compares the
indentation of each line with that of the blocks around it and adds tokens that open and close
blocks. Inside brackets line ends mean nothing, except in the body of a lambda that begins on a line
of its own: such a body is a block, closed by a shallower line, by a comma or by the bracket around
it.

A step gives the tokens it adds before it can fail, since the parser sees them first.
-/

namespace GDWorkbench

namespace Layout

inductive Fault where
  /-- The line ends a block, but is indented like none of the blocks around it. -/
  | dedent (found expected : Nat)
  | unmatchedBracket
  | noLineFeed
  deriving DecidableEq, Repr

end Layout

/-- What the pass remembers between tokens. -/
structure Layout where
  /-- The widths of the open blocks, innermost first, down to 0 for the file. -/
  levels : List Nat
  /-- For every open bracket, innermost first, how many lambda bodies are open in it. -/
  brackets : List Nat
  /-- What has been read, latest first. -/
  seen : List Token
  /-- Whether the token passed on last was a line end. -/
  afterNewline : Bool
  deriving Repr, Inhabited

namespace Terminal

def opensBracket : Terminal → Bool
  | .leftParen | .leftBracket | .leftBrace => true
  | _ => false

def closesBracket : Terminal → Bool
  | .rightParen | .rightBracket | .rightBrace => true
  | _ => false

end Terminal

namespace Layout

def start : Layout := ⟨[0], [], [], false⟩

def level (l : Layout) : Nat :=
  l.levels.headD 0

def lambdas (l : Layout) : Nat :=
  l.brackets.headD 0

def tabWidth : Nat := 4

def indentWidth (indent : Text) : Nat :=
  indent.count ' ' + indent.count '\t' * tabWidth

def indentOf (text : Text) : Option Text :=
  if text.elem '\n' then some (text.reverse.takeWhile (· != '\n')).reverse else none

/-- The end of a block at a line end. It has a line, but no column and no text. -/
def blockEnd (newline : Token) : Token :=
  { terminal := .dedent
    text := none
    span := ⟨newline.span.line, none, newline.span.line, none⟩
    offset := none }

def finalBlockEnd : Token := ⟨.dedent, some [], Span.nowhere, none⟩

/-! ## Lambda headers -/

inductive HeaderPart where
  | body | arguments | inside (extra : Nat) | name | complete
  deriving DecidableEq, Repr

/-- Reading backwards, what is still to be found of a header `func name(arguments) -> Type:`. -/
def HeaderPart.next (part : HeaderPart) (t : Token) : Option HeaderPart :=
  match part with
  | .body =>
    if t.terminal = .colon then some .arguments
    else if t.terminal = .newline then some .body
    else none
  | .arguments =>
    if t.terminal = .rightParen then some (.inside 0)
    else if t.terminal = .newline || t.terminal = .typeHint || t.text = some ['-', '>'] then
      some .arguments
    else none
  | .inside 0 =>
    if t.terminal = .leftParen then some .name
    else if t.terminal = .rightParen then some (.inside 1)
    else some (.inside 0)
  | .inside (extra + 1) =>
    if t.terminal = .rightParen then some (.inside (extra + 2))
    else if t.terminal = .leftParen then some (.inside extra)
    else some (.inside (extra + 1))
  | .name =>
    if t.terminal = .kwFunc then some .complete
    else if t.terminal = .newline || t.terminal = .identifier then some .name
    else none
  | .complete => some .complete

def endsHeaderFrom : HeaderPart → List Token → Bool
  | .complete, _ => true
  | _, [] => false
  | part, t :: before =>
    match part.next t with
    | some part => endsHeaderFrom part before
    | none => false

/-- Whether the tokens, latest first, end with the header of a lambda and perhaps line ends. -/
def endsHeader (latestFirst : List Token) : Bool :=
  endsHeaderFrom .body latestFirst

/-! ## Steps -/

structure Step where
  tokens : List Token
  layout : Layout
  fault : Option Fault

def addLambda (l : Layout) : List Nat :=
  match l.brackets with
  | [] => []
  | n :: outer => (n + 1) :: outer

def dropLambda (l : Layout) : Layout :=
  { l with
    levels := l.levels.tail
    brackets := match l.brackets with
      | [] => []
      | n :: outer => (n - 1) :: outer }

/-- Closes blocks down to the given width. Every end is followed by a copy of the line end. -/
def closeTo (newline : Token) (width : Nat) : List Nat → List Token × List Nat
  | [] => ([], [])
  | top :: outer =>
    if width < top then
      let (tokens, left) := closeTo newline width outer
      (blockEnd newline :: newline :: tokens, left)
    else ([], top :: outer)

def newlineOutside (l : Layout) (t : Token) : Step :=
  match indentOf t.content with
  | none => ⟨[t], { l with afterNewline := true }, some .noLineFeed⟩
  | some indent =>
    let width := indentWidth indent
    if l.level < width then
      ⟨[t, t.borrow .indent indent],
        { l with levels := width :: l.levels, afterNewline := false }, none⟩
    else
      let (tokens, left) := closeTo t width l.levels
      ⟨t :: tokens, { l with levels := left, afterNewline := true },
        if width = left.headD 0 then none else some (.dedent width (left.headD 0))⟩

/-- Closes lambda bodies down to the given width, at most as many as are open in the bracket. Every
end but that of the outermost body is followed by a copy of the line end. -/
def closeLambdasTo (newline : Token) (width : Nat) : Nat → Layout → List Token × Layout
  | 0, l => ([], l)
  | open_ + 1, l =>
    if width < l.level then
      let l := { dropLambda l with afterNewline := open_ != 0 }
      let (tokens, l) := closeLambdasTo newline width open_ l
      (blockEnd newline :: (if open_ = 0 then tokens else newline :: tokens), l)
    else ([], l)

def newlineInside (l : Layout) (t : Token) : Step :=
  match indentOf t.content with
  | none => ⟨[], l, some .noLineFeed⟩
  | some indent =>
    let width := indentWidth indent
    if l.level < width then
      if endsHeader l.seen || 0 < l.lambdas then
        ⟨[t, t.borrow .indent indent],
          { l with levels := width :: l.levels, brackets := addLambda l, afterNewline := false },
          none⟩
      else ⟨[], l, none⟩
    else if 0 < l.lambdas then
      let (tokens, l) := closeLambdasTo t width l.lambdas { l with afterNewline := true }
      ⟨t :: tokens, l, none⟩
    else ⟨[], l, none⟩

def noText : Text := "N/A".toList

/-- Closes the lambda bodies open in the bracket before a comma or a closing bracket. A body needs a
line end before it is closed. -/
def closeLambdasAt (t : Token) : Nat → Layout → List Token × Layout
  | 0, l => ([], l)
  | open_ + 1, l =>
    let lineEnd := if l.afterNewline then [] else [t.borrow .newline noText]
    let (tokens, l) := closeLambdasAt t open_ { dropLambda l with afterNewline := false }
    (lineEnd ++ t.borrow .dedent noText :: tokens, l)

def ordinary (l : Layout) (t : Token) : Step :=
  let closes := t.terminal.closesBracket
  let (tokens, l) :=
    if closes || t.terminal = .comma then closeLambdasAt t l.lambdas l else ([], l)
  let l := { l with afterNewline := false }
  let tokens := tokens ++ [t]
  if t.terminal.opensBracket then ⟨tokens, { l with brackets := 0 :: l.brackets }, none⟩
  else if closes then
    match l.brackets with
    | [] => ⟨tokens, l, some .unmatchedBracket⟩
    | _ :: outer => ⟨tokens, { l with brackets := outer }, none⟩
  else ⟨tokens, l, none⟩

def step (l : Layout) (t : Token) : Step :=
  let l := { l with seen := t :: l.seen }
  if t.terminal = .newline then
    if l.brackets.isEmpty then newlineOutside l t else newlineInside l t
  else ordinary l t

def finish (l : Layout) : List Token :=
  List.replicate (l.levels.length - 1) finalBlockEnd

/-! ## Whole streams -/

/-- What became of a stream of tokens. -/
structure Run where
  tokens : List Token
  levels : List Nat
  /-- How many brackets are open; -1 after a closing bracket too many. -/
  depth : Int
  fault : Option Fault

def depthAt (l : Layout) : Option Fault → Int
  | some .unmatchedBracket => -1
  | _ => l.brackets.length

def runFrom (l : Layout) : List Token → Run
  | [] => ⟨l.finish, [0], l.brackets.length, none⟩
  | t :: rest =>
    let s := l.step t
    match s.fault with
    | some fault => ⟨s.tokens, s.layout.levels, depthAt s.layout fault, fault⟩
    | none =>
      let r := runFrom s.layout rest
      { r with tokens := s.tokens ++ r.tokens }

def run (tokens : List Token) : Run :=
  runFrom start tokens

end Layout

end GDWorkbench
