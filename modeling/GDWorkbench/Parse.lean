import GDWorkbench.Parse.Stack
import GDWorkbench.Parse.SyntaxError

/-!
Parsing a text. The three passes take turns: the scanner reads one token with the terminals that the
parser can use at that moment, the layout pass makes it one or more tokens, and the parser takes
these before the scanner reads on. So the first error in the text wins, whoever finds it.
-/

namespace GDWorkbench

namespace Parse

/-- How far the passes have come. -/
structure Progress where
  cursor : Cursor
  layout : Layout
  stack : Stack
  /-- The token the scanner has read last. -/
  scanned : Option Token
  /-- The token the parser has taken last. -/
  taken : Option Token

/-- What to list as expected: the terminals that could come next, or failing that `others`. -/
def expectedAfter (stack : Stack) (others : List Terminal) : List Terminal :=
  match stack.top.expected.filter (admits stack) with
  | [] => others
  | admitted => admitted

def refusal (stack : Stack) (t : Token) : SyntaxError :=
  .token t .byParser (expectedAfter stack stack.top.expected)

def take (p : Progress) : List Token → Except SyntaxError Progress
  | [] => .ok p
  | t :: rest =>
    match feed p.stack t with
    | .shifted stack => take { p with stack := stack, taken := some t } rest
    | .accepted _ => .ok p
    | .refused stack => .error (refusal stack t)

/-- The end of the text stands where the last token stood. If that token was empty, as one that only
the end of the file gives is, the end is placed at the beginning. -/
def endToken (last : Option Token) : Token :=
  match last.filter (·.text != some []) with
  | some t => t.borrow .endOfText []
  | none => ⟨.endOfText, some [], ⟨some 1, some 1, none, none⟩, some 0⟩

def finish (p : Progress) : Except SyntaxError Tree := do
  let p ← take p p.layout.finish
  let last := endToken p.taken
  match feed p.stack last with
  | .accepted tree => .ok tree
  | .shifted stack | .refused stack => .error (refusal stack last)

/-- No terminal that could come next fits the text. If another one does, its token is refused. -/
def stuck (text : Text) (p : Progress) (here : Cursor) : SyntaxError :=
  let listed := p.stack.top.lexicon.listed
  match Lexicon.full.next here with
  | .token t _ => .token t (.byScanner p.scanned) (expectedAfter p.stack listed)
  | _ =>
    .character (here.rest.headD ' ') here.line here.column here.offset listed p.scanned text

/-- Reads on to the end. Every turn takes at least one character. -/
def readUpTo (text : Text) : Nat → Progress → Except SyntaxError Tree
  | 0, p => finish p
  | bound + 1, p =>
    match p.stack.top.lexicon.next p.cursor with
    | .finished => finish p
    | .stuck here => .error (stuck text p here)
    | .token t cursor =>
      let step := p.layout.step t
      match take { p with cursor := cursor, layout := step.layout, scanned := some t } step.tokens with
      | .error e => .error e
      | .ok p =>
        match step.fault with
        | some fault => .error (.layout fault)
        | none => readUpTo text bound p

def ofLines (text : Text) : Except SyntaxError Tree :=
  readUpTo text (text.length + 1) ⟨Cursor.ofText text, Layout.start, [], none, none⟩

end Parse

/-- The parse tree of a file. A line end is added, so that the last statement is complete. -/
def parse (code : Text) : Except SyntaxError Tree :=
  Parse.ofLines (code ++ ['\n'])

end GDWorkbench
