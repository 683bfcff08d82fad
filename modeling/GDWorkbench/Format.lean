import GDWorkbench.Comments
import GDWorkbench.Format.Attach
import GDWorkbench.Format.Declaration
import GDWorkbench.Parse

/-!
Formatting a source text: its statements are laid out anew, with its comments put back where they
belong.
-/

namespace GDWorkbench

namespace Format

def wideBlanks : Nat := 2
def narrowBlanks : Nat := 1

def settings (style : Style) (code : Text) (comments : List Token) : Except Fault Settings := do
  let (unit, unitText) ← style.unit
  return {
    maxWidth := style.maxWidth
    outerBlanks := style.outerBlanks
    unit
    unitText
    source := [] :: Text.lines code
    standalone := Comments.standalone code comments
    inline := Comments.inline code comments }

/-- The lines of a file without the comments inside its statements. -/
def fileLines (settings : Settings) (t : Tree) : Lines := do
  let functions := functionBlock (t.size + 1)
  return (← classBlock functions (t.size + 1) t.children ⟨settings, 0, some 0⟩).1

def withComments (settings : Settings) (lines : List Line) : List Line :=
  let unit := settings.unitText.headD '\t'
  Attach.standalone unit settings.standalone
    (Attach.inline settings.inline (lines ++ [⟨none, []⟩]))

def ofTree (style : Style) (code : Text) (t : Tree) (comments : List Token) : Except Fault Text := do
  let settings ← settings style code comments
  let lines ← fileLines settings t
  return Text.join ['\n'] ((withComments settings lines).map Line.text)

end Format

def format (style : Format.Style) (code : Text) : Except Failure Text := do
  let t ← Failure.ofSyntax (parse code)
  let comments ← Failure.ofSyntax (parseComments code)
  Failure.ofFault (Format.ofTree style code t comments)

end GDWorkbench
