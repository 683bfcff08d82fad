import GDWorkbench.Lint.Config

/-!
Checks of the text line by line.
-/

namespace GDWorkbench.Lint

namespace Lines

/-- The length of a line in which every tab counts `tab` characters. -/
def lengthOf (tab : Int) (line : Text) : Nat :=
  line.length - line.count '\t' + line.count '\t' * tab.toNat

def tooLong (config : Config) : Nat → List Text → Problems
  | _, [] => .ok []
  | n, line :: rest => do
    let tab ← config.tabWidth
    let limit ← config.maxLineLength
    let more ← tooLong config (n + 1) rest
    let description := "Max allowed line length (".toList ++ limit.text ++ ") exceeded".toList
    return if limit.isExceeded (lengthOf tab line) then .ofLine .maxLineLength description n :: more
      else more

def tooMany (config : Config) (lines : List Text) : Problems := do
  let limit ← config.maxFileLines
  if !limit.isExceeded lines.length then return []
  return [.ofLine .maxFileLines
    ("Max allowed file lines num (".toList ++ limit.text ++ ") exceeded".toList) lines.length]

def endsBlank (line : Text) : Bool :=
  line.getLast?.any Text.isBlank

/-- Whether a line begins with tabs and a space, or with spaces and a tab. -/
def mixesTabs (line : Text) : Bool :=
  match line with
  | '\t' :: _ => (line.dropWhile (· == '\t')).head? = some ' '
  | ' ' :: _ => (line.dropWhile (· == ' ')).head? = some '\t'
  | _ => false

def whichever (check : Check) (description : String) (isBad : Text → Bool) (lines : List Text) :
    List Problem :=
  lines.zipIdx.filterMap fun (line, i) =>
    if isBad line then some (.ofLine check description.toList (i + 1)) else none

def check (config : Config) (code : Text) : Problems := do
  let lines := Text.lines code
  let long ← config.run .maxLineLength (tooLong config 1 lines)
  let many ← config.run .maxFileLines (tooMany config lines)
  let blank ← config.run .trailingWhitespace
    (.ok (whichever .trailingWhitespace "Trailing whitespace(s)" endsBlank lines))
  let mixed ← config.run .mixedTabsAndSpaces
    (.ok (whichever .mixedTabsAndSpaces "Mixed tabs and spaces" mixesTabs lines))
  return long ++ many ++ blank ++ mixed

end Lines

end GDWorkbench.Lint
