import GDWorkbench.Text.Basic

/-!
Differences between two lists of lines, found by taking the longest common run of lines and going on
in the same way before and behind it, and shown as hunks with some lines of context.
-/

namespace GDWorkbench.Diff

/-- `size` lines from line `i` of the old text on equal those from line `j` of the new text on. -/
structure Run where
  i : Nat
  j : Nat
  size : Nat
  deriving DecidableEq, Repr, Inhabited

/-- The two texts, and for every old line where it occurs in the new text. -/
structure Pair where
  old : Array Text
  new : Array Text
  occurrences : Array (List Nat)

/-- In a new text of this length or more, frequent lines are no anchors. -/
def longText : Nat := 200

/-- Whether a line that occurs `n` times among `length` lines is too frequent for an anchor. -/
def isFrequent (length n : Nat) : Bool :=
  longText ≤ length && length / 100 + 1 < n

def placesFrom (line : Text) : Nat → List Text → List Nat
  | _, [] => []
  | j, l :: ls => if l = line then j :: placesFrom line (j + 1) ls else placesFrom line (j + 1) ls

def Pair.ofLines (old new : List Text) : Pair :=
  let anchors (line : Text) : List Nat :=
    let js := placesFrom line 0 new
    if isFrequent new.length js.length then [] else js
  ⟨old.toArray, new.toArray, (old.map anchors).toArray⟩

/-! ## Runs -/

/-- The common runs that end at the given new lines, from those that end one old line before. Both
lists ascend. -/
def grow : List (Nat × Nat) → List Nat → List (Nat × Nat)
  | _, [] => []
  | before, j :: js =>
    let before := before.dropWhile fun r => r.1 + 1 < j
    let size := match before with
      | (last, n) :: _ => if last + 1 = j then n + 1 else 1
      | [] => 1
    (j, size) :: grow before js

/-- The longer one of the best run so far and one that ends at `i` and `j`. -/
def better (i : Nat) (best : Run) (r : Nat × Nat) : Run :=
  if best.size < r.2 then ⟨i + 1 - r.2, r.1 + 1 - r.2, r.2⟩ else best

/-- Goes through old lines from line `i` on, in the new lines from `low` up to `high`. -/
def longest (p : Pair) (low high : Nat) : Nat → Nat → List (Nat × Nat) → Run → Run
  | 0, _, _, best => best
  | n + 1, i, before, best =>
    let js := ((p.occurrences.getD i []).dropWhile (· < low)).takeWhile (· < high)
    let runs := grow before js
    longest p low high n (i + 1) runs (runs.foldl (better i) best)

/-- How many of the `n` lines before lines `i` and `j` agree without a gap. -/
def agreeBefore (p : Pair) : Nat → Nat → Nat → Nat
  | 0, _, _ => 0
  | n + 1, i, j => if p.old[i - 1]? = p.new[j - 1]? then agreeBefore p n (i - 1) (j - 1) + 1 else 0

/-- How many of the `n` lines from lines `i` and `j` on agree without a gap. -/
def agreeFrom (p : Pair) : Nat → Nat → Nat → Nat
  | 0, _, _ => 0
  | n + 1, i, j => if p.old[i]? = p.new[j]? then agreeFrom p n (i + 1) (j + 1) + 1 else 0

/-- A part of both texts. -/
structure Window where
  oldLow : Nat
  oldHigh : Nat
  newLow : Nat
  newHigh : Nat

/-- The longest common run in a window, with the lines around it that agree though they are no
anchors. -/
def longestIn (p : Pair) (w : Window) : Run :=
  let r := longest p w.newLow w.newHigh (w.oldHigh - w.oldLow) w.oldLow [] ⟨w.oldLow, w.newLow, 0⟩
  let before := agreeBefore p (min (r.i - w.oldLow) (r.j - w.newLow)) r.i r.j
  let i := r.i + r.size
  let j := r.j + r.size
  let behind := agreeFrom p (min (w.oldHigh - i) (w.newHigh - j)) i j
  ⟨r.i - before, r.j - before, before + r.size + behind⟩

/-- The common runs in a window in order. A window inside another one has fewer lines. -/
def runsIn (p : Pair) : Nat → Window → List Run
  | 0, _ => []
  | bound + 1, w =>
    if w.oldLow < w.oldHigh && w.newLow < w.newHigh then
      let r := longestIn p w
      if r.size = 0 then []
      else
        runsIn p bound ⟨w.oldLow, r.i, w.newLow, r.j⟩ ++
          r :: runsIn p bound ⟨r.i + r.size, w.oldHigh, r.j + r.size, w.newHigh⟩
    else []

def joinRuns : Run → List Run → List Run
  | r, [] => [r]
  | r, s :: rest =>
    if r.i + r.size = s.i && r.j + r.size = s.j then joinRuns ⟨r.i, r.j, r.size + s.size⟩ rest
    else r :: joinRuns s rest

def runs (p : Pair) : List Run :=
  let found := runsIn p (p.old.size + 1) ⟨0, p.old.size, 0, p.new.size⟩
  (joinRuns ⟨0, 0, 0⟩ found).filter (0 < ·.size)

/-! ## Changes -/

/-- A part of both texts that is either the same in both or different. -/
structure Change where
  isSame : Bool
  oldLow : Nat
  oldHigh : Nat
  newLow : Nat
  newHigh : Nat

def changesFrom (p : Pair) : Nat → Nat → List Run → List Change
  | i, j, [] =>
    if i < p.old.size || j < p.new.size then [⟨false, i, p.old.size, j, p.new.size⟩] else []
  | i, j, r :: rest =>
    let gap := if i < r.i || j < r.j then [⟨false, i, r.i, j, r.j⟩] else []
    gap ++ ⟨true, r.i, r.i + r.size, r.j, r.j + r.size⟩
      :: changesFrom p (r.i + r.size) (r.j + r.size) rest

def Change.ending (context : Nat) (c : Change) : Change :=
  { c with
    oldLow := max c.oldLow (c.oldHigh - context)
    newLow := max c.newLow (c.newHigh - context) }

def Change.beginning (context : Nat) (c : Change) : Change :=
  { c with
    oldHigh := min c.oldHigh (c.oldLow + context)
    newHigh := min c.newHigh (c.newLow + context) }

def trimFirst (context : Nat) : List Change → List Change
  | [] => []
  | c :: rest => (if c.isSame then c.ending context else c) :: rest

def trimLast (context : Nat) : List Change → List Change
  | [] => []
  | [c] => [if c.isSame then c.beginning context else c]
  | c :: rest => c :: trimLast context rest

/-- Cuts in two where more than twice the context is the same. `group` is in reverse. -/
def hunksFrom (context : Nat) : List Change → List Change → List (List Change)
  | group, [] => [group.reverse]
  | group, c :: rest =>
    if c.isSame && 2 * context < c.oldHigh - c.oldLow then
      (c.beginning context :: group).reverse :: hunksFrom context [c.ending context] rest
    else hunksFrom context (c :: group) rest

def isHunk : List Change → Bool
  | [] => false
  | [c] => !c.isSame
  | _ => true

def hunks (context : Nat) (changes : List Change) : List (List Change) :=
  (hunksFrom context [] (trimLast context (trimFirst context changes))).filter isHunk

/-! ## Text -/

/-- Number of the first line, and how many lines there are unless there is one. -/
def rangeText (low high : Nat) : Text :=
  match high - low with
  | 1 => Text.ofNat (low + 1)
  | 0 => Text.ofNat low ++ ",0".toList
  | n => Text.ofNat (low + 1) ++ ',' :: Text.ofNat n

def marked (mark : Char) (lines : Array Text) (low high : Nat) : List Text :=
  (lines.extract low high).toList.map (mark :: ·)

def Change.lines (p : Pair) (c : Change) : List Text :=
  if c.isSame then marked ' ' p.old c.oldLow c.oldHigh
  else marked '-' p.old c.oldLow c.oldHigh ++ marked '+' p.new c.newLow c.newHigh

def hunkLines (p : Pair) (stop : Text) (hunk : List Change) : List Text :=
  match hunk.head?, hunk.getLast? with
  | some first, some last =>
    ("@@ -".toList ++ rangeText first.oldLow last.oldHigh ++ " +".toList
      ++ rangeText first.newLow last.newHigh ++ " @@".toList ++ stop)
      :: hunk.flatMap (Change.lines p)
  | _, _ => []

def context : Nat := 3

/-- The differences between two texts that go by the same name. Every header line ends with `stop`. -/
def unified (name stop : Text) (old new : List Text) : List Text :=
  let p := Pair.ofLines old new
  let found := hunks context (changesFrom p 0 0 (runs p))
  if found.isEmpty then []
  else
    ("--- ".toList ++ name ++ stop) :: ("+++ ".toList ++ name ++ stop)
      :: found.flatMap (hunkLines p stop)

end GDWorkbench.Diff
