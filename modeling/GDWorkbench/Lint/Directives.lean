import GDWorkbench.Lint.Problem

/-!
Directives in comments that switch checks off: for a line and the next one, or from a line on until
they are switched on again.
-/

namespace GDWorkbench.Lint

/-- The directives of a text, each with the name of a check and its line. -/
structure Directives where
  ignored : List (Text × Nat)
  /-- The line is the first one on which the check is off. -/
  disabled : List (Text × Nat)
  enabled : List (Text × Nat)
  lastLine : Nat

namespace Directives

/-- The names behind the equals sign. Only what cannot be left out of the first name is taken from the
white space in front of it. -/
def namesIn (value : Text) : Option (List Text) :=
  let blanks := value.takeWhile Text.isBlank
  let rest := value.drop blanks.length
  let list := match rest.head?, blanks.getLast? with
    | some ',', some blank => blank :: rest
    | none, some blank => [blank]
    | _, _ => rest
  match (Text.splitAt ',' list).takeWhile fun name => !name.isEmpty with
  | [] => none
  | names => some (names.map Text.trim)

/-- The words of a directive, with white space in front of each. -/
def afterWords : List String → Text → Option Text
  | [], text => some text
  | word :: words, text =>
    (Text.after? word.toList (Text.trimStart text)).bind (afterWords words)

def names (kind : String) : Text → Option (List Text)
  | [] => none
  | '#' :: rest =>
    match (afterWords ["gdlint", ":", kind, "="] rest).bind namesIn with
    | some found => some found
    | none => names kind rest
  | _ :: rest => names kind rest

def find (kind : String) (lines : List Text) : List (Text × Nat) :=
  lines.zipIdx.flatMap fun (line, i) =>
    ((names kind line).getD []).map fun name => (name, i + 1)

def startsOnNext (line : Text) : Bool :=
  !Text.startsWith (Text.trim line) ['#']

def findDisabled (lines : List Text) : List (Text × Nat) :=
  lines.zipIdx.flatMap fun (line, i) =>
    ((names "disable" line).getD []).map fun name =>
      (name, if startsOnNext line then i + 2 else i + 1)

def ofText (code : Text) : Directives :=
  let lines := Text.lines code
  ⟨find "ignore" lines, findDisabled lines, find "enable" lines, lines.length⟩

/-- The last line on which a check is off: any line that switches it on counts, wherever it is. -/
def lastOff (d : Directives) (name : Text) : Nat :=
  (d.enabled.filter (·.1 = name)).foldl (fun last on => min last on.2) d.lastLine

def isOff (d : Directives) (name : Text) (line : Nat) : Bool :=
  (d.ignored.any fun i => i.1 = name && (line = i.2 || line = i.2 + 1))
    || ((d.disabled.any fun s => s.1 = name && s.2 ≤ line) && line ≤ d.lastOff name)

def insertName (name : Text) : List Text → List Text
  | [] => [name]
  | n :: ns =>
    if name = n then n :: ns
    else if decide (name < n) then name :: n :: ns
    else n :: insertName name ns

/-- The checks that are switched off somewhere, sorted by name. -/
def offNames (d : Directives) : List Text :=
  ((d.ignored ++ d.disabled).map (·.1)).foldr insertName []

def offLines (d : Directives) : List (Text × List Nat) :=
  d.offNames.map fun name => (name, (List.range (d.lastLine + 2)).filter (d.isOff name))

end Directives

end GDWorkbench.Lint
