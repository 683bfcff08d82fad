import GDWorkbench.Pattern

/-!
Matching. `Pattern.run` looks for a match that begins at a place and goes on as asked: it tries the
ways to match one after the other, the preferred one first, until what comes behind agrees. So the
last argument of `run` stands for the rest of the pattern.
-/

namespace GDWorkbench.Pattern

/-- A place in a text: what comes before, the last character first, and what comes behind. It
remembers where groups were entered, by the text from there on, and where they were left. -/
structure Place where
  before : Text
  rest : Text
  index : Nat
  entered : List (Nat × Nat × Text)
  left : List (Nat × Nat)
  deriving Repr

namespace Place

def start (text : Text) : Place :=
  ⟨[], text, 0, [], []⟩

def put {α : Type} (key : Nat) (value : α) (entries : List (Nat × α)) : List (Nat × α) :=
  (key, value) :: entries.filter (·.1 != key)

def get? {α : Type} (key : Nat) (entries : List (Nat × α)) : Option α :=
  (entries.find? (·.1 == key)).map (·.2)

def enter (number : Nat) (p : Place) : Place :=
  { p with entered := put number (p.index, p.rest) p.entered }

def leave (number : Nat) (p : Place) : Place :=
  { p with left := put number p.index p.left }

def group? (p : Place) (number : Nat) : Option Text := do
  let (first, text) ← get? number p.entered
  let last ← get? number p.left
  if first ≤ last then some (text.take (last - first)) else none

def remembering (p q : Place) : Place :=
  { p with entered := q.entered, left := q.left }

def step (holds : Char → Bool) (p : Place) : Option Place :=
  match p.rest with
  | [] => none
  | c :: rest =>
    if holds c then some { p with before := c :: p.before, rest, index := p.index + 1 } else none

def back : Nat → Place → Option Place
  | 0, p => some p
  | n + 1, p =>
    match p.before with
    | [] => none
    | c :: before => back n { p with before, rest := c :: p.rest, index := p.index - 1 }

def follow (casing : Casing) : Text → Place → Option Place
  | [], p => some p
  | c :: text, p =>
    match p.step fun d => casing.lower d.toNat = casing.lower c.toNat with
    | some q => follow casing text q
    | none => none

def isAt (p : Place) : Anchor → Bool
  | .textStart => p.before.isEmpty
  | .textEnd => p.rest.isEmpty
  | .lastLineEnd => p.rest.isEmpty || p.rest = ['\n']
  | .lineStart => p.before.isEmpty || p.before.head? = some '\n'
  | .lineEnd => p.rest.isEmpty || p.rest.head? = some '\n'
  | .wordEdge isAscii isNegated =>
    let isWord := Category.word.holds isAscii
    !(p.before.isEmpty && p.rest.isEmpty)
      && (p.before.head?.any isWord != p.rest.head?.any isWord) != isNegated

end Place

abbrev Goal := Place → Option Place

abbrev Search := Place → Goal → Option Place

/-! ## Repetition -/

def turns (step : Search) : Nat → Search
  | 0, p, goal => goal p
  | n + 1, p, goal => step p fun q => turns step n q goal

/-- Up to `high` turns, more of them or fewer first. A turn that takes no character is the last one,
so that there is at most one turn more than there are characters in `bound`. -/
def moreTurns (step : Search) (isGreedy : Bool) : Text → Option Nat → Search
  | [], high, p, goal =>
    if high = some 0 then goal p
    else if isGreedy then (step p goal).or (goal p)
    else (goal p).or (step p goal)
  | _ :: bound, high, p, goal =>
    if high = some 0 then goal p
    else
      let next : Goal := fun q =>
        if q.index = p.index then goal q
        else moreTurns step isGreedy bound (high.map (· - 1)) q goal
      if isGreedy then (step p next).or (goal p) else (goal p).or (step p next)

def firmTurns (step : Goal) : Nat → Goal
  | 0, p => some p
  | n + 1, p =>
    match step p with
    | some q => firmTurns step n q
    | none => none

/-- As many turns up to `high` as there are, each in the preferred way. -/
def allTurns (step : Goal) : Text → Option Nat → Place → Place
  | [], high, p => if high = some 0 then p else (step p).getD p
  | _ :: bound, high, p =>
    if high = some 0 then p
    else
      match step p with
      | some q => if q.index = p.index then q else allTurns step bound (high.map (· - 1)) q
      | none => p

/-- The places behind up to `high` characters of the rest of the text, the furthest first. `found`
are those before. -/
def reach (holds : Char → Bool) : Text → Option Nat → Place → List Place → List Place
  | [], _, p, found => p :: found
  | c :: rest, high, p, found =>
    if high = some 0 || !holds c then p :: found
    else
      reach holds rest (high.map (· - 1))
        { p with before := c :: p.before, rest, index := p.index + 1 } (p :: found)

def charTurns (holds : Char → Bool) (low : Nat) (high : Option Nat) (preference : Preference) :
    Search := fun p goal =>
  let places := (reach holds p.rest high p []).takeWhile fun q => p.index + low ≤ q.index
  match preference with
  | .most => places.findSome? goal
  | .fewest => places.reverse.findSome? goal
  | .allOrNone => places.head?.bind goal

/-! ## Search -/

def charTest? : Pattern → Option (Char → Bool)
  | .char test casing => some fun c => test.holds casing c
  | _ => none

/-- A condition on a place that keeps what was remembered on the way. -/
def inspect (isNegated : Bool) (found : Option Place) : Search := fun p goal =>
  match found, isNegated with
  | some q, false => goal (p.remembering q)
  | none, true => goal p
  | _, _ => none

def run : Pattern → Search
  | .empty, p, goal => goal p
  | .char test casing, p, goal => (p.step fun c => test.holds casing c).bind goal
  | .anchor a, p, goal => if p.isAt a then goal p else none
  | .seq first second, p, goal => run first p fun q => run second q goal
  | .or first second, p, goal => (run first p goal).or (run second p goal)
  | .group inner, p, goal => run inner p goal
  | .capture number inner, p, goal =>
    run inner (p.enter number) fun q => goal (q.leave number)
  | .again number casing, p, goal =>
    match p.group? number with
    | some text => (p.follow casing text).bind goal
    | none => none
  | .given number yes no, p, goal =>
    if (p.group? number).isSome then run yes p goal else run no p goal
  | .repeated low high preference inner, p, goal =>
    match charTest? inner, preference with
    | some holds, _ => charTurns holds low high preference p goal
    | none, .allOrNone =>
      (firmTurns (fun q => run inner q some) low p).bind fun q =>
        goal (allTurns (fun q => run inner q some) q.rest (high.map (· - low)) q)
    | none, _ =>
      turns (run inner) low p fun q =>
        moreTurns (run inner) (preference == .most) q.rest (high.map (· - low)) q goal
  | .atomic inner, p, goal => (run inner p some).bind goal
  | .ahead isNegated inner, p, goal => inspect isNegated (run inner p some) p goal
  | .behind isNegated width inner, p, goal =>
    inspect isNegated ((p.back width).bind fun q => run inner q some) p goal

def holds (p : Pattern) (text : Text) : Bool :=
  (run p (.start text) fun q => if q.rest.isEmpty then some q else none).isSome

end GDWorkbench.Pattern
