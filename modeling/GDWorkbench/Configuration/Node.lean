import GDWorkbench.Configuration.Token

/-!
The values that the tokens of a configuration file describe, before it is known of which kind they
are. A mark in front of a value names it, so that it can be used again.
-/

namespace GDWorkbench.Configuration

/-- A value with the name of its kind, if it is given. -/
inductive Node where
  | scalar (kind : Option Text) (text : Text) (isPlain : Bool)
  | list (kind : Option Text) (items : List Node)
  | map (kind : Option Text) (entries : List (Node × Node))
  deriving Repr, Inhabited

namespace Node

def empty : Node :=
  .scalar none [] true

end Node

structure Building where
  tokens : List Token
  /-- What is wrong after the last token. -/
  defect : Option Defect
  anchors : List (Text × Node)
  handles : List (Text × Text)

abbrev Build := StateT Building (Except Defect)

namespace Build

def peek : Build Token := do
  match (← get).tokens with
  | token :: _ => return token
  | [] => throw ((← get).defect.getD .badOrder)

def skip : Build Unit := do
  let _ ← peek
  modify fun b => { b with tokens := b.tokens.tail }

def skipIf (token : Token) : Build Bool := do
  if (← peek) = token then
    skip
    return true
  else return false

def expect (token : Token) : Build Unit := do
  if !(← skipIf token) then throw .badOrder

def isNext (tokens : List Token) : Build Bool := do
  return tokens.contains (← peek)

/-! ## Lists and maps over lines -/

def unlessNext (tokens : List Token) (node : Build Node) : Build Node := do
  if ← isNext tokens then return Node.empty else node

def dashed (ends : List Token) (node : Build Node) : Nat → Build (List Node)
  | 0 => throw .badOrder
  | bound + 1 => do
    if ← skipIf .dash then
      let item ← unlessNext (.dash :: ends) node
      return item :: (← dashed ends node bound)
    else return []

/-- The value after a colon, which may be missing together with it. -/
def valueUnless (ends : List Token) (node : Build Node) : Build Node := do
  if ← skipIf .value then unlessNext ends node else return Node.empty

def blockEntries (node : Build Node) : Nat → Build (List (Node × Node))
  | 0 => throw .badOrder
  | bound + 1 => do
    if ← skipIf .key then
      let name ← unlessNext [.key, .value, .blockEnd] node
      let value ← valueUnless [.key, .value, .blockEnd] node
      return (name, value) :: (← blockEntries node bound)
    else return []

/-! ## Lists and maps between brackets -/

def separator (isFirst : Bool) : Build Unit := do
  if !isFirst then expect .comma

/-- An item of a list. One with a colon is a map with one entry. -/
def bracketItem (node : Build Node) : Build Node := do
  if ← skipIf .key then
    let name ← unlessNext [.value, .comma, .closeBracket] node
    let value ← valueUnless [.comma, .closeBracket] node
    return .map none [(name, value)]
  else node

def bracketItems (node : Build Node) : Nat → Bool → Build (List Node)
  | 0, _ => throw .badOrder
  | bound + 1, isFirst => do
    if ← skipIf .closeBracket then return []
    separator isFirst
    if ← skipIf .closeBracket then return []
    let item ← bracketItem node
    return item :: (← bracketItems node bound false)

def braceEntry (node : Build Node) : Build (Node × Node) := do
  if ← skipIf .key then
    let name ← unlessNext [.value, .comma, .closeBrace] node
    return (name, ← valueUnless [.comma, .closeBrace] node)
  else return (← node, Node.empty)

def braceEntries (node : Build Node) : Nat → Bool → Build (List (Node × Node))
  | 0, _ => throw .badOrder
  | bound + 1, isFirst => do
    if ← skipIf .closeBrace then return []
    separator isFirst
    if ← skipIf .closeBrace then return []
    let entry ← braceEntry node
    return entry :: (← braceEntries node bound false)

/-! ## Values -/

/-- The name of a kind in full. An exclamation mark alone leaves the kind open. -/
def kindName (short : Option Text) (name : Text) : Build (Option Text) := do
  let full ← match short with
    | none => pure name
    | some short =>
      match (← get).handles.lookup short with
      | some stem => pure (stem ++ name)
      | none => throw .badOrder
  return some full

def anchor? : Build (Option Text) := do
  match ← peek with
  | .anchor name =>
    skip
    return some name
  | _ => return none

def kind? : Build (Option (Option Text × Text)) := do
  match ← peek with
  | .kind short name =>
    skip
    return some (short, name)
  | _ => return none

/-- The mark of a value and the name of its kind, in either order. -/
def properties : Build (Option Text × Option Text) := do
  let (anchor, kind) ← match ← anchor? with
    | some anchor => pure (some anchor, ← kind?)
    | none =>
      match ← kind? with
      | some kind => pure (← anchor?, some kind)
      | none => pure (none, none)
  match kind with
  | some (short, name) => return (anchor, ← kindName short name)
  | none => return (anchor, none)

def remember (anchor : Option Text) (node : Node) : Build Node := do
  if let some name := anchor then
    modify fun b => { b with anchors := (name, node) :: b.anchors }
  return node

/-- Refuses a mark that is given twice. Until its value is complete, it stands for nothing. -/
def claim (anchor : Option Text) : Build Unit := do
  if let some name := anchor then
    if ((← get).anchors.lookup name).isSome then throw .badReference
    modify fun b => { b with anchors := (name, Node.empty) :: b.anchors }

/-- How a value stands in the text: between brackets, on lines of its own, or as the value of an
entry, whose items need not be indented. -/
inductive Position where
  | bracketed
  | block
  | entry
  deriving DecidableEq, Repr

def content (node : Position → Build Node) (bound : Nat) (position : Position)
    (anchor kind : Option Text) : Build Node := do
  let isBlock := position ≠ .bracketed
  match ← peek with
  | .dash =>
    if position = .entry then
      claim anchor
      return .list kind (← dashed [.key, .value, .blockEnd] (node .block) bound)
    else missing
  | .scalar text isPlain =>
    skip
    claim anchor
    return .scalar kind text isPlain
  | .openBracket =>
    claim anchor
    skip
    return .list kind (← bracketItems (node .bracketed) bound true)
  | .openBrace =>
    claim anchor
    skip
    return .map kind (← braceEntries (node .bracketed) bound true)
  | .listBlock =>
    if !isBlock then missing
    else
      claim anchor
      skip
      let items ← dashed [.blockEnd] (node .block) bound
      expect .blockEnd
      return .list kind items
  | .mapBlock =>
    if !isBlock then missing
    else
      claim anchor
      skip
      let entries ← blockEntries (node .entry) bound
      expect .blockEnd
      return .map kind entries
  | _ => missing
where
  /-- Nothing, which needs a mark or a kind. -/
  missing : Build Node := do
    if anchor.isNone && kind.isNone then throw .badOrder
    claim anchor
    return .scalar kind [] true

/-- A value. Values are nested less than `bound` deep, and it is also more than the number of their
parts. -/
def node : Nat → Position → Build Node
  | 0, _ => throw .badOrder
  | bound + 1, position => do
    match ← peek with
    | .alias name =>
      skip
      match (← get).anchors.lookup name with
      | some node => return node
      | none => throw .badReference
    | _ =>
      let (anchor, kind) ← properties
      remember anchor (← content (node bound) bound position anchor kind)

/-! ## Documents -/

def skipDocumentEnds : Nat → Build Unit
  | 0 => return
  | bound + 1 => do
    if ← skipIf .documentEnd then skipDocumentEnds bound

/-- Takes in the directives in front of a document, where only the first version is known. -/
def directives : Nat → Bool → List (Text × Text) → Build Unit
  | 0, _, _ => return
  | bound + 1, hasVersion, given => do
    match ← peek with
    | .directive (.version major) =>
      skip
      if hasVersion || (major.dropWhile (· = '0')) ≠ ['1'] then throw .badOrder
      directives bound true given
    | .directive (.handle name stem) =>
      skip
      if (given.lookup name).isSome then throw .badOrder
      directives bound hasVersion ((name, stem) :: given)
    | .directive .other =>
      skip
      directives bound hasVersion given
    | _ => modify fun b => { b with handles := given ++ b.handles }

/-- The start of a document with its directives. Tells whether there is one. -/
def documentStart (bound : Nat) : Build Bool := do
  skipDocumentEnds bound
  if (← peek) = .textEnd then return false
  directives bound false []
  expect .documentStart
  return true

def isDirective : Token → Bool
  | .directive _ => true
  | _ => false

def document (bound : Nat) : Build (Option Node) := do
  let first ← peek
  let isBare := !isDirective first && first ≠ .documentStart && first ≠ .textEnd
  if !isBare then
    if !(← documentStart bound) then return none
  let next ← peek
  let isEmpty := !isBare && (isDirective next
    || [.documentStart, .documentEnd, .textEnd].contains next)
  let value ← if isEmpty then pure Node.empty else node bound .block
  let _ ← skipIf .documentEnd
  if ← documentStart bound then throw .badReference
  return some value

end Build

def defaultHandles : List (Text × Text) :=
  [("!".toList, "!".toList), ("!!".toList, "tag:yaml.org,2002:".toList)]

namespace Node

def ofTokens (t : Tokens) : Except Defect (Option Node) :=
  let start : Building := ⟨t.tokens, t.defect, [], defaultHandles⟩
  (Build.document (t.tokens.length + 2)).run' start

end Node

end GDWorkbench.Configuration
