import GDWorkbench.Grammar.Kind

/-!
What can go wrong with a tree that was parsed: most passes know only some kinds of node, and count on
their parts. A pass that meets a tree it was not made for stops with one of these.
-/

namespace GDWorkbench

inductive Fault where
  /-- The pass has no rule for this kind of node. -/
  | unknownKind (kind : Kind)
  /-- A name that should be listed is not. -/
  | unknownName
  /-- A part that should be there is not. -/
  | missingPart
  /-- A part is a token where a node should be, or the other way round. -/
  | wrongPart
  /-- The pass knows the construct and does not handle it. -/
  | unsupported
  /-- Something that the pass takes for granted does not hold. -/
  | unmet
  /-- A value does not fit, such as none where a number is needed. -/
  | wrongValue
  | zeroIndent
  | badNumber
  | noEntries
  | badPattern
  /-- Flags of a name pattern that exclude each other. -/
  | clashingFlags
  | tooLarge
  | noClass
  /-- The bound on the depth of a tree was too small. -/
  | tooDeep
  deriving DecidableEq, Repr

end GDWorkbench
