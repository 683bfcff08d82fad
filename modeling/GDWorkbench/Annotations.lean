import GDWorkbench.Tree

/-!
Annotations. Some are about the whole file or about all that follows; the others belong to the next
statement.
-/

namespace GDWorkbench.Annotations

def standaloneNames : List String :=
  ["abstract", "export_category", "export_group", "export_subgroup", "icon", "tool",
   "warning_ignore_start", "warning_ignore_restore"]

def statementWarnings : List String :=
  ["unassigned_variable", "unassigned_variable_op_assign", "unused_parameter",
   "shadowed_global_identifier", "shadowed_variable", "shadowed_variable_base_class",
   "unreachable_code", "unreachable_pattern", "standalone_expression", "standalone_ternary",
   "incompatible_ternary", "untyped_declaration", "inferred_declaration", "unsafe_property_access",
   "unsafe_method_access", "unsafe_cast", "unsafe_call_argument", "unsafe_void_return",
   "return_value_discarded", "static_called_on_instance", "redundant_await", "assert_always_true",
   "assert_always_false", "integer_division", "narrowing_conversion", "int_as_enum_without_cast",
   "int_as_enum_without_match", "enum_variable_without_default", "deprecated_keyword",
   "confusable_identifier", "confusable_local_declaration", "confusable_local_usage",
   "confusable_capture_reassignment", "inference_on_variant", "native_method_override"]

def isAmong (names : List String) (name : Text) : Bool :=
  names.any fun n => n.toList = name

def name (t : Tree) : Except Fault Text :=
  t.word 0

def isNamed (word : String) (t : Tree) : Bool :=
  match name t with
  | .ok n => n = word.toList
  | .error _ => false

/-- The warning that an annotation ignores: its first argument without quotation marks. -/
def ignoredWarning (t : Tree) : Except Fault Text := do
  let argument ← (← t.part 1).part 0
  return Text.trimChar '"' (← argument.word 0)

def belongsToNext (t : Tree) : Except Fault Bool :=
  if !t.isKind .annot then .ok false
  else do
    let n ← name t
    if isAmong standaloneNames n then return false
    if n ≠ "warning_ignore".toList then return true
    return isAmong statementWarnings (← ignoredWarning t)

def belongsToNextIn (inFunction : Bool) (t : Tree) : Except Fault Bool := do
  if ← belongsToNext t then return !(inFunction && isNamed "warning_ignore" t) else return false

def makesAbstract (t : Tree) : Option Tree → Bool
  | none => false
  | some following =>
    t.isKind .annot && isNamed "abstract" t
      && (following.isKind .abstractFuncDef || following.isKind .classnameStmt
        || following.isKind .classDef)

end GDWorkbench.Annotations
