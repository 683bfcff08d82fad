/-!
The kinds of node in a parse tree. A kind is named after the construct it stands for; `name` is the
name shown wherever a tree is printed.
-/

namespace GDWorkbench

inductive Kind where
  | start | singleClassStmt | staticClassVarStmt | compoundClassStmt | staticFuncDef | annot
  | annotationArgs | passStmt | enumStmt | enumRegular | enumNamed | enumBody | enumElement
  | signalStmt | signalArgs | signalArg | signalArgRegular | signalArgTyped | extendsStmt
  | classnameStmt | classnameExtendsStmt | classVarStmt | classVarEmpty | classVarAssigned
  | classVarTyped | classVarTypedAssgnd | classVarInf | inlinePropertyBody | constStmt
  | constAssigned | constTypedAssigned | constInf | docstrStmt | classDef | propertyBodyDef
  | propertyDelegateSet | propertyDelegateGet | propertyCustomEtter | propertyCustomSetter
  | propertyCustomGetter | propertyCustomGetterArgs | funcDef | abstractFuncDef | funcHeader
  | abstractFuncHeader | funcArgs | funcArg | funcArgVariadic | funcArgRegular | funcArgInf
  | funcArgTyped | singleFuncStmt | compoundFuncStmt | returnStmt | funcVarStmt | funcVarEmpty
  | funcVarAssigned | funcVarTyped | funcVarTypedAssgnd | funcVarInf | breakStmt | breakpointStmt
  | continueStmt | exprStmt | ifStmt | ifBranch | elifBranch | elseBranch | whileStmt | forStmt
  | forStmtTyped | matchStmt | matchBranch | guardedMatchBranch | pattern | listPattern
  | testPattern | orPattern | andPattern | notPattern | compPattern | bitwOrPattern | bitwXorPattern
  | bitwAndPattern | shiftPattern | arithPattern | mdrPattern | negPattern | bitwNotPattern
  | attrPattern | callPattern | atomPattern | parPattern | varCapturePattern | etcPattern
  | wildcardPattern | arrayPattern | dictPattern | dictPatternElement | kvPairPattern | expr
  | assnmntExpr | typeCast | actualTypeCast | testExpr | aslessTestExpr | orTest | aslessOrTest
  | andTest | aslessAndTest | notTest | aslessActualNotTest | aslessNotTest | notInOp | contentTest
  | aslessContentTest | comparison | aslessComparison | bitwOr | aslessBitwOr | bitwXor
  | aslessBitwXor | bitwAnd | aslessBitwAnd | shiftExpr | aslessShiftExpr | arithExpr
  | aslessArithExpr | mdrExpr | aslessMdrExpr | negExpr | aslessActualNegExpr | aslessNegExpr
  | bitwNot | aslessActualBitwNot | aslessBitwNot | powExpr | aslessPowExpr | typeTest
  | aslessTypeTest | awaitExpr | callExpr | standaloneCall | getattrCall | attrExpr | getattr
  | subscrExpr | atom | parExpr | lambda | lambdaHeader | literal | nodePath | stringName | getNode
  | path | uniqueNodePath | array | trailingComma | dict | cDictElement | eqDictElement | string
  | rawString
  deriving DecidableEq, Repr, Inhabited

namespace Kind

def name : Kind → String
  | .start => "start"
  | .singleClassStmt => "single_class_stmt"
  | .staticClassVarStmt => "static_class_var_stmt"
  | .compoundClassStmt => "compound_class_stmt"
  | .staticFuncDef => "static_func_def"
  | .annot => "annotation"
  | .annotationArgs => "annotation_args"
  | .passStmt => "pass_stmt"
  | .enumStmt => "enum_stmt"
  | .enumRegular => "enum_regular"
  | .enumNamed => "enum_named"
  | .enumBody => "enum_body"
  | .enumElement => "enum_element"
  | .signalStmt => "signal_stmt"
  | .signalArgs => "signal_args"
  | .signalArg => "signal_arg"
  | .signalArgRegular => "signal_arg_regular"
  | .signalArgTyped => "signal_arg_typed"
  | .extendsStmt => "extends_stmt"
  | .classnameStmt => "classname_stmt"
  | .classnameExtendsStmt => "classname_extends_stmt"
  | .classVarStmt => "class_var_stmt"
  | .classVarEmpty => "class_var_empty"
  | .classVarAssigned => "class_var_assigned"
  | .classVarTyped => "class_var_typed"
  | .classVarTypedAssgnd => "class_var_typed_assgnd"
  | .classVarInf => "class_var_inf"
  | .inlinePropertyBody => "inline_property_body"
  | .constStmt => "const_stmt"
  | .constAssigned => "const_assigned"
  | .constTypedAssigned => "const_typed_assigned"
  | .constInf => "const_inf"
  | .docstrStmt => "docstr_stmt"
  | .classDef => "class_def"
  | .propertyBodyDef => "property_body_def"
  | .propertyDelegateSet => "property_delegate_set"
  | .propertyDelegateGet => "property_delegate_get"
  | .propertyCustomEtter => "property_custom_etter"
  | .propertyCustomSetter => "property_custom_setter"
  | .propertyCustomGetter => "property_custom_getter"
  | .propertyCustomGetterArgs => "property_custom_getter_args"
  | .funcDef => "func_def"
  | .abstractFuncDef => "abstract_func_def"
  | .funcHeader => "func_header"
  | .abstractFuncHeader => "abstract_func_header"
  | .funcArgs => "func_args"
  | .funcArg => "func_arg"
  | .funcArgVariadic => "func_arg_variadic"
  | .funcArgRegular => "func_arg_regular"
  | .funcArgInf => "func_arg_inf"
  | .funcArgTyped => "func_arg_typed"
  | .singleFuncStmt => "single_func_stmt"
  | .compoundFuncStmt => "compound_func_stmt"
  | .returnStmt => "return_stmt"
  | .funcVarStmt => "func_var_stmt"
  | .funcVarEmpty => "func_var_empty"
  | .funcVarAssigned => "func_var_assigned"
  | .funcVarTyped => "func_var_typed"
  | .funcVarTypedAssgnd => "func_var_typed_assgnd"
  | .funcVarInf => "func_var_inf"
  | .breakStmt => "break_stmt"
  | .breakpointStmt => "breakpoint_stmt"
  | .continueStmt => "continue_stmt"
  | .exprStmt => "expr_stmt"
  | .ifStmt => "if_stmt"
  | .ifBranch => "if_branch"
  | .elifBranch => "elif_branch"
  | .elseBranch => "else_branch"
  | .whileStmt => "while_stmt"
  | .forStmt => "for_stmt"
  | .forStmtTyped => "for_stmt_typed"
  | .matchStmt => "match_stmt"
  | .matchBranch => "match_branch"
  | .guardedMatchBranch => "guarded_match_branch"
  | .pattern => "pattern"
  | .listPattern => "list_pattern"
  | .testPattern => "test_pattern"
  | .orPattern => "or_pattern"
  | .andPattern => "and_pattern"
  | .notPattern => "not_pattern"
  | .compPattern => "comp_pattern"
  | .bitwOrPattern => "bitw_or_pattern"
  | .bitwXorPattern => "bitw_xor_pattern"
  | .bitwAndPattern => "bitw_and_pattern"
  | .shiftPattern => "shift_pattern"
  | .arithPattern => "arith_pattern"
  | .mdrPattern => "mdr_pattern"
  | .negPattern => "neg_pattern"
  | .bitwNotPattern => "bitw_not_pattern"
  | .attrPattern => "attr_pattern"
  | .callPattern => "call_pattern"
  | .atomPattern => "atom_pattern"
  | .parPattern => "par_pattern"
  | .varCapturePattern => "var_capture_pattern"
  | .etcPattern => "etc_pattern"
  | .wildcardPattern => "wildcard_pattern"
  | .arrayPattern => "array_pattern"
  | .dictPattern => "dict_pattern"
  | .dictPatternElement => "dict_pattern_element"
  | .kvPairPattern => "kv_pair_pattern"
  | .expr => "expr"
  | .assnmntExpr => "assnmnt_expr"
  | .typeCast => "type_cast"
  | .actualTypeCast => "actual_type_cast"
  | .testExpr => "test_expr"
  | .aslessTestExpr => "asless_test_expr"
  | .orTest => "or_test"
  | .aslessOrTest => "asless_or_test"
  | .andTest => "and_test"
  | .aslessAndTest => "asless_and_test"
  | .notTest => "not_test"
  | .aslessActualNotTest => "asless_actual_not_test"
  | .aslessNotTest => "asless_not_test"
  | .notInOp => "not_in_op"
  | .contentTest => "content_test"
  | .aslessContentTest => "asless_content_test"
  | .comparison => "comparison"
  | .aslessComparison => "asless_comparison"
  | .bitwOr => "bitw_or"
  | .aslessBitwOr => "asless_bitw_or"
  | .bitwXor => "bitw_xor"
  | .aslessBitwXor => "asless_bitw_xor"
  | .bitwAnd => "bitw_and"
  | .aslessBitwAnd => "asless_bitw_and"
  | .shiftExpr => "shift_expr"
  | .aslessShiftExpr => "asless_shift_expr"
  | .arithExpr => "arith_expr"
  | .aslessArithExpr => "asless_arith_expr"
  | .mdrExpr => "mdr_expr"
  | .aslessMdrExpr => "asless_mdr_expr"
  | .negExpr => "neg_expr"
  | .aslessActualNegExpr => "asless_actual_neg_expr"
  | .aslessNegExpr => "asless_neg_expr"
  | .bitwNot => "bitw_not"
  | .aslessActualBitwNot => "asless_actual_bitw_not"
  | .aslessBitwNot => "asless_bitw_not"
  | .powExpr => "pow_expr"
  | .aslessPowExpr => "asless_pow_expr"
  | .typeTest => "type_test"
  | .aslessTypeTest => "asless_type_test"
  | .awaitExpr => "await_expr"
  | .callExpr => "call_expr"
  | .standaloneCall => "standalone_call"
  | .getattrCall => "getattr_call"
  | .attrExpr => "attr_expr"
  | .getattr => "getattr"
  | .subscrExpr => "subscr_expr"
  | .atom => "atom"
  | .parExpr => "par_expr"
  | .lambda => "lambda"
  | .lambdaHeader => "lambda_header"
  | .literal => "literal"
  | .nodePath => "node_path"
  | .stringName => "string_name"
  | .getNode => "get_node"
  | .path => "path"
  | .uniqueNodePath => "unique_node_path"
  | .array => "array"
  | .trailingComma => "trailing_comma"
  | .dict => "dict"
  | .cDictElement => "c_dict_element"
  | .eqDictElement => "eq_dict_element"
  | .string => "string"
  | .rawString => "rstring"

/-- Kinds that an alternative of another rule names; no rule has their name. -/
def isAlias : Kind → Bool
  | .staticClassVarStmt | .staticFuncDef | .signalArgRegular | .signalArgTyped
  | .propertyCustomSetter | .propertyCustomGetter | .guardedMatchBranch | .parPattern
  | .varCapturePattern | .etcPattern | .wildcardPattern | .standaloneCall | .getattrCall | .parExpr
  | .nodePath | .stringName => true
  | _ => false

end Kind

end GDWorkbench
