import GDWorkbench.Grammar.Production

/-!
The grammar of GDScript. `Kind.alternatives` gives the rules that build nodes and
`Fragment.alternatives` those that hand their pieces to the enclosing rule.

Expressions come in two ladders of precedence. The plain one may start with a cast; the one whose
names begin with `asless` stands to the right of an operator, where a cast has to be bracketed.
-/

open GDWorkbench.Alternative GDWorkbench.Item

namespace GDWorkbench

def Kind.alternatives (k : Kind) : List Alternative :=
  match k with
  | .start =>
    [node k [many .classStmts, .choice [[.part .simpleClassStmt], [.part .annotations], []]]]
  | .singleClassStmt =>
    [collapse k [.node .passStmt], collapse k [.node .enumStmt], collapse k [.node .signalStmt],
     collapse k [.node .extendsStmt], collapse k [.node .classnameExtendsStmt],
     collapse k [.node .classnameStmt], collapse k [.node .classVarStmt],
     node .staticClassVarStmt [.mark .kwStatic, .node .classVarStmt], collapse k [.node .constStmt],
     collapse k [.node .docstrStmt]]
  | .compoundClassStmt =>
    [collapse k [.node .classDef], collapse k [.node .propertyBodyDef], collapse k [.node .funcDef],
     node .staticFuncDef [.mark .kwStatic, .node .funcDef], collapse k [.node .abstractFuncDef]]
  | .annot => [node k [.mark .atSign, .leaf .identifier, opt [.node .annotationArgs]]]
  | .annotationArgs =>
    [node k [.mark .leftParen, opt (entries .testExpr .moreAnnotationArgs), .mark .rightParen]]
  | .passStmt => [node k [.mark .kwPass]]
  | .enumStmt => [node k [.node .enumRegular], node k [.node .enumNamed]]
  | .enumRegular => [node k [.mark .kwEnum, .node .enumBody]]
  | .enumNamed => [node k [.mark .kwEnum, .leaf .identifier, opt [.mark .newline], .node .enumBody]]
  | .enumBody =>
    [node k [.mark .leftBrace, opt (entries .enumElement .moreEnumElements), .mark .rightBrace]]
  | .enumElement => [node k [.leaf .identifier, opt [.mark .equal, .node .typeCast]]]
  | .signalStmt => [node k [.mark .kwSignal, .leaf .identifier, opt [.node .signalArgs]]]
  | .signalArgs =>
    [node k [.mark .leftParen, opt (entries .signalArg .moreSignalArgs), .mark .rightParen]]
  | .signalArg =>
    [node .signalArgRegular [.leaf .identifier],
     node .signalArgTyped [.leaf .identifier, .mark .colon, .leaf .typeHint]]
  | .extendsStmt =>
    [node k [.mark .kwExtends, .choice [[.leaf .identifier], [.node .string]], many .dottedNames]]
  | .classnameStmt => [node k [.mark .kwClassName, .leaf .identifier]]
  | .classnameExtendsStmt =>
    [node k [.leaf .kwClassName, .leaf .identifier, .leaf .kwExtends, .choice [[.leaf .identifier],
       [.node .string]], many .dottedNames]]
  | .classVarStmt =>
    [node k [.node .classVarEmpty], node k [.node .classVarAssigned], node k [.node .classVarTyped],
     node k [.node .classVarTypedAssgnd], node k [.node .classVarInf]]
  | .classVarEmpty => [node k [.mark .kwVar, .leaf .identifier, opt [.node .inlinePropertyBody]]]
  | .classVarAssigned =>
    [node k [.mark .kwVar, .leaf .identifier, .mark .equal, .node .expr,
       opt [.node .inlinePropertyBody]]]
  | .classVarTyped => [node k [.part .varTyped, opt [.node .inlinePropertyBody]]]
  | .classVarTypedAssgnd =>
    [node k [.part .varTyped, .mark .equal, .node .expr, opt [.node .inlinePropertyBody]]]
  | .classVarInf =>
    [node k [.mark .kwVar, .leaf .identifier, .mark .colon, .mark .equal, .node .expr,
       opt [.node .inlinePropertyBody]]]
  | .inlinePropertyBody =>
    [node k [.mark .colon, opt [.node .propertyDelegateSet, opt [.mark .comma,
       .node .propertyDelegateGet]]],
     node k [.mark .colon, .node .propertyDelegateGet, opt [.mark .comma,
       .node .propertyDelegateSet]]]
  | .constStmt =>
    [node k [.node .constAssigned], node k [.node .constTypedAssigned], node k [.node .constInf]]
  | .constAssigned => [node k [.mark .kwConst, .leaf .identifier, .mark .equal, .node .expr]]
  | .constTypedAssigned =>
    [node k [.mark .kwConst, .leaf .identifier, .mark .colon, .leaf .typeHint, .mark .equal,
       .node .expr]]
  | .constInf =>
    [node k [.mark .kwConst, .leaf .identifier, .mark .colon, .mark .equal, .node .expr]]
  | .docstrStmt => [node k [.node .string]]
  | .classDef =>
    [node k [.mark .kwClass, .leaf .identifier, opt [.node .extendsStmt], .mark .colon,
       .choice [[.part .classBody], [.part .classStmt]]]]
  | .propertyBodyDef =>
    [node k [.mark .indent, .part .propertyDelegates, .mark .newline, .mark .dedent],
     node k [.mark .indent, .part .customEtters, .mark .dedent]]
  | .propertyDelegateSet => [node k [.leaf .kwSet, .leaf .equal, .leaf .identifier]]
  | .propertyDelegateGet => [node k [.leaf .kwGet, .leaf .equal, .leaf .identifier]]
  | .propertyCustomEtter =>
    [node .propertyCustomSetter [.leaf .kwSet, .mark .leftParen, .leaf .identifier,
       .mark .rightParen, .mark .colon, .part .funcSuite],
     node .propertyCustomGetter [.leaf .kwGet, opt [.node .propertyCustomGetterArgs], .mark .colon,
       .part .funcSuite]]
  | .propertyCustomGetterArgs => [node k [.mark .leftParen, .mark .rightParen]]
  | .funcDef => [node k [.node .funcHeader, .part .funcSuite]]
  | .abstractFuncDef => [node k [.node .abstractFuncHeader]]
  | .funcHeader =>
    [node k [.mark .kwFunc, .leaf .identifier, .node .funcArgs, opt [.mark .arrow, .leaf .typeHint],
       .mark .colon]]
  | .abstractFuncHeader =>
    [node k [.mark .kwFunc, .leaf .identifier, .node .funcArgs, opt [.mark .arrow,
       .leaf .typeHint]]]
  | .funcArgs =>
    [node k [.mark .leftParen, opt (entries .funcArg .moreFuncArgs), .mark .rightParen]]
  | .funcArg =>
    [collapse k [.node .funcArgVariadic], collapse k [.node .funcArgRegular],
     collapse k [.node .funcArgInf], collapse k [.node .funcArgTyped]]
  | .funcArgVariadic =>
    [node k [.mark .ellipsis, .choice [[.node .funcArgRegular], [.node .funcArgTyped]]]]
  | .funcArgRegular => [node k [.leaf .identifier, opt [.mark .equal, .node .expr]]]
  | .funcArgInf => [node k [.leaf .identifier, .mark .colon, .mark .equal, .node .expr]]
  | .funcArgTyped =>
    [node k [.leaf .identifier, .mark .colon, .leaf .typeHint, opt [.mark .equal, .node .expr]]]
  | .singleFuncStmt =>
    [collapse k [.node .passStmt], collapse k [.node .returnStmt], collapse k [.node .funcVarStmt],
     collapse k [.node .breakStmt], collapse k [.node .breakpointStmt],
     collapse k [.node .continueStmt], collapse k [.node .exprStmt], collapse k [.node .constStmt]]
  | .compoundFuncStmt =>
    [collapse k [.node .ifStmt], collapse k [.node .whileStmt], collapse k [.node .forStmt],
     collapse k [.node .forStmtTyped], collapse k [.node .matchStmt]]
  | .returnStmt => [node k [.mark .kwReturn, opt [.node .expr]]]
  | .funcVarStmt =>
    [node k [.node .funcVarEmpty], node k [.node .funcVarAssigned], node k [.node .funcVarTyped],
     node k [.node .funcVarTypedAssgnd], node k [.node .funcVarInf]]
  | .funcVarEmpty => [node k [.mark .kwVar, .leaf .identifier]]
  | .funcVarAssigned => [node k [.mark .kwVar, .leaf .identifier, .mark .equal, .node .expr]]
  | .funcVarTyped => [node k [.part .varTyped]]
  | .funcVarTypedAssgnd => [node k [.part .varTyped, .mark .equal, .node .expr]]
  | .funcVarInf =>
    [node k [.mark .kwVar, .leaf .identifier, .mark .colon, .mark .equal, .node .expr]]
  | .breakStmt => [node k [.mark .kwBreak]]
  | .breakpointStmt => [node k [.mark .kwBreakpoint]]
  | .continueStmt => [node k [.mark .kwContinue]]
  | .exprStmt => [node k [.node .expr]]
  | .ifStmt =>
    [node k [.node .ifBranch, many .elifBranches, opt [opt [.mark .newline], .node .elseBranch]]]
  | .ifBranch => [node k [.mark .kwIf, .node .expr, .mark .colon, .part .funcSuite]]
  | .elifBranch => [node k [.mark .kwElif, .node .expr, .mark .colon, .part .funcSuite]]
  | .elseBranch => [node k [.mark .kwElse, .mark .colon, .part .funcSuite]]
  | .whileStmt => [node k [.mark .kwWhile, .node .expr, .mark .colon, .part .funcSuite]]
  | .forStmt =>
    [node k [.mark .kwFor, .leaf .identifier, .mark .kwIn, .node .expr, .mark .colon,
       .part .funcSuite]]
  | .forStmtTyped =>
    [node k [.mark .kwFor, .part .forIteratorVarTyped, .mark .kwIn, .node .expr, .mark .colon,
       .part .funcSuite]]
  | .matchStmt => [node k [.mark .kwMatch, .node .expr, .mark .colon, .part .matchBody]]
  | .matchBranch =>
    [collapse k [.node .pattern, .mark .colon, .part .funcSuite],
     node .guardedMatchBranch [.node .pattern, .mark .kwWhen, .node .expr, .mark .colon,
       .part .funcSuite]]
  | .pattern => [node k [.node .listPattern]]
  | .listPattern => [collapse k [.node .testPattern, many .moreTestPatterns]]
  | .testPattern =>
    [collapse k [.node .orPattern, opt [.leaf .kwIf, .node .orPattern, .leaf .kwElse,
       .node .testPattern]]]
  | .orPattern => [collapse k [.node .andPattern, many .orPatterns]]
  | .andPattern => [collapse k [.node .notPattern, many .andPatterns]]
  | .notPattern =>
    [collapse k [.choice [[.leaf .kwNot], [.leaf .bang]], .node .notPattern],
     collapse k [.node .compPattern]]
  | .compPattern => [collapse k [.node .bitwOrPattern, opt [.part .compOp, .node .bitwOrPattern]]]
  | .bitwOrPattern => [collapse k [.node .bitwXorPattern, many .bitwOrPatterns]]
  | .bitwXorPattern => [collapse k [.node .bitwAndPattern, many .bitwXorPatterns]]
  | .bitwAndPattern => [collapse k [.node .shiftPattern, many .bitwAndPatterns]]
  | .shiftPattern => [collapse k [.node .arithPattern, many .shiftPatterns]]
  | .arithPattern => [collapse k [.node .mdrPattern, many .arithPatterns]]
  | .mdrPattern => [collapse k [.node .negPattern, many .mdrPatterns]]
  | .negPattern =>
    [collapse k [.leaf .minus, .node .negPattern], collapse k [.node .bitwNotPattern]]
  | .bitwNotPattern =>
    [collapse k [.leaf .tilde, .node .bitwNotPattern], collapse k [.node .attrPattern]]
  | .attrPattern => [collapse k [.node .callPattern, many .dottedPatterns]]
  | .callPattern =>
    [collapse k [.leaf .identifier, .mark .leftParen, .node .listPattern, .mark .rightParen],
     collapse k [.node .atomPattern]]
  | .atomPattern =>
    [node .parPattern [.mark .leftParen, .node .testPattern, .mark .rightParen],
     node .varCapturePattern [.mark .kwVar, .leaf .identifier], node .etcPattern [.mark .dotDot],
     node .wildcardPattern [.mark .underscore], collapse k [.node .arrayPattern],
     collapse k [.node .dictPattern], collapse k [.leaf .identifier], collapse k [.leaf .hex],
     collapse k [.leaf .bin], collapse k [.node .literal]]
  | .arrayPattern =>
    [node k [.mark .leftBracket, opt (entries .testPattern .moreTestPatterns), .mark .rightBracket]]
  | .dictPattern =>
    [node k [.mark .leftBrace, opt (entries .dictPatternElement .moreDictPatterns),
       .mark .rightBrace]]
  | .dictPatternElement => [collapse k [.node .kvPairPattern], collapse k [.node .atomPattern]]
  | .kvPairPattern => [node k [.node .testPattern, .mark .colon, .node .testPattern]]
  | .expr => [node k [.node .typeCast], node k [.node .assnmntExpr]]
  | .assnmntExpr => [node k [.node .attrExpr, .part .assnmntOp, .node .typeCast]]
  | .typeCast => [collapse k [.node .testExpr], collapse k [.node .actualTypeCast]]
  | .actualTypeCast => [collapse k [.node .testExpr, .part .casts]]
  | .testExpr =>
    [collapse k [.node .orTest, opt [.leaf .kwIf, .node .aslessOrTest, .leaf .kwElse,
       .node .aslessTestExpr]],
     collapse k [.node .actualTypeCast, .leaf .kwIf, .node .aslessOrTest, .leaf .kwElse,
       .node .aslessTestExpr]]
  | .aslessTestExpr =>
    [collapse k [.node .aslessOrTest, opt [.leaf .kwIf, .node .aslessOrTest, .leaf .kwElse,
       .node .aslessTestExpr]]]
  | .orTest =>
    [collapse k [.node .andTest, many .orTests], collapse k [.node .actualTypeCast, .part .orTests]]
  | .aslessOrTest => [collapse k [.node .aslessAndTest, many .orTests]]
  | .andTest =>
    [collapse k [.node .notTest, many .andTests],
     collapse k [.node .actualTypeCast, .part .andTests]]
  | .aslessAndTest => [collapse k [.node .aslessNotTest, many .andTests]]
  | .notTest => [collapse k [.node .contentTest], collapse k [.node .aslessActualNotTest]]
  | .aslessActualNotTest =>
    [collapse k [.choice [[.leaf .kwNot], [.leaf .bang]], .node .aslessNotTest]]
  | .aslessNotTest =>
    [collapse k [.node .aslessContentTest], collapse k [.node .aslessActualNotTest]]
  | .notInOp => [node k [.mark .kwNot, .mark .kwIn]]
  | .contentTest =>
    [collapse k [.node .comparison, many .contentTests],
     collapse k [.node .actualTypeCast, .part .contentTests]]
  | .aslessContentTest => [collapse k [.node .aslessComparison, many .contentTests]]
  | .comparison =>
    [collapse k [.node .bitwOr, opt [.part .compOp, .node .aslessBitwOr]],
     collapse k [.node .actualTypeCast, .part .compOp, .node .aslessBitwOr]]
  | .aslessComparison =>
    [collapse k [.node .aslessBitwOr, opt [.part .compOp, .node .aslessBitwOr]]]
  | .bitwOr =>
    [collapse k [.node .bitwXor, many .bitwOrs], collapse k [.node .actualTypeCast, .part .bitwOrs]]
  | .aslessBitwOr => [collapse k [.node .aslessBitwXor, many .bitwOrs]]
  | .bitwXor =>
    [collapse k [.node .bitwAnd, many .bitwXors],
     collapse k [.node .actualTypeCast, .part .bitwXors]]
  | .aslessBitwXor => [collapse k [.node .aslessBitwAnd, many .bitwXors]]
  | .bitwAnd =>
    [collapse k [.node .shiftExpr, many .bitwAnds],
     collapse k [.node .actualTypeCast, .part .bitwAnds]]
  | .aslessBitwAnd => [collapse k [.node .aslessShiftExpr, many .bitwAnds]]
  | .shiftExpr =>
    [collapse k [.node .arithExpr, many .shifts], collapse k [.node .actualTypeCast, .part .shifts]]
  | .aslessShiftExpr => [collapse k [.node .aslessArithExpr, many .shifts]]
  | .arithExpr =>
    [collapse k [.node .mdrExpr, many .ariths], collapse k [.node .actualTypeCast, .part .ariths]]
  | .aslessArithExpr => [collapse k [.node .aslessMdrExpr, many .ariths]]
  | .mdrExpr =>
    [collapse k [.node .negExpr, many .mdrs], collapse k [.node .actualTypeCast, .part .mdrs]]
  | .aslessMdrExpr => [collapse k [.node .aslessNegExpr, many .mdrs]]
  | .negExpr => [collapse k [.node .bitwNot], collapse k [.node .aslessActualNegExpr]]
  | .aslessActualNegExpr => [collapse k [.leaf .minus, .node .aslessNegExpr]]
  | .aslessNegExpr => [collapse k [.node .aslessBitwNot], collapse k [.node .aslessActualNegExpr]]
  | .bitwNot => [collapse k [.node .powExpr], collapse k [.node .aslessActualBitwNot]]
  | .aslessActualBitwNot => [collapse k [.leaf .tilde, .node .aslessBitwNot]]
  | .aslessBitwNot => [collapse k [.node .aslessPowExpr], collapse k [.node .aslessActualBitwNot]]
  | .powExpr =>
    [collapse k [.node .typeTest, many .powers], collapse k [.node .actualTypeCast, .part .powers]]
  | .aslessPowExpr => [collapse k [.node .aslessTypeTest, many .powers]]
  | .typeTest =>
    [collapse k [.node .awaitExpr, many .typeTests],
     collapse k [.node .actualTypeCast, .part .typeTests]]
  | .aslessTypeTest => [collapse k [.node .awaitExpr, many .typeTests]]
  | .awaitExpr => [collapse k [many .awaits, .node .callExpr]]
  | .callExpr =>
    [collapse k [.node .attrExpr],
     node .standaloneCall [.choice [[.leaf .identifier], [.leaf .kwGet], [.leaf .kwSet]],
       .part .callArglist],
     node .getattrCall [.node .getattr, .part .callArglist]]
  | .attrExpr => [collapse k [.node .subscrExpr], collapse k [.node .getattr]]
  | .getattr => [node k [.node .callExpr, .part .attrs]]
  | .subscrExpr =>
    [collapse k [.node .callExpr, .mark .leftBracket, .node .typeCast, .mark .rightBracket],
     collapse k [.part .plusAtom]]
  | .atom =>
    [node .parExpr [.mark .leftParen, .node .typeCast, .mark .rightParen],
     collapse k [.node .array], collapse k [.node .dict], collapse k [.leaf .identifier],
     collapse k [.leaf .hex], collapse k [.leaf .bin], collapse k [.node .lambda],
     collapse k [.node .literal]]
  | .lambda => [node k [.node .lambdaHeader, .part .lambdaSuite]]
  | .lambdaHeader =>
    [node k [.mark .kwFunc, opt [.leaf .identifier], .node .funcArgs, opt [.mark .arrow,
       .leaf .typeHint], .mark .colon]]
  | .literal =>
    [collapse k [.leaf .number], collapse k [.node .string], collapse k [.node .rawString],
     collapse k [.node .getNode], node .nodePath [.mark .caret, .node .string],
     node .stringName [.mark .ampersand, .node .string], collapse k [.node .uniqueNodePath]]
  | .getNode =>
    [node k [.mark .dollar, .choice [[.node .path], [.node .string], [.node .uniqueNodePath]]]]
  | .path => [node k [opt [.leaf .slash], .leaf .identifier, many .pathSteps]]
  | .uniqueNodePath => [node k [.leaf .percent, .choice [[.node .path], [.leaf .regularString]]]]
  | .array =>
    [node k [.mark .leftBracket, opt (entries .typeCast .moreArguments), .mark .rightBracket]]
  | .trailingComma => [node k [.mark .comma]]
  | .dict =>
    [node k [.mark .leftBrace, opt (entries .cDictElement .moreColonEntries), .mark .rightBrace],
     node k [.mark .leftBrace, .node .eqDictElement, many .moreEqualEntries,
       opt [.node .trailingComma], .mark .rightBrace]]
  | .cDictElement => [node k [.node .typeCast, .mark .colon, .node .typeCast]]
  | .eqDictElement => [node k [.leaf .identifier, .mark .equal, .node .typeCast]]
  | .string => [node k [.leaf .longString], node k [.leaf .regularString]]
  | .rawString => [node k [.leaf .longRawString], node k [.leaf .rawString]]
  | _ => []

def Fragment.alternatives (f : Fragment) : List Alternative :=
  match f with
  | .classStmt =>
    [splice [.part .simpleClassStmt, .mark .newline],
     splice [many .annotations, .node .compoundClassStmt],
     splice [many .annotations, .mark .newline]]
  | .simpleClassStmt =>
    [splice [many .annotations, .node .singleClassStmt, many .moreClassStmts,
       opt [.mark .semicolon]]]
  | .varTyped => [splice [.mark .kwVar, .leaf .identifier, .mark .colon, .leaf .typeHint]]
  | .forIteratorVarTyped => [splice [.leaf .identifier, .mark .colon, .leaf .typeHint]]
  | .classBody =>
    [splice [.mark .newline, .mark .indent, .choice [[.part .classStmts], [many .classStmts,
       .choice [[.part .simpleClassStmt], [.part .annotations]]]], .mark .dedent]]
  | .propertyDelegates =>
    [splice [.node .propertyDelegateSet, opt [.mark .comma, opt [.mark .newline],
       .node .propertyDelegateGet]],
     splice [.node .propertyDelegateGet, opt [.mark .comma, opt [.mark .newline],
       .node .propertyDelegateSet]]]
  | .funcSuite => [splice [.part .funcBody, .mark .newline], splice [.part .funcStmt]]
  | .funcBody =>
    [splice [.mark .newline, .mark .indent, .choice [[.part .funcStmts], [many .funcStmts,
       .choice [[.part .simpleFuncStmt], [.part .annotations]]]], .mark .dedent]]
  | .funcStmt =>
    [splice [.part .simpleFuncStmt, .mark .newline],
     splice [many .annotations, .node .compoundFuncStmt],
     splice [many .annotations, .mark .newline]]
  | .simpleFuncStmt =>
    [splice [many .annotations, .node .singleFuncStmt, many .moreFuncStmts, opt [.mark .semicolon]]]
  | .matchBody => [splice [.mark .newline, .mark .indent, .part .matchBranches, .mark .dedent]]
  | .assnmntOp =>
    [splice [.leaf .equal], splice [.leaf .plusAssign], splice [.leaf .minusAssign],
     splice [.leaf .starAssign], splice [.leaf .slashAssign], splice [.leaf .percentAssign],
     splice [.leaf .ampersandAssign], splice [.leaf .barAssign], splice [.leaf .caretAssign],
     splice [.leaf .shiftRightAssign], splice [.leaf .shiftLeftAssign], splice [.leaf .powerAssign]]
  | .contentTestOp => [splice [.node .notInOp], splice [.leaf .kwIn]]
  | .compOp =>
    [splice [.leaf .greater], splice [.leaf .less], splice [.leaf .equalEqual],
     splice [.leaf .bangEqual], splice [.leaf .lessEqual], splice [.leaf .greaterEqual]]
  | .callArglist =>
    [splice [.mark .leftParen, opt (entries .typeCast .moreArguments), .mark .rightParen]]
  | .attr => [splice [.leaf .dot, .choice [[.leaf .identifier], [.leaf .kwGet], [.leaf .kwSet]]]]
  | .plusAtom => [splice [opt [.mark .plus], .node .atom]]
  | .lambdaSuite => [splice [.part .lambdaBody], splice [.part .standaloneLambdaStmt]]
  | .lambdaBody => [splice [.mark .newline, .mark .indent, .part .funcStmts, .mark .dedent]]
  | .standaloneLambdaStmt =>
    [splice [.part .simpleFuncStmt], splice [many .annotations, .node .compoundFuncStmt],
     splice [many .annotations]]
  | .classStmts => repeated f [.part .classStmt]
  | .annotations => repeated f [.node .annot]
  | .moreClassStmts => repeated f [.mark .semicolon, many .annotations, .node .singleClassStmt]
  | .moreAnnotationArgs => repeated f [.mark .comma, .node .testExpr]
  | .moreEnumElements => repeated f [.mark .comma, .node .enumElement]
  | .moreSignalArgs => repeated f [.mark .comma, .node .signalArg]
  | .dottedNames => repeated f [.mark .dot, .leaf .identifier]
  | .customEtters => repeated f [.node .propertyCustomEtter]
  | .moreFuncArgs => repeated f [.mark .comma, .node .funcArg]
  | .funcStmts => repeated f [.part .funcStmt]
  | .moreFuncStmts => repeated f [.mark .semicolon, many .annotations, .node .singleFuncStmt]
  | .elifBranches => repeated f [opt [.mark .newline], .node .elifBranch]
  | .matchBranches => repeated f [.node .matchBranch]
  | .moreTestPatterns => repeated f [.mark .comma, .node .testPattern]
  | .orPatterns => repeated f [.choice [[.leaf .kwOr], [.leaf .barBar]], .node .andPattern]
  | .andPatterns => repeated f [.choice [[.leaf .kwAnd], [.leaf .ampersands]], .node .notPattern]
  | .bitwOrPatterns => repeated f [.leaf .bar, .node .bitwXorPattern]
  | .bitwXorPatterns => repeated f [.leaf .caret, .node .bitwAndPattern]
  | .bitwAndPatterns => repeated f [.leaf .ampersand, .node .shiftPattern]
  | .shiftPatterns =>
    repeated f [.choice [[.leaf .shiftLeft], [.leaf .shiftRight]], .node .arithPattern]
  | .arithPatterns => repeated f [.choice [[.leaf .minus], [.leaf .plus]], .node .mdrPattern]
  | .mdrPatterns =>
    repeated f [.choice [[.leaf .star], [.leaf .slash], [.leaf .percent]], .node .negPattern]
  | .dottedPatterns => repeated f [.leaf .dot, .node .callPattern]
  | .moreDictPatterns => repeated f [.mark .comma, .node .dictPatternElement]
  | .casts => repeated f [.leaf .kwAs, .leaf .typeHint]
  | .orTests => repeated f [.choice [[.leaf .kwOr], [.leaf .barBar]], .node .aslessAndTest]
  | .andTests => repeated f [.choice [[.leaf .kwAnd], [.leaf .ampersands]], .node .aslessNotTest]
  | .contentTests => repeated f [.part .contentTestOp, .node .aslessComparison]
  | .bitwOrs => repeated f [.leaf .bar, .node .aslessBitwXor]
  | .bitwXors => repeated f [.leaf .caret, .node .aslessBitwAnd]
  | .bitwAnds => repeated f [.leaf .ampersand, .node .aslessShiftExpr]
  | .shifts =>
    repeated f [.choice [[.leaf .shiftLeft], [.leaf .shiftRight]], .node .aslessArithExpr]
  | .ariths => repeated f [.choice [[.leaf .minus], [.leaf .plus]], .node .aslessMdrExpr]
  | .mdrs =>
    repeated f [.choice [[.leaf .star], [.leaf .slash], [.leaf .percent]], .node .aslessNegExpr]
  | .powers => repeated f [.leaf .power, .node .aslessTypeTest]
  | .typeTests => repeated f [.choice [[.leaf .kwIs], [.leaf .isNot]], .leaf .typeHint]
  | .awaits => repeated f [.leaf .kwAwait]
  | .moreArguments => repeated f [.mark .comma, .node .typeCast]
  | .attrs => repeated f [.part .attr]
  | .pathSteps => repeated f [.leaf .slash, opt [.leaf .percent], .leaf .identifier]
  | .moreColonEntries => repeated f [.mark .comma, .node .cDictElement]
  | .moreEqualEntries => repeated f [.mark .comma, .node .eqDictElement]

namespace Nonterminal

def alternatives : Nonterminal → List Alternative
  | .node k => k.alternatives
  | .part f => f.alternatives

def productions (n : Nonterminal) : List Production :=
  n.alternatives.flatMap Alternative.productions

end Nonterminal

end GDWorkbench
