import GDWorkbench.Grammar.Production

/-!
The rows of the parsing automaton: which terminals a state can shift, which productions it can complete
before which terminal, and where it goes on once a production is complete. Many rows have entries in
common.
-/

namespace GDWorkbench.Automaton

/-- The production of `head` with index `index` is complete before a terminal of the set
`lookahead`. -/
structure Reduction where
  head : Nonterminal
  index : Nat
  lookahead : Nat
  deriving DecidableEq, Repr, Inhabited

def Reduction.node (k : Kind) (index lookahead : Nat) : Reduction := ⟨.node k, index, lookahead⟩

def Reduction.part (f : Fragment) (index lookahead : Nat) : Reduction := ⟨.part f, index, lookahead⟩

structure Row where
  shifts : List (Terminal × Nat)
  reductions : List Reduction
  nodes : List (Kind × Nat)
  parts : List (Fragment × Nat)
  deriving Inhabited

/-- The row of a state in which nothing can begin but what a terminal begins. -/
def Row.on (shifts : List (Terminal × Nat)) (reductions : List Reduction := []) : Row :=
  ⟨shifts, reductions, [], []⟩

/-- The row of a state that does nothing but complete a production. -/
def Row.complete (head : Nonterminal) (index lookahead : Nat) : Row :=
  ⟨[], [⟨head, index, lookahead⟩], [], []⟩

def Row.node (k : Kind) : Nat → Nat → Row := complete (.node k)

def Row.part (f : Fragment) : Nat → Nat → Row := complete (.part f)

def ahead0 : List Terminal :=
  [.equalEqual, .bangEqual, .lessEqual, .greaterEqual, .less, .greater]

def ahead1 : List Terminal :=
  [.kwIf, .percent, .slash, .star]

def ahead2 : List Terminal :=
  [.shiftRightAssign, .shiftLeftAssign, .powerAssign, .slashAssign, .percentAssign,
  .ampersandAssign, .barAssign, .caretAssign, .plusAssign, .minusAssign, .starAssign]

def ahead3 : List Terminal :=
  .semicolon :: ahead2

def ahead4 : List Terminal :=
  [.longString, .regularString, .kwConst, .kwFunc, .kwPass, .kwVar, .atSign]

def ahead5 : List Terminal :=
  [.endOfText, .newline, .dedent]

def ahead6 : List Terminal :=
  [.isNot, .kwIn, .kwIs, .power, .dot, .bar]

def ahead7 : List Terminal :=
  [.shiftLeft, .shiftRight, .ampersand, .caret, .minus, .plus]

def ahead8 : List Terminal :=
  [.kwClassName, .kwExtends, .kwSignal, .kwStatic, .kwClass, .kwEnum]

def ahead9 : List Terminal :=
  [.hex, .bin, .number, .longRawString, .longString, .rawString, .identifier, .regularString,
  .ampersand, .caret, .dollar, .leftBrace, .leftParen, .leftBracket, .percent]

def ahead10 : List Terminal :=
  [.kwElse, .colon, .comma, .rightBrace, .rightParen, .rightBracket]

def ahead11 : List Terminal :=
  [Terminal.endOfText, .kwAs, .comma, .rightBrace, .rightParen, .rightBracket, .dedent] ++ ahead3

def ahead12 : List Terminal :=
  .kwNot :: .leftBracket :: ahead6

def ahead13 : List Terminal :=
  .kwAnd :: .kwOr :: .barBar :: .ampersands :: ahead0

def ahead14 : List Terminal :=
  [Terminal.hex, .bin, .number, .longRawString, .rawString, .identifier, .kwBreakpoint, .kwContinue,
  .kwReturn, .kwAwait, .kwBreak, .kwMatch, .kwWhile, .kwFor, .kwGet, .kwNot, .kwSet, .bang, .dollar,
  .leftBrace, .leftBracket, .tilde] ++ ahead4

def ahead15 : List Terminal :=
  ahead13 ++ ahead7 ++ ahead1

def ahead16 : List Terminal :=
  .newline :: .kwElse :: .colon :: .equal :: ahead11

def lookaheads : List (List Terminal) :=
  [[[.endOfText]],[[.leftParen, .indent],ahead16,ahead15,ahead14,ahead8,ahead6],[ahead5],
  [[.semicolon],ahead5],[[.kwWhen],ahead16,ahead15,ahead12],[ahead16,ahead15,ahead12],
  [[.indent],ahead8,ahead5,ahead4],[[.indent],ahead16,ahead15,ahead14,ahead8,ahead6],
  [[.colon, .semicolon],ahead5],[[.leftParen, .indent, .kwElif, .dotDot, .underscore],ahead16,
  ahead15,ahead14,ahead8,ahead6],[[.leftParen, .kwElif, .dotDot, .underscore],ahead16,ahead15,
  ahead14,ahead8,ahead6],[[.colon, .equal, .leftParen, .indent, .dotDot, .underscore],ahead15,
  ahead14,ahead11,ahead8,ahead6],[[.kwAs, .equal],ahead15,ahead12,ahead10,ahead5,ahead2],
  [[.kwAs, .semicolon],ahead15,ahead12,ahead10,ahead5],[[.isNot, .kwNot, .kwIn, .kwIs, .power,
  .bar],ahead16,ahead15],[[.kwElse, .shiftLeft, .shiftRight, .colon, .equal, .slash, .star],
  ahead13,ahead11,ahead6],[[.equal],ahead15,ahead12,ahead10,ahead5,ahead3],[[.dot,
  .leftBracket],ahead16],[[.percent, .slash, .star],ahead16,ahead13,ahead12,ahead7],[[.kwAnd,
  .ampersands],ahead16,ahead12,ahead7,ahead1,ahead0],[[.kwOr, .barBar],ahead16,ahead12,
  ahead7,ahead1,ahead0],[[.isNot, .kwIs, .power, .dot, .leftBracket, .bar],ahead16,ahead15],
  [[.kwAnd, .kwOr, .barBar, .ampersands],ahead16,ahead12,ahead7,ahead1],[[.isNot, .kwNot,
  .kwIn, .kwIs, .power, .dot, .leftBracket],ahead16,ahead15],[[.shiftLeft, .shiftRight,
  .ampersand, .minus, .plus],ahead16,ahead13,ahead12,ahead1],[[.shiftLeft, .shiftRight, .caret,
  .minus, .plus],ahead16,ahead13,ahead12,ahead1],[[.ampersand, .caret, .minus, .plus],ahead16,
  ahead13,ahead12,ahead1],[[.shiftLeft, .shiftRight, .ampersand, .caret],ahead16,ahead13,
  ahead12,ahead1],[[.kwIf],ahead16,ahead13,ahead12,ahead7],[[.isNot, .kwNot, .kwIn, .kwIs,
  .dot, .leftBracket, .bar],ahead16,ahead15],[[.kwNot, .kwIn, .power, .dot, .leftBracket, .bar],
  ahead16,ahead15],[[.kwAwait, .kwFunc, .kwGet, .kwSet, .plus],ahead9],[[.newline, .kwElse,
  .colon],ahead15,ahead12,ahead11],[[.kwIf, .shiftLeft, .shiftRight, .slash, .star],ahead16,
  ahead13,ahead6],[[.kwGet, .kwSet, .dedent]],[[.newline]],[[.comma, .rightBrace]],[[.kwAwait,
  .kwFunc, .kwGet, .kwNot, .kwSet, .bang, .minus, .plus, .tilde],ahead9],[[.isNot, .kwNot, .kwIn,
  .kwIs, .power, .leftParen, .leftBracket, .bar],ahead16,ahead15],[[.leftParen],ahead16,
  ahead15,ahead12],[[.kwIf, .percent, .star, .kwWhen],ahead16,ahead13,ahead12,ahead7],
  [[.shiftLeft, .shiftRight, .slash, .star],ahead16,ahead13,ahead6],[[.kwAs, .colon],ahead15,
  ahead12],[[.kwAwait, .kwFunc, .kwGet, .kwSet, .kwVar, .minus, .plus, .tilde, .dotDot,
  .underscore],ahead9],[[.kwAwait, .kwFunc, .kwGet, .kwSet, .minus, .plus, .tilde],ahead9],
  [[.newline, .kwElse],ahead15,ahead12,ahead11],[[.colon, .dot, .semicolon],ahead5],[[.comma,
  .rightParen]],[[.rightBrace]],[[.newline, .kwIf, .ampersand, .caret, .leftParen, .minus,
  .percent, .plus],ahead14],[[.colon, .indent, .arrow],ahead8,ahead5,ahead4],[[.newline,
  .kwIf, .ampersand, .caret, .leftParen, .minus, .percent, .plus, .dedent],ahead14],[[.leftParen],
  ahead16,ahead15,ahead14,ahead6],[[.rightParen, .rightBracket]],[[.comma, .semicolon],
  ahead5],[[.colon]],[ahead8,ahead5,ahead4],[[.rightParen]],[[.kwIn]],[[.comma, .rightParen,
  .rightBracket]],[[.kwNot, .kwVar, .bang, .minus, .tilde, .dedent, .dotDot, .underscore],ahead9],
  [[.colon, .kwWhen]],[[.colon, .rightParen, .kwWhen]],[[.colon, .comma, .rightBrace, .rightParen,
  .rightBracket, .kwWhen]],[[.kwIf, .kwWhen],ahead10],[[.kwIf, .kwOr, .barBar, .kwWhen],
  ahead10],[[.kwAnd, .kwIf, .kwOr, .barBar, .ampersands, .kwWhen],ahead10],[[.kwIf, .kwWhen],
  ahead13,ahead10],[[.kwIf, .bar, .kwWhen],ahead13,ahead10],[[.kwIf, .caret, .bar, .kwWhen],
  ahead13,ahead10],[[.kwIf, .ampersand, .caret, .bar, .kwWhen],ahead13,ahead10],[[.kwIf,
  .shiftLeft, .shiftRight, .ampersand, .caret, .bar, .kwWhen],ahead13,ahead10],[[.kwIf, .bar,
  .kwWhen],ahead13,ahead10,ahead7],[[.bar, .kwWhen],ahead15,ahead10],[[.dot, .bar, .kwWhen],
  ahead15,ahead10],[[.colon, .dot, .bar],ahead15],[[.colon, .comma, .rightParen, .rightBracket,
  .kwWhen]],[[.rightBracket]]].map List.flatten

def shifts0 : List (Terminal × Nat) :=
  [(.longString,19),(.regularString,20)]

def shifts1 : List (Terminal × Nat) :=
  [(.equalEqual,317),(.bangEqual,318),(.lessEqual,319),(.greaterEqual,320),(.less,316),
  (.greater,315)]

def shifts2 : List (Terminal × Nat) :=
  [(Terminal.isNot,303),(.kwAnd,325),(.kwNot,324),(.kwIf,289),(.kwIn,323),(.kwIs,302),(.kwOr,
  327),(.barBar,328),(.power,304),(.ampersands,326),(.shiftLeft,310),(.shiftRight,311),
  (.ampersand,312),(.caret,313),(.minus,308),(.percent,307),(.plus,309),(.slash,306),
  (.star,305),(.bar,314)] ++ shifts1

def shifts3 : List (Terminal × Nat) :=
  [(.hex,766),(.bin,767),(.identifier,758),(.kwVar,761),(.dotDot,762),(.leftBrace,769),
  (.leftParen,760),(.leftBracket,770),(.underscore,763)]

def shifts4 : List (Terminal × Nat) :=
  [(.kwNot,743),(.bang,744)]

def shifts5 : List (Terminal × Nat) :=
  [(.kwStatic,15),(.kwClass,50),(.kwFunc,47),(.indent,49)]

def shifts6 : List (Terminal × Nat) :=
  [(.hex,120),(.bin,121),(.kwFunc,136),(.kwGet,112),(.kwSet,113),(.leftBrace,137),
  (.leftParen,117),(.leftBracket,138),(.plus,115)]

def shifts7 : List (Terminal × Nat) :=
  [(.kwConst,24),(.kwPass,38),(.atSign,6),(.kwBreakpoint,167),(.kwContinue,166),
  (.kwReturn,176),(.kwBreak,168),(.kwVar,174)]

def shifts8 : List (Terminal × Nat) :=
  [(.kwNot,146),(.bang,147)]

def shifts9 : List (Terminal × Nat) :=
  [(Terminal.number,124),(.longRawString,133),(.rawString,134),(.ampersand,129),(.caret,128),
  (.dollar,132),(.percent,131)] ++ shifts0

def shifts10 : List (Terminal × Nat) :=
  [(Terminal.kwClassName,32),(.kwExtends,33),(.kwSignal,34),(.kwConst,24),(.kwEnum,37),(.kwPass,
  38),(.kwVar,30),(.atSign,6)] ++ shifts0

def shifts11 : List (Terminal × Nat) :=
  (.kwMatch,90) :: (.kwWhile,92) :: (.kwFor,91) :: (.kwIf,94) :: shifts8 ++ shifts7

def shifts12 : List (Terminal × Nat) :=
  (.minus,753) :: (.tilde,755) :: shifts9 ++ shifts3

def shifts13 : List (Terminal × Nat) :=
  (.identifier,111) :: (.kwAwait,165) :: (.minus,158) :: (.tilde,161) :: shifts9 ++ shifts6

def shifts14 : List (Terminal × Nat) :=
  shifts13 ++ shifts11

def shifts15 : List (Terminal × Nat) :=
  (.newline,84) :: shifts14

def shifts16 : List (Terminal × Nat) :=
  shifts13 ++ shifts8

def shifts17 : List (Terminal × Nat) :=
  shifts12 ++ shifts4

def nodes0 : List (Kind × Nat) :=
  [(.callExpr,110),(.attrExpr,261),(.awaitExpr,348)]

def nodes1 : List (Kind × Nat) :=
  [(.lambda,122),(.lambdaHeader,135),(.literal,123),(.getNode,127),(.uniqueNodePath,130),
  (.array,118),(.dict,119),(.string,125),(.rawString,126)]

def nodes2 : List (Kind × Nat) :=
  [(.funcArgVariadic,416),(.funcArgRegular,417),(.funcArgInf,418),(.funcArgTyped,419)]

def nodes3 : List (Kind × Nat) :=
  [(.mdrPattern,751),(.negPattern,752)]

def nodes4 : List (Kind × Nat) :=
  [(.aslessBitwXor,337),(.aslessBitwAnd,338)]

def nodes5 : List (Kind × Nat) :=
  [(.aslessAndTest,479),(.aslessNotTest,480)]

def nodes6 : List (Kind × Nat) :=
  [(.classVarEmpty,25),(.classVarAssigned,26),(.classVarTyped,27),(.classVarTypedAssgnd,28),
  (.classVarInf,29)]

def nodes7 : List (Kind × Nat) :=
  [(.aslessMdrExpr,341),(.aslessNegExpr,342)]

def nodes8 : List (Kind × Nat) :=
  [(.singleClassStmt,57),(.compoundClassStmt,55),(.annot,58)]

def nodes9 : List (Kind × Nat) :=
  [(.bitwNotPattern,754),(.attrPattern,756),(.callPattern,757),(.testPattern,827),
  (.atomPattern,826),(.kvPairPattern,825)]

def nodes10 : List (Kind × Nat) :=
  [(.singleClassStmt,7),(.compoundClassStmt,40),(.annot,5)]

def nodes11 : List (Kind × Nat) :=
  (.shiftPattern,749) :: (.arithPattern,750) :: nodes3

def nodes12 : List (Kind × Nat) :=
  [(.ifStmt,85),(.ifBranch,93),(.whileStmt,86),(.forStmt,87),(.forStmtTyped,88),
  (.matchStmt,89)]

def nodes13 : List (Kind × Nat) :=
  [(.orPattern,740),(.andPattern,741),(.notPattern,742)]

def nodes14 : List (Kind × Nat) :=
  [(.getNode,127),(.uniqueNodePath,130),(.string,125),(.rawString,126),(.arrayPattern,764),
  (.dictPattern,765),(.literal,768)]

def nodes15 : List (Kind × Nat) :=
  (.aslessShiftExpr,339) :: (.aslessArithExpr,340) :: nodes7

def nodes16 : List (Kind × Nat) :=
  [(.assnmntExpr,106),(.typeCast,105),(.attrExpr,107)]

def nodes17 : List (Kind × Nat) :=
  (.getattr,109) :: (.subscrExpr,108) :: (.atom,116) :: nodes1

def nodes18 : List (Kind × Nat) :=
  [(.classDef,42),(.propertyBodyDef,43),(.funcDef,44),(.abstractFuncDef,45),(.funcHeader,
  48),(.abstractFuncHeader,46)]

def nodes19 : List (Kind × Nat) :=
  [(Kind.orTest,141),(.andTest,142),(.notTest,143),(.aslessActualNotTest,145),(.contentTest,
  144),(.comparison,148),(.bitwOr,149),(.bitwXor,150),(.bitwAnd,151),(.shiftExpr,152),
  (.arithExpr,153),(.mdrExpr,154),(.negExpr,155),(.aslessActualNegExpr,157),(.bitwNot,156),
  (.aslessActualBitwNot,160),(.powExpr,159),(.typeTest,162),(.awaitExpr,163),(.callExpr,
  110)] ++ nodes17

def nodes20 : List (Kind × Nat) :=
  (.annot,5) :: (.singleFuncStmt,95) :: (.compoundFuncStmt,83) :: nodes12

def nodes21 : List (Kind × Nat) :=
  (.aslessActualNotTest,334) :: (.aslessContentTest,333) :: (.aslessComparison,335) ::
  (.aslessBitwOr,336) :: nodes15 ++ nodes4

def nodes22 : List (Kind × Nat) :=
  (.compPattern,745) :: (.bitwOrPattern,746) :: (.bitwXorPattern,747) :: (.bitwAndPattern,748)
  :: nodes11

def nodes23 : List (Kind × Nat) :=
  [(Kind.passStmt,8),(.enumStmt,9),(.enumRegular,35),(.enumNamed,36),(.signalStmt,10),
  (.extendsStmt,11),(.classnameStmt,13),(.classnameExtendsStmt,12),(.classVarStmt,14),
  (.constStmt,16),(.constAssigned,21),(.constTypedAssigned,22),(.constInf,23),(.docstrStmt,
  17),(.string,18)] ++ nodes6

def nodes24 : List (Kind × Nat) :=
  (.bitwNotPattern,754) :: (.attrPattern,756) :: (.callPattern,757) :: (.atomPattern,759) ::
  nodes14

def nodes25 : List (Kind × Nat) :=
  [(Kind.constAssigned,21),(.constTypedAssigned,22),(.constInf,23),(.passStmt,96),(.constStmt,
  103),(.returnStmt,97),(.funcVarStmt,98),(.funcVarEmpty,169),(.funcVarAssigned,170),
  (.funcVarTyped,171),(.funcVarTypedAssgnd,172),(.funcVarInf,173),(.breakStmt,99),
  (.breakpointStmt,100),(.continueStmt,101),(.exprStmt,102),(.expr,104)] ++ nodes16

def nodes26 : List (Kind × Nat) :=
  [(Kind.aslessActualNegExpr,344),(.aslessActualBitwNot,346),(.aslessBitwNot,343),(.aslessPowExpr,
  345),(.aslessTypeTest,347)] ++ nodes17 ++ nodes0

def nodes27 : List (Kind × Nat) :=
  (.actualTypeCast,140) :: (.testExpr,139) :: nodes19

def nodes28 : List (Kind × Nat) :=
  nodes25 ++ nodes20

def nodes29 : List (Kind × Nat) :=
  nodes27 ++ nodes28

def nodes30 : List (Kind × Nat) :=
  nodes22 ++ nodes13

def nodes31 : List (Kind × Nat) :=
  nodes24 ++ nodes30

def nodes32 : List (Kind × Nat) :=
  nodes27 ++ nodes16

def nodes33 : List (Kind × Nat) :=
  nodes26 ++ nodes21

def parts0 : List (Fragment × Nat) :=
  [(.contentTestOp,321),(.compOp,293),(.orTests,290),(.andTests,291),(.contentTests,292),
  (.bitwOrs,294),(.bitwXors,295),(.bitwAnds,296),(.shifts,297),(.ariths,298),(.mdrs,299),
  (.powers,300),(.typeTests,301)]

def parts1 : List (Fragment × Nat) :=
  [(.varTyped,175),(.funcBody,79),(.funcStmt,80),(.simpleFuncStmt,81),(.annotations,82)]

def parts2 : List (Fragment × Nat) :=
  [(.plusAtom,114),(.awaits,164)]

def parts3 : List (Fragment × Nat) :=
  parts2 ++ parts1

end GDWorkbench.Automaton
