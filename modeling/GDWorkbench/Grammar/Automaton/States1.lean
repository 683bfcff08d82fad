import GDWorkbench.Grammar.Automaton.Shared

namespace GDWorkbench.Automaton

def block0 : List Row := [
  ⟨(.newline,41) :: shifts10 ++ shifts5,[.node .start 5 0],(.start,1) :: nodes23 ++ nodes18 ++ nodes10,
   [(.classStmt,39),(.simpleClassStmt,3),(.classStmts,2),(.annotations,4),(.varTyped,31)]⟩,
  .on [],
  ⟨(.newline,41) :: shifts10 ++ shifts5,[.node .start 2 0],nodes23 ++ nodes18 ++ nodes10,
   [(.varTyped,31),(.classStmt,53),(.simpleClassStmt,51),(.annotations,52)]⟩,
  .on [(.newline,54)] [.node .start 3 0],
  ⟨(.newline,56) :: shifts10 ++ shifts5,[.node .start 4 0],nodes23 ++ nodes18 ++ nodes8,
   [(.varTyped,31)]⟩,
  .part .annotations 0 1,
  .on [(.identifier,59)],
  ⟨[(.semicolon,61)],[.part .simpleClassStmt 7 2],[],[(.moreClassStmts,60)]⟩,
  .node .singleClassStmt 0 3, .node .singleClassStmt 1 3, .node .singleClassStmt 2 3,
  .node .singleClassStmt 3 3, .node .singleClassStmt 4 3, .node .singleClassStmt 5 3,
  .node .singleClassStmt 6 3,
  ⟨[(.kwVar,30),(.kwFunc,64)],[],(.funcHeader,48) :: (.classVarStmt,62) :: (.funcDef,63) :: nodes6,
   [(.varTyped,31)]⟩,
  .node .singleClassStmt 8 3, .node .singleClassStmt 9 3, .node .docstrStmt 0 3, .node .string 0 4,
  .node .string 1 4, .node .constStmt 0 5, .node .constStmt 1 5, .node .constStmt 2 5,
  .on [(.identifier,65)],
  .node .classVarStmt 0 3, .node .classVarStmt 1 3, .node .classVarStmt 2 3, .node .classVarStmt 3 3,
  .node .classVarStmt 4 3,
  .on [(.identifier,66)],
  ⟨[(.colon,69),(.equal,68)],[.node .classVarTyped 1 3],[(.inlinePropertyBody,67)],[]⟩]

def block1 : List Row := [
  .on [(.identifier,70)],
  ⟨(.identifier,71) :: shifts0,[],[(.string,72)],[]⟩,
  .on [(.identifier,73)],
  .node .enumStmt 0 3, .node .enumStmt 1 3,
  ⟨[(.identifier,75),(.leftBrace,76)],[],[(.enumBody,74)],[]⟩,
  .node .passStmt 0 5, .part .classStmts 0 6, .part .classStmt 2 6, .part .classStmt 4 6,
  .node .compoundClassStmt 0 6, .node .compoundClassStmt 1 6, .node .compoundClassStmt 2 6,
  .node .compoundClassStmt 4 6, .node .abstractFuncDef 0 6,
  .on [(.identifier,77)],
  ⟨shifts15,[],nodes29,(.funcSuite,78) :: parts3⟩,
  ⟨[(.kwGet,181),(.kwSet,180)],[],[(.propertyDelegateSet,182),(.propertyDelegateGet,183),
   (.propertyCustomEtter,179)],[(.propertyDelegates,177),(.customEtters,178)]⟩,
  .on [(.identifier,184)],
  .on [(.newline,54)] [.node .start 0 0],
  ⟨(.newline,56) :: shifts10 ++ shifts5,[.node .start 1 0],nodes23 ++ nodes18 ++ nodes8,
   [(.varTyped,31)]⟩,
  .part .classStmts 1 6, .part .classStmt 0 6, .part .classStmt 1 6, .part .classStmt 3 6,
  ⟨[(.semicolon,186)],[.part .simpleClassStmt 3 2],[],[(.moreClassStmts,185)]⟩,
  .part .annotations 1 1,
  ⟨[(.leftParen,188)],[.node .annot 1 7],[(.annotationArgs,187)],[]⟩,
  .on [(.semicolon,189)] [.part .simpleClassStmt 5 2],
  ⟨(.kwStatic,192) :: shifts10,[.part .simpleClassStmt 6 2],(.annot,5) :: (.singleClassStmt,191) ::
   nodes23,[(.varTyped,31),(.annotations,190)]⟩,
  .node .singleClassStmt 7 3, .node .compoundClassStmt 3 6]

def block2 : List Row := [
  .on [(.identifier,193)],
  .on [(.colon,195),(.equal,194)],
  ⟨[(.colon,198),(.equal,197)],[.node .classVarEmpty 1 3],[(.inlinePropertyBody,196)],[]⟩,
  .node .classVarTyped 0 3,
  ⟨shifts16,[],(.expr,199) :: nodes32,parts2⟩,
  ⟨[(.kwGet,202),(.kwSet,203)],[.node .inlinePropertyBody 2 3],[(.propertyDelegateSet,200),
   (.propertyDelegateGet,201)],[]⟩,
  .on [(.kwExtends,204)] [.node .classnameStmt 0 3],
  ⟨[(.dot,206)],[.node .extendsStmt 1 8],[],[(.dottedNames,205)]⟩,
  ⟨[(.dot,206)],[.node .extendsStmt 3 8],[],[(.dottedNames,207)]⟩,
  ⟨[(.leftParen,209)],[.node .signalStmt 1 3],[(.signalArgs,208)],[]⟩,
  .node .enumRegular 0 3,
  ⟨[(.leftBrace,76),(.newline,210)],[],[(.enumBody,211)],[]⟩,
  ⟨[(.identifier,214),(.rightBrace,213)],[],[(.enumElement,212)],[]⟩,
  ⟨[(.leftParen,216)],[],[(.funcArgs,215)],[]⟩,
  .node .funcDef 0 6,
  .on [(.newline,217)],
  .part .funcSuite 1 9,
  .on [(.newline,218)],
  ⟨(.newline,220) :: shifts14,[],(.annot,58) :: (.singleFuncStmt,221) :: (.compoundFuncStmt,219) ::
   nodes27 ++ nodes25 ++ nodes12,(.varTyped,175) :: parts2⟩,
  .part .funcStmt 2 9,
  .on [(.indent,222)] [.part .funcStmt 4 10],
  .node .compoundFuncStmt 0 9, .node .compoundFuncStmt 1 9, .node .compoundFuncStmt 2 9,
  .node .compoundFuncStmt 3 9, .node .compoundFuncStmt 4 9,
  ⟨shifts16,[],(.expr,223) :: nodes32,parts2⟩,
  ⟨[(.identifier,224)],[],[],[(.forIteratorVarTyped,225)]⟩,
  ⟨shifts16,[],(.expr,226) :: nodes32,parts2⟩,
  ⟨[(.newline,228),(.kwElif,232),(.kwElse,230)],[.node .ifStmt 5 11],[(.elifBranch,231),
   (.elseBranch,229)],[(.elifBranches,227)]⟩,
  ⟨shifts16,[],(.expr,233) :: nodes32,parts2⟩,
  ⟨[(.semicolon,235)],[.part .simpleFuncStmt 7 12],[],[(.moreFuncStmts,234)]⟩]

def block3 : List Row := [
  .node .singleFuncStmt 0 5, .node .singleFuncStmt 1 5, .node .singleFuncStmt 2 5, .node .singleFuncStmt 3 5,
  .node .singleFuncStmt 4 5, .node .singleFuncStmt 5 5, .node .singleFuncStmt 6 5, .node .singleFuncStmt 7 5,
  .node .exprStmt 0 5, .node .expr 0 5, .node .expr 1 5,
  ⟨[(.shiftRightAssign,246),(.shiftLeftAssign,247),(.powerAssign,248),(.slashAssign,241),
   (.percentAssign,242),(.ampersandAssign,243),(.barAssign,244),(.caretAssign,245),
   (.plusAssign,238),(.minusAssign,239),(.starAssign,240),(.equal,237)],[.node .callExpr 0 13],[],
   [(.assnmntOp,236)]⟩,
  .node .attrExpr 0 5,
  ⟨[(.leftParen,250)],[.node .attrExpr 1 5],[],[(.callArglist,249)]⟩,
  ⟨[(.dot,254),(.leftBracket,252)],[.node .awaitExpr 1 14],[],[(.attr,253),(.attrs,251)]⟩,
  ⟨[(.leftParen,250)],[.node .atom 3 5],[],[(.callArglist,255)]⟩,
  ⟨[(.leftParen,250)],[],[],[(.callArglist,256)]⟩,
  ⟨[(.leftParen,250)],[],[],[(.callArglist,257)]⟩,
  .node .subscrExpr 1 5,
  ⟨[(Terminal.hex,120),(.bin,121),(.kwFunc,136),(.leftBrace,137),(.leftParen,117),(.leftBracket,138),
   (.identifier,259)] ++ shifts9,[],(.atom,258) :: nodes1,[]⟩,
  .part .plusAtom 1 5,
  ⟨shifts16,[],(.typeCast,260) :: (.attrExpr,261) :: nodes27,parts2⟩,
  .node .atom 1 5, .node .atom 2 5, .node .atom 4 5, .node .atom 5 5, .node .atom 6 5, .node .atom 7 5,
  .node .literal 0 4, .node .literal 1 4, .node .literal 2 4, .node .literal 3 4]

def block4 : List Row := [
  ⟨shifts0,[],[(.string,262)],[]⟩,
  ⟨shifts0,[],[(.string,263)],[]⟩,
  .node .literal 6 4,
  ⟨[(.identifier,267),(.regularString,265),(.slash,266)],[],[(.path,264)],[]⟩,
  ⟨(.percent,131) :: (.identifier,267) :: (.slash,266) :: shifts0,[],[(.path,268),
   (.uniqueNodePath,270),(.string,269)],[]⟩,
  .node .rawString 0 4, .node .rawString 1 4,
  ⟨(.newline,277) :: shifts14,[.part .standaloneLambdaStmt 4 15],(.annot,5) :: (.singleFuncStmt,95) ::
   (.compoundFuncStmt,276) :: nodes27 ++ nodes25 ++ nodes12,[(Fragment.varTyped,175),(.simpleFuncStmt,274),
   (.lambdaSuite,271),(.lambdaBody,272),(.standaloneLambdaStmt,273),(.annotations,275)] ++ parts2⟩,
  ⟨[(.leftParen,216),(.identifier,278)],[],[(.funcArgs,279)],[]⟩,
  ⟨[(Terminal.kwAwait,165),(.minus,158),(.tilde,161),(.identifier,283),(.rightBrace,281)] ++ shifts9
   ++ shifts8 ++ shifts6,[],(.attrExpr,261) :: (.typeCast,284) :: (.cDictElement,280) ::
   (.eqDictElement,282) :: nodes27,parts2⟩,
  ⟨(.rightBracket,286) :: shifts16,[],(.attrExpr,261) :: (.typeCast,285) :: nodes27,parts2⟩,
  ⟨[(.kwAs,288)],[.node .typeCast 0 16],[],[(.casts,287)]⟩,
  ⟨shifts2,[.node .typeCast 1 17],[(.notInOp,322)],parts0⟩,
  .on [(.kwIf,329)] [.node .testExpr 1 18],
  ⟨[(.kwOr,327),(.barBar,328)],[.node .orTest 1 19],[],[(.orTests,330)]⟩,
  ⟨[(.kwAnd,325),(.ampersands,326)],[.node .andTest 1 20],[],[(.andTests,331)]⟩,
  .node .notTest 0 5, .node .notTest 1 5,
  ⟨shifts16,[],(.aslessNotTest,332) :: nodes33,parts2⟩,
  ⟨shifts16,[],(.aslessNotTest,349) :: nodes33,parts2⟩,
  ⟨[(.kwNot,324),(.kwIn,323)],[.node .contentTest 1 21],[(.notInOp,322)],[(.contentTestOp,321),
   (.contentTests,350)]⟩,
  ⟨shifts1,[.node .comparison 1 22],[],[(.compOp,351)]⟩,
  ⟨[(.bar,314)],[.node .bitwOr 1 23],[],[(.bitwOrs,352)]⟩,
  ⟨[(.caret,313)],[.node .bitwXor 1 24],[],[(.bitwXors,353)]⟩,
  ⟨[(.ampersand,312)],[.node .bitwAnd 1 25],[],[(.bitwAnds,354)]⟩,
  ⟨[(.shiftLeft,310),(.shiftRight,311)],[.node .shiftExpr 1 26],[],[(.shifts,355)]⟩,
  ⟨[(.minus,308),(.plus,309)],[.node .arithExpr 1 27],[],[(.ariths,356)]⟩,
  ⟨[(.percent,307),(.slash,306),(.star,305)],[.node .mdrExpr 1 28],[],[(.mdrs,357)]⟩,
  .node .negExpr 0 5, .node .negExpr 1 5,
  ⟨shifts13,[],(.aslessNegExpr,358) :: nodes26,parts2⟩,
  .node .bitwNot 0 5]

def block5 : List Row := [
  .node .bitwNot 1 5,
  ⟨(.identifier,111) :: (.kwAwait,165) :: (.tilde,161) :: shifts9 ++ shifts6,[],
   (.aslessActualBitwNot,346) :: (.aslessPowExpr,345) :: (.aslessTypeTest,347) :: (.aslessBitwNot,359) ::
   nodes17 ++ nodes0,parts2⟩,
  ⟨[(.power,304)],[.node .powExpr 1 29],[],[(.powers,360)]⟩,
  ⟨[(.isNot,303),(.kwIs,302)],[.node .typeTest 1 30],[],[(.typeTests,361)]⟩,
  ⟨(.identifier,111) :: (.kwAwait,363) :: shifts9 ++ shifts6,[],(.attrExpr,261) :: (.callExpr,362) ::
   nodes17,[(.plusAtom,114)]⟩,
  .part .awaits 0 31, .node .continueStmt 0 5, .node .breakpointStmt 0 5, .node .breakStmt 0 5,
  .node .funcVarStmt 0 5, .node .funcVarStmt 1 5, .node .funcVarStmt 2 5, .node .funcVarStmt 3 5,
  .node .funcVarStmt 4 5,
  .on [(.identifier,364)],
  .on [(.equal,365)] [.node .funcVarTyped 0 32],
  ⟨shifts16,[.node .returnStmt 1 33],(.expr,366) :: nodes32,parts2⟩,
  .on [(.newline,367)],
  ⟨[(.kwGet,371),(.kwSet,370),(.dedent,368)],[],[(.propertyCustomEtter,369)],[]⟩,
  .part .customEtters 0 34,
  .on [(.equal,372),(.leftParen,373)],
  ⟨[(.colon,376),(.equal,374),(.leftParen,377)],[],[(.propertyCustomGetterArgs,375)],[]⟩,
  .on [(.comma,378)] [.part .propertyDelegates 2 35],
  .on [(.comma,379)] [.part .propertyDelegates 5 35],
  ⟨[(.kwExtends,33),(.colon,381)],[],[(.extendsStmt,380)],[]⟩,
  .on [(.semicolon,382)] [.part .simpleClassStmt 1 2],
  ⟨(.kwStatic,192) :: shifts10,[.part .simpleClassStmt 2 2],(.annot,5) :: (.singleClassStmt,191) ::
   nodes23,[(.varTyped,31),(.annotations,190)]⟩,
  .node .annot 0 1,
  ⟨(.rightParen,384) :: shifts16,[],(.attrExpr,261) :: (.actualTypeCast,385) :: (.testExpr,383) ::
   nodes19,parts2⟩,
  ⟨(.kwStatic,192) :: shifts10,[.part .simpleClassStmt 4 2],(.annot,5) :: (.singleClassStmt,387) ::
   nodes23,[(.varTyped,31),(.annotations,386)]⟩,
  ⟨(.kwStatic,192) :: shifts10,[],(.annot,58) :: (.singleClassStmt,388) :: nodes23,[(.varTyped,31)]⟩,
  .part .moreClassStmts 1 3]

def block6 : List Row := [
  ⟨[(.kwVar,30)],[],(.classVarStmt,62) :: nodes6,[(.varTyped,31)]⟩,
  ⟨[(.leftParen,216)],[],[(.funcArgs,389)],[]⟩,
  ⟨shifts16,[],(.expr,390) :: nodes32,parts2⟩,
  .on [(.typeHint,391),(.equal,392)],
  .node .classVarEmpty 0 3,
  ⟨shifts16,[],(.expr,393) :: nodes32,parts2⟩,
  ⟨[(.kwGet,202),(.kwSet,203),(.typeHint,394),(.equal,395)],[.node .inlinePropertyBody 2 3],
   [(.propertyDelegateSet,200),(.propertyDelegateGet,201)],[]⟩,
  ⟨[(.colon,69)],[.node .classVarTypedAssgnd 1 3],[(.inlinePropertyBody,396)],[]⟩,
  .on [(.comma,397)] [.node .inlinePropertyBody 1 3],
  .on [(.comma,398)] [.node .inlinePropertyBody 4 3],
  .on [(.equal,374)],
  .on [(.equal,372)],
  ⟨(.identifier,399) :: shifts0,[],[(.string,400)],[]⟩,
  .on [(.dot,401)] [.node .extendsStmt 0 8],
  .on [(.identifier,402)],
  .on [(.dot,401)] [.node .extendsStmt 2 8],
  .node .signalStmt 0 3,
  ⟨[(.identifier,405),(.rightParen,404)],[],[(.signalArg,403)],[]⟩,
  ⟨[(.leftBrace,76)],[],[(.enumBody,406)],[]⟩,
  .node .enumNamed 1 3,
  ⟨[(.comma,410),(.rightBrace,409)],[],[(.trailingComma,408)],[(.moreEnumElements,407)]⟩,
  .node .enumBody 4 3,
  .on [(.equal,411)] [.node .enumElement 1 36],
  .on [(.arrow,412),(.colon,413)] [.node .abstractFuncHeader 1 6],
  ⟨[(.identifier,420),(.ellipsis,421),(.rightParen,415)],[],(.funcArg,414) :: nodes2,[]⟩,
  .part .funcSuite 0 9, .part .funcStmt 0 9, .part .funcStmt 1 9, .part .funcStmt 3 9,
  ⟨[(.semicolon,423)],[.part .simpleFuncStmt 3 12],[],[(.moreFuncStmts,422)]⟩,
  ⟨(.newline,428) :: shifts14,[],nodes29,[(Fragment.varTyped,175),(.funcStmt,427),(.simpleFuncStmt,425),
   (.annotations,426),(.funcStmts,424)] ++ parts2⟩,
  .on [(.colon,429)]]

def block7 : List Row := [
  .on [(.kwIn,431),(.colon,430)],
  .on [(.kwIn,432)],
  .on [(.colon,433)],
  ⟨[(.kwElif,232),(.kwElse,230),(.newline,434)],[.node .ifStmt 2 11],[(.elifBranch,436),
   (.elseBranch,435)],[]⟩,
  ⟨[(.kwElif,232),(.kwElse,230)],[],[(.elifBranch,438),(.elseBranch,437)],[]⟩,
  .node .ifStmt 4 9,
  .on [(.colon,439)],
  .part .elifBranches 1 9,
  ⟨shifts16,[],(.expr,440) :: nodes32,parts2⟩,
  .on [(.colon,441)],
  .on [(.semicolon,442)] [.part .simpleFuncStmt 5 12],
  ⟨shifts13 ++ shifts8 ++ shifts7,[.part .simpleFuncStmt 6 33],(.annot,5) :: (.singleFuncStmt,444) ::
   nodes27 ++ nodes25,(.varTyped,175) :: (.annotations,443) :: parts2⟩,
  ⟨shifts16,[],(.attrExpr,261) :: (.typeCast,445) :: nodes27,parts2⟩,
  .part .assnmntOp 0 37, .part .assnmntOp 1 37, .part .assnmntOp 2 37, .part .assnmntOp 3 37,
  .part .assnmntOp 4 37, .part .assnmntOp 5 37, .part .assnmntOp 6 37, .part .assnmntOp 7 37,
  .part .assnmntOp 8 37, .part .assnmntOp 9 37, .part .assnmntOp 10 37, .part .assnmntOp 11 37,
  .node .callExpr 4 5,
  ⟨(.rightParen,447) :: shifts16,[],(.attrExpr,261) :: (.typeCast,446) :: nodes27,parts2⟩,
  ⟨[(.dot,254)],[.node .getattr 0 38],[],[(.attr,448)]⟩,
  ⟨shifts16,[],(.attrExpr,261) :: (.typeCast,449) :: nodes27,parts2⟩,
  .part .attrs 0 39,
  .on [(.identifier,450),(.kwGet,451),(.kwSet,452)],
  .node .callExpr 1 5]

end GDWorkbench.Automaton
