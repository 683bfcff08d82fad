import GDWorkbench.Grammar.Automaton.Shared

namespace GDWorkbench.Automaton

def block16 : List Row := [
  .part .bitwOrs 0 5, .part .contentTests 0 5, .node .notInOp 0 44, .part .andTests 0 5, .part .andTests 1 5,
  .part .orTests 0 5, .part .orTests 1 5,
  .on [(.kwElse,660)],
  ⟨[(.kwNot,324),(.kwIn,323)],[.node .aslessContentTest 0 21],[(.notInOp,322)],
   [(.contentTestOp,485)]⟩,
  ⟨shifts13,[],(.aslessBitwOr,661) :: nodes26 ++ nodes15 ++ nodes4,parts2⟩,
  .on [(.bar,487)] [.node .aslessBitwOr 0 23],
  .on [(.caret,488)] [.node .aslessBitwXor 0 24],
  .on [(.ampersand,489)] [.node .aslessBitwAnd 0 25],
  .on [(.shiftLeft,490),(.shiftRight,491)] [.node .aslessShiftExpr 0 26],
  .on [(.minus,492),(.plus,493)] [.node .aslessArithExpr 0 27],
  .on [(.percent,496),(.slash,495),(.star,494)] [.node .aslessMdrExpr 0 28],
  .on [(.power,497)] [.node .aslessPowExpr 0 29],
  .on [(.isNot,499),(.kwIs,498)] [.node .aslessTypeTest 0 30],
  .node .comparison 0 5,
  .on [(.typeHint,394),(.equal,662)],
  ⟨shifts16,[],(.expr,663) :: nodes32,parts2⟩,
  .node .funcVarTypedAssgnd 0 5, .node .propertyBodyDef 0 6, .node .propertyDelegateSet 0 54,
  .on [(.rightParen,664)],
  .node .propertyDelegateGet 0 54,
  ⟨shifts15,[],nodes29,(.funcSuite,665) :: parts3⟩,
  .node .propertyCustomEtter 2 34, .node .propertyCustomGetterArgs 0 55,
  ⟨[(.kwGet,202)],[],[(.propertyDelegateGet,666)],[]⟩,
  .part .propertyDelegates 1 35,
  ⟨[(.kwSet,203)],[],[(.propertyDelegateSet,667)],[]⟩]

def block17 : List Row := [
  .part .propertyDelegates 4 35,
  ⟨(.newline,550) :: shifts10 ++ shifts5,[],nodes23 ++ nodes18 ++ nodes10,[(.varTyped,31),
   (.simpleClassStmt,548),(.annotations,549),(.classStmt,669),(.classBody,668)]⟩,
  .node .classDef 2 6, .node .classDef 3 6,
  .on [(.newline,54)],
  ⟨(.newline,56) :: shifts10 ++ shifts5,[],nodes23 ++ nodes18 ++ nodes8,[(.varTyped,31)]⟩,
  .on [(.indent,670)] [.part .classStmt 4 56],
  ⟨[(.comma,673),(.rightParen,672)],[],[(.trailingComma,671)],[]⟩,
  .on [(.rightParen,674)],
  .node .annotationArgs 3 1,
  ⟨shifts16,[.node .trailingComma 0 57],(.attrExpr,261) :: (.actualTypeCast,385) :: (.testExpr,675) ::
   nodes19,parts2⟩,
  .part .moreClassStmts 2 3,
  .on [(.typeHint,676)],
  ⟨shifts16,[],(.expr,677) :: nodes32,parts2⟩,
  .node .constInf 0 5, .node .classVarAssigned 0 3,
  ⟨[(.colon,69)],[.node .classVarInf 1 3],[(.inlinePropertyBody,678)],[]⟩,
  .node .inlinePropertyBody 0 3, .node .inlinePropertyBody 3 3,
  .on [(.dot,401)] [.node .classnameExtendsStmt 0 3],
  .on [(.dot,401)] [.node .classnameExtendsStmt 2 3],
  .part .dottedNames 1 46,
  ⟨[(.comma,681),(.rightParen,680)],[],[(.trailingComma,679)],[]⟩,
  .on [(.rightParen,682)],
  .node .signalArgs 3 3,
  ⟨[(.identifier,405)],[.node .trailingComma 0 57],[(.signalArg,683)],[]⟩,
  .on [(.typeHint,684)],
  .on [(.rightBrace,685)],
  .node .enumBody 1 3,
  ⟨[(.identifier,214)],[.node .trailingComma 0 48],[(.enumElement,686)],[]⟩,
  .node .enumBody 2 3, .part .moreEnumElements 0 36]

def block18 : List Row := [
  .node .enumElement 0 36,
  .on [(.colon,687)] [.node .abstractFuncHeader 0 6],
  ⟨[(.comma,690),(.rightParen,689)],[],[(.trailingComma,688)],[]⟩,
  .on [(.rightParen,691)],
  .node .funcArgs 3 50,
  ⟨[(.identifier,420),(.ellipsis,421)],[.node .trailingComma 0 57],(.funcArg,692) :: nodes2,[]⟩,
  ⟨shifts16,[],(.expr,693) :: nodes32,parts2⟩,
  .on [(.typeHint,695),(.equal,694)],
  .node .funcArgVariadic 0 47, .node .funcArgVariadic 1 47,
  .on [(.equal,582),(.colon,696)] [.node .funcArgRegular 1 47],
  ⟨shifts13 ++ shifts8 ++ shifts7,[.part .simpleFuncStmt 0 33],(.annot,5) :: (.singleFuncStmt,606) ::
   nodes27 ++ nodes25,(.varTyped,175) :: (.annotations,605) :: parts2⟩,
  .part .funcBody 0 35,
  .on [(.newline,218),(.dedent,697)],
  ⟨(.newline,220) :: (.dedent,698) :: shifts14,[],(.annot,58) :: (.singleFuncStmt,221) ::
   (.compoundFuncStmt,219) :: nodes27 ++ nodes25 ++ nodes12,(.varTyped,175) :: parts2⟩,
  .part .funcStmts 1 51, .part .funcBody 3 35, .part .funcBody 4 35, .node .matchStmt 0 9,
  .on [(.indent,699)],
  .part .forIteratorVarTyped 0 58,
  .on [(.colon,700)],
  .on [(.colon,701)],
  .node .whileStmt 0 9, .node .ifStmt 0 9, .part .elifBranches 2 9, .node .elseBranch 0 9,
  ⟨shifts15,[],nodes29,(.funcSuite,702) :: parts3⟩,
  .node .ifBranch 0 9,
  ⟨shifts13 ++ shifts8 ++ shifts7,[],(.annot,58) :: (.singleFuncStmt,703) :: nodes27 ++ nodes25,
   (.varTyped,175) :: parts2⟩,
  .part .moreFuncStmts 3 5, .part .moreFuncStmts 0 5]

def block19 : List Row := [
  ⟨[(.comma,635),(.rightParen,705)],[],[(.trailingComma,704)],[]⟩,
  .on [(.rightParen,706)],
  .part .callArglist 3 5, .node .subscrExpr 0 5,
  .on [(.slash,613)] [.node .path 0 40],
  .on [(.identifier,708),(.percent,707)],
  .on [(.identifier,709)],
  .part .pathSteps 1 4,
  ⟨(.newline,428) :: (.dedent,710) :: shifts14,[],nodes29,(.varTyped,175) :: (.simpleFuncStmt,81) ::
   (.annotations,82) :: (.funcStmt,591) :: parts2⟩,
  .on [(.typeHint,711)],
  .node .lambdaHeader 1 52,
  .on [(.colon,712)],
  .on [(.rightBrace,713)],
  .node .dict 1 5,
  ⟨shifts16,[.node .trailingComma 0 48],(.attrExpr,261) :: (.typeCast,284) :: (.cDictElement,714) ::
   nodes27,parts2⟩,
  .node .dict 2 5, .part .moreColonEntries 0 36,
  .on [(.rightBrace,715)],
  .node .dict 6 5,
  ⟨[(.identifier,630)],[.node .trailingComma 0 48],[(.eqDictElement,716)],[]⟩,
  .node .dict 7 5, .part .moreEqualEntries 0 36,
  .on [(.equal,470)],
  .node .eqDictElement 0 36, .node .cDictElement 0 36,
  .on [(.rightBracket,717)],
  .node .array 1 5,
  ⟨shifts16,[.node .trailingComma 0 53],(.attrExpr,261) :: (.typeCast,718) :: nodes27,parts2⟩,
  .node .array 2 5, .part .moreArguments 0 59, .part .casts 1 5,
  ⟨shifts16,[],(.aslessTestExpr,719) :: (.aslessOrTest,720) :: nodes26 ++ nodes21 ++ nodes5,parts2⟩]

def block20 : List Row := [
  .on [(.kwOr,481),(.barBar,482)] [.node .aslessOrTest 0 19],
  .on [(.kwAnd,483),(.ampersands,484)] [.node .aslessAndTest 0 20],
  .part .orTests 2 5, .part .orTests 3 5, .part .andTests 2 5, .part .andTests 3 5, .part .contentTests 1 5,
  .part .bitwOrs 1 5, .part .bitwXors 1 5, .part .bitwAnds 1 5, .part .shifts 2 5, .part .shifts 3 5,
  .part .ariths 2 5, .part .ariths 3 5, .part .mdrs 3 5, .part .mdrs 4 5, .part .mdrs 5 5, .part .powers 1 5,
  .part .typeTests 2 5, .part .typeTests 3 5,
  ⟨shifts16,[],(.aslessOrTest,720) :: (.aslessTestExpr,721) :: nodes26 ++ nodes21 ++ nodes5,parts2⟩,
  .node .aslessComparison 0 5,
  ⟨shifts16,[],(.expr,722) :: nodes32,parts2⟩,
  .node .funcVarAssigned 0 5,
  .on [(.colon,723)],
  .node .propertyCustomEtter 1 34, .part .propertyDelegates 0 35, .part .propertyDelegates 3 35,
  .node .classDef 0 6, .node .classDef 1 6,
  ⟨(.newline,41) :: shifts10 ++ shifts5,[],nodes23 ++ nodes18 ++ nodes10,[(.classStmt,39),
   (.varTyped,31),(.simpleClassStmt,725),(.classStmts,724),(.annotations,726)]⟩,
  .on [(.rightParen,727)]]

def block21 : List Row := [
  .node .annotationArgs 1 1,
  ⟨shifts16,[.node .trailingComma 0 57],(.attrExpr,261) :: (.actualTypeCast,385) :: (.testExpr,728) ::
   nodes19,parts2⟩,
  .node .annotationArgs 2 1,
  ⟨[(.kwAs,288)],[.part .moreAnnotationArgs 0 47],[],[(.casts,287)]⟩,
  .on [(.colon,687)],
  .node .constTypedAssigned 0 5, .node .classVarInf 0 3,
  .on [(.rightParen,729)],
  .node .signalArgs 1 3,
  ⟨[(.identifier,405)],[.node .trailingComma 0 57],[(.signalArg,730)],[]⟩,
  .node .signalArgs 2 3, .part .moreSignalArgs 0 47, .node .signalArg 1 47, .node .enumBody 0 3,
  .part .moreEnumElements 1 36, .node .funcHeader 0 49,
  .on [(.rightParen,731)],
  .node .funcArgs 1 50,
  ⟨[(.identifier,420),(.ellipsis,421)],[.node .trailingComma 0 57],(.funcArg,732) :: nodes2,[]⟩,
  .node .funcArgs 2 50, .part .moreFuncArgs 0 47, .node .funcArgRegular 0 47,
  ⟨shifts16,[],(.expr,733) :: nodes32,parts2⟩,
  .on [(.equal,734)] [.node .funcArgTyped 1 47],
  .on [(.typeHint,695)],
  .part .funcBody 1 35, .part .funcBody 2 35,
  ⟨shifts17,[],(.matchBranch,736) :: (.pattern,737) :: (.listPattern,738) :: (.testPattern,739) ::
   nodes31,[(.matchBranches,735)]⟩,
  ⟨shifts15,[],nodes29,(.funcSuite,771) :: parts3⟩,
  ⟨shifts15,[],nodes29,(.funcSuite,772) :: parts3⟩,
  .node .elifBranch 0 9, .part .moreFuncStmts 2 5]

def block22 : List Row := [
  .on [(.rightParen,773)],
  .part .callArglist 1 5, .part .callArglist 2 5,
  .on [(.identifier,774)],
  .part .pathSteps 3 4, .part .pathSteps 0 4, .part .lambdaBody 0 5,
  .on [(.colon,775)],
  .node .lambdaHeader 2 52, .node .dict 0 5, .part .moreColonEntries 1 36, .node .dict 5 5,
  .part .moreEqualEntries 1 36, .node .array 0 5, .part .moreArguments 1 59, .node .testExpr 2 5,
  .on [(.kwIf,776)] [.node .aslessTestExpr 1 18],
  .node .testExpr 0 5, .node .funcVarInf 0 5,
  ⟨shifts15,[],nodes29,(.funcSuite,777) :: parts3⟩,
  ⟨(.newline,41) :: (.dedent,778) :: shifts10 ++ shifts5,[],nodes23 ++ nodes18 ++ nodes10,
   [(.varTyped,31),(.classStmt,53),(.simpleClassStmt,779),(.annotations,780)]⟩,
  .on [(.newline,54),(.dedent,781)],
  ⟨(.newline,56) :: (.dedent,782) :: shifts10 ++ shifts5,[],nodes23 ++ nodes18 ++ nodes8,
   [(.varTyped,31)]⟩,
  .node .annotationArgs 0 1,
  ⟨[(.kwAs,288)],[.part .moreAnnotationArgs 1 47],[],[(.casts,287)]⟩,
  .node .signalArgs 0 3, .part .moreSignalArgs 1 47, .node .funcArgs 0 50, .part .moreFuncArgs 1 47,
  .node .funcArgInf 0 47,
  ⟨shifts16,[],(.expr,783) :: nodes32,parts2⟩,
  ⟨(.dedent,784) :: shifts17,[],(.pattern,737) :: (.listPattern,738) :: (.testPattern,739) ::
   (.matchBranch,785) :: nodes31,[]⟩]

def block23 : List Row := [
  .part .matchBranches 0 60,
  .on [(.kwWhen,787),(.colon,786)],
  .node .pattern 0 61,
  ⟨[(.comma,789)],[.node .listPattern 1 62],[],[(.moreTestPatterns,788)]⟩,
  .on [(.kwIf,790)] [.node .testPattern 1 63],
  ⟨[(.kwOr,792),(.barBar,793)],[.node .orPattern 1 64],[],[(.orPatterns,791)]⟩,
  ⟨[(.kwAnd,795),(.ampersands,796)],[.node .andPattern 1 65],[],[(.andPatterns,794)]⟩,
  ⟨shifts17,[],(.notPattern,797) :: nodes24 ++ nodes22,[]⟩,
  ⟨shifts17,[],(.notPattern,798) :: nodes24 ++ nodes22,[]⟩,
  .node .notPattern 2 66,
  ⟨shifts1,[.node .compPattern 1 66],[],[(.compOp,799)]⟩,
  ⟨[(.bar,801)],[.node .bitwOrPattern 1 67],[],[(.bitwOrPatterns,800)]⟩,
  ⟨[(.caret,803)],[.node .bitwXorPattern 1 68],[],[(.bitwXorPatterns,802)]⟩,
  ⟨[(.ampersand,805)],[.node .bitwAndPattern 1 69],[],[(.bitwAndPatterns,804)]⟩,
  ⟨[(.shiftLeft,807),(.shiftRight,808)],[.node .shiftPattern 1 70],[],[(.shiftPatterns,806)]⟩,
  ⟨[(.minus,810),(.plus,811)],[.node .arithPattern 1 71],[],[(.arithPatterns,809)]⟩,
  ⟨[(.percent,815),(.slash,814),(.star,813)],[.node .mdrPattern 1 72],[],[(.mdrPatterns,812)]⟩,
  ⟨shifts12,[],(.negPattern,816) :: nodes24,[]⟩,
  .node .negPattern 1 73,
  ⟨(.tilde,755) :: shifts9 ++ shifts3,[],(.attrPattern,756) :: (.callPattern,757) ::
   (.atomPattern,759) :: (.bitwNotPattern,817) :: nodes14,[]⟩,
  .node .bitwNotPattern 1 73,
  ⟨[(.dot,819)],[.node .attrPattern 1 73],[],[(.dottedPatterns,818)]⟩,
  .on [(.leftParen,820)] [.node .atomPattern 6 74],
  .node .callPattern 1 74,
  ⟨shifts17,[],(.testPattern,821) :: nodes31,[]⟩,
  .on [(.identifier,822)],
  .node .atomPattern 2 74, .node .atomPattern 3 74, .node .atomPattern 4 74, .node .atomPattern 5 74,
  .node .atomPattern 7 74, .node .atomPattern 8 74]

end GDWorkbench.Automaton
