import GDWorkbench.Grammar.Automaton.Shared

namespace GDWorkbench.Automaton

def block24 : List Row := [
  .node .atomPattern 9 74,
  ⟨(.rightBrace,824) :: shifts17,[],(.dictPatternElement,823) :: nodes22 ++ nodes14 ++ nodes13 ++ nodes9,
   []⟩,
  ⟨(.rightBracket,829) :: shifts17,[],(.testPattern,828) :: nodes31,[]⟩,
  .node .forStmt 0 9, .node .forStmtTyped 0 9, .part .callArglist 0 5, .part .pathSteps 2 4,
  .node .lambdaHeader 0 52,
  ⟨shifts16,[],(.aslessOrTest,830) :: nodes26 ++ nodes21 ++ nodes5,parts2⟩,
  .node .propertyCustomEtter 0 34, .part .classBody 0 6,
  .on [(.newline,54),(.dedent,831)],
  ⟨(.newline,56) :: (.dedent,832) :: shifts10 ++ shifts5,[],nodes23 ++ nodes18 ++ nodes8,
   [(.varTyped,31)]⟩,
  .part .classBody 3 6, .part .classBody 4 6, .node .funcArgTyped 0 47, .part .matchBody 0 9,
  .part .matchBranches 1 60,
  ⟨shifts15,[],nodes29,(.funcSuite,833) :: parts3⟩,
  ⟨shifts16,[],(.expr,834) :: nodes32,parts2⟩,
  .on [(.comma,835)] [.node .listPattern 0 62],
  ⟨shifts17,[],(.testPattern,836) :: nodes31,[]⟩,
  ⟨shifts17,[],(.andPattern,741) :: (.notPattern,742) :: (.orPattern,837) :: nodes24 ++ nodes22,[]⟩,
  .on [(.kwOr,838),(.barBar,839)] [.node .orPattern 0 64],
  ⟨shifts17,[],(.notPattern,742) :: (.andPattern,840) :: nodes24 ++ nodes22,[]⟩,
  ⟨shifts17,[],(.notPattern,742) :: (.andPattern,841) :: nodes24 ++ nodes22,[]⟩,
  .on [(.kwAnd,842),(.ampersands,843)] [.node .andPattern 0 65],
  ⟨shifts17,[],(.notPattern,844) :: nodes24 ++ nodes22,[]⟩,
  ⟨shifts17,[],(.notPattern,845) :: nodes24 ++ nodes22,[]⟩,
  .node .notPattern 0 66, .node .notPattern 1 66,
  ⟨shifts12,[],(.bitwXorPattern,747) :: (.bitwAndPattern,748) :: (.bitwOrPattern,846) :: nodes24
   ++ nodes11,[]⟩]

def block25 : List Row := [
  .on [(.bar,847)] [.node .bitwOrPattern 0 67],
  ⟨shifts12,[],(.bitwAndPattern,748) :: (.bitwXorPattern,848) :: nodes24 ++ nodes11,[]⟩,
  .on [(.caret,849)] [.node .bitwXorPattern 0 68],
  ⟨shifts12,[],(.bitwAndPattern,850) :: nodes24 ++ nodes11,[]⟩,
  .on [(.ampersand,851)] [.node .bitwAndPattern 0 69],
  ⟨shifts12,[],(.arithPattern,750) :: (.shiftPattern,852) :: nodes24 ++ nodes3,[]⟩,
  .on [(.shiftLeft,853),(.shiftRight,854)] [.node .shiftPattern 0 70],
  ⟨shifts12,[],(.arithPattern,855) :: nodes24 ++ nodes3,[]⟩,
  ⟨shifts12,[],(.arithPattern,856) :: nodes24 ++ nodes3,[]⟩,
  .on [(.minus,857),(.plus,858)] [.node .arithPattern 0 71],
  ⟨shifts12,[],(.negPattern,752) :: (.mdrPattern,859) :: nodes24,[]⟩,
  ⟨shifts12,[],(.negPattern,752) :: (.mdrPattern,860) :: nodes24,[]⟩,
  .on [(.percent,863),(.slash,862),(.star,861)] [.node .mdrPattern 0 72],
  ⟨shifts12,[],(.negPattern,864) :: nodes24,[]⟩,
  ⟨shifts12,[],(.negPattern,865) :: nodes24,[]⟩,
  ⟨shifts12,[],(.negPattern,866) :: nodes24,[]⟩,
  .node .negPattern 0 73, .node .bitwNotPattern 0 73,
  .on [(.dot,867)] [.node .attrPattern 0 73],
  ⟨shifts9 ++ shifts3,[],(.atomPattern,759) :: (.callPattern,868) :: nodes14,[]⟩,
  ⟨shifts17,[],(.testPattern,739) :: (.listPattern,869) :: nodes31,[]⟩,
  .on [(.rightParen,870)],
  .node .atomPattern 1 74,
  ⟨[(.comma,874),(.rightBrace,873)],[],[(.trailingComma,872)],[(.moreDictPatterns,871)]⟩,
  .node .dictPattern 4 74, .node .dictPatternElement 0 36,
  .on [] [.node .callPattern 1 75, .node .dictPatternElement 1 36],
  .on [(.colon,875)],
  ⟨[(.comma,879),(.rightBracket,878)],[],[(.trailingComma,877)],[(.moreTestPatterns,876)]⟩,
  .node .arrayPattern 4 74,
  .on [(.kwElse,880)],
  .part .classBody 1 6]

def block26 : List Row := [
  .part .classBody 2 6, .node .matchBranch 0 60,
  .on [(.colon,881)],
  ⟨shifts17,[],(.testPattern,882) :: nodes31,[]⟩,
  .part .moreTestPatterns 0 76,
  .on [(.kwElse,883)],
  ⟨shifts17,[],(.notPattern,742) :: (.andPattern,884) :: nodes24 ++ nodes22,[]⟩,
  ⟨shifts17,[],(.notPattern,742) :: (.andPattern,885) :: nodes24 ++ nodes22,[]⟩,
  .part .orPatterns 0 65, .part .orPatterns 1 65,
  ⟨shifts17,[],(.notPattern,886) :: nodes24 ++ nodes22,[]⟩,
  ⟨shifts17,[],(.notPattern,887) :: nodes24 ++ nodes22,[]⟩,
  .part .andPatterns 0 66, .part .andPatterns 1 66, .node .compPattern 0 66,
  ⟨shifts12,[],(.bitwAndPattern,748) :: (.bitwXorPattern,888) :: nodes24 ++ nodes11,[]⟩,
  .part .bitwOrPatterns 0 68,
  ⟨shifts12,[],(.bitwAndPattern,889) :: nodes24 ++ nodes11,[]⟩,
  .part .bitwXorPatterns 0 69,
  ⟨shifts12,[],(.arithPattern,750) :: (.shiftPattern,890) :: nodes24 ++ nodes3,[]⟩,
  .part .bitwAndPatterns 0 70,
  ⟨shifts12,[],(.arithPattern,891) :: nodes24 ++ nodes3,[]⟩,
  ⟨shifts12,[],(.arithPattern,892) :: nodes24 ++ nodes3,[]⟩,
  .part .shiftPatterns 0 71, .part .shiftPatterns 1 71,
  ⟨shifts12,[],(.negPattern,752) :: (.mdrPattern,893) :: nodes24,[]⟩,
  ⟨shifts12,[],(.negPattern,752) :: (.mdrPattern,894) :: nodes24,[]⟩,
  .part .arithPatterns 0 72, .part .arithPatterns 1 72,
  ⟨shifts12,[],(.negPattern,895) :: nodes24,[]⟩,
  ⟨shifts12,[],(.negPattern,896) :: nodes24,[]⟩,
  ⟨shifts12,[],(.negPattern,897) :: nodes24,[]⟩]

def block27 : List Row := [
  .part .mdrPatterns 0 73, .part .mdrPatterns 1 73, .part .mdrPatterns 2 73,
  ⟨shifts9 ++ shifts3,[],(.atomPattern,759) :: (.callPattern,898) :: nodes14,[]⟩,
  .part .dottedPatterns 0 74,
  .on [(.rightParen,899)],
  .node .atomPattern 0 74,
  ⟨[(.comma,902),(.rightBrace,901)],[],[(.trailingComma,900)],[]⟩,
  .on [(.rightBrace,903)],
  .node .dictPattern 3 74,
  ⟨shifts17,[.node .trailingComma 0 48],(.dictPatternElement,904) :: nodes22 ++ nodes14 ++ nodes13
   ++ nodes9,[]⟩,
  ⟨shifts17,[],(.testPattern,905) :: nodes31,[]⟩,
  ⟨[(.comma,908),(.rightBracket,907)],[],[(.trailingComma,906)],[]⟩,
  .on [(.rightBracket,909)],
  .node .arrayPattern 3 74,
  ⟨shifts17,[.node .trailingComma 0 77],(.testPattern,836) :: nodes31,[]⟩,
  ⟨shifts16,[],(.aslessOrTest,720) :: (.aslessTestExpr,910) :: nodes26 ++ nodes21 ++ nodes5,parts2⟩,
  ⟨shifts15,[],nodes29,(.funcSuite,911) :: parts3⟩,
  .part .moreTestPatterns 1 76,
  ⟨shifts17,[],(.testPattern,912) :: nodes31,[]⟩,
  .part .orPatterns 2 65, .part .orPatterns 3 65, .part .andPatterns 2 66, .part .andPatterns 3 66,
  .part .bitwOrPatterns 1 68, .part .bitwXorPatterns 1 69, .part .bitwAndPatterns 1 70,
  .part .shiftPatterns 2 71, .part .shiftPatterns 3 71, .part .arithPatterns 2 72, .part .arithPatterns 3 72,
  .part .mdrPatterns 3 73]

def block28 : List Row := [
  .part .mdrPatterns 4 73, .part .mdrPatterns 5 73, .part .dottedPatterns 1 74, .node .callPattern 0 74,
  .on [(.rightBrace,913)],
  .node .dictPattern 1 74,
  ⟨shifts17,[.node .trailingComma 0 48],(.dictPatternElement,914) :: nodes22 ++ nodes14 ++ nodes13
   ++ nodes9,[]⟩,
  .node .dictPattern 2 74, .part .moreDictPatterns 0 36, .node .kvPairPattern 0 36,
  .on [(.rightBracket,915)],
  .node .arrayPattern 1 74,
  ⟨shifts17,[.node .trailingComma 0 77],(.testPattern,882) :: nodes31,[]⟩,
  .node .arrayPattern 2 74, .node .aslessTestExpr 0 5, .node .matchBranch 1 60, .node .testPattern 0 63,
  .node .dictPattern 0 74, .part .moreDictPatterns 1 36, .node .arrayPattern 0 74]

end GDWorkbench.Automaton
