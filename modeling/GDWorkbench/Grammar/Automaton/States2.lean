import GDWorkbench.Grammar.Automaton.Shared

namespace GDWorkbench.Automaton

def block8 : List Row := [
  .node .callExpr 2 5, .node .callExpr 3 5, .part .plusAtom 0 5, .node .atom 3 5,
  .on [(.rightParen,453)],
  .node .callExpr 0 5, .node .literal 4 4, .node .literal 5 4, .node .uniqueNodePath 0 4,
  .node .uniqueNodePath 1 4,
  .on [(.identifier,454)],
  ⟨[(.slash,456)],[.node .path 3 40],[],[(.pathSteps,455)]⟩,
  .node .getNode 0 4, .node .getNode 1 4, .node .getNode 2 4, .node .lambda 0 5, .part .lambdaSuite 0 5,
  .part .lambdaSuite 1 5, .part .standaloneLambdaStmt 0 5,
  ⟨shifts14,[.part .standaloneLambdaStmt 3 41],(.annot,58) :: (.singleFuncStmt,221) ::
   (.compoundFuncStmt,457) :: nodes27 ++ nodes25 ++ nodes12,(.varTyped,175) :: parts2⟩,
  .part .standaloneLambdaStmt 2 5,
  .on [(.indent,458)],
  ⟨[(.leftParen,216)],[],[(.funcArgs,459)],[]⟩,
  .on [(.arrow,460),(.colon,461)],
  ⟨[(.comma,465),(.rightBrace,464)],[],[(.trailingComma,463)],[(.moreColonEntries,462)]⟩,
  .node .dict 4 5,
  ⟨[(.comma,469),(.rightBrace,468)],[],[(.trailingComma,467)],[(.moreEqualEntries,466)]⟩,
  ⟨[(.leftParen,250),(.equal,470)],[.node .atom 3 42],[],[(.callArglist,255)]⟩,
  .on [(.colon,471)],
  ⟨[(.comma,475),(.rightBracket,474)],[],[(.trailingComma,473)],[(.moreArguments,472)]⟩,
  .node .array 4 5,
  .on [(.kwAs,476)] [.node .actualTypeCast 0 16]]

def block9 : List Row := [
  .on [(.typeHint,477)],
  ⟨shifts16,[],(.aslessOrTest,478) :: nodes26 ++ nodes21 ++ nodes5,parts2⟩,
  .on [(.kwOr,481),(.barBar,482)] [.node .orTest 2 19],
  .on [(.kwAnd,483),(.ampersands,484)] [.node .andTest 2 20],
  ⟨[(.kwNot,324),(.kwIn,323)],[.node .contentTest 2 21],[(.notInOp,322)],[(.contentTestOp,485)]⟩,
  ⟨shifts13,[],(.aslessBitwOr,486) :: nodes26 ++ nodes15 ++ nodes4,parts2⟩,
  .on [(.bar,487)] [.node .bitwOr 2 23],
  .on [(.caret,488)] [.node .bitwXor 2 24],
  .on [(.ampersand,489)] [.node .bitwAnd 2 25],
  .on [(.shiftLeft,490),(.shiftRight,491)] [.node .shiftExpr 2 26],
  .on [(.minus,492),(.plus,493)] [.node .arithExpr 2 27],
  .on [(.percent,496),(.slash,495),(.star,494)] [.node .mdrExpr 2 28],
  .on [(.power,497)] [.node .powExpr 2 29],
  .on [(.isNot,499),(.kwIs,498)] [.node .typeTest 2 30],
  .on [(.typeHint,500)],
  .on [(.typeHint,501)],
  ⟨(.identifier,111) :: (.kwAwait,165) :: shifts9 ++ shifts6,[],(.aslessTypeTest,502) :: nodes17
   ++ nodes0,parts2⟩,
  ⟨shifts13,[],(.aslessNegExpr,503) :: nodes26,parts2⟩,
  ⟨shifts13,[],(.aslessNegExpr,504) :: nodes26,parts2⟩,
  ⟨shifts13,[],(.aslessNegExpr,505) :: nodes26,parts2⟩,
  ⟨shifts13,[],(.aslessNegExpr,342) :: (.aslessMdrExpr,506) :: nodes26,parts2⟩,
  ⟨shifts13,[],(.aslessNegExpr,342) :: (.aslessMdrExpr,507) :: nodes26,parts2⟩,
  ⟨shifts13,[],(.aslessArithExpr,508) :: nodes26 ++ nodes7,parts2⟩,
  ⟨shifts13,[],(.aslessArithExpr,509) :: nodes26 ++ nodes7,parts2⟩,
  ⟨shifts13,[],(.aslessArithExpr,340) :: (.aslessShiftExpr,510) :: nodes26 ++ nodes7,parts2⟩,
  ⟨shifts13,[],(.aslessBitwAnd,511) :: nodes26 ++ nodes15,parts2⟩,
  ⟨shifts13,[],(.aslessBitwAnd,338) :: (.aslessBitwXor,512) :: nodes26 ++ nodes15,parts2⟩,
  .part .compOp 0 43, .part .compOp 1 43, .part .compOp 2 43, .part .compOp 3 43, .part .compOp 4 43]

def block10 : List Row := [
  .part .compOp 5 43,
  ⟨shifts13,[],(.aslessBitwOr,336) :: (.aslessComparison,513) :: nodes26 ++ nodes15 ++ nodes4,parts2⟩,
  .part .contentTestOp 0 44, .part .contentTestOp 1 44,
  .on [(.kwIn,514)],
  ⟨shifts16,[],(.aslessNotTest,515) :: nodes33,parts2⟩,
  ⟨shifts16,[],(.aslessNotTest,516) :: nodes33,parts2⟩,
  ⟨shifts16,[],(.aslessNotTest,480) :: (.aslessAndTest,517) :: nodes33,parts2⟩,
  ⟨shifts16,[],(.aslessNotTest,480) :: (.aslessAndTest,518) :: nodes33,parts2⟩,
  ⟨shifts16,[],(.aslessOrTest,519) :: nodes26 ++ nodes21 ++ nodes5,parts2⟩,
  .on [(.kwOr,481),(.barBar,482)] [.node .orTest 0 19],
  .on [(.kwAnd,483),(.ampersands,484)] [.node .andTest 0 20],
  .node .aslessActualNotTest 0 5, .node .aslessNotTest 0 5, .node .aslessNotTest 1 5,
  ⟨[(.kwNot,324),(.kwIn,323)],[.node .aslessContentTest 1 21],[(.notInOp,322)],[(.contentTestOp,321),
   (.contentTests,520)]⟩,
  ⟨shifts1,[.node .aslessComparison 1 22],[],[(.compOp,521)]⟩,
  ⟨[(.bar,314)],[.node .aslessBitwOr 1 23],[],[(.bitwOrs,522)]⟩,
  ⟨[(.caret,313)],[.node .aslessBitwXor 1 24],[],[(.bitwXors,523)]⟩,
  ⟨[(.ampersand,312)],[.node .aslessBitwAnd 1 25],[],[(.bitwAnds,524)]⟩,
  ⟨[(.shiftLeft,310),(.shiftRight,311)],[.node .aslessShiftExpr 1 26],[],[(.shifts,525)]⟩,
  ⟨[(.minus,308),(.plus,309)],[.node .aslessArithExpr 1 27],[],[(.ariths,526)]⟩,
  ⟨[(.percent,307),(.slash,306),(.star,305)],[.node .aslessMdrExpr 1 28],[],[(.mdrs,527)]⟩,
  .node .aslessNegExpr 0 5, .node .aslessNegExpr 1 5, .node .aslessBitwNot 0 5, .node .aslessBitwNot 1 5,
  ⟨[(.power,304)],[.node .aslessPowExpr 1 29],[],[(.powers,528)]⟩,
  ⟨[(.isNot,303),(.kwIs,302)],[.node .aslessTypeTest 1 30],[],[(.typeTests,529)]⟩,
  .node .aslessActualNotTest 1 5,
  ⟨[(.kwNot,324),(.kwIn,323)],[.node .contentTest 0 21],[(.notInOp,322)],[(.contentTestOp,485)]⟩,
  ⟨shifts13,[],(.aslessBitwOr,530) :: nodes26 ++ nodes15 ++ nodes4,parts2⟩]

def block11 : List Row := [
  .on [(.bar,487)] [.node .bitwOr 0 23],
  .on [(.caret,488)] [.node .bitwXor 0 24],
  .on [(.ampersand,489)] [.node .bitwAnd 0 25],
  .on [(.shiftLeft,490),(.shiftRight,491)] [.node .shiftExpr 0 26],
  .on [(.minus,492),(.plus,493)] [.node .arithExpr 0 27],
  .on [(.percent,496),(.slash,495),(.star,494)] [.node .mdrExpr 0 28],
  .node .aslessActualNegExpr 0 5, .node .aslessActualBitwNot 0 5,
  .on [(.power,497)] [.node .powExpr 0 29],
  .on [(.isNot,499),(.kwIs,498)] [.node .typeTest 0 30],
  ⟨[(.dot,254),(.leftBracket,252)],[.node .awaitExpr 0 14],[],[(.attr,253),(.attrs,251)]⟩,
  .part .awaits 1 31,
  .on [(.colon,531),(.equal,532)] [.node .funcVarEmpty 0 45],
  ⟨shifts16,[],(.expr,533) :: nodes32,parts2⟩,
  .node .returnStmt 0 5,
  .on [(.dedent,534)],
  .node .propertyBodyDef 1 6, .part .customEtters 1 34,
  .on [(.leftParen,373)],
  ⟨[(.colon,376),(.leftParen,377)],[],[(.propertyCustomGetterArgs,375)],[]⟩,
  .on [(.identifier,535)],
  .on [(.identifier,536)],
  .on [(.identifier,537)],
  .on [(.colon,538)],
  ⟨shifts15,[],nodes29,(.funcSuite,539) :: parts3⟩,
  .on [(.rightParen,540)],
  ⟨[(.kwGet,202),(.newline,541)],[],[(.propertyDelegateGet,542)],[]⟩,
  ⟨[(.kwSet,203),(.newline,543)],[],[(.propertyDelegateSet,544)],[]⟩,
  .on [(.colon,545)],
  ⟨(.newline,550) :: shifts10 ++ shifts5,[],nodes23 ++ nodes18 ++ nodes10,[(.varTyped,31),
   (.classStmt,547),(.simpleClassStmt,548),(.classBody,546),(.annotations,549)]⟩,
  ⟨(.kwStatic,192) :: shifts10,[.part .simpleClassStmt 0 2],(.annot,5) :: (.singleClassStmt,387) ::
   nodes23,[(.varTyped,31),(.annotations,386)]⟩,
  ⟨[(.kwAs,288),(.comma,554),(.rightParen,553)],[],[(.trailingComma,552)],[(.casts,287),
   (.moreAnnotationArgs,551)]⟩]

def block12 : List Row := [
  .node .annotationArgs 4 1,
  ⟨shifts2,[],[(.notInOp,322)],parts0⟩,
  ⟨(.kwStatic,192) :: shifts10,[],(.annot,58) :: (.singleClassStmt,555) :: nodes23,[(.varTyped,31)]⟩,
  .part .moreClassStmts 3 3, .part .moreClassStmts 0 3,
  .on [(.colon,413),(.arrow,556)],
  .node .constAssigned 0 5,
  .on [(.equal,557)],
  ⟨shifts16,[],(.expr,558) :: nodes32,parts2⟩,
  ⟨[(.colon,69)],[.node .classVarAssigned 1 3],[(.inlinePropertyBody,559)],[]⟩,
  .part .varTyped 0 5,
  ⟨shifts16,[],(.expr,560) :: nodes32,parts2⟩,
  .node .classVarTypedAssgnd 0 3,
  ⟨[(.kwGet,202)],[],[(.propertyDelegateGet,561)],[]⟩,
  ⟨[(.kwSet,203)],[],[(.propertyDelegateSet,562)],[]⟩,
  ⟨[(.dot,206)],[.node .classnameExtendsStmt 1 3],[],[(.dottedNames,563)]⟩,
  ⟨[(.dot,206)],[.node .classnameExtendsStmt 3 3],[],[(.dottedNames,564)]⟩,
  .on [(.identifier,565)],
  .part .dottedNames 0 46,
  ⟨[(.comma,569),(.rightParen,568)],[],[(.trailingComma,567)],[(.moreSignalArgs,566)]⟩,
  .node .signalArgs 4 3,
  .on [(.colon,570)] [.node .signalArg 0 47],
  .node .enumNamed 0 3,
  ⟨[(.comma,573),(.rightBrace,572)],[],[(.trailingComma,571)],[]⟩,
  .on [(.rightBrace,574)],
  .node .enumBody 3 3,
  ⟨[(.identifier,214)],[.node .trailingComma 0 48],[(.enumElement,575)],[]⟩,
  ⟨shifts16,[],(.attrExpr,261) :: (.typeCast,576) :: nodes27,parts2⟩,
  .on [(.typeHint,577)],
  .node .funcHeader 1 49,
  ⟨[(.comma,581),(.rightParen,580)],[],[(.trailingComma,579)],[(.moreFuncArgs,578)]⟩,
  .node .funcArgs 4 50]

def block13 : List Row := [
  .node .funcArg 0 47, .node .funcArg 1 47, .node .funcArg 2 47, .node .funcArg 3 47,
  .on [(.colon,583),(.equal,582)] [.node .funcArgRegular 1 47],
  ⟨[(.identifier,586)],[],[(.funcArgRegular,584),(.funcArgTyped,585)],[]⟩,
  .on [(.semicolon,587)] [.part .simpleFuncStmt 1 12],
  ⟨shifts13 ++ shifts8 ++ shifts7,[.part .simpleFuncStmt 2 33],(.annot,5) :: (.singleFuncStmt,444) ::
   nodes27 ++ nodes25,(.varTyped,175) :: (.annotations,443) :: parts2⟩,
  ⟨(.newline,428) :: (.dedent,588) :: shifts14,[],nodes29,(.varTyped,175) :: (.funcStmt,591) ::
   (.simpleFuncStmt,589) :: (.annotations,590) :: parts2⟩,
  .on [(.newline,218),(.dedent,592)],
  ⟨(.newline,220) :: (.dedent,593) :: shifts14,[],(.annot,58) :: (.singleFuncStmt,221) ::
   (.compoundFuncStmt,219) :: nodes27 ++ nodes25 ++ nodes12,(.varTyped,175) :: parts2⟩,
  .part .funcStmts 0 51, .part .funcStmt 4 51,
  ⟨[(.newline,595)],[],[],[(.matchBody,594)]⟩,
  .on [(.typeHint,596)],
  ⟨shifts16,[],(.expr,597) :: nodes32,parts2⟩,
  ⟨shifts16,[],(.expr,598) :: nodes32,parts2⟩,
  ⟨shifts15,[],nodes29,(.funcSuite,599) :: parts3⟩,
  ⟨[(.kwElif,232),(.kwElse,230)],[],[(.elifBranch,601),(.elseBranch,600)],[]⟩,
  .node .ifStmt 1 9, .part .elifBranches 3 9, .node .ifStmt 3 9, .part .elifBranches 0 9,
  ⟨shifts15,[],nodes29,(.funcSuite,602) :: parts3⟩,
  .on [(.colon,603)],
  ⟨shifts15,[],nodes29,(.funcSuite,604) :: parts3⟩,
  ⟨shifts13 ++ shifts8 ++ shifts7,[.part .simpleFuncStmt 4 33],(.annot,5) :: (.singleFuncStmt,606) ::
   nodes27 ++ nodes25,(.varTyped,175) :: (.annotations,605) :: parts2⟩,
  ⟨shifts13 ++ shifts8 ++ shifts7,[],(.annot,58) :: (.singleFuncStmt,607) :: nodes27 ++ nodes25,
   (.varTyped,175) :: parts2⟩,
  .part .moreFuncStmts 1 5, .node .assnmntExpr 0 5,
  ⟨[(.comma,475),(.rightParen,610)],[],[(.trailingComma,609)],[(.moreArguments,608)]⟩,
  .part .callArglist 4 5]

def block14 : List Row := [
  .part .attrs 1 39,
  .on [(.rightBracket,611)],
  .part .attr 0 39, .part .attr 1 39, .part .attr 2 39, .node .atom 0 5,
  ⟨[(.slash,456)],[.node .path 1 40],[],[(.pathSteps,612)]⟩,
  .on [(.slash,613)] [.node .path 2 40],
  .on [(.identifier,615),(.percent,614)],
  .part .standaloneLambdaStmt 1 5,
  ⟨(.newline,428) :: shifts14,[],nodes29,[(Fragment.varTyped,175),(.simpleFuncStmt,81),(.annotations,82),
   (.funcStmt,427),(.funcStmts,616)] ++ parts2⟩,
  .on [(.arrow,617),(.colon,618)],
  .on [(.typeHint,619)],
  .node .lambdaHeader 3 52,
  ⟨[(.comma,622),(.rightBrace,621)],[],[(.trailingComma,620)],[]⟩,
  .on [(.rightBrace,623)],
  .node .dict 3 5,
  ⟨shifts16,[.node .trailingComma 0 48],(.attrExpr,261) :: (.typeCast,284) :: (.cDictElement,624) ::
   nodes27,parts2⟩,
  ⟨[(.comma,627),(.rightBrace,626)],[],[(.trailingComma,625)],[]⟩,
  .on [(.rightBrace,628)],
  .node .dict 8 5,
  ⟨[(.identifier,630)],[.node .trailingComma 0 48],[(.eqDictElement,629)],[]⟩,
  ⟨shifts16,[],(.attrExpr,261) :: (.typeCast,631) :: nodes27,parts2⟩,
  ⟨shifts16,[],(.attrExpr,261) :: (.typeCast,632) :: nodes27,parts2⟩,
  ⟨[(.comma,635),(.rightBracket,634)],[],[(.trailingComma,633)],[]⟩,
  .on [(.rightBracket,636)],
  .node .array 3 5,
  ⟨shifts16,[.node .trailingComma 0 53],(.attrExpr,261) :: (.typeCast,637) :: nodes27,parts2⟩,
  .on [(.typeHint,638)],
  .part .casts 0 5,
  .on [(.kwElse,639)],
  ⟨[(.kwOr,327),(.barBar,328)],[.node .aslessOrTest 1 19],[],[(.orTests,640)]⟩]

def block15 : List Row := [
  ⟨[(.kwAnd,325),(.ampersands,326)],[.node .aslessAndTest 1 20],[],[(.andTests,641)]⟩,
  ⟨shifts16,[],(.aslessNotTest,480) :: (.aslessAndTest,642) :: nodes33,parts2⟩,
  ⟨shifts16,[],(.aslessNotTest,480) :: (.aslessAndTest,643) :: nodes33,parts2⟩,
  ⟨shifts16,[],(.aslessNotTest,644) :: nodes33,parts2⟩,
  ⟨shifts16,[],(.aslessNotTest,645) :: nodes33,parts2⟩,
  ⟨shifts13,[],(.aslessBitwOr,336) :: (.aslessComparison,646) :: nodes26 ++ nodes15 ++ nodes4,parts2⟩,
  .node .comparison 2 5,
  ⟨shifts13,[],(.aslessBitwAnd,338) :: (.aslessBitwXor,647) :: nodes26 ++ nodes15,parts2⟩,
  ⟨shifts13,[],(.aslessBitwAnd,648) :: nodes26 ++ nodes15,parts2⟩,
  ⟨shifts13,[],(.aslessArithExpr,340) :: (.aslessShiftExpr,649) :: nodes26 ++ nodes7,parts2⟩,
  ⟨shifts13,[],(.aslessArithExpr,650) :: nodes26 ++ nodes7,parts2⟩,
  ⟨shifts13,[],(.aslessArithExpr,651) :: nodes26 ++ nodes7,parts2⟩,
  ⟨shifts13,[],(.aslessNegExpr,342) :: (.aslessMdrExpr,652) :: nodes26,parts2⟩,
  ⟨shifts13,[],(.aslessNegExpr,342) :: (.aslessMdrExpr,653) :: nodes26,parts2⟩,
  ⟨shifts13,[],(.aslessNegExpr,654) :: nodes26,parts2⟩,
  ⟨shifts13,[],(.aslessNegExpr,655) :: nodes26,parts2⟩,
  ⟨shifts13,[],(.aslessNegExpr,656) :: nodes26,parts2⟩,
  ⟨(.identifier,111) :: (.kwAwait,165) :: shifts9 ++ shifts6,[],(.aslessTypeTest,657) :: nodes17
   ++ nodes0,parts2⟩,
  .on [(.typeHint,658)],
  .on [(.typeHint,659)],
  .part .typeTests 0 5, .part .typeTests 1 5, .part .powers 0 5, .part .mdrs 0 5, .part .mdrs 1 5,
  .part .mdrs 2 5, .part .ariths 0 5, .part .ariths 1 5, .part .shifts 0 5, .part .shifts 1 5,
  .part .bitwAnds 0 5, .part .bitwXors 0 5]

end GDWorkbench.Automaton
