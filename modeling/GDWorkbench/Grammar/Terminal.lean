/-!
The terminals of GDScript. Their order is the order in which the scanner tries them: number
literals with a base first, then the classes of text, then fixed spellings from long to short.
-/

namespace GDWorkbench

inductive Terminal where
  | hex | bin | typeHint | number | longRawString | longString | rawString | identifier
  | regularString | newline | blanks | lineJoin | comment | kwBreakpoint | kwClassName | kwContinue
  | kwExtends | kwReturn | kwSignal | kwStatic | isNot | kwAwait | kwBreak | kwClass | kwConst
  | kwMatch | kwWhile | kwElif | kwElse | kwEnum | kwFunc | kwPass | kwWhen | kwAnd | kwFor | kwGet
  | kwNot | kwSet | kwVar | ellipsis | shiftRightAssign | shiftLeftAssign | powerAssign | kwAs
  | kwIf | kwIn | kwIs | kwOr | arrow | slashAssign | percentAssign | ampersandAssign | barAssign
  | caretAssign | equalEqual | bangEqual | barBar | lessEqual | greaterEqual | power | ampersands
  | shiftLeft | shiftRight | dotDot | plusAssign | minusAssign | starAssign | ampersand | atSign
  | bang | caret | colon | comma | dollar | dot | equal | leftBrace | less | leftParen | leftBracket
  | minus | greater | percent | plus | rightBrace | rightParen | rightBracket | semicolon | slash
  | star | tilde | underscore | bar | indent | dedent | endOfText
  deriving DecidableEq, Repr, Inhabited

namespace Terminal

def name : Terminal → String
  | .hex => "HEX"
  | .bin => "BIN"
  | .typeHint => "TYPE_HINT"
  | .number => "NUMBER"
  | .longRawString => "LONG_RSTRING"
  | .longString => "LONG_STRING"
  | .rawString => "REGULAR_RSTRING"
  | .identifier => "NAME"
  | .regularString => "REGULAR_STRING"
  | .newline => "_NL"
  | .blanks => "WS_INLINE"
  | .lineJoin => "LINE_CONT"
  | .comment => "COMMENT"
  | .kwBreakpoint => "BREAKPOINT"
  | .kwClassName => "CLASS_NAME"
  | .kwContinue => "CONTINUE"
  | .kwExtends => "EXTENDS"
  | .kwReturn => "RETURN"
  | .kwSignal => "SIGNAL"
  | .kwStatic => "STATIC"
  | .isNot => "__ANON_23"
  | .kwAwait => "AWAIT"
  | .kwBreak => "BREAK"
  | .kwClass => "CLASS"
  | .kwConst => "CONST"
  | .kwMatch => "MATCH"
  | .kwWhile => "WHILE"
  | .kwElif => "ELIF"
  | .kwElse => "ELSE"
  | .kwEnum => "ENUM"
  | .kwFunc => "FUNC"
  | .kwPass => "PASS"
  | .kwWhen => "WHEN"
  | .kwAnd => "AND"
  | .kwFor => "FOR"
  | .kwGet => "GET"
  | .kwNot => "NOT"
  | .kwSet => "SET"
  | .kwVar => "VAR"
  | .ellipsis => "__ANON_1"
  | .shiftRightAssign => "__ANON_15"
  | .shiftLeftAssign => "__ANON_16"
  | .powerAssign => "__ANON_17"
  | .kwAs => "AS"
  | .kwIf => "IF"
  | .kwIn => "IN"
  | .kwIs => "IS"
  | .kwOr => "OR"
  | .arrow => "__ANON_0"
  | .slashAssign => "__ANON_10"
  | .percentAssign => "__ANON_11"
  | .ampersandAssign => "__ANON_12"
  | .barAssign => "__ANON_13"
  | .caretAssign => "__ANON_14"
  | .equalEqual => "__ANON_18"
  | .bangEqual => "__ANON_19"
  | .barBar => "__ANON_2"
  | .lessEqual => "__ANON_20"
  | .greaterEqual => "__ANON_21"
  | .power => "__ANON_22"
  | .ampersands => "__ANON_3"
  | .shiftLeft => "__ANON_4"
  | .shiftRight => "__ANON_5"
  | .dotDot => "__ANON_6"
  | .plusAssign => "__ANON_7"
  | .minusAssign => "__ANON_8"
  | .starAssign => "__ANON_9"
  | .ampersand => "AMPERSAND"
  | .atSign => "AT"
  | .bang => "BANG"
  | .caret => "CIRCUMFLEX"
  | .colon => "COLON"
  | .comma => "COMMA"
  | .dollar => "DOLLAR"
  | .dot => "DOT"
  | .equal => "EQUAL"
  | .leftBrace => "LBRACE"
  | .less => "LESSTHAN"
  | .leftParen => "LPAR"
  | .leftBracket => "LSQB"
  | .minus => "MINUS"
  | .greater => "MORETHAN"
  | .percent => "PERCENT"
  | .plus => "PLUS"
  | .rightBrace => "RBRACE"
  | .rightParen => "RPAR"
  | .rightBracket => "RSQB"
  | .semicolon => "SEMICOLON"
  | .slash => "SLASH"
  | .star => "STAR"
  | .tilde => "TILDE"
  | .underscore => "UNDERSCORE"
  | .bar => "VBAR"
  | .indent => "_INDENT"
  | .dedent => "_DEDENT"
  | .endOfText => "$END"

/-- The text of a terminal that is always spelled the same way. -/
def spelling : Terminal → Option (List Char)
  | .kwBreakpoint => some ['b', 'r', 'e', 'a', 'k', 'p', 'o', 'i', 'n', 't']
  | .kwClassName => some ['c', 'l', 'a', 's', 's', '_', 'n', 'a', 'm', 'e']
  | .kwContinue => some ['c', 'o', 'n', 't', 'i', 'n', 'u', 'e']
  | .kwExtends => some ['e', 'x', 't', 'e', 'n', 'd', 's']
  | .kwReturn => some ['r', 'e', 't', 'u', 'r', 'n']
  | .kwSignal => some ['s', 'i', 'g', 'n', 'a', 'l']
  | .kwStatic => some ['s', 't', 'a', 't', 'i', 'c']
  | .isNot => some ['i', 's', ' ', 'n', 'o', 't']
  | .kwAwait => some ['a', 'w', 'a', 'i', 't']
  | .kwBreak => some ['b', 'r', 'e', 'a', 'k']
  | .kwClass => some ['c', 'l', 'a', 's', 's']
  | .kwConst => some ['c', 'o', 'n', 's', 't']
  | .kwMatch => some ['m', 'a', 't', 'c', 'h']
  | .kwWhile => some ['w', 'h', 'i', 'l', 'e']
  | .kwElif => some ['e', 'l', 'i', 'f']
  | .kwElse => some ['e', 'l', 's', 'e']
  | .kwEnum => some ['e', 'n', 'u', 'm']
  | .kwFunc => some ['f', 'u', 'n', 'c']
  | .kwPass => some ['p', 'a', 's', 's']
  | .kwWhen => some ['w', 'h', 'e', 'n']
  | .kwAnd => some ['a', 'n', 'd']
  | .kwFor => some ['f', 'o', 'r']
  | .kwGet => some ['g', 'e', 't']
  | .kwNot => some ['n', 'o', 't']
  | .kwSet => some ['s', 'e', 't']
  | .kwVar => some ['v', 'a', 'r']
  | .ellipsis => some ['.', '.', '.']
  | .shiftRightAssign => some ['>', '>', '=']
  | .shiftLeftAssign => some ['<', '<', '=']
  | .powerAssign => some ['*', '*', '=']
  | .kwAs => some ['a', 's']
  | .kwIf => some ['i', 'f']
  | .kwIn => some ['i', 'n']
  | .kwIs => some ['i', 's']
  | .kwOr => some ['o', 'r']
  | .arrow => some ['-', '>']
  | .slashAssign => some ['/', '=']
  | .percentAssign => some ['%', '=']
  | .ampersandAssign => some ['&', '=']
  | .barAssign => some ['|', '=']
  | .caretAssign => some ['^', '=']
  | .equalEqual => some ['=', '=']
  | .bangEqual => some ['!', '=']
  | .barBar => some ['|', '|']
  | .lessEqual => some ['<', '=']
  | .greaterEqual => some ['>', '=']
  | .power => some ['*', '*']
  | .ampersands => some ['&', '&']
  | .shiftLeft => some ['<', '<']
  | .shiftRight => some ['>', '>']
  | .dotDot => some ['.', '.']
  | .plusAssign => some ['+', '=']
  | .minusAssign => some ['-', '=']
  | .starAssign => some ['*', '=']
  | .ampersand => some ['&']
  | .atSign => some ['@']
  | .bang => some ['!']
  | .caret => some ['^']
  | .colon => some [':']
  | .comma => some [',']
  | .dollar => some ['$']
  | .dot => some ['.']
  | .equal => some ['=']
  | .leftBrace => some ['{']
  | .less => some ['<']
  | .leftParen => some ['(']
  | .leftBracket => some ['[']
  | .minus => some ['-']
  | .greater => some ['>']
  | .percent => some ['%']
  | .plus => some ['+']
  | .rightBrace => some ['}']
  | .rightParen => some [')']
  | .rightBracket => some [']']
  | .semicolon => some [';']
  | .slash => some ['/']
  | .star => some ['*']
  | .tilde => some ['~']
  | .underscore => some ['_']
  | .bar => some ['|']
  | _ => none

/-- Every terminal that can be read from text, in the order in which they are tried. -/
def inOrder : List Terminal :=
  (List.range Terminal.indent.ctorIdx).map .ofNat

def all : List Terminal := .append inOrder [.indent, .dedent, .endOfText]

/-- Names made up for spellings, which have no name of their own. -/
def isNameless : Terminal → Bool
  | .isNot | .ellipsis | .shiftRightAssign | .shiftLeftAssign | .powerAssign | .arrow | .slashAssign
  | .percentAssign | .ampersandAssign | .barAssign | .caretAssign | .equalEqual | .bangEqual
  | .barBar | .lessEqual | .greaterEqual | .power | .ampersands | .shiftLeft | .shiftRight | .dotDot
  | .plusAssign | .minusAssign | .starAssign => true
  | _ => false

end Terminal

end GDWorkbench
