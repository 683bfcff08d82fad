import GDWorkbench.Text.Case

/-!
Characters by name: ASCII, the signs of Latin-1, and the letters of Latin, Greek and Cyrillic, with the
names that Unicode gives them.
-/

namespace GDWorkbench.Text

/-! ## Names

A row has the names of characters that follow one another from a code point on, with a bar between them.
Characters that are left out have an empty name. Words that many names have are written as one small
letter. -/

def shortWords : List (Char × String) :=
  [('w', "WITH"), ('x', "CIRCUMFLEX"), ('d', "DOUBLE"), ('g', "SIGN"), ('o', "ABOVE"), ('k', "STROKE"),
   ('i', "RIGHT"), ('u', "DIAERESIS"), ('v', "VERTICAL"), ('j', "GREATER-THAN"), ('m', "MARK"),
   ('p', "LEFT"), ('q', "ACUTE")]

/-- Letters that have a capital and a small form, by script and the code points of the capitals. -/
def letterRows : List (String × List (Nat × String)) := [
  ("LATIN", [
    (0x41, "A|B|C|D|E|F|G|H|I|J|K|L|M|N|O|P|Q|R|S|T|U|V|W|X|Y|Z"),
    (0xC0, "A w GRAVE|A w q|A w x|A w TILDE|A w u|A w RING o|AE|C w CEDILLA|E w GRAVE|E w q" ++
     "|E w x|E w u|I w GRAVE|I w q|I w x|I w u|ETH|N w TILDE|O w GRAVE|O w q|O w x|O w TILDE" ++
     "|O w u||O w k|U w GRAVE|U w q|U w x|U w u|Y w q|THORN"),
    (0x100, "A w MACRON||A w BREVE||A w OGONEK||C w q||C w x||C w DOT o||C w CARON||D w CARON" ++
     "||D w k||E w MACRON||E w BREVE||E w DOT o||E w OGONEK||E w CARON||G w x||G w BREVE|" ++
     "|G w DOT o||G w CEDILLA||H w x||H w k||I w TILDE||I w MACRON||I w BREVE||I w OGONEK||||" ++
     "||J w x||K w CEDILLA|||L w q||L w CEDILLA||L w CARON||L w MIDDLE DOT||L w k||N w q|" ++
     "|N w CEDILLA||N w CARON|||ENG||O w MACRON||O w BREVE||O w d q||||R w q||R w CEDILLA|" ++
     "|R w CARON||S w q||S w x||S w CEDILLA||S w CARON||T w CEDILLA||T w CARON||T w k|" ++
     "|U w TILDE||U w MACRON||U w BREVE||U w RING o||U w d q||U w OGONEK||W w x||Y w x||Y w u" ++
     "|Z w q||Z w DOT o||Z w CARON|||||B w TOPBAR||TONE SIX|||C w HOOK||||D w TOPBAR|||||" ++
     "|F w HOOK|||||||K w HOOK||||||||O w HORN||GHA")]),
  ("GREEK", [
    (0x386, "ALPHA w TONOS||EPSILON w TONOS|ETA w TONOS|IOTA w TONOS||OMICRON w TONOS|" ++
     "|UPSILON w TONOS|OMEGA w TONOS||ALPHA|BETA|GAMMA|DELTA|EPSILON|ZETA|ETA|THETA|IOTA" ++
     "|KAPPA|LAMDA|MU|NU|XI|OMICRON|PI|RHO||SIGMA|TAU|UPSILON|PHI|CHI|PSI|OMEGA" ++
     "|IOTA w DIALYTIKA|UPSILON w DIALYTIKA")]),
  ("CYRILLIC", [
    (0x400, "IE w GRAVE|IO|DJE|GJE|UKRAINIAN IE|DZE|BYELORUSSIAN-UKRAINIAN I|YI|JE|LJE|NJE" ++
     "|TSHE|KJE|I w GRAVE|SHORT U|DZHE|A|BE|VE|GHE|DE|IE|ZHE|ZE|I|SHORT I|KA|EL|EM|EN|O|PE|ER" ++
     "|ES|TE|U|EF|HA|TSE|CHE|SHA|SHCHA|HARD g|YERU|SOFT g|E|YU|YA")])]

def nameRows : List (String × List (Nat × String)) := [
  ("", [
    (0x0, "NUL|SOH|START OF TEXT|END OF TEXT|END OF TRANSMISSION|ENQ|ACK|ALERT|BACKSPACE" ++
     "|CHARACTER TABULATION|END OF LINE|LINE TABULATION|FF|CARRIAGE RETURN|LOCKING-SHIFT ONE" ++
     "|LOCKING-SHIFT ZERO|DATA LINK ESCAPE|DC1|DC2|DC3|DC4|NAK|SYN|END OF TRANSMISSION BLOCK" ++
     "|CAN|END OF MEDIUM|SUB|ESC|FILE SEPARATOR|GROUP SEPARATOR|INFORMATION SEPARATOR TWO" ++
     "|INFORMATION SEPARATOR ONE|SP|EXCLAMATION m|QUOTATION m|NUMBER g|DOLLAR g|PERCENT g" ++
     "|AMPERSAND|APOSTROPHE|p PARENTHESIS|i PARENTHESIS|ASTERISK|PLUS g|COMMA|HYPHEN-MINUS" ++
     "|FULL STOP|SOLIDUS|||||||||||COLON|SEMICOLON|LESS-THAN g|EQUALS g|j g|QUESTION m" ++
     "|COMMERCIAL AT"),
    (0x5B, "p SQUARE BRACKET|REVERSE SOLIDUS|i SQUARE BRACKET|x ACCENT|LOW LINE|GRAVE ACCENT"),
    (0x7B, "p CURLY BRACKET|v LINE|i CURLY BRACKET|TILDE|DEL"),
    (0xA0, "NBSP|INVERTED EXCLAMATION m|CENT g|POUND g|CURRENCY g|YEN g|BROKEN BAR|SECTION g|u" ++
     "|COPYRIGHT g|FEMININE ORDINAL INDICATOR|LEFT-POINTING d ANGLE QUOTATION m|NOT g" ++
     "|SHY|REGISTERED g|MACRON|DEGREE g|PLUS-MINUS g|SUPERSCRIPT TWO|SUPERSCRIPT THREE" ++
     "|q ACCENT|MICRO g|PILCROW g|MIDDLE DOT|CEDILLA|SUPERSCRIPT ONE" ++
     "|MASCULINE ORDINAL INDICATOR|RIGHT-POINTING d ANGLE QUOTATION m" ++
     "|VULGAR FRACTION ONE QUARTER|VULGAR FRACTION ONE HALF" ++
     "|VULGAR FRACTION THREE QUARTERS|INVERTED QUESTION m"),
    (0xD7, "MULTIPLICATION g"), (0xF7, "DIVISION g"), (0xFEFF, "BOM"), (0xFFFD, "REPLACEMENT CHARACTER")]),
  ("DIGIT ", [
    (0x30, "ZERO|ONE|TWO|THREE|FOUR|FIVE|SIX|SEVEN|EIGHT|NINE")]),
  ("", [
    (0x0, "NULL|START OF HEADING|STX|ETX|EOT|ENQUIRY|ACKNOWLEDGE|BEL|BS|HORIZONTAL TABULATION" ++
     "|EOL|v TABULATION|FORM FEED|CR|SHIFT OUT|SHIFT IN|DLE|DEVICE CONTROL ONE" ++
     "|DEVICE CONTROL TWO|DEVICE CONTROL THREE|DEVICE CONTROL FOUR|NEGATIVE ACKNOWLEDGE" ++
     "|SYNCHRONOUS IDLE|ETB|CANCEL|EOM|SUBSTITUTE|ESCAPE|FS|GS|RECORD SEPARATOR" ++
     "|UNIT SEPARATOR|SPACE"),
    (0x7F, "DELETE"), (0xA0, "NO-BREAK SPACE"), (0xAD, "SOFT HYPHEN"), (0xFEFF, "BYTE ORDER m")]),
  ("", [
    (0x9, "HT|LF|VT|||SO|SI"),
    (0x1C, "INFORMATION SEPARATOR FOUR|INFORMATION SEPARATOR THREE|RS|US"), (0xFEFF, "ZWNBSP")]),
  ("", [
    (0x9, "TAB|LINE FEED")]),
  ("", [
    (0xA, "NEW LINE")]),
  ("", [
    (0xA, "NL")])]

def writtenOut (entry : Text) : Text :=
  join [' '] ((splitAt ' ' entry).map fun
    | [c] => ((shortWords.lookup c).map String.toList).getD [c]
    | word => word)

/-- The code point of a name in rows that start with a code point. -/
def codeInRows? (rows : List (Nat × String)) (name : Text) : Option Nat :=
  if name.isEmpty then none
  else rows.findSome? fun (first, row) =>
    ((splitAt '|' row.toList).findIdx? (writtenOut · = name)).map (first + ·)

def codeBehind? (beginning : String) (rows : List (Nat × String)) (name : Text) : Option Nat :=
  (after? beginning.toList name).bind (codeInRows? rows)

def letterOfName? (name : Text) : Option Nat :=
  letterRows.findSome? fun (script, rows) =>
    codeBehind? (script ++ " CAPITAL LETTER ") rows name
      <|> (codeBehind? (script ++ " SMALL LETTER ") rows name).map lower

/-- The code point of the character with a name, in which capitals and small letters are the same. -/
def codeOfName? (given : Text) : Option Nat :=
  let name := given.map Char.toUpper
  letterOfName? name
    <|> nameRows.findSome? (fun (beginning, rows) => codeBehind? beginning rows name)

end GDWorkbench.Text
