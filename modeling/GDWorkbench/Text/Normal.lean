import GDWorkbench.Text.Identifier

/-!
Identifiers in normal form. Two ways to write a letter, with a mark of its own or with the mark
behind it, are the same, and so are variants of a letter: characters are taken apart, marks behind a
letter are sorted, and what goes together is put together again. Latin, Greek, Cyrillic and kana are
covered, by the decompositions and combining classes of Unicode 14.
-/

namespace GDWorkbench.Text

/-! ## Variants

Letters in another width or script style, and ligatures, with what they are variants of. -/

def latinLetters : String := "ABCDEFGHIJKLMNOPQRSTUVWXYZabcdefghijklmnopqrstuvwxyz"

def greekLetters : String := "ΑΒΓΔΕΖΗΘΙΚΛΜΝΞΟΠΡΘΣΤΥΦΧΨΩ∇αβγδεζηθικλμνξοπρςστυφχψω∂εθκφρπ"

/-- Characters in a row from the given one, by those they stand for. -/
def variantRows : List (Nat × String) := [
  (0xAA, "a"),(0xB5, "μ"),(0xBA, "o"),(0x17F, "s"),(0x2B0, "hɦjrɹɻʁwy"),(0x2E0, "ɣlsxʕ"),
  (0x340, "̀́"),(0x343, "̓"),(0x374, "ʹ"),(0x387, "·"),(0x3D0, "βθΥ"),(0x3D5, "φπ"),
  (0x3F0, "κρς"),(0x3F4, "Θε"),(0x3F9, "Σ"),(0x10FC, "ნ"),(0x1D2C, "AÆB"),
  (0x1D30, "DEƎGHIJKLMN"),(0x1D3C, "OȢPRTUWaɐɑᴂbdeəɛɜg"),(0x1D4F, "kmŋoɔᴖᴗptuᴝɯvᴥβγδφχiruvβγρφχ"),
  (0x1D78, "н"),(0x1D9B, "ɒcɕðɜfɟɡɥɨɩɪᵻʝɭᶅʟɱɰɲɳɴɵɸʂʃƫʉʊᴜʋʌzʐʑʒθ"),(0x1FBE, "ι"),(0x2071, "i"),
  (0x207F, "n"),(0x2090, "aeoxəhklmnpst"),(0x2102, "C"),(0x2107, "Ɛ"),(0x210A, "gHHHhħIILl"),
  (0x2115, "N"),(0x2119, "PQRRR"),(0x2124, "Z"),(0x2126, "Ω"),(0x2128, "Z"),(0x212A, "K"),
  (0x212C, "BC"),(0x212F, "eEF"),(0x2133, "Moאבגדi"),(0x213C, "πγΓΠ"),(0x2145, "Ddeij"),
  (0x2160, "I"),(0x2164, "V"),(0x2169, "X"),(0x216C, "LCDMi"),(0x2174, "v"),(0x2179, "x"),
  (0x217C, "lcdm"),(0x2C7C, "jV"),(0x3038, "十卄卅"),(0xA69C, "ъь"),(0xA770, "ꝯ"),(0xA7F2, "CFQ"),
  (0xA7F8, "Ħœ"),(0xAB5C, "ꜧꬷɫꭒ"),(0xAB69, "ʍ"),(0xFE33, "__"),(0xFE4D, "___"),
  (0xFF10, "0123456789"),(0xFF21, "ABCDEFGHIJKLMNOPQRSTUVWXYZ"),(0xFF3F, "_"),
  (0xFF41, "abcdefghijklmnopqrstuvwxyz"),
  (0xFF66, "ヲァィゥェォャュョッーアイウエオカキクケコサシスセソタチツテトナニヌネノハヒフヘホマミムメモヤユヨラリルレロワン゙゚"),
  (0x1D400, String.join (.replicate 13 latinLetters)),(0x1D6A4, "ıȷ"),
  (0x1D6A8, String.join (.replicate 5 greekLetters)),(0x1D7CA, "Ϝϝ"),
  (0x1D7CE, String.join (.replicate 5 "0123456789")),(0x1FBF0, "0123456789")]

/-- The same for characters that stand for several others, with a bar between them. Where nothing is
given, a character stands for itself. -/
def ligatureRows : List (Nat × String) := [
  (0x132, "IJ|ij"),(0x13F, "L·|l·"),(0x149, "ʼn"),(0x1C4, "DŽ|Dž|dž|LJ|Lj|lj|NJ|Nj|nj"),
  (0x1F1, "DZ|Dz|dz"),(0x344, "̈́"),(0x1E9A, "aʾ"),(0x1F71, "ά||έ||ή||ί||ό||ύ||ώ"),
  (0x1FBB, "Ά"),(0x1FC9, "Έ||Ή"),(0x1FD3, "ΐ"),(0x1FDB, "Ί"),(0x1FE3, "ΰ"),
  (0x1FEB, "Ύ"),(0x1FF9, "Ό||Ώ"),(0x212B, "Å"),
  (0x2161, "II|III|IV||VI|VII|VIII|IX||XI|XII||||||ii|iii|iv||vi|vii|viii|ix||xi|xii"),
  (0x309F, "より"),(0x30FF, "コト"),(0xFB00, "ff|fi|fl|ffi|ffl|st|st")]

/-! ## Letters with marks -/

/-- Marks with the letters that take them, each one followed by the letter with the mark. -/
def markRows : List (Nat × String) := [
  (0x300, "AÀEÈIÌOÒUÙaàeèiìoòuùÜǛüǜNǸnǹЕЀИЍеѐиѝĒḔēḕŌṐōṑWẀwẁÂẦâầĂẰăằÊỀêềÔỒôồƠỜơờƯỪưừYỲyỳἀἂἁἃ" ++
    "ἈἊἉἋἐἒἑἓἘἚἙἛἠἢἡἣἨἪἩἫἰἲἱἳἸἺἹἻὀὂὁὃὈὊὉὋὐὒὑὓὙὛὠὢὡὣὨὪὩὫαὰεὲηὴιὶοὸυὺωὼΑᾺΕῈΗῊϊῒΙῚϋῢΥῪΟῸ" ++
    "ΩῺ"),
  (0x301, "AÁEÉIÍOÓUÚYÝaáeéiíoóuúyýCĆcćLĹlĺNŃnńRŔrŕSŚsśZŹzźÜǗüǘGǴgǵÅǺåǻÆǼæǽØǾøǿΑΆΕΈΗΉΙΊΟΌΥΎ" ++
    "ΩΏϊΐαάεέηήιίϋΰοόυύωώϒϓГЃКЌгѓкќÇḈçḉĒḖēḗÏḮïḯKḰkḱMḾmḿÕṌõṍŌṒōṓPṔpṕŨṸũṹWẂwẃÂẤâấĂẮăắÊẾ" ++
    "êếÔỐôốƠỚơớƯỨưứἀἄἁἅἈἌἉἍἐἔἑἕἘἜἙἝἠἤἡἥἨἬἩἭἰἴἱἵἸἼἹἽὀὄὁὅὈὌὉὍὐὔὑὕὙὝὠὤὡὥὨὬὩὭ"),
  (0x302, "AÂEÊIÎOÔUÛaâeêiîoôuûCĈcĉGĜgĝHĤhĥJĴjĵSŜsŝWŴwŵYŶyŷZẐzẑẠẬạậẸỆẹệỌỘọộ"),
  (0x303, "AÃNÑOÕaãnñoõIĨiĩUŨuũVṼvṽÂẪâẫĂẴăẵEẼeẽÊỄêễÔỖôỗƠỠơỡƯỮưữYỸyỹ"),
  (0x304, "AĀaāEĒeēIĪiīOŌoōUŪuūÜǕüǖÄǞäǟȦǠȧǡÆǢæǣǪǬǫǭÖȪöȫÕȬõȭȮȰȯȱYȲyȳИӢиӣУӮуӯGḠgḡḶḸḷḹṚṜṛṝαᾱΑᾹ" ++
    "ιῑΙῙυῡΥῩ"),
  (0x306, "AĂaăEĔeĕGĞgğIĬiĭOŎoŏUŬuŭУЎИЙийуўЖӁжӂАӐаӑЕӖеӗȨḜȩḝẠẶạặαᾰΑᾸιῐΙῘυῠΥῨ"),
  (0x307, "CĊcċEĖeėGĠgġIİZŻzżAȦaȧOȮoȯBḂbḃDḊdḋFḞfḟHḢhḣMṀmṁNṄnṅPṖpṗRṘrṙSṠsṡŚṤśṥŠṦšṧṢṨṣṩTṪtṫWẆ" ++
    "wẇXẊxẋYẎyẏſẛ"),
  (0x308, "AÄEËIÏOÖUÜaäeëiïoöuüyÿYŸΙΪΥΫιϊυϋϒϔЕЁІЇеёіїАӒаӓӘӚәӛЖӜжӝЗӞзӟИӤиӥОӦоӧӨӪөӫЭӬэӭУӰуӱЧӴ" ++
    "чӵЫӸыӹHḦhḧÕṎõṏŪṺūṻWẄwẅXẌxẍtẗ"),
  (0x309, "AẢaảÂẨâẩĂẲăẳEẺeẻÊỂêểIỈiỉOỎoỏÔỔôổƠỞơởUỦuủƯỬưửYỶyỷ"),(0x30A, "AÅaåUŮuůwẘyẙ"),
  (0x30B, "OŐoőUŰuűУӲуӳ"),
  (0x30C, "CČcčDĎdďEĚeěLĽlľNŇnňRŘrřSŠsšTŤtťZŽzžAǍaǎIǏiǐOǑoǒUǓuǔÜǙüǚGǦgǧKǨkǩƷǮʒǯjǰHȞhȟ"),
  (0x30F, "AȀaȁEȄeȅIȈiȉOȌoȍRȐrȑUȔuȕѴѶѵѷ"),(0x311, "AȂaȃEȆeȇIȊiȋOȎoȏRȒrȓUȖuȗ"),
  (0x313, "αἀΑἈεἐΕἘηἠΗἨιἰΙἸοὀΟὈυὐωὠΩὨρῤ"),(0x314, "αἁΑἉεἑΕἙηἡΗἩιἱΙἹοὁΟὉυὑΥὙωὡΩὩρῥΡῬ"),
  (0x31B, "OƠoơUƯuư"),
  (0x323, "BḄbḅDḌdḍHḤhḥKḲkḳLḶlḷMṂmṃNṆnṇRṚrṛSṢsṣTṬtṭVṾvṿWẈwẉZẒzẓAẠaạEẸeẹIỊiịOỌoọƠỢơợUỤuụƯỰưự" ++
    "YỴyỵ"),
  (0x324, "UṲuṳ"),(0x325, "AḀaḁ"),(0x326, "SȘsșTȚtț"),
  (0x327, "CÇcçGĢgģKĶkķLĻlļNŅnņRŖrŗSŞsşTŢtţEȨeȩDḐdḑHḨhḩ"),(0x328, "AĄaąEĘeęIĮiįUŲuųOǪoǫ"),
  (0x32D, "DḒdḓEḘeḙLḼlḽNṊnṋTṰtṱUṶuṷ"),(0x32E, "HḪhḫ"),(0x330, "EḚeḛIḬiḭUṴuṵ"),
  (0x331, "BḆbḇDḎdḏKḴkḵLḺlḻNṈnṉRṞrṟTṮtṯZẔzẕhẖ"),
  (0x342, "ἀἆἁἇἈἎἉἏἠἦἡἧἨἮἩἯἰἶἱἷἸἾἹἿὐὖὑὗὙὟὠὦὡὧὨὮὩὯαᾶηῆιῖϊῗυῦϋῧωῶ"),
  (0x345, "ἀᾀἁᾁἂᾂἃᾃἄᾄἅᾅἆᾆἇᾇἈᾈἉᾉἊᾊἋᾋἌᾌἍᾍἎᾎἏᾏἠᾐἡᾑἢᾒἣᾓἤᾔἥᾕἦᾖἧᾗἨᾘἩᾙἪᾚἫᾛἬᾜἭᾝἮᾞἯᾟὠᾠὡᾡὢᾢὣᾣὤᾤὥᾥὦᾦὧᾧ" ++
    "ὨᾨὩᾩὪᾪὫᾫὬᾬὭᾭὮᾮὯᾯὰᾲαᾳάᾴᾶᾷΑᾼὴῂηῃήῄῆῇΗῌὼῲωῳώῴῶῷΩῼ"),
  (0x3099, "かがきぎくぐけげこごさざしじすずせぜそぞただちぢつづてでとどはばひびふぶへべほぼうゔゝゞカガキギクグケゲコゴサザシジスズセゼソゾタダチヂツヅテデトドハバヒビフブ" ++
    "ヘベホボウヴワヷヰヸヱヹヲヺヽヾ"),
  (0x309A, "はぱひぴふぷへぺほぽハパヒピフプヘペホポ")]

def pairsOf (mark : Nat) : Text → List (Nat × Nat × Nat)
  | letter :: whole :: rest => (whole.toNat, letter.toNat, mark) :: pairsOf mark rest
  | _ => []

def pairs : List (Nat × Nat × Nat) :=
  markRows.flatMap fun (mark, row) => pairsOf mark row.toList

/-! ## Marks -/

/-- Classes with the marks that have them, as runs. All other characters have class 0. -/
def markClasses : List (Nat × List Nat) := [
  (1, [820,5,7577,2,4,3,10,2,3,2]),(8, [12441,2]),(202, [801,2,4,2,6823,1]),(214,
  [7630,1]),(216, [795,1]),(218, [7674,1]),(220, [790,4,2,5,2,4,2,11,5,4,10,3,3,
  2,4,4,2,2,5978,6,2,1,1,2,2,2,5,1,759,1,7,1,4,1,41,1,3,1,1,1,744,1,3,
  4,56631,7]),(228, [7671,2]),(230, [768,21,40,8,1,1,3,3,3,3,4,1,3,1,7,13,275,
  5,5672,5,6,2,4,2,2,5,1,4,753,2,1,7,1,2,4,37,5,1,2,1,721,2,2,4,3,2,4,
  1,5,1,1,1,6,1,34174,1,4,10,32,2,22400,7,7,2]),(232, [789,1,4,1,61,1,6813,
  1]),(233, [860,1,2,1,2,1,6809,1]),(234, [861,2,1,2,6763,1]),(240, [837,1])]

/-! ## Korean syllables

They are put together from a first consonant, a vowel and perhaps a last consonant. -/

def syllableBase : Nat := 0xAC00
def firstBase : Nat := 0x1100
def vowelBase : Nat := 0x1161
def lastBase : Nat := 0x11A7

def isSyllable (n : Nat) : Bool :=
  syllableBase ≤ n && n < syllableBase + 19 * 21 * 28

def syllableParts (n : Nat) : List Nat :=
  let i := n - syllableBase
  [firstBase + i / (21 * 28), vowelBase + i % (21 * 28) / 28]
    ++ if i % 28 = 0 then [] else [lastBase + i % 28]

def syllable? (a b : Nat) : Option Nat :=
  if firstBase ≤ a && a < firstBase + 19 && vowelBase ≤ b && b < vowelBase + 21 then
    some (syllableBase + ((a - firstBase) * 21 + (b - vowelBase)) * 28)
  else if isSyllable a && (a - syllableBase) % 28 = 0 && lastBase < b && b < lastBase + 28 then
    some (a + (b - lastBase))
  else none

/-! ## Taking apart -/

def entryIn? {α : Type} (entries : String → List α) (rows : List (Nat × String)) (n : Nat) : Option α :=
  rows.findSome? fun (first, row) => if first ≤ n then (entries row)[n - first]? else none

def variantOf? (n : Nat) : Option (List Nat) :=
  match (entryIn? (fun row => splitAt '|' row.toList) ligatureRows n).getD [] with
  | [] => (entryIn? String.toList variantRows n).map fun c => [c.toNat]
  | parts => some (parts.map Char.toNat)

/-- What a character stands for. A character that stands for two may have another such one in it,
and so on, but no more than `depth` times. -/
def apart : Nat → Nat → List Nat
  | 0, n => [n]
  | depth + 1, n =>
    if n < 0x80 then [n]
    else if isSyllable n then syllableParts n
    else
      match variantOf? n, pairs.find? (·.1 == n) with
      | some parts, _ => parts
      | none, some (_, a, b) => apart depth a ++ apart depth b
      | none, none => [n]

/-! ## Marks -/

def markClass (n : Nat) : Nat :=
  if n < 0x300 then 0
  else ((markClasses.find? fun (_, runs) => inRuns runs n).map (·.1)).getD 0

/-- Puts a character behind the others, of which the last one comes first. A mark goes before marks
of a higher class. -/
def placeMark (n : Nat) : List Nat → List Nat
  | [] => [n]
  | m :: rest =>
    if markClass n ≠ 0 && markClass n < markClass m then m :: placeMark n rest else n :: m :: rest

def sortMarks (codes : List Nat) : List Nat :=
  (codes.foldl (fun found n => placeMark n found) []).reverse

/-! ## Putting together -/

def together? (a b : Nat) : Option Nat :=
  match syllable? a b with
  | some n => some n
  | none => (pairs.find? fun (_, first, second) => first == a && second == b).map (·.1)

/-- Goes on behind a letter with the marks that were not put together with it, the last one first. A
character is put together with the letter unless a mark of the same class is in between. -/
def together (letter : Nat) : List Nat → List Nat → List Nat
  | marks, [] => letter :: marks.reverse
  | marks, n :: rest =>
    let k := markClass n
    let isFree := match marks with
      | [] => true
      | m :: _ => markClass m < k
    match isFree, together? letter n with
    | true, some whole => together whole marks rest
    | _, _ =>
      if k = 0 then letter :: marks.reverse ++ together n [] rest
      else together letter (n :: marks) rest

def normalized (text : Text) : Text :=
  match sortMarks (text.flatMap fun c => apart 4 c.toNat) with
  | [] => []
  | n :: rest => (together n [] rest).map Char.ofNat

end GDWorkbench.Text
