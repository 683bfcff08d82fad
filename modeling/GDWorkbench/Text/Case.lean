import GDWorkbench.Text.Basic

/-!
Capitals and small letters, by code points. Two characters are the same letter if their small forms
are, or if these have one capital in common, as the two forms of sigma do. `Text.caseForms` lists all
characters that are the same letter as a given one.

Most letters come in runs: characters in a row, or every other one, whose counterparts are the same
distance apart. The runs are those of Unicode 14.
-/

namespace GDWorkbench.Text

/-- Every `step`th character from `first` to `last`. The counterpart of the first is `image`, and the
others lie behind it at the same distances. -/
structure CaseRun where
  first : Nat
  last : Nat
  step : Nat
  image : Nat

/-- Letters that stand alone, each followed by its counterpart. -/
def CaseRun.ofLetters : Text → List CaseRun
  | letter :: image :: rest => ⟨letter.toNat, letter.toNat, 1, image.toNat⟩ :: ofLetters rest
  | _ => []

/-- From capitals to small letters. Where the small form is a sequence, its first character. -/
def lowerRuns : List CaseRun := [
  ⟨0xC0,0xD6,1,0xE0⟩,⟨0xD8,0xDE,1,0xF8⟩,⟨0x100,0x12E,2,0x101⟩,⟨0x132,0x136,2,0x133⟩,
  ⟨0x139,0x147,2,0x13A⟩,⟨0x14A,0x176,2,0x14B⟩,⟨0x179,0x17D,2,0x17A⟩,
  ⟨0x182,0x184,2,0x183⟩,⟨0x189,0x18A,1,0x256⟩,⟨0x1A0,0x1A4,2,0x1A1⟩,
  ⟨0x1B1,0x1B2,1,0x28A⟩,⟨0x1B3,0x1B5,2,0x1B4⟩,⟨0x1CD,0x1DB,2,0x1CE⟩,
  ⟨0x1DE,0x1EE,2,0x1DF⟩,⟨0x1F8,0x21E,2,0x1F9⟩,⟨0x222,0x232,2,0x223⟩,
  ⟨0x246,0x24E,2,0x247⟩,⟨0x370,0x372,2,0x371⟩,⟨0x388,0x38A,1,0x3AD⟩,
  ⟨0x38E,0x38F,1,0x3CD⟩,⟨0x391,0x3A1,1,0x3B1⟩,⟨0x3A3,0x3AB,1,0x3C3⟩,
  ⟨0x3D8,0x3EE,2,0x3D9⟩,⟨0x3FD,0x3FF,1,0x37B⟩,⟨0x400,0x40F,1,0x450⟩,
  ⟨0x410,0x42F,1,0x430⟩,⟨0x460,0x480,2,0x461⟩,⟨0x48A,0x4BE,2,0x48B⟩,
  ⟨0x4C1,0x4CD,2,0x4C2⟩,⟨0x4D0,0x52E,2,0x4D1⟩,⟨0x531,0x556,1,0x561⟩,
  ⟨0x10A0,0x10C5,1,0x2D00⟩,⟨0x13A0,0x13EF,1,0xAB70⟩,⟨0x13F0,0x13F5,1,0x13F8⟩,
  ⟨0x1C90,0x1CBA,1,0x10D0⟩,⟨0x1CBD,0x1CBF,1,0x10FD⟩,⟨0x1E00,0x1E94,2,0x1E01⟩,
  ⟨0x1EA0,0x1EFE,2,0x1EA1⟩,⟨0x1F08,0x1F0F,1,0x1F00⟩,⟨0x1F18,0x1F1D,1,0x1F10⟩,
  ⟨0x1F28,0x1F2F,1,0x1F20⟩,⟨0x1F38,0x1F3F,1,0x1F30⟩,⟨0x1F48,0x1F4D,1,0x1F40⟩,
  ⟨0x1F59,0x1F5F,2,0x1F51⟩,⟨0x1F68,0x1F6F,1,0x1F60⟩,⟨0x1F88,0x1F8F,1,0x1F80⟩,
  ⟨0x1F98,0x1F9F,1,0x1F90⟩,⟨0x1FA8,0x1FAF,1,0x1FA0⟩,⟨0x1FB8,0x1FB9,1,0x1FB0⟩,
  ⟨0x1FBA,0x1FBB,1,0x1F70⟩,⟨0x1FC8,0x1FCB,1,0x1F72⟩,⟨0x1FD8,0x1FD9,1,0x1FD0⟩,
  ⟨0x1FDA,0x1FDB,1,0x1F76⟩,⟨0x1FE8,0x1FE9,1,0x1FE0⟩,⟨0x1FEA,0x1FEB,1,0x1F7A⟩,
  ⟨0x1FF8,0x1FF9,1,0x1F78⟩,⟨0x1FFA,0x1FFB,1,0x1F7C⟩,⟨0x2160,0x216F,1,0x2170⟩,
  ⟨0x24B6,0x24CF,1,0x24D0⟩,⟨0x2C00,0x2C2F,1,0x2C30⟩,⟨0x2C67,0x2C6B,2,0x2C68⟩,
  ⟨0x2C7E,0x2C7F,1,0x23F⟩,⟨0x2C80,0x2CE2,2,0x2C81⟩,⟨0x2CEB,0x2CED,2,0x2CEC⟩,
  ⟨0xA640,0xA66C,2,0xA641⟩,⟨0xA680,0xA69A,2,0xA681⟩,⟨0xA722,0xA72E,2,0xA723⟩,
  ⟨0xA732,0xA76E,2,0xA733⟩,⟨0xA779,0xA77B,2,0xA77A⟩,⟨0xA77E,0xA786,2,0xA77F⟩,
  ⟨0xA790,0xA792,2,0xA791⟩,⟨0xA796,0xA7A8,2,0xA797⟩,⟨0xA7B4,0xA7C2,2,0xA7B5⟩,
  ⟨0xA7C7,0xA7C9,2,0xA7C8⟩,⟨0xA7D6,0xA7D8,2,0xA7D7⟩,⟨0xFF21,0xFF3A,1,0xFF41⟩,
  ⟨0x10400,0x10427,1,0x10428⟩,⟨0x104B0,0x104D3,1,0x104D8⟩,⟨0x10570,0x1057A,1,0x10597⟩,
  ⟨0x1057C,0x1058A,1,0x105A3⟩,⟨0x1058C,0x10592,1,0x105B3⟩,⟨0x10594,0x10595,1,0x105BB⟩,
  ⟨0x10C80,0x10CB2,1,0x10CC0⟩,⟨0x118A0,0x118BF,1,0x118C0⟩,⟨0x16E40,0x16E5F,1,0x16E60⟩,
  ⟨0x1E900,0x1E921,1,0x1E922⟩] ++
  CaseRun.ofLetters ("İiŸÿƁɓƆɔƇƈƋƌƎǝƏəƐɛƑƒƓɠƔɣƖɩƗɨƘƙƜɯƝɲƟɵƦʀƧƨƩʃƬƭƮʈƯưƷʒƸƹƼƽǄǆǅǆǇǉǈǉǊǌǋǌǱǳǲǳǴǵ" ++
    "ǶƕǷƿȠƞȺⱥȻȼȽƚȾⱦɁɂɃƀɄʉɅʌͶͷͿϳΆάΌόϏϗϴθϷϸϹϲϺϻӀӏჇⴧჍⴭẞßᾼᾳῌῃῬῥῼῳ\u2126ω\u212ak\u212båℲⅎↃↄⱠⱡⱢɫⱣᵽⱤɽⱭ" ++
    "ɑⱮɱⱯɐⱰɒⱲⱳⱵⱶⳲⳳꝽᵹꞋꞌꞍɥꞪɦꞫɜꞬɡꞭɬꞮɪꞰʞꞱʇꞲʝꞳꭓꟄꞔꟅʂꟆᶎꟐꟑꟵꟶ").toList

/-- Small letters whose capital has another small form, or none. Where the capital form is a sequence, its
first character. -/
def loneUpperRuns : List CaseRun := [
  ⟨0x1F80,0x1F87,1,0x1F08⟩,⟨0x1F88,0x1F8F,1,0x1F08⟩,⟨0x1F90,0x1F97,1,0x1F28⟩,
  ⟨0x1F98,0x1F9F,1,0x1F28⟩,⟨0x1FA0,0x1FA7,1,0x1F68⟩,⟨0x1FA8,0x1FAF,1,0x1F68⟩] ++
  CaseRun.ofLetters ("µΜßSıIŉʼſSǅǄǈǇǋǊǰJǲǱ\u0345ΙΐΙΰΥςΣϐΒϑΘϕΦϖΠϰΚϱΡϵΕևԵᲀВᲁДᲂОᲃСᲄТᲅТᲆЪᲇѢᲈꙊẖHẗTẘ" ++
    "WẙYẚAẛṠὐΥὒΥὔΥὖΥᾲᾺᾳΑᾴΆᾶΑᾷΑᾼΑ\u1fbeΙῂῊῃΗῄΉῆΗῇΗῌΗῒΙ\u1fd3ΙῖΙῗΙῢΥ\u1fe3ΥῤΡῦΥῧΥῲῺῳΩῴΏῶΩῷΩῼΩﬀFﬁF" ++
    "ﬂFﬃFﬄFﬅSﬆSﬓՄﬔՄﬕՄﬖՎﬗՄ").toList

def upperRuns : List CaseRun :=
  loneUpperRuns ++ lowerRuns.map fun r => ⟨r.image, r.image + (r.last - r.first), r.step, r.first⟩

namespace CaseRun

def image? (r : CaseRun) (n : Nat) : Option Nat :=
  if r.first ≤ n && n ≤ r.last && (n - r.first) % r.step = 0 then some (r.image + (n - r.first))
  else none

def source? (r : CaseRun) (n : Nat) : Option Nat :=
  let source := r.first + (n - r.image)
  if r.image ≤ n && (r.image? source).isSome then some source else none

end CaseRun

def lower (n : Nat) : Nat :=
  if n < 0x80 then if 0x41 ≤ n && n ≤ 0x5A then n + 0x20 else n
  else (lowerRuns.findSome? (·.image? n)).getD n

def upper (n : Nat) : Nat :=
  if n < 0x80 then if 0x61 ≤ n && n ≤ 0x7A then n - 0x20 else n
  else (upperRuns.findSome? (·.image? n)).getD n

def kindredLetters : List (List Nat) :=
  [[0x69, 0x131], [0x73, 0x17F], [0xB5, 0x3BC], [0x345, 0x3B9, 0x1FBE], [0x390, 0x1FD3],
   [0x3B0, 0x1FE3], [0x3B2, 0x3D0], [0x3B5, 0x3F5], [0x3B8, 0x3D1], [0x3BA, 0x3F0], [0x3C0, 0x3D6],
   [0x3C1, 0x3F1], [0x3C2, 0x3C3], [0x3C6, 0x3D5], [0x432, 0x1C80], [0x434, 0x1C81],
   [0x43E, 0x1C82], [0x441, 0x1C83], [0x442, 0x1C84, 0x1C85], [0x44A, 0x1C86], [0x463, 0x1C87],
   [0x1C88, 0xA64B], [0x1E61, 0x1E9B], [0xFB05, 0xFB06]]

def kindred (n : Nat) : List Nat :=
  (kindredLetters.find? (·.contains n)).getD [n]

def withLower (n : Nat) : List Nat :=
  (if lower n = n then [n] else [])
    ++ (if 0x61 ≤ n && n ≤ 0x7A then [n - 0x20] else [])
    ++ lowerRuns.filterMap (·.source? n)

def caseForms (n : Nat) : List Nat :=
  (kindred (lower n)).flatMap withLower

/-! ## ASCII -/

def lowerAscii (n : Nat) : Nat :=
  if n < 0x80 then lower n else n

def caseFormsAscii (n : Nat) : List Nat :=
  if n < 0x80 then [lower n, upper n] else [n]

end GDWorkbench.Text
