import Handset.Text.Character

/-!
# Composed characters

Letters with marks that are encoded as one character, and the order in which several marks follow a
letter.
-/
namespace Handset.Text.Composition

open Character (inRanges listed)

/-- Marks, each with letters that it is added to. A letter stands behind the character that it makes with
the mark. -/
def additions : List (Nat × String) :=
  [(0x300, "ÀAÈEÌIÒOÙUàaèeìiòoùuǛÜǜüǸNǹnЀЕЍИѐеѝиḔĒḕēṐŌṑōẀWẁwẦÂầâẰĂằăỀÊềêỒÔồôỜƠờơỪƯừưỲYỳyἂἀἃἁ"),
   (0x300, "ἊἈἋἉἒἐἓἑἚἘἛἙἢἠἣἡἪἨἫἩἲἰἳἱἺἸἻἹὂὀὃὁὊὈὋὉὒὐὓὑὛὙὢὠὣὡὪὨὫὩὰαὲεὴηὶιὸοὺυὼωᾺΑῈΕῊΗῒϊῚΙῢϋῪΥῸΟ"),
   (0x300, "ῺΩ"),
   (0x301, "ÁAÉEÍIÓOÚUÝYáaéeíióoúuýyĆCćcĹLĺlŃNńnŔRŕrŚSśsŹZźzǗÜǘüǴGǵgǺÅǻåǼÆǽæǾØǿøΆΑΈΕΉΗΊΙΌΟΎΥ"),
   (0x301, "ΏΩΐϊάαέεήηίιΰϋόούυώωϓϒЃГЌКѓгќкḈÇḉçḖĒḗēḮÏḯïḰKḱkḾMḿmṌÕṍõṒŌṓōṔPṕpṸŨṹũẂWẃwẤÂấâẮĂắăẾÊ"),
   (0x301, "ếêỐÔốôỚƠớơỨƯứưἄἀἅἁἌἈἍἉἔἐἕἑἜἘἝἙἤἠἥἡἬἨἭἩἴἰἵἱἼἸἽἹὄὀὅὁὌὈὍὉὔὐὕὑὝὙὤὠὥὡὬὨὭὩ"),
   (0x302, "ÂAÊEÎIÔOÛUâaêeîiôoûuĈCĉcĜGĝgĤHĥhĴJĵjŜSŝsŴWŵwŶYŷyẐZẑzẬẠậạỆẸệẹỘỌộọ"),
   (0x303, "ÃAÑNÕOãañnõoĨIĩiŨUũuṼVṽvẪÂẫâẴĂẵăẼEẽeỄÊễêỖÔỗôỠƠỡơỮƯữưỸYỹy"),
   (0x304, "ĀAāaĒEēeĪIīiŌOōoŪUūuǕÜǖüǞÄǟäǠȦǡȧǢÆǣæǬǪǭǫȪÖȫöȬÕȭõȰȮȱȯȲYȳyӢИӣиӮУӯуḠGḡgḸḶḹḷṜṚṝṛᾱαᾹΑ"),
   (0x304, "ῑιῙΙῡυῩΥ"), (0x306, "ĂAăaĔEĕeĞGğgĬIĭiŎOŏoŬUŭuЎУЙИйиўуӁЖӂжӐАӑаӖЕӗеḜȨḝȩẶẠặạᾰαᾸΑῐιῘΙῠυῨΥ"),
   (0x307, "ĊCċcĖEėeĠGġgİIŻZżzȦAȧaȮOȯoḂBḃbḊDḋdḞFḟfḢHḣhṀMṁmṄNṅnṖPṗpṘRṙrṠSṡsṤŚṥśṦŠṧšṨṢṩṣṪTṫtẆW"),
   (0x307, "ẇwẊXẋxẎYẏyẛſ"),
   (0x308, "ÄAËEÏIÖOÜUäaëeïiöoüuÿyŸYΪΙΫΥϊιϋυϔϒЁЕЇІёеїіӒАӓаӚӘӛәӜЖӝжӞЗӟзӤИӥиӦОӧоӪӨӫөӬЭӭэӰУӱуӴЧ"),
   (0x308, "ӵчӸЫӹыḦHḧhṎÕṏõṺŪṻūẄWẅwẌXẍxẗt"),
   (0x309, "ẢAảaẨÂẩâẲĂẳăẺEẻeỂÊểêỈIỉiỎOỏoỔÔổôỞƠởơỦUủuỬƯửưỶYỷy"), (0x30A, "ÅAåaŮUůuẘwẙy"),
   (0x30B, "ŐOőoŰUűuӲУӳу"),
   (0x30C, "ČCčcĎDďdĚEěeĽLľlŇNňnŘRřrŠSšsŤTťtŽZžzǍAǎaǏIǐiǑOǒoǓUǔuǙÜǚüǦGǧgǨKǩkǮƷǯʒǰjȞHȟh"),
   (0x30F, "ȀAȁaȄEȅeȈIȉiȌOȍoȐRȑrȔUȕuѶѴѷѵ"), (0x311, "ȂAȃaȆEȇeȊIȋiȎOȏoȒRȓrȖUȗu"),
   (0x313, "ἀαἈΑἐεἘΕἠηἨΗἰιἸΙὀοὈΟὐυὠωὨΩῤρ"), (0x314, "ἁαἉΑἑεἙΕἡηἩΗἱιἹΙὁοὉΟὑυὙΥὡωὩΩῥρῬΡ"),
   (0x31B, "ƠOơoƯUưu"),
   (0x323, "ḄBḅbḌDḍdḤHḥhḲKḳkḶLḷlṂMṃmṆNṇnṚRṛrṢSṣsṬTṭtṾVṿvẈWẉwẒZẓzẠAạaẸEẹeỊIịiỌOọoỢƠợơỤUụuỰƯựư"),
   (0x323, "ỴYỵy"), (0x324, "ṲUṳu"), (0x325, "ḀAḁa"), (0x326, "ȘSșsȚTțt"),
   (0x327, "ÇCçcĢGģgĶKķkĻLļlŅNņnŖRŗrŞSşsŢTţtȨEȩeḐDḑdḨHḩh"), (0x328, "ĄAąaĘEęeĮIįiŲUųuǪOǫo"),
   (0x32D, "ḒDḓdḘEḙeḼLḽlṊNṋnṰTṱtṶUṷu"), (0x32E, "ḪHḫh"), (0x330, "ḚEḛeḬIḭiṴUṵu"),
   (0x331, "ḆBḇbḎDḏdḴKḵkḺLḻlṈNṉnṞRṟrṮTṯtẔZẕzẖh"),
   (0x342, "ἆἀἇἁἎἈἏἉἦἠἧἡἮἨἯἩἶἰἷἱἾἸἿἹὖὐὗὑὟὙὦὠὧὡὮὨὯὩᾶαῆηῖιῗϊῦυῧϋῶω"),
   (0x345, "ᾀἀᾁἁᾂἂᾃἃᾄἄᾅἅᾆἆᾇἇᾈἈᾉἉᾊἊᾋἋᾌἌᾍἍᾎἎᾏἏᾐἠᾑἡᾒἢᾓἣᾔἤᾕἥᾖἦᾗἧᾘἨᾙἩᾚἪᾛἫᾜἬᾝἭᾞἮᾟἯᾠὠᾡὡᾢὢᾣὣᾤὤᾥὥᾦὦᾧὧ"),
   (0x345, "ᾨὨᾩὩᾪὪᾫὫᾬὬᾭὭᾮὮᾯὯᾲὰᾳαᾴάᾷᾶᾼΑῂὴῃηῄήῇῆῌΗῲὼῳωῴώῷῶῼΩ"), (0x653, "آا"),
   (0x654, "أاؤوئيۀەۂہۓے"), (0x655, "إا"), (0x93C, "ऩनऱरऴळ"), (0x9BE, "\u09cb\u09c7"),
   (0x9D7, "\u09cc\u09c7"), (0xB3E, "\u0b4b\u0b47"), (0xB56, "\u0b48\u0b47"),
   (0xB57, "\u0b4c\u0b47"), (0xBBE, "\u0bca\u0bc6\u0bcb\u0bc7"), (0xBD7, "ஔஒ\u0bcc\u0bc6"),
   (0xC56, "\u0c48\u0c46"), (0xCC2, "\u0cca\u0cc6"),
   (0xCD5, "\u0cc0\u0cbf\u0cc7\u0cc6\u0ccb\u0cca"), (0xCD6, "\u0cc8\u0cc6"),
   (0xD3E, "\u0d4a\u0d46\u0d4b\u0d47"), (0xD57, "\u0d4c\u0d46"),
   (0xDCA, "\u0dda\u0dd9\u0ddd\u0ddc"), (0xDCF, "\u0ddc\u0dd9"), (0xDDF, "\u0dde\u0dd9"),
   (0x102E, "ဦဥ"),
   (0x1B35, "ᬆᬅᬈᬇᬊᬉᬌᬋᬎᬍᬒᬑ\u1b3b\u1b3a\u1b3d\u1b3c\u1b40\u1b3e\u1b41\u1b3f\u1b43\u1b42"),
   (0x3099, "がかぎきぐくげけごこざさじしずすぜせぞそだたぢちづつでてどとばはびひぶふべへぼほゔうゞゝガカギキグクゲケゴコザサジシズスゼセゾソダタヂチヅツデテドトバハビヒブフ"),
   (0x3099, "ベヘボホヴウヷワヸヰヹヱヺヲヾヽ"), (0x309A, "ぱはぴひぷふぺへぽほパハピヒプフペヘポホ"), (0x110BA, "𑂚𑂙𑂜𑂛𑂫𑂥"),
   (0x11127, "𑄮𑄱𑄯𑄲"), (0x1133E, "𑍋𑍇"), (0x11357, "𑍌𑍇"), (0x114B0, "𑒼𑒹"), (0x114BA, "𑒻𑒹"),
   (0x114BD, "𑒾𑒹"), (0x115AF, "𑖺𑖸𑖻𑖹"), (0x11930, "𑤸𑤵")]

def compositionsWith (mark : Nat) : List Char → List (Nat × Nat × Nat)
  | composed :: letter :: rest => (composed.toNat, letter.toNat, mark) :: compositionsWith mark rest
  | _ => []

/-- A composed character, the character it starts with, and the mark added to it. -/
def compositions : List (Nat × Nat × Nat) :=
  additions.flatMap fun (mark, letters) => compositionsWith mark letters.toList

/-- The marks by class: marks of different classes do not touch each other, and follow a letter in the
order of their classes. -/
def markClasses : List (Nat × List (Nat × Nat)) :=
  [(1, ["334-4 199C E-6 3EA-1 5-2 B-1 4-1 E94E 60B7-4 51AA 14C9-2"]), (6, ["16FF0-1"]), (7, [
      "93C 80 80 80 80 100 80 37B AFD B2 51 8D7C 6707 B9 57 6C B3 52-1 10A 7D FD F7 183 109 3FF",
      "1E94A"]),
   (8, ["3099-1"]), (9, [
      "94D 80 80 80 80 80 80 80 6E-1 11 7D 70 80 CA B5-1 6DA-1 1F 9E 28E E4 66-1 47-1 118C 7A87",
      "A82C 98 8F 6D 136 F7 5E52 607 2A F 3A 7A-1 8C 75 B5 63 F5 80 FD 80 77 75 10E 104-1 A2 54",
      "11A47 52 1A6 105-1 52"]),
   (10, ["5B0"]), (11, ["5B1"]), (12, ["5B2"]), (13, ["5B3"]), (14, ["5B4"]), (15, ["5B5"]),
   (16, ["5B6"]), (17, ["5B7"]), (18, ["5B8 F"]), (19, ["5B9-1"]), (20, ["5BB"]), (21, ["5BC"]),
   (22, ["5BD"]), (23, ["5BF"]), (24, ["5C1"]), (25, ["5C2"]), (26, ["FB1E"]), (27, ["64B 2A5"]),
   (28, ["64C 2A5"]), (29, ["64D 2A5"]), (30, ["618 36"]), (31, ["619 36"]), (32, ["61A 36"]),
   (33, ["651"]), (34, ["652"]), (35, ["670"]), (36, ["711"]), (84, ["C55"]), (91, ["C56"]),
   (103, ["E38-1"]), (107, ["E48-3"]), (118, ["EB8-1"]), (122, ["EC8-3"]), (129, ["F71"]),
   (130, ["F72 8-3 3"]), (132, ["F74"]), (202, ["321-1 5-1 1AA8"]), (214, ["1DCE"]),
   (216, ["31B C1E 1C22C-1 8-4"]), (218, ["1DFA 1230"]), (220, [
      "316-3 3-4 3-3 3-A 6-3 B-2 4-1 5-3 3-1 237 5 5 7-5 3 1B 90-1 6 3 84 7 3 44 3 3-2 2-1 2 4",
      "744 2 2 AA B 5C-2 3E-2 34-4 10 3 3 4-2 7 3-1 58 5C6-1 1C 2 8F C7 8AE DD 67 36-5 3 2-1",
      "1AC3-1 6 A2 169-4 3-3 E D5 8 5 2A 4 2 2E9 4-3 883C-2 187 5373-6 3D0 E3 72D 2D AC 460-1 4",
      "10F4D-3 33 2 C1F6-7 8-1 1745-6"]),
   (222, ["59A 13 138C 16F4"]), (224, ["302E-1"]), (226, ["1D16D"]),
   (228, ["5AE 12FB 54E-1 1233"]), (230, [
      "300-14 29-7 2 4-2 4-2 5 4 8-C 114-4 10B-3 2-2 3-5 7-1 2-1 3 15 4C-7 3C-1 3-4 2-1 78-6",
      "6DF-3 2 3-1 3-1 44 2-1 2-1 4 3 2-2 2 2 2 2-1 A1-6 2 23-3 2-8 2-2 2-4 6B 4-3 2B-4 6-D 3-1",
      "8E7-1 2-2 7-2 2-1 3-4 52 2-1 AA 584-1 3-1 3D6-2 47E 15D DD 5E-7 34-4 7-1 5-1 3-4 2-3 9D",
      "1B6D-6 15D-2 8-1 5 14 4-1 C7-1 2-6 2-1 5-24 6 3 2D2-1 3-3 4-1 5 6 2 7 BFF-2 EF-1F 7870",
      "A674-9 21-1 51-1 1EF-11 1BF 2-1 4-1 6-1 2 535F-6 8-1 547-4 695 29 AD 23F-3 184-1 9C-2 2",
      "10F82 2 17C-2 264-6 4-4 EA 56D2-6 664F-4 21-3 95-2 DBC-6 2-10 3-6 2-1 2-4 106-6 178 3E-3",
      "1E944-5"]),
   (232, ["315 5 3E 1A9E 1236"]), (233, ["35C 3 3 1A9A"]), (234, ["35D-1 2-1 1A6C"]),
   (240, ["345"])].map fun (k, lines) => (k, listed lines)

def markClass (c : Char) : Nat :=
  match markClasses.find? fun (_, ranges) => inRanges ranges c with
  | some (k, _) => k
  | none => 0

def parts? (c : Char) : Option (Char × Char) :=
  (compositions.find? (·.1 == c.toNat)).map fun (_, a, b) => (Char.ofNat a, Char.ofNat b)

def firstSyllable : Nat := 0xAC00

/-- The initial consonants of syllables, their vowels and their final consonants: the first one and how
many there are. Before the finals stands one place for none. -/
def initials : Nat × Nat := (0x1100, 19)

def vowels : Nat × Nat := (0x1161, 21)

def finals : Nat × Nat := (0x11A7, 28)

def letters? (c : Char) : Option (List Char) :=
  let n := c.toNat - firstSyllable
  if firstSyllable ≤ c.toNat ∧ n < initials.2 * vowels.2 * finals.2 then
    let final := n % finals.2
    let start := [Char.ofNat (initials.1 + n / finals.2 / vowels.2),
      Char.ofNat (vowels.1 + n / finals.2 % vowels.2)]
    some (if final = 0 then start else start ++ [Char.ofNat (finals.1 + final)])
  else none

/-- The syllable of two parts: an initial and a vowel, or a syllable without final and a final. -/
def syllable? (a b : Char) : Option Char :=
  let m := a.toNat
  let n := b.toNat
  if initials.1 ≤ m ∧ m < initials.1 + initials.2 ∧ vowels.1 ≤ n ∧ n < vowels.1 + vowels.2 then
    some (Char.ofNat (firstSyllable + ((m - initials.1) * vowels.2 + (n - vowels.1)) * finals.2))
  else if firstSyllable ≤ m ∧ m < firstSyllable + initials.2 * vowels.2 * finals.2
      ∧ (m - firstSyllable) % finals.2 = 0 ∧ finals.1 < n ∧ n < finals.1 + finals.2 then
    some (Char.ofNat (m + (n - finals.1)))
  else none

def compose? (a b : Char) : Option Char :=
  match compositions.find? fun (_, first, second) => first == a.toNat && second == b.toNat with
  | some (c, _, _) => some (Char.ofNat c)
  | none => syllable? a b

end Handset.Text.Composition
