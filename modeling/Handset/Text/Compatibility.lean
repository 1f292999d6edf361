import Handset.Text.Pieces

/-!
# Compatible characters

Characters of names that stand for one or more other characters: forms of a letter by position, width
or style, ligatures, signs that were encoded twice. The table of single characters lists, from a first
code point on, what each character in turn stands for.
-/
namespace Handset.Text.Compatibility

open Character (inRanges listed)

/-- The letters that come in mathematical styles. -/
def latin : String := "ABCDEFGHIJKLMNOPQRSTUVWXYZabcdefghijklmnopqrstuvwxyz"

def greek : String := "ΑΒΓΔΕΖΗΘΙΚΛΜΝΞΟΠΡΘΣΤΥΦΧΨΩ∇αβγδεζηθικλμνξοπρςστυφχψω∂εθκφρπ"

def arabic : String := "ابجدهوزحطيكلمنسعفصقرشتثخذضظغٮںڡٯ"

/-- The mathematical styles: thirteen of Latin letters, five of Greek ones and of digits, six of Arabic letters. -/
def styles : List (Nat × String) :=
  (List.range 13).map (fun k => (0x1D400 + 52 * k, latin)) ++
    (List.range 5).flatMap (fun k => [(0x1D6A8 + 58 * k, greek), (0x1D7CE + 10 * k, "0123456789")]) ++
    (List.range 6).map fun k => (0x1EE00 + 32 * k, arabic)

/-- The letters that a style lacks, and the signs among the Greek letters. -/
def styleGaps : List (Nat × Nat) :=
  listed ["1D455 48 3-1 2-1 3-1 5 D 2 8 42 5-1 9 8 1D 5 6 2-2 8 170 1A 20 1A 20 1A 20 1A 20 1A",
    "1EE04 1C 3 2-1 2 B 5 2 2-5 2-3 2 2 2 4 3 2-1 2 2 2 2 2 3 2-1 5 8 5 5 2 B 12-4 4 6 12-3"]

/-- Runs of characters that each stand for one character. -/
def singles : List (Nat × String) :=
  [(0xAA, "a"), (0xB5, "μ"), (0xBA, "o"), (0x17F, "s"), (0x2B0, "hɦjrɹɻʁwy"), (0x2E0, "ɣlsxʕ"),
   (0x374, "ʹ"), (0x387, "·"), (0x3D0, "βθΥ"), (0x3D5, "φπ"), (0x3F0, "κρς"), (0x3F4, "Θε"),
   (0x3F9, "Σ"), (0x10FC, "ნ"), (0x1D2C, "AÆB"), (0x1D30, "DEƎGHIJKLMN"),
   (0x1D3C, "OȢPRTUWaɐɑᴂbdeəɛɜg"), (0x1D4F, "kmŋoɔᴖᴗptuᴝɯvᴥβγδφχiruvβγρφχ"), (0x1D78, "н"),
   (0x1D9B, "ɒcɕðɜfɟɡɥɨɩɪᵻʝɭᶅʟɱɰɲɳɴɵɸʂʃƫʉʊᴜʋʌzʐʑʒθ"), (0x1FBE, "ι"), (0x2071, "i"), (0x207F, "n"),
   (0x2090, "aeoxəhklmnpst"), (0x2102, "C"), (0x2107, "Ɛ"), (0x210A, "gHHHhħIILl"), (0x2115, "N"),
   (0x2119, "PQRRR"), (0x2124, "Z"), (0x2126, "Ω"), (0x2128, "Z"), (0x212A, "K"), (0x212C, "BC"),
   (0x212F, "eEF"), (0x2133, "Moאבגדi"), (0x213C, "πγΓΠ"), (0x2145, "Ddeij"), (0x2160, "I"),
   (0x2164, "V"), (0x2169, "X"), (0x216C, "LCDMi"), (0x2174, "v"), (0x2179, "x"),
   (0x217C, "lcdm"), (0x2C7C, "jV"), (0x2D6F, "ⵡ"), (0x3038, "十卄卅"),
   (0x3131, "ᄀᄁᆪᄂᆬᆭᄃᄄᄅᆰᆱᆲᆳᆴᆵᄚᄆᄇᄈᄡᄉᄊᄋᄌᄍᄎᄏᄐᄑ하ᅢᅣᅤᅥᅦᅧᅨᅩᅪᅫᅬᅭᅮᅯᅰᅱᅲᅳᅴᅵᅠᄔᄕᇇᇈᇌᇎᇓᇗ"),
   (0x316D, "ᇙᄜᇝᇟᄝᄞᄠᄢᄣᄧᄩᄫᄬᄭᄮᄯᄲᄶᅀᅇᅌᇱᇲᅗᅘᅙᆄᆅᆈᆑᆒᆔᆞᆡ"), (0xA69C, "ъь"), (0xA770, "ꝯ"), (0xA7F2, "CFQ"),
   (0xA7F8, "Ħœ"), (0xAB5C, "ꜧꬷɫꭒ"), (0xAB69, "ʍ"),
   (0xF900, "豈更車賈滑串句龜龜契金喇奈懶癩羅蘿螺裸邏樂洛烙珞落酪駱亂卵欄爛蘭鸞嵐濫藍襤拉臘蠟廊朗浪狼郎來冷勞擄櫓爐盧老蘆虜路露魯鷺碌"),
   (0xF93C, "祿綠菉錄鹿論壟弄籠聾牢磊賂雷壘屢樓淚漏累縷陋勒肋凜凌稜綾菱陵讀拏樂諾丹寧怒率異北磻便復不泌數索參塞省葉說殺辰沈拾若掠略亮"),
   (0xF978, "兩凉梁糧良諒量勵呂女廬旅濾礪閭驪麗黎力曆歷轢年憐戀撚漣煉璉秊練聯輦蓮連鍊列劣咽烈裂說廉念捻殮簾獵令囹寧嶺怜玲瑩羚聆鈴零靈"),
   (0xF9B4, "領例禮醴隸惡了僚寮尿料樂燎療蓼遼龍暈阮劉杻柳流溜琉留硫紐類六戮陸倫崙淪輪律慄栗率隆利吏履易李梨泥理痢罹裏裡里離匿溺吝燐璘"),
   (0xF9F0, "藺隣鱗麟林淋臨立笠粒狀炙識什茶刺切度拓糖宅洞暴輻行降見廓兀嗀"), (0xFA10, "塚"), (0xFA12, "晴"),
   (0xFA15, "凞猪益礼神祥福靖精羽"), (0xFA20, "蘒"), (0xFA22, "諸"), (0xFA25, "逸都"),
   (0xFA2A, "飯飼館鶴郞隷侮僧免勉勤卑喝嘆器塀墨層屮悔慨憎懲敏既暑梅海渚漢煮爫琢碑社祉祈祐祖祝禍禎穀突節練縉繁署者臭艹艹著褐視謁謹賓贈"), (0xFA66, "辶逸難響頻恵𤋮舘"),
   (0xFA70, "並况全侀充冀勇勺喝啕喙嗢塚墳奄奔婢嬨廒廙彩徭惘慎愈憎慠懲戴揄搜摒敖晴朗望杖歹殺流滛滋漢瀞煮瞧爵犯猪瑱甆画瘝瘟益盛直睊着磌"),
   (0xFAAC, "窱節类絛練缾者荒華蝹襁覆視調諸請謁諾諭謹變贈輸遲醙鉶陼難靖韛響頋頻鬒龜𢡊𢡄𣏕㮝䀘䀹𥉉𥳐𧻓齃龎"), (0xFB20, "עאדהכלםרת"),
   (0xFB50, "ٱٱٻٻٻٻپپپپڀڀڀڀٺٺٺٺٿٿٿٿٹٹٹٹڤڤڤڤڦڦڦڦڄڄڄڄڃڃڃڃچچچچڇڇڇڇڍڍڌڌڎڎڈڈژژ"),
   (0xFB8C, "ڑڑککککگگگگڳڳڳڳڱڱڱڱںںڻڻڻڻ"), (0xFBA6, "ہہہہھھھھےے"), (0xFBD3, "ڭڭڭڭۇۇۆۆۈۈ"),
   (0xFBDE, "ۋۋۅۅۉۉېېېېىى"), (0xFBFC, "یییی"), (0xFE33, "__"), (0xFE4D, "___"), (0xFE80, "ء"),
   (0xFE8D, "ااببببةةتتتتثثثثججججححححخخخخددذذررززسسسسششششصصصصضضضضططططظظظظ"),
   (0xFEC9, "ععععغغغغففففققققككككللللممممننننههههووىىيييي"), (0xFF10, "0123456789"),
   (0xFF21, "ABCDEFGHIJKLMNOPQRSTUVWXYZ"), (0xFF3F, "_"), (0xFF41, "abcdefghijklmnopqrstuvwxyz"),
   (0xFF66, "ヲァィゥェォャュョッーアイウエオカキクケコサシスセソタチツテトナニヌネノハヒフヘホマミムメモヤユヨラリルレロワン"),
   (0xFFA0, "ᅠᄀᄁᆪᄂᆬᆭᄃᄄᄅᆰᆱᆲᆳᆴᆵᄚᄆᄇᄈᄡᄉᄊᄋᄌᄍᄎᄏᄐᄑᄒ"), (0xFFC2, "ᅡᅢᅣᅤᅥᅦ"), (0xFFCA, "ᅧᅨᅩᅪᅫᅬ"),
   (0xFFD2, "ᅭᅮᅯᅰᅱᅲ"), (0xFFDA, "ᅳᅴᅵ"), (0x10781, "ːˑæʙɓ"),
   (0x10787, "ʣꭦʥʤɖɗᶑɘɞʩɤɢɠʛħʜɧʄʪʫɬ𝼄ꞎɮ𝼅ʎ𝼆øɶɷqɺ𝼈ɽɾʀʨʦꭧʧʈⱱ"), (0x107B2, "ʏʡʢʘǀǁǂ𝼊𝼞"),
   (0x1D6A4, "ıȷ"), (0x1D7CA, "Ϝϝ"), (0x1FBF0, "0123456789"),
   (0x2F800, "丽丸乁𠄢你侮侻倂偺備僧像㒞𠘺免兔兤具𠔜㒹內再𠕋冗冤仌冬况𩇟凵刃㓟刻剆割剷㔕勇勉勤勺包匆北卉卑博即卽卿卿卿𠨬灰及叟𠭣叫叱吆"),
   (0x2F83C, "咞吸呈周咢哶唐啓啣善善喙喫喳嗂圖嘆圗噑噴切壮城埴堍型堲報墬𡓤売壷夆多夢奢𡚨𡛪姬娛娧姘婦㛮㛼嬈嬾嬾𡧈寃寘寧寳𡬘寿将当尢㞁屠"),
   (0x2F878, "屮峀岍𡷤嵃𡷦嵮嵫嵼巡巢㠯巽帨帽幩㡢𢆃㡼庰庳庶廊𪎒廾𢌱𢌱舁弢弢㣇𣊸𦇚形彫㣣徚忍志忹悁㤺㤜悔𢛔惇慈慌慎慌慺憎憲憤憯懞懲懶成戛"),
   (0x2F8B4, "扝抱拔捐𢬌挽拼捨掃揤𢯱搢揅掩㨮摩摾撝摷㩬敏敬𣀊旣書晉㬙暑㬈㫤冒冕最暜肭䏙朗望朡杞杓𣏃㭉柺枅桒梅𣑭梎栟椔㮝楂榣槪檨𣚣櫛㰘次"),
   (0x2F8F0, "𣢧歔㱎歲殟殺殻𣪍𡴋𣫺汎𣲼沿泍汧洖派海流浩浸涅𣴞洴港湮㴳滋滇𣻑淹潮𣽞𣾎濆瀹瀞瀛㶖灊災灷炭𠔥煅𤉣熜𤎫爨爵牐𤘈犀犕𤜵𤠔獺王㺬玥"),
   (0x2F92C, "㺸㺸瑇瑜瑱璅瓊㼛甤𤰶甾𤲒異𢆟瘐𤾡𤾸𥁄㿼䀈直𥃳𥃲𥄙𥄳眞真真睊䀹瞋䁆䂖𥐝硎碌磌䃣𥘦祖𥚚𥛅福秫䄯穀穊穏𥥼𥪧𥪧竮䈂𥮫篆築䈧𥲀糒䊠"),
   (0x2F968, "糨糣紀𥾆絣䌁緇縂繅䌴𦈨𦉇䍙𦋙罺𦌾羕翺者𦓚𦔣聠𦖨聰𣍟䏕育脃䐋脾媵𦞧𦞵𣎓𣎜舁舄辞䑫芑芋芝劳花芳芽苦𦬼若茝荣莭茣莽菧著荓菊菌菜"),
   (0x2F9A4, "𦰶𦵫𦳕䔫蓱蓳蔖𧏊蕤𦼬䕝䕡𦾱𧃒䕫虐虜虧虩蚩蚈蜎蛢蝹蜨蝫螆䗗蟡蠁䗹衠衣𧙧裗裞䘵裺㒻𧢮𧥦䚾䛇誠諭變豕𧲨貫賁贛起𧼯𠠄跋趼跰𠣞軔輸"),
   (0x2F9E0, "𨗒𨗭邔郱鄑𨜮鄛鈸鋗鋘鉼鏹鐕𨯺開䦕閷𨵷䧦雃嶲霣𩅅𩈚䩮䩶韠𩐊䪲𩒖頋頋頩𩖶飢䬳餩馧駂駾䯎𩬰鬒鱀鳽䳎䳭鵧𪃎䳸𪄅𪈎𪊑麻䵖黹黾鼅鼏鼖"), (0x2FA1C, "鼻𪘀")] ++ styles

/-- Arabic ligatures that are encoded twice. -/
def finals : String :=
  "طى طي عى عي غى غي سى سي شى شي حى حي جى جي خى خي صى صي ضى ضي شج شح شخ شم شر سر صر ضر"

/-- Runs of characters that each stand for a mark or for more than one character, with blanks between. -/
def sequences : List (Nat × String) :=
  [(0x132, "IJ ij"), (0x13F, "L· l·"), (0x149, "ʼn"),
   (0x1C4, "DZ\u030c Dz\u030c dz\u030c LJ Lj lj NJ Nj nj"), (0x1F1, "DZ Dz dz"),
   (0x340, "\u0300 \u0301"), (0x343, "\u0313 \u0308\u0301"), (0x587, "եւ"), (0x675, "اٴ وٴ ۇٴ يٴ"),
   (0x958, "क\u093c ख\u093c ग\u093c ज\u093c ड\u093c ढ\u093c फ\u093c य\u093c"),
   (0x9DC, "ড\u09bc ঢ\u09bc"), (0x9DF, "য\u09bc"), (0xA33, "ਲ\u0a3c"), (0xA36, "ਸ\u0a3c"),
   (0xA59, "ਖ\u0a3c ਗ\u0a3c ਜ\u0a3c"), (0xA5E, "ਫ\u0a3c"), (0xB5C, "ଡ\u0b3c ଢ\u0b3c"),
   (0xE33, "\u0e4dา"), (0xEB3, "\u0ecdາ"), (0xEDC, "ຫນ ຫມ"), (0xF43, "ག\u0fb7"), (0xF4D, "ཌ\u0fb7"),
   (0xF52, "ད\u0fb7"), (0xF57, "བ\u0fb7"), (0xF5C, "ཛ\u0fb7"), (0xF69, "ཀ\u0fb5"),
   (0xF73, "\u0f71\u0f72"),
   (0xF75, "\u0f71\u0f74 \u0fb2\u0f80 \u0fb2\u0f71\u0f80 \u0fb3\u0f80 \u0fb3\u0f71\u0f80"),
   (0xF81, "\u0f71\u0f80"), (0xF93, "\u0f92\u0fb7"), (0xF9D, "\u0f9c\u0fb7"),
   (0xFA2, "\u0fa1\u0fb7"), (0xFA7, "\u0fa6\u0fb7"), (0xFAC, "\u0fab\u0fb7"),
   (0xFB9, "\u0f90\u0fb5"), (0x1E9A, "aʾ"), (0x1F71, "α\u0301"), (0x1F73, "ε\u0301"),
   (0x1F75, "η\u0301"), (0x1F77, "ι\u0301"), (0x1F79, "ο\u0301"), (0x1F7B, "υ\u0301"),
   (0x1F7D, "ω\u0301"), (0x1FBB, "Α\u0301"), (0x1FC9, "Ε\u0301"), (0x1FCB, "Η\u0301"),
   (0x1FD3, "ι\u0308\u0301"), (0x1FDB, "Ι\u0301"), (0x1FE3, "υ\u0308\u0301"), (0x1FEB, "Υ\u0301"),
   (0x1FF9, "Ο\u0301"), (0x1FFB, "Ω\u0301"), (0x212B, "A\u030a"), (0x2161, "II III IV"),
   (0x2165, "VI VII VIII IX"), (0x216A, "XI XII"), (0x2171, "ii iii iv"),
   (0x2175, "vi vii viii ix"), (0x217A, "xi xii"), (0x309F, "より"), (0x30FF, "コト"),
   (0xFB00, "ff fi fl ffi ffl st st"), (0xFB13, "մն մե մի վն մխ"), (0xFB1D, "י\u05b4"),
   (0xFB1F, "ײ\u05b7"),
   (0xFB2A, "ש\u05c1 ש\u05c2 ש\u05bc\u05c1 ש\u05bc\u05c2 א\u05b7 א\u05b8 א\u05bc ב\u05bc"),
   (0xFB32, "ג\u05bc ד\u05bc ה\u05bc ו\u05bc ז\u05bc"),
   (0xFB38, "ט\u05bc י\u05bc ך\u05bc כ\u05bc ל\u05bc"), (0xFB3E, "מ\u05bc"),
   (0xFB40, "נ\u05bc ס\u05bc"), (0xFB43, "ף\u05bc פ\u05bc"),
   (0xFB46, "צ\u05bc ק\u05bc ר\u05bc ש\u05bc ת\u05bc ו\u05b9 ב\u05bf כ\u05bf פ\u05bf אל"),
   (0xFBA4, "ە\u0654 ە\u0654"), (0xFBB0, "ے\u0654 ے\u0654"), (0xFBDD, "ۇٴ"),
   (0xFBEA, "ي\u0654ا ي\u0654ا ي\u0654ە ي\u0654ە ي\u0654و ي\u0654و ي\u0654ۇ ي\u0654ۇ ي\u0654ۆ"),
   (0xFBF3, "ي\u0654ۆ ي\u0654ۈ ي\u0654ۈ ي\u0654ې ي\u0654ې ي\u0654ې ي\u0654ى ي\u0654ى ي\u0654ى"),
   (0xFC00, "ي\u0654ج ي\u0654ح ي\u0654م ي\u0654ى ي\u0654ي بج بح بخ بم بى بي تج تح تخ تم تى تي"),
   (0xFC11, "ثج ثم ثى ثي جح جم حج حم خج خح خم سج سح سخ سم صح صم ضج ضح ضخ ضم طح طم ظم عج عم غج"),
   (0xFC2C, "غم فج فح فخ فم فى في قح قم قى قي كا كج كح كخ كل كم كى كي لج لح لخ لم لى لي مج مح"),
   (0xFC47, "مخ مم مى مي نج نح نخ نم نى ني هج هم هى هي يج يح يخ يم يى يي ذ\u0670 ر\u0670"),
   (0xFC5D, "ى\u0670"),
   (0xFC64, "ي\u0654ر ي\u0654ز ي\u0654م ي\u0654ن ي\u0654ى ي\u0654ي بر بز بم بن بى بي تر تز تم"),
   (0xFC73, "تن تى تي ثر ثز ثم ثن ثى ثي فى في قى قي كا كل كم كى كي لم لى لي ما مم نر نز نم نن"),
   (0xFC8E, "نى ني ى\u0670 ير يز يم ين يى يي ي\u0654ج ي\u0654ح ي\u0654خ ي\u0654م ي\u0654ه بج"),
   (0xFC9D, "بح بخ بم به تج تح تخ تم ته ثم جح جم حج حم خج خم سج سح سخ سم صح صخ صم ضج ضح ضخ ضم"),
   (0xFCB8, "طح ظم عج عم غج غم فج فح فخ فم قح قم كج كح كخ كل كم لج لح لخ لم له مج مح مخ مم نج"),
   (0xFCD3, "نح نخ نم نه هج هم ه\u0670 يج يح يخ يم يه ي\u0654م ي\u0654ه بم به تم ته ثم ثه سم"),
   (0xFCE8, "سه شم شه كل كم لم نم نه يم يه ـ\u064e\u0651 ـ\u064f\u0651 ـ\u0650\u0651"),
   (0xFCF5, finals), (0xFD11, finals),
   (0xFD2D, "شج شح شخ شم سه شه طم سج سح سخ شج شح شخ طم ظم ا\u064b ا\u064b"),
   (0xFD50, "تجم تحج تحج تحم تخم تمج تمح تمخ جمح جمح حمي حمى سحج سجح سجى سمح سمح سمج سمم سمم"),
   (0xFD64, "صحح صحح صمم شحم شحم شجي شمخ شمخ شمم شمم ضحى ضخم ضخم طمح طمح طمم طمي عجم عمم عمم"),
   (0xFD78, "عمى غمم غمي غمى فخم فخم قمح قمم لحم لحي لحى لجج لجج لخم لخم لمح لمح محج محم محي"),
   (0xFD8C, "مجح مجم مخج مخم"),
   (0xFD92, "مجخ همج همم نحم نحى نجم نجم نجى نمي نمى يمم يمم بخي تجي تجى تخي تخى تمي تمى جمي"),
   (0xFDA6, "جحى جمى سخى صحي شحي ضحي لجي لمي يحي يجي يمي ممي قمي نحي قمح لحم عمي كمي نجح مخي"),
   (0xFDBA, "لجم كمم لجم نجح جحي حجي مجي فمي بحي كمم عجم صمم سخي نجي"),
   (0xFDF0, "صلے قلے الله اكبر محمد صلعم رسول عليه وسلم صلى"), (0xFE71, "ـ\u064b"),
   (0xFE77, "ـ\u064e"), (0xFE79, "ـ\u064f"), (0xFE7B, "ـ\u0650"), (0xFE7D, "ـ\u0651"),
   (0xFE7F, "ـ\u0652"),
   (0xFE81, "ا\u0653 ا\u0653 ا\u0654 ا\u0654 و\u0654 و\u0654 ا\u0655 ا\u0655 ي\u0654 ي\u0654"),
   (0xFE8B, "ي\u0654 ي\u0654"),
   (0xFEF5, "لا\u0653 لا\u0653 لا\u0654 لا\u0654 لا\u0655 لا\u0655 لا لا"),
   (0xFF9E, "\u3099 \u309a")]

/-- What a character stands for, if it stands for anything else than itself. -/
def meaning? (c : Char) : Option (List Char) :=
  let n := c.toNat
  match singles.find? fun (start, targets) => start ≤ n && n < start + targets.length with
  | some (start, targets) =>
    if inRanges styleGaps c then none else (targets.toList[n - start]?).map ([·])
  | none => sequences.findSome? fun (start, targets) =>
    if start ≤ n then ((splitAt ' ' targets)[n - start]?).map String.toList else none

end Handset.Text.Compatibility
