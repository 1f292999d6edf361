import Handset.Bytes

/-!
# GBK

The double-byte encoding of Chinese text. Its symbols and the ideographs of the first set are tables;
all other ideographs from U+4E00 to U+9FA5 follow in the order of their code points, in two blocks
around the tables, and a few compatibility ideographs close the second block.
-/
namespace Handset.Text.Gbk

/-- The characters of a table. A sign of ASCII stands for the character so many places behind the last one, counted
from the blank on, and a blank for a place without a character, which holds a question mark. -/
def unfolded : (last : Nat) → List Char → List Char
  | _, [] => []
  | last, ' ' :: rest => '?' :: unfolded last rest
  | last, c :: rest =>
    let n := if c.toNat < 0x80 then last + (c.toNat - 0x20) else c.toNat
    Char.ofNat n :: unfolded n rest

/-- The symbols with both bytes above A0, from A1A1 on, 94 to a first byte. -/
def symbols : Array Char :=
  (unfolded 0 (String.join [
    "　!!·ˉˇ¨〃々—～‖0‘!#!〔!〈!!!!!!!'!【!±F@∶∧!∑∏;∩∈O√⊥∥∠⌒⊙∫#S≌≈∽∝c.!≤!∞7",
    "∴♂♀°′!℃＄¤￠!‰§№☆★○$◎◇◆□■3▲※→←!↓〓ⅰ!!!!!!!!!      ⒈!!!!!!!!!!!!!!!!!!!",
    "⑴!!!!!!!!!!!!!!!!!!!①!!!!!!!!!  ㈠!!!!!!!!!  Ⅰ!!!!!!!!!!!  ！!!￥％!!!!!!!!!!!!!!!!!!!!!!",
    "!!!!!!!!!!!!!!!!!!!!!!!!!!!!!!!!!!!!!!!!!!!!!!!!!!!!!!!!!!!!!!!!!!￣ぁ!!!!!!!!!!!!!!!!!!!!!!",
    "!!!!!!!!!!!!!!!!!!!!!!!!!!!!!!!!!!!!!!!!!!!!!!!!!!!!!!!!!!!!           .!!!!!!!!!!!!!!!!!!!!",
    "!!!!!!!!!!!!!!!!!!!!!!!!!!!!!!!!!!!!!!!!!!!!!!!!!!!!!!!!!!!!!!!!!        Α!!!!!!!!!!!!!!!!Σ!",
    "!!!!!        (!!!!!!!!!!!!!!!!σ!!!!!!       ︵!#!%!︽!#!!!  ︻!︷!︱ ︳!         А!!!!!Ё5!!!",
    "!!!!!!!!!!!!!!!!!!!!!!               !!!!!!<ж!!!!!!!!!!!!!!!!!!!!!!!!!             āáǎàSéRèc",
    "íǐìōóǒòūúǔùǖǘǚǜüêɑ ń$ ɡ    ㄅ!!!!!!!!!!!!!!!!!!!!!!!!!!!!!!!!!!!!                        ─!",
    "!!!!!!!!!!!!!!!!!!!!!!!!!!!!!!!!!!!!!!!!!!!!!!!!!!!!!!!!!!!!!!!!!!!!!!!!!!               "]).toList).toArray

/-- The symbols with first byte A8 or A9 and a second byte up to A0. -/
def moreSymbols : Array Char :=
  (unfolded 0 (String.join [
    "ˊ!.–―00℅$↖!!!∕*$O4!x═!!!!!!!!!!!!!!!!!!!!!!!!!!!!!!!!!!!.!!!!!!!!!!!!!!$!!G!E!!!D⊕〒+",
    "!           #!!!!!!!!㊣㎎!㎜!!#C*#!#︰￢￤ ℡㈱ ‐   ー゛!ヽ!〆ゝ!﹉!!!!!!!!!﹔!!!﹙!!!!!!!!",
    "!!!!!﹨!!!             〇          "]).toList).toArray

/-- The ideographs of the first set, from B0A1 on, 94 to a first byte. -/
def ideographs : Array Char :=
  (unfolded 0 (String.join [
    "啊阿埃挨哎[哀皑癌蔼矮艾碍爱隘鞍氨安俺按暗岸胺案肮昂盎凹敖熬翱袄傲奥懊澳芭捌扒叭Z笆八疤巴拔跋",
    "靶把耙坝霸罢爸白柏百摆佰败拜稗斑班搬扳般颁板版扮拌伴瓣半办绊邦帮梆榜膀绑棒磅蚌镑傍谤苞胞包褒",
    "剥薄雹保堡饱宝抱报暴豹鲍爆杯碑悲卑北辈背贝钡倍狈备惫焙被奔苯本笨崩绷甭泵蹦迸d鼻比鄙笔彼碧蓖",
    "蔽毕$毖币庇痹闭敝弊必辟壁臂避陛鞭边编贬扁便变卞辨!辫遍标彪膘表鳖憋别瘪彬斌濒滨宾摈兵[柄丙秉",
    "饼炳病并玻菠播拨钵波博勃搏铂箔伯帛舶脖膊渤泊驳捕卜哺补埠不布步簿部怖擦猜裁材才财睬踩采彩菜蔡",
    "餐参蚕残惭惨灿苍舱仓沧藏操糙槽曹草厕策侧册测层蹭插叉茬*查碴搽察岔差诧拆柴豺搀掺蝉馋谗缠铲产",
    "阐颤昌猖场尝常长偿肠厂敞畅唱倡超抄钞朝嘲潮巢吵炒车扯撤掣彻澈郴臣辰尘晨忱沉陈趁衬撑称城橙成呈",
    "乘程惩澄诚承逞骋秤吃痴持匙池迟弛驰耻齿侈尺赤翅斥炽充冲虫崇宠抽酬畴踌稠愁筹仇绸瞅丑臭初出橱厨",
    "躇锄雏滁除楚础储矗搐触处揣川穿椽传船喘串疮窗幢H闯创吹炊捶锤垂春椿醇唇淳纯蠢戳绰疵茨磁雌辞慈",
    "瓷词此刺赐次聪葱囱匆从丛凑粗醋簇促蹿篡窜摧崔催脆瘁粹淬翠村存寸磋撮搓措挫错搭达答瘩打大呆歹傣",
    "戴带殆代贷袋待逮怠耽担丹单郸掸胆旦氮但惮淡诞弹蛋当挡党荡档刀捣蹈倒岛祷导到稻悼道盗德得的蹬灯",
    "登等瞪凳邓堤低滴迪敌笛狄涤翟嫡抵底地蒂第帝弟递缔颠掂滇碘点典靛垫电佃甸店惦奠淀殿碉叼雕凋V掉",
    "吊钓调跌爹碟蝶迭谍叠丁盯叮钉顶鼎锭定订丢东冬董懂动栋侗恫冻洞兜抖斗陡豆逗痘都督毒犊独读堵睹赌",
    "杜镀肚度渡妒端短锻段断缎堆兑队对墩吨蹲敦顿囤钝盾遁掇哆多@垛躲朵跺舵剁惰堕蛾峨鹅俄额讹娥恶厄",
    "扼遏鄂饿恩而儿耳尔饵洱二贰发罚筏伐乏阀法珐藩帆番翻樊矾钒繁凡烦反返范贩犯饭泛坊芳方肪房防妨仿",
    "访纺放菲非啡飞肥匪诽吠肺废沸费芬酚吩氛分纷坟焚汾粉奋份忿愤粪丰封枫蜂峰锋风疯烽逢冯缝讽奉凤佛",
    "否夫敷肤孵扶l辐幅氟符伏俘服浮涪福袱弗甫抚辅俯釜斧脯B府腐赴副覆赋复傅付阜父腹负富讣附妇缚咐噶",
    "嘎该改概钙盖溉干甘杆柑竿肝赶感秆敢赣冈刚钢缸肛纲岗港杠篙皋高膏羔糕搞镐稿告哥歌搁戈鸽胳疙割革",
    "葛格蛤阁隔铬个各给根跟耕更庚羹埂耿梗工攻功恭龚供躬公宫弓巩汞拱贡共钩勾沟苟狗垢构购够辜菇咕箍",
    "估沽孤姑鼓古蛊骨谷股故顾固雇刮瓜剐寡挂褂乖拐怪棺关官冠观管馆罐惯灌贯光广逛瑰规圭硅归龟闺轨鬼",
    "诡癸桂柜跪贵刽辊滚棍锅郭国果裹过哈骸孩海氦亥害骇酣憨邯韩含涵寒函喊罕翰撼捍旱憾悍焊汗汉夯杭航",
    "壕嚎豪毫郝好耗号浩呵喝荷x核禾和何合盒貉阂河涸赫褐鹤贺嘿黑痕很狠恨哼亨横衡恒轰哄烘虹鸿洪宏弘",
    "红喉侯猴吼厚候后呼乎忽瑚壶葫胡蝴狐糊湖弧虎唬护互沪户花哗华猾滑画划化话槐徊怀淮坏欢环桓还缓换",
    "患唤痪豢焕涣宦幻荒慌黄磺蝗簧皇凰惶煌晃幌恍谎灰挥辉徽恢蛔回毁悔慧卉惠晦贿秽会烩汇讳_绘荤昏婚",
    "魂浑混豁活伙火获或惑霍货祸击圾基机畸稽积箕肌饥迹激讥鸡姬绩@吉极棘辑籍集及急疾汲即嫉级挤几脊",
    "己蓟技冀季伎祭剂悸济寄寂计/既忌际妓继纪嘉枷夹佳家加荚颊贾甲钾假稼价架驾嫁歼监坚尖笺间煎兼肩",
    "艰奸缄茧检柬碱硷拣捡简俭剪减荐槛鉴践贱见键箭件健舰剑饯渐溅涧建僵姜将浆江疆蒋桨奖讲匠酱降蕉椒",
    "礁焦胶交郊浇骄娇嚼搅铰矫侥脚狡角饺缴绞剿教酵轿$叫窖揭接皆秸街阶截劫节桔杰捷睫竭洁结解姐戒藉",
    "芥界借介疥诫届巾筋斤金今津襟紧锦仅谨进靳晋禁近烬浸尽劲荆兢茎睛晶鲸京惊精粳经井警景颈静境敬镜",
    "径痉靖竟竞净炯窘揪究纠玖韭久灸九酒厩救旧臼)咎就疚鞠拘狙疽居驹菊局咀矩举沮聚拒据巨具距a锯俱句",
    "惧炬剧捐鹃娟倦眷卷绢撅攫抉掘倔爵觉决诀绝均菌钧军君峻俊竣浚郡骏喀咖卡咯开揩楷凯慨刊堪勘坎砍看",
    "康慷糠扛抗亢炕考拷烤靠坷苛柯棵磕颗科壳咳可渴克刻客课肯啃垦恳坑吭空恐孔控抠口扣寇枯哭窟苦酷库",
    "裤夸垮挎跨胯块筷侩快宽款匡筐狂框矿眶旷况亏盔岿窥葵奎魁傀馈愧溃坤昆捆困括扩廓阔垃拉喇蜡腊辣啦",
    "莱来赖蓝婪栏拦篮阑兰澜谰揽览懒缆烂滥琅榔狼廊郎朗浪捞劳牢老佬姥酪烙涝勒乐雷镭蕾磊累儡垒擂肋类",
    "泪棱楞冷厘梨犁黎篱狸离漓理李里鲤礼莉荔吏栗丽厉励砾历利傈例e痢立粒沥隶力璃哩俩联莲连镰廉怜涟",
    "帘敛脸链恋炼练粮凉梁粱良两辆量晾亮谅撩聊僚疗燎寥辽潦了撂镣廖料列裂烈劣猎琳林磷霖临邻鳞淋凛赁",
    "吝拎玲菱零龄铃伶羚凌灵陵岭领另令溜琉榴硫馏留刘瘤流柳六龙聋咙笼窿隆垄拢陇楼娄搂篓漏陋芦卢颅庐",
    "炉掳卤虏鲁麓碌露路赂鹿潞禄录陆戮驴吕铝侣旅履屡缕虑氯律率滤绿峦挛孪滦卵乱掠略抡轮伦仑沦纶论萝",
    "螺罗逻锣箩骡裸落洛骆络妈麻玛码蚂马6嘛吗埋买麦卖迈脉瞒馒蛮满蔓曼慢漫谩芒茫盲氓忙莽猫茅锚毛矛",
    "铆卯茂冒帽貌贸么玫枚梅酶霉煤没眉媒镁每美昧寐妹媚门/们萌蒙檬盟锰猛梦孟眯醚靡糜迷谜弥米秘觅泌",
    "蜜密幂棉眠绵冕免勉娩缅面苗描瞄藐秒渺庙妙蔑灭民抿皿敏悯闽明螟鸣铭名命谬摸!蘑模膜磨摩魔抹末莫",
    "墨默沫漠寞陌谋牟某拇牡亩姆母墓暮幕募慕木目睦牧穆拿哪呐钠那娜纳氖乃奶耐奈南男难囊挠脑恼闹淖呢",
    "馁内嫩能妮霓倪泥尼拟你匿腻逆溺蔫拈年碾撵捻念娘酿鸟尿捏聂孽啮镊#涅您柠狞凝宁拧泞牛扭钮纽脓浓",
    "农弄奴努怒女暖虐疟挪懦糯诺哦欧鸥殴藕呕偶沤啪趴爬帕怕琶拍排牌徘湃派攀潘盘磐盼畔判叛乓庞旁耪胖",
    "抛咆刨炮袍跑泡呸胚培裴赔陪配佩沛喷盆砰抨烹澎彭蓬棚硼篷膨朋鹏捧碰坯砒霹批R劈琵毗啤脾疲皮匹痞",
    "僻屁譬篇偏片骗飘漂瓢票撇瞥拼频贫品聘乒坪苹萍平凭瓶评屏坡泼颇婆破魄迫粕剖扑铺仆莆葡菩蒲埔朴圃",
    "普浦谱曝瀑期欺栖戚妻七凄漆柒沏其棋奇歧畦崎脐齐旗祈祁骑起岂乞企启契砌器气迄弃汽泣讫掐恰洽牵扦",
    "钎W千迁签仟谦乾黔钱钳前潜遣浅谴堑嵌欠I枪呛腔羌墙蔷强抢橇锹敲悄桥瞧乔侨巧鞘撬翘峭俏窍切茄且怯",
    "窃钦侵亲秦琴勤芹擒禽寝沁青轻氢倾卿清擎晴氰情顷请庆琼穷秋丘邱球求囚酋泅趋区蛆曲躯屈驱渠取娶龋",
    "趣去圈颧权醛泉全痊拳犬券劝缺炔瘸却鹊榷确雀裙群然燃冉染瓤壤攘嚷让饶扰绕惹热壬仁人忍韧任认刃妊",
    "纫扔仍日戎茸蓉荣融熔溶容绒冗揉柔肉茹蠕儒孺如辱乳汝入褥软阮蕊瑞锐闰润若弱撒洒萨腮鳃塞赛三叁伞",
    "散桑嗓丧搔骚扫嫂瑟色涩森僧莎砂杀刹沙纱傻啥煞筛晒珊苫杉山删煽衫闪陕擅赡膳善汕扇缮墒伤商赏晌上",
    "尚裳梢捎稍烧芍勺韶少哨邵绍奢赊蛇舌!赦摄射慑涉社设砷申呻伸身深娠绅神沈审婶甚肾慎渗声生&牲升绳",
    "省盛剩胜圣师失狮施湿诗尸虱十石拾时什食蚀实识史矢使屎驶始式示士世柿事拭誓逝势是嗜噬适仕侍释饰",
    "氏市恃室视试收手首守寿授售受瘦兽蔬枢梳殊抒输叔舒淑疏书赎孰熟薯暑h署蜀黍s属术述树束戍竖墅庶数",
    "漱恕刷耍摔衰甩帅栓拴霜双爽谁水睡税吮瞬顺舜说硕朔烁斯撕嘶思私司丝死肆寺嗣四伺似饲巳松耸怂颂送",
    "宋讼Y搜艘擞嗽苏酥俗素速粟僳塑溯宿诉肃酸蒜算虽隋$绥髓碎岁穗遂隧祟孙损笋蓑梭唆缩琐索锁所塌他它",
    "她塔獭挞蹋踏胎苔抬台泰酞太态汰坍摊贪瘫滩坛檀痰潭谭谈坦毯袒碳探叹炭汤塘搪堂棠膛唐糖倘躺淌趟烫",
    "掏涛滔绦萄桃逃淘陶讨套特藤腾疼誊梯剔踢锑提题蹄啼体替嚏惕涕剃屉天添填田甜恬舔腆挑条迢眺跳贴铁",
    "帖厅听烃汀廷停亭庭挺艇通桐酮瞳同铜彤童桶捅筒统痛偷投头透凸秃突图徒途涂屠土吐兔湍团推颓腿蜕褪",
    "退吞屯臀拖托脱鸵陀驮.椭妥拓唾挖哇蛙洼娃瓦袜歪外豌弯湾玩顽丸烷完碗挽晚皖惋宛婉万腕汪王亡枉网",
    "往旺望忘妄威巍微危韦违桅围唯惟为潍维苇萎委伟+尾纬未蔚味畏胃喂魏位渭谓尉慰卫瘟温蚊文闻纹吻稳",
    "紊问嗡翁瓮挝蜗涡窝我斡卧握沃巫呜钨乌污诬屋无芜梧吾吴毋武五捂午舞伍侮坞戊雾晤物勿务悟误昔熙析",
    "西硒矽晰嘻吸锡牺稀息希悉膝夕惜熄烯溪汐犀檄袭席习媳喜铣洗系隙戏细瞎虾匣霞辖暇峡侠狭下厦夏吓掀",
    "锨先仙鲜纤咸贤衔舷闲涎弦嫌显险现献县腺馅羡宪陷限线相厢镶香箱襄湘乡翔祥详想响享项巷橡像向象萧",
    "硝霄削哮嚣销消宵淆晓小孝校肖啸笑效楔些歇蝎鞋协挟携邪斜胁谐写械卸蟹懈泄W谢屑薪芯锌欣辛新忻心",
    "信衅星腥猩惺兴刑型形邢行醒幸杏性姓兄凶胸匈汹雄熊休修羞朽嗅锈秀袖绣墟戌需虚嘘须徐许蓄酗叙旭序",
    "畜恤絮婿绪#轩喧宣悬旋玄选癣眩绚靴薛学穴雪血勋熏循旬询寻驯巡殉汛训讯逊迅压押鸦'呀丫芽牙蚜崖衙",
    "涯雅哑亚讶焉咽阉烟淹盐严研蜒岩延言颜阎炎沿奄掩眼衍演艳堰燕厌砚雁唁彦焰宴谚验殃央鸯秧杨扬佯疡",
    "羊洋阳氧仰痒养样漾邀腰妖瑶摇尧遥窑谣姚咬舀药要耀椰噎耶爷野冶也页掖业叶曳腋夜液一壹医揖铱依伊",
    "衣颐夷遗移仪胰疑沂宜姨彝椅蚁倚已乙矣以艺抑易邑屹亿役臆逸肄疫亦裔意毅忆义益溢诣议谊译异翼翌绎",
    "茵V因殷音阴姻吟银淫寅饮尹引隐印英樱婴鹰应缨莹萤!荧蝇迎赢盈影颖硬映哟拥佣臃痈庸雍踊蛹咏泳涌永",
    "恿勇用幽优悠忧尤由邮铀犹油游酉有友H佑釉诱又幼迂淤于盂榆虞愚舆余俞逾鱼愉渝渔隅予娱雨与屿禹宇",
    "语羽玉域芋郁吁遇喻峪御愈欲狱育誉浴寓裕预豫驭鸳渊冤元垣袁原援辕园员圆猿源缘远苑愿怨院曰约越Y",
    "钥岳粤月悦阅耘云郧匀陨允运蕴酝晕韵孕匝砸杂栽哉灾宰载再在咱攒暂赞赃脏葬遭糟凿藻枣早澡蚤躁噪造",
    "皂灶燥责择则泽贼怎增憎曾赠扎喳渣札轧铡闸眨栅榨咋乍炸诈摘斋宅窄债寨瞻毡詹粘沾盏斩辗崭展蘸栈占",
    "战站湛绽樟章彰漳张掌涨杖丈帐账仗胀瘴障招昭找沼赵照罩兆肇召遮折哲蛰辙者锗蔗这浙珍斟真甄砧臻贞",
    "针侦枕疹诊震振镇阵蒸挣睁征狰争怔整拯正政帧症郑证芝枝支吱蜘知肢脂汁之织职直植殖执值侄址指止趾",
    "只旨纸志挚掷至!置帜峙制智秩Q质炙痔滞治窒中盅忠钟衷终种肿重仲E舟周州洲诌粥轴肘帚咒皱宙昼骤珠",
    "株蛛朱猪诸诛逐竹烛煮拄瞩嘱主著柱助蛀贮铸筑住注祝驻抓爪拽专砖转撰赚篆桩庄装妆撞壮状椎锥追赘坠",
    "缀谆准捉拙卓桌琢茁酌啄着灼浊兹咨资姿滋淄孜紫仔籽滓子自渍字鬃棕踪宗综总纵邹走奏揍租足卒族祖诅",
    "阻组钻纂嘴醉最罪尊遵昨左佐柞做作坐座     亍丌兀丐廿卅丕亘丞鬲孬噩丨禺丿匕乇夭爻卮氐囟胤馗毓",
    "睾鼗丶亟鼐乜乩J芈孛啬嘏仄厍0&厥)靥赝匚叵匦(0赜卦卣刂&&?&,!,2#剜蒯剽%劁/#冂罔亻(&仂F仡*仞]仳O",
    "b仵P伧伉BS)攸佚#佟佗伲+Y佴=侉侃,佾佻O佼P侔r俨俪俅5)俜俑.9QC俳Y倏?倭俾>倌9#v偃2偈&>/J傧傩1<P",
    "僭僬僦(9$仝氽佘佥俎龠汆籴兮巽黉馘冁夔勹4訇匐凫夙兕亠兖亳衮V亵脔裒禀嬴蠃羸冫&,冼+冖,#讠&!#*!",
    "讷+!($诎$!!诖诘!##!$$!%诰#####!谂谄#%#谑!谔!!#谛谘%谟!!$谧#!#!#!谵!卩1阝%阡0阪3阼&'++(%&陴4%",
    "*9邗$邝邙3邡3邳#$邸邰?郅邾2郄#,3郢郜郗$0$/&>鄞%.鄯**#刍奂劢*!1哿勐&:叟燮矍廴凵'鬯厶弁畚巯坌",
    "垩垡塾^),圩#圪)&圮!M圻'G<坫;坼坻坨%)坳Z垤垌F=垧垴垓垠U#埚埙埒垸埴埯)埤埝N堍埽埭3>堙K堠e'5(1",
    "墀馨鼙懿艹$艿0芊>芄*#&芙2芸&芰8苊9芘?芮=!苁芩+芡)芟E*芤]H苷苤K茇苜8苒&T苻苓^)茆.!苠苕gU*!茈",
    "莒茼茴茱莛荞茯@荇荃<荀茗i茭茺茳S荥#茛n#荪#!b荸[!莠*莓)莅荼Z莩荽[荻=&*2莼%萁菥菘堇萘萋菝@菖f<",
    "萑萆菔+P萃菸!菪菅菀萦菰菡葜葑)葙:4!葺/葸萼*C葶6蒎萱葭t,#6蒽6蓊蒿蒺F蒡8蒴蒗n蓣I甍蔸蓰i蔟;<蔻",
    "蓿蓼蕙蕈@蕤蕞<瞢蕃O)I$薇(蕹U薜薅T薷薰C藁;CH蘅D蘖F廾*夼%耷奕%奘匏尢#'(扌>U</0拗7T拶c2捃掭i捱)",
    "4F捭_掊捩e.V&揠?揄:揎摒揆掾摅摁搋0%搌:搡]F摭I摺]!撙A&0'擤擢G<)弋忒甙弑卟叱,叩叨37$吆e'!!呖呃",
    "吡V呙吣/p2呷呱呤V!咄呶呦WS咭5咴>咧咦M!呲QR咻$哌哙!哜咩!咤Y哏/]哧Y哽7哳O!唏唑6#]HF啉D啁4唿1唼",
    "唷??!!唳唰LOg喃N(喈喁>啾x喑啻嗟喽!喔%q嗷嗉v嗑:!嗔2嗝嗄K嗥嗲!嗌!;嗵嗤辔嘞嘈$嘁C嘣嗾嘀G&K嘹>嘬",
    "A5噙#噌(R噤噱噫0!).<E#&$4囫.&%&圉3帏*帔帑@*!帷幄0'##岌屺3#&岈0!岑)岜9岢;岬岫&岣>岷峄.2峋:=!D",
    "崦(崤崞崆5]崾崴)O嵛4嵝.嵋嵊?+.7$豳嶷.彳$+%徉#)$#,%('衢彡犭#$#!+狁狎狍%6'狩)狴#*狳0狺!<猓.猊4",
    "猝猕猢7猥',猱?獍*),#/舛夥飧夤夂饣$!!!!!(#&#$####!馓!!庀1庋+/庠9庵)庳赓廒廑*廨廪膺忄%忖忏T忮6",
    "忡#:'!忪#+A<怦怛怏怍<怫怊U怡w!恻恺恂H39$3悝悃/悌/q悻悱L惘惆4悴愠&愕.惴,.=?KW憔30=A忝隳闩闫&",
    "闳闵!&闾%!阆阈阊!!!阏##!!阙!丬爿戕氵?(汊y沅+$沌汨!+汶0CG$沭j!泱泗沲N泖D泫#沱B</[洧洌W%洇洄5",
    "洎=B洮'洚U#浔洳涑浯O涠浞U!浜$<浣渚淇淅9P涿AQ淦淝淙]涫渌涮渫c湎=g湟G湓!渲渥?滟溱溘hm滢溥溧6溻",
    "溷@溴;溏S溟潢潆!漤漕滹V'5I漪漉@澉$澌潸潲*潺w濉澧2澶,?濮濞濠/K)瀛>瀵:/宀$1宓23甯骞搴寤*褰寰蹇",
    "謇辶=迕0)迤%迦迳迨=逄';逑逍)+4!逭逯5遑!遐8遘*遛暹遴)%&邃(彐'彖彘尻咫屐)孱屣#羼弪弩$艴弼鬻屮",
    "妁妃*<!妣妗S妫妞&N妲妯H妾g!姝K姣姘A3娉I娴娑2娓MG婊+娼F3胬媪媛婷#dM媲@嫔媸H#.嫖0嫘$M.嬖<%)尕'",
    "孚+.孑孓/驵驷!驺%驽#!$#骊&骒!#骘#!!骟!骢!骥骧纟纡纣纥#!$#.绀!!'绋!$$#$%!'##!绱!;绶$!##!!$!#!",
    "#缑!%缙#缛$缡!!!!!!#!!!缯!!!!缵幺畿巛甾邕玎#=玢玟P珂/玷玳珀)珈=珙顼琊珩珧珞玺X=;Q琦琥#(琮琬",
    "琛琚G;瑗瑕$>瑭1>璎璀!&$3*!璐7K璺韪!!杌'+杈A枥枇杪)E/杵S枞/枋杷%柰9柘R柩枰栌柙枵E枳JC柃枸JL柁",
    "柽U!M!桎4桄@?栝X1桁F桀栾,桉栩梵梏桴#<桫w楮棼C!棹K棰;椁v棣M楱椹G楂;G楫58楸椴槌榇!f榉楦楣6B,4",
    "榫榭G榱0)5榕k榍槿P槭J!m槲r樾檠橐+樵y橹樽樨PD5檐9檗4猷;殁!%殄.!殍殚!&)轫轭$!!轵!轸轷轹!轼轾#!",
    "辄#$辍!!)辚軎戋,$$#戡$戤(臧瓯%+0甑甓攴旮!!:/杲昃2昀炅曷昝7昱%昵耆晟晔晁.'+晗@暄(;暝A=!*#贲!#",
    "%贽#%!赈!赇&($觇#!!觎!!!牮Q牝))/!%'犍犏#挈J掰搿擘耄毪)*毵$,氇氆'(#!!'(氤&(攵@6牍%$爰虢刖肟肜",
    "肓I朊肽肱肫肭'#P!!!胛胂胄5胍*朐胝.&#胭@!胲*朕脒豚脶脞.脘:6$'A腙!7腠)3!腭腧塍媵膈膂/滕膣'B朦",
    "臊膻&膦欤3欹*#3飑!!飕$!殳彀毂觳斐齑斓I*旄旃)旎$$炀<炖'>%炷炫&W烊f##9焱b煜,煅M煊N煺>;熵熨熠燠",
    "燔32D+灬焘ns戾戽&%!礻%&#2!祓'(祗)/祧3+%0禧,忑忐怼A恚恧恁8*h愆'pl憝N&U肀聿沓泶淼矶矸().!砑斫",
    "砭砜!<!!砟=砥'砣&E?硖!砦J硇%>Q碓'碇5%碣/'碥O%磉C&3磴?1礞6龛黹黻!盱3)盹.!2(眙4眦/#8!睇睃7.睢#",
    ":.睽#,%.!0%(町&.畋畈37'*罘)罟詈罨,罱((罾盍8蠲钅!!$钊钌!钏!$#钕%!!'!'钪#钬#!钲钴钶!!!!钼!钿%$",
    "!!!!!!铐!!#!!铙铘##!!铢铤!铧!铪铩铫#!$!!铷铹#!铿$锂$!锉!#!!#!!!!锘#锝!!#(!锩#%!锴锶!!$锾!#锵",
    "/!!##镎!#!!镖!!!镛#!镝$!镤!!!!!!!!#镱!!锺矧%雉秕8秣(;嵇稃稂<稔E稷:黏馥穰皈&%&+瓞瓠l鸠鸢&!!!!",
    "&鸱%鸸鸷鸹!$#!鹄鹆!!!鹋!鹎#$鹗#!!鹞%#!!!!!!%鹭&疒疔疖*疝/疣0!$,疱疰3痂4痍6%痦痤'痧<痱+#1瘀%'",
    "+瘊;瘘瘕$瘛A瘢瘠@瘭#/瘵.瘾瘳:1癔(癖5$翊竦穸!'&窈窕1窠,窨%&衤%)+衿#@D袷%裉9裎5裥,I裼裨6裰Q褙",
    "褓(褊J褫++E5疋胥皲皴矜耒耔耖&$耢#!!耩耨)耋J.#'%7(覃顸(#&#!颏%&!#!颡!#!虍'8虮1虺虼虻M蚍蚋A蚝*",
    "蚣'蚓6蚶.蚵9蚰*蚱蚯:&蚴U(!蛭&蛐c蛞6蛟蛘蛑R$蛸0蜊#蜉:8蜞')蜚D*蜴蜱蜩.(c蜢蝽!蝻蝠0蝌B=蝓09蝤蝙",
    ",N<螨J蟆螈螅H螗螃HZ螬)螳8(螽4蟀*1/蟠.H蠓蟾,1&8#缶,罄!舐竺#+笃!1笊A笏X笸笪笙5#笠%笤/+笞Z筚筅P",
    "筌1#.筻筢0筱?6!1箬箝+箅E箜&))=篁+1篚+!$B篾篼3'簋4+簦2)籀臾#!舄臬衄舡!!*舯舨#舸#舳!*&%艋$+%)",
    "衾'#p'襞羝羟((!羲籼敉粑,粜粞$0*!$&%!糈糅21艮暨羿/'0翡%#%%糸絷O(繇t麸麴赳10趑@赧&豇豉酊&酎!5",
    "酢酡/酩&.!酲酴%3醅+醍$1!'#!!&醴&豕鹾趸S:t0趵*趼趺*2!#$跎!,跆F+!跣6跻跤E跽7)踟踬踮踣,+&踹踵(",
    "踱8蹁!/!蹊F&&蹯%1*%躐,躞豸*(貅3貔斛觖(觚觜)&$o謦靓雩*雯7霁''霎<##.龀#龅!!!!!龌黾鼋鼍隹#!1$瞿",
    "雠銎@:錾L鏊鎏鐾M鱿##!!!稣鲋#鲐!!鲔!%!#!!!!!鲥!!!!鲫鲭!鲰!!!!!!!#!!!'!!!#!!!!!!#!!鳗!!#!鳟#靼",
    "),!鞔;鞫鞣/鞴骱骰'鹘骶$骼%髀%髂)!%魅魃$魉魈%$飨EAG饔髟髡%)髫0髭,/'$,$麽!縻麂%!#'鏖麝麟黛!!#",
    "黟#'黧黥%%S*#*鼷&!&"]).toList).toArray

/-- The compatibility ideographs at the end of the second block. -/
def compatibility : Array Char :=
  #[0xF92C, 0xF979, 0xF995, 0xF9E7, 0xF9F1, 0xFA0C, 0xFA0D, 0xFA0E, 0xFA0F, 0xFA11, 0xFA13, 0xFA14,
    0xFA18, 0xFA1F, 0xFA20, 0xFA21, 0xFA23, 0xFA24, 0xFA27, 0xFA28, 0xFA29].map Char.ofNat

/-- For each code point from U+4E00 on, is it an ideograph of the first set? -/
def inFirstSet : Array Bool :=
  ideographs.foldl (fun flags c =>
    if c = '?' then flags else flags.setIfInBounds (c.toNat - 0x4E00) true) (Array.replicate 20902 false)

/-- The ideographs outside the first set by code point, then the compatibility ideographs. -/
def otherIdeographs : Array Char :=
  ((Array.range 20902).filter fun i => !inFirstSet.getD i true).map (fun i => Char.ofNat (0x4E00 + i))
    ++ compatibility

def entry? (table : Array Char) (index : Nat) : Option Char :=
  match table[index]? with
  | some c => if c = '?' then none else some c
  | none => none

def pair? (first second : Nat) : Option Char :=
  if second < 0x40 ∨ second = 0x7F ∨ 0xFE < second ∨ first < 0x81 ∨ 0xFE < first then none
  else
    let low := if second < 0x7F then second - 0x40 else second - 0x41
    if first ≤ 0xA0 then entry? otherIdeographs ((first - 0x81) * 190 + low)
    else if second ≤ 0xA0 then
      if first = 0xA8 ∨ first = 0xA9 then entry? moreSymbols ((first - 0xA8) * 96 + low)
      else if 0xAA ≤ first then entry? otherIdeographs (6080 + (first - 0xAA) * 96 + low)
      else none
    else if first ≤ 0xA9 then entry? symbols ((first - 0xA1) * 94 + (second - 0xA1))
    else if 0xB0 ≤ first then entry? ideographs ((first - 0xB0) * 94 + (second - 0xA1))
    else none

def chars : List UInt8 → List Char
  | [] => []
  | [b] => if b.toNat < 0x80 then [Char.ofNat b.toNat] else []
  | b :: c :: rest =>
    if b.toNat < 0x80 then Char.ofNat b.toNat :: chars (c :: rest)
    else match pair? b.toNat c.toNat with
      | some found => found :: chars rest
      | none => chars (c :: rest)

def decodeLossy (b : Bytes) : String :=
  String.ofList (chars b.toList)

end Handset.Text.Gbk
