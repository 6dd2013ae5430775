/-! General categories of code points. The base table is that of version 14.0 of the character
database, written as runs; `later` lists what newer versions assign, for readers that follow them.
Code points below 128 have their own short rule, `Category.ofAscii`, so that facts about plain
text never open the table. -/

namespace Rubric.Text

/-- The general category of a code point, named by its two-letter abbreviation. -/
inductive Category where
  /-- upper-case letter -/
  | lu
  /-- lower-case letter -/
  | ll
  /-- title-case letter -/
  | lt
  /-- modifier letter -/
  | lm
  /-- other letter -/
  | lo
  /-- non-spacing mark -/
  | mn
  /-- spacing mark -/
  | mc
  /-- enclosing mark -/
  | me
  /-- decimal digit -/
  | nd
  /-- letter used as a number -/
  | nl
  /-- other number -/
  | no
  /-- connector -/
  | pc
  /-- dash -/
  | pd
  /-- opening punctuation -/
  | ps
  /-- closing punctuation -/
  | pe
  /-- opening quotation mark -/
  | pi
  /-- closing quotation mark -/
  | pf
  /-- other punctuation -/
  | po
  /-- mathematical symbol -/
  | sm
  /-- currency symbol -/
  | sc
  /-- modifier symbol -/
  | sk
  /-- other symbol -/
  | so
  /-- space -/
  | zs
  /-- line separator -/
  | zl
  /-- paragraph separator -/
  | zp
  /-- control character -/
  | cc
  /-- format character -/
  | cf
  /-- surrogate -/
  | cs
  /-- private use -/
  | co
  /-- unassigned -/
  | cn
deriving DecidableEq, Repr, Inhabited

namespace Category

/-- A letter of any case. -/
def isLetter : Category → Bool
  | .lu | .ll | .lt | .lm | .lo => true
  | _ => false

/-- A mark that combines with the character before it. -/
def isMark : Category → Bool
  | .mn | .mc | .me => true
  | _ => false

/-- A number of any kind. -/
def isNumber : Category → Bool
  | .nd | .nl | .no => true
  | _ => false

/-- Punctuation of any kind. -/
def isPunctuation : Category → Bool
  | .pc | .pd | .ps | .pe | .pi | .pf | .po => true
  | _ => false

/-- A symbol of any kind. -/
def isSymbol : Category → Bool
  | .sm | .sc | .sk | .so => true
  | _ => false

/-- A space or a separator. -/
def isSeparator : Category → Bool
  | .zs | .zl | .zp => true
  | _ => false

/-- Controls, format characters and all that holds no character of its own. -/
def isOther : Category → Bool
  | .cc | .cf | .cs | .co | .cn => true
  | _ => false

/-- The letter that stands for a category in the run text. -/
def ofCode : Char → Category
  | 'u' => .lu
  | 'l' => .ll
  | 't' => .lt
  | 'm' => .lm
  | 'o' => .lo
  | 'n' => .mn
  | 'c' => .mc
  | 'e' => .me
  | 'd' => .nd
  | 'b' => .nl
  | 'x' => .no
  | 'j' => .pc
  | 'h' => .pd
  | 'p' => .ps
  | 'q' => .pe
  | 'i' => .pi
  | 'f' => .pf
  | 'r' => .po
  | 'a' => .sm
  | 'g' => .sc
  | 'k' => .sk
  | 's' => .so
  | 'z' => .zs
  | 'v' => .zl
  | 'w' => .zp
  | 'C' => .cc
  | 'F' => .cf
  | 'S' => .cs
  | 'P' => .co
  | 'N' => .cn
  | _ => .cn

/-- Categories of the first 128 code points. -/
def ofAscii (n : Nat) : Category :=
  if n < 0x20 || n == 0x7F then .cc
  else if n == 0x20 then .zs
  else if 0x30 ≤ n && n ≤ 0x39 then .nd
  else if 0x41 ≤ n && n ≤ 0x5A then .lu
  else if 0x61 ≤ n && n ≤ 0x7A then .ll
  else if n == 0x5F then .pc
  else if n == 0x2D then .pd
  else if n == 0x28 || n == 0x5B || n == 0x7B then .ps
  else if n == 0x29 || n == 0x5D || n == 0x7D then .pe
  else if n == 0x24 then .sc
  else if n == 0x5E || n == 0x60 then .sk
  else if n == 0x2B || n == 0x7C || n == 0x7E || (0x3C ≤ n && n ≤ 0x3E) then .sm
  else .po

/-- Runs of code points of one category, in order from 0: a letter of `ofCode`, then the length of
the run, left out where it is one. -/
def runText : List String :=
  ["C32zr3gr3pqrarhr2d10r2a3r2u26prqkjkl26paqaC33zrg4srksoiaFsksax2klr2kxofx3ru23au7l24al8ululul",
   "ululululululululululululululululululululululululul2ulululululululul2ulululululululululululul",
   "ulululululululululululu2lulul3u2lulu2lu3l2u4lu2lu3l3u2lu2lululu2lul2ulu2lu3lulu2l2oul3o4utlu",
   "tlutlulululululululul2ululululululululul2utlulu3lulululululululululululululululululululululu",
   "lululululululul7u2lu2l2ulu4lulululul69ol27m18k4m12k14m5k7mkmk17n112ululmkulN2ml3ruN4k2uru3Nu",
   "Nu2lu17Nu9l35ul2u3l3ulululululululululululul5ulaulu2l2u51l48ulululululululululululululululul",
   "ulsn5e2ulululululululululululululululululululululululululululu2lulululululul2ulululululululu",
   "lululululululululululululululululululululululululululululululululululululululululNu38N2mr6",
   "l41rhN2s2gNn45hnrn2rn2rnN8o27N4o4r2N11F6a3r2gr2s2n11rFr3o32mo10n21d10r4o2no99ron7Fsn6m2n2sn4",
   "o2d10o3s2or14NFono30n27N2o89n11oN14d10o33n9m2sr3mN2ng2o22n4mn9mn3mn5N2r15No25n3N2rNo11N5o24k",
   "o6NF2N6n8o41mn24Fn32co54ncnoc3n8c4nc2on7o10n2r2d10rmo15nc2No8N2o2N2o22No7NoN3o4N2noc3n4N2c2",
   "N2c2noN8cN4o2No3n2N2d10o2g2x6sgornN2n2cNo6N4o2N2o22No7No2No2No2N2nNc3n2N4n2N2n3N3nN7o4NoN7",
   "d10n2o3nrN10n2cNo9No3No22No7No2No5N2noc3n5Nn2cNc2nN2oN15o2n2N2d10rgN7on6Nnc2No8N2o2N2o22No7N",
   "o2No5N2nocncn4N2c2N2c2nN7n2cN4o2No3n2N2d10sox6N10noNo6N3o3No4N3o2NoNo2N3o2N3o3N3o12N4c2nc2N3",
   "c3Nc3nN2oN6cN14d10x3s6gsN5nc3no8No3No23No16N2non3c4Nn3Nn4N7n2No3N2oN2o2n2N2d10N7rx7sonc2ro8N",
   "o3No23No10No5N2nocnc5Nnc2Nc2n2N7c2N6o2No2n2N2d10No2N13n2c2o9No3No41n2oc3n4Nc3Nc3nosN4o3cx7o3",
   "n2N2d10x9so6Nnc2No18N3o24No9NoN2o7N3nN4c3n3NnNc8N6d10N2c2rN12o48no2n7N4go6mn8rd10r2N37o2NoN",
   "o5No24NoNo10no2n9oN2o5NmNn6N2d10N2o4N32os3r15srs3n2s6d10x10snsnsnpqpqc2o8No36N4n14cn5rn2o5",
   "n11Nn36Ns8ns6Ns2r5s4r2N37o43c2n4cn6cn2c2n2od10r6o6c2n2o4n3oc3o2c7o3n4o13nc2n2c6nocd10c3ns2",
   "u38NuN5uN2l43rml3o329No4N2o7NoNo4N2o41No4N2o33No4N2o7NoNo4N2o15No57No4N2o67N2n3r9x20N3o16s10",
   "N6u86N2l6N2ho620sro17zo26pqN3o75r3b3o8N7o18n3cN9o19n2cr2N9o18n2N12o13No3Nn2N12o52n2cn7c8nc2",
   "n11r3mr3gonN2d10N6x10N6r6hr4n3Fnd10N6o35mo53N7o5n2o34noN5o70N10o31Nn3c4n2c3N4c2nc6n3N4sN3r2",
   "d10o30N2o5N11o44N4o26N6d10xN3s34o23n2c2nN2r2o53cncn7Nncnc2n8c6n10N2nd10N6d10N6r7mr6N2n14en16",
   "N49n4co47ncn5cnc5nc2o8N3d10r7s10n9s9r2Nn2co30cn4c2n2cn3o2d10o44ncn2c3ncn3c2N8r4o36c8n8c2n2N3",
   "r5d10N3o3d10o30m6r2l9N7u43N2u3r8N8n3rn13cn7o4no6no2cn2oN5l44m63l13ml34m37n64ulululululululul",
   "ulululululululululululululululululululululululululululululululululululululululululululululul",
   "ululululululululululululululululululululul9ululululululululululululululululululululululululu",
   "lulululululululululululululululululululululululul9u8l6N2u6N2l8u8l8u8l6N2u6N2l8NuNuNuNul8u8",
   "l14N2l8t8l8t8l8t8l5Nl2u4tklk3l3Nl2u4tk3l4N2l2u4Nk3l8u5k3N2l3Nl2u4tk2Nz11F5h6r2ifpi2fpir8vwF5",
   "zr9ifr4j2r3apqr11arjr10zF5NF10xmN2x6a3pqmx10a3pqNm13N3g33N15n13e4ne3n12N15s2us4us2lu3l2u3lsu",
   "s2au5s6usususu4slu4lo4ls2l2u2a5ul4sas2lsx16b35ulb4xs2N4a5s5a2s4as2as2as7as31a2s2asas31a268s8",
   "pqpqs20a2s7pqs81as30a25s40a6s69N25s11N21x60s78x22s183as9as54a8s111as248pqpqpqpqpqpqpqx30s44",
   "a5pqa31pqpqpqpqpqa16s256a131pqpqpqpqpqpqpqpqpqpqpqa63pqpqa32pqa258s48a21s2a6s39N2s32Ns105u48",
   "l48ulu3l2ulululu4lul2ul6m2u3lulululululululululululululululululululululululululululululululu",
   "lululululululululululululululululul2s6ululn3ulN5r4xr2l38NlN5lN2o56N7mrN14no23N9o7No7No7No7N",
   "o7No7No7No7Nn32r2ififr3ifrifr9hr2hrifr2ifpqpqpqpqr5mr10h2r4hrpr13s2r3pqpqpqpqhN34s26Ns89N12",
   "s214N26s12N4zr3smobpqpqpqpqpqs2pqpqpqpqhpq2sb9n4c2hm5s2b3mors2No86N2n2k2m2oho90rm3oN5o43No94",
   "Ns2x4s10o32s36N12o16s31Nx10s30x8sx15s32x10s39x15s320o6592s64o21013mo1143N3s55N9o40m6r2o268m",
   "r3o16d10o2N20ulululululululululululululululululululululululone3rn10rmulululululululululululu",
   "lululm2n2o70b10n2r6N8k23m9k2ululululululul3ululululululululululululululululululululululululu",
   "lululululululml8ululu2lululululmk2ululoulul3ululululululululululu5lu5lulululululululu4lulN5u",
   "lNlNlululN24m3ulom2lo7no3no4no23c2n2cs4nN3x6s2gsN6o52r4N8c2o50c16n2N8r2d10N6n18o6r3oro2nd10",
   "o28n8r2o23n11c2N11ro29N3n3co47nc2n4c2n2c3r13Nmd10N4r2o5nmo9d10o5No41n6c2n2c2n2N9o3no8ncN2d10",
   "N2r4o16mo6s3ocnco50non3o2n2o5n2onoN24o2mr2o11cn2c2r2om2cnN10o6N2o6N2o6N9o7No7Nl43km4l9mk2N4",
   "l80o35c2nc2nc2rcnN2d10N6o11172N12o23N4o49N4S2048P6400o366N2o106N38l7N12l5N5ono10ao13No5NoNo2",
   "No2No108k17N16o363qps16o64N2o54N7sN32o12gs3n16r7pqrN6n16rh2j2pqpqpqpqpqpqpqpqr2pqr4j3r3Nr4hp",
   "qpqpqr3aha3Nrgr2N4o5No135N2FNr3gr3pqrarhr2d10r2a3r2u26prqkjkl26paqapqrpqr2o10mo45m2o31N3o6N2",
   "o6N2o6N2o3N3g2aksg2Nsa4s2N10F3s2N2o12No26No19No2No15N2o14N34o123N5r3N4x45N3s9b53x4s17x2s3N",
   "s13N3sN47s45nN130o29N3o49N15nx27N4o32x4N9o20bo8bN5o38n5N5o30Nro36N4o8rb5N42u40l40o78N2d10N6",
   "u36N4l36N4o40N8o52N11ru11Nu15Nu7Nu2Nl11Nl15Nl7Nl2N67o311N9o22N10o8N24m6Nm42Nm9N69o6N2oNo44N",
   "o2N3oN2o23Nrx8o23s2x7o31N8x9N48o19No2N5x5o22x6N3ro26N5rN64o56N4x2o2x16N2x46on3Nn2N5n4o4No3N",
   "o29N2n3N4nx9N7r9N7o29x2ro29x3N32o8so28n2N4x5r7N9o54N3r7o22N2x8o19N5x8o18N7r4N12x7N80o73N55",
   "u51N13l51N7x6o36n4N8d10N294x31No42Nn2hN2o2N78o29x10oN8o22n11x4r5N22o18n4r4N38o21x7N20o23N9cn",
   "co53n15r7N4x20d10no2n2oN9n3co45c3n4c2n2r2Fr4nN10FN2o25N7d10N6n3o36n5cn8Nd10r4oc2oN8o35nr2oN9",
   "n2co48c3n9c2o4r4n4rcnd10oror3Nx20N11o18No25c3n3c2ncn2r6nN65o7NoNo4No15No10rN6o47nc3n8N5d10N6",
   "n2c2No8N2o2N2o22No7No2No5Nn2oc2nc4N2c2N2c3N2oN6cN5o5c2N2n7N3n5N139o53c3n8c2n3cno4r5d10r2Nrn",
   "o3N30o48c3n6cnc4n2cn2o2roN8d10N166o47c3n4N2c4n2cn2r23o4n2N34o48c3n8c2ncn2r3oN11d10N6r13N19",
   "o43ncnc2n6cnorN6d10N54o27N2n3c2n4cn5N4d10x2r3so7N185o44c3n9cn2rN100u32l32d10x9N12o8N2oN2o8N",
   "o2No24c6Nc2N2n2cnococnr3N9d10N70o8N2o39c3n4N2n2c4norocN27on10o40n6con4r8nN8on6c2n3o46n13cn2",
   "r3or5N13o73N263o9No37cn7Nn6cnor5N10d10x19N3r2o30N2n22Ncn7cn2cn2N73o7No2No38n6N3nNn2Nn7onN8",
   "d10N6o6No2No32c5Nn2Nc2ncnoN7d10N310o19n2c2r2N183oN15x21s8g4s17N13ro922N102b111Nr5N11o196",
   "N2636o97r2N13o1071NF9N4039o583N8633o569N7o31Nd10N4r2o79Nd10N6o30N2n5rN10o48n7r5s4m4rsN10d10N",
   "x7No21N5o19N688u32l32x23r4N101o75N4noc55N7n4m13N64m2rmnN11c2N14o6136N8o1238N42o9N8935m4Nm7N",
   "m2No291N45o3N17o4N8o396N2308o107N5o13N3o9N7o10N2sn2rF4N4700n46N2n23N9s116N60s246N10s39N2s60",
   "c2n3s3c6F8n8s2n7s30n4s61N21s66n3sN154x20N12s87N9x25N135u26l26u26l7Nl18u26l26uNu2N2uN2u2N2u4N",
   "u8l4NlNl7Nl11u26l26u2Nu4N2u8Nu7Nl26u2Nu4Nu5NuN3u7Nl26u26l26u26l26u26l26u26l26u26l26u26l28N2",
   "u25al25al6u25al25al6u25al25al6u25al25al6u25al25al6ulN2d50s512n55s4n50s8ns14ns2r5N15n5Nn15",
   "N1104l10ol20N225n7Nn17N2n7Nn2Nn5N213o45N3n7m7N2d10N4osN320o30nN17o44n4d10N5gN1248o7No4No2N",
   "o15No197N2x9n7N41u34l34n7mN4d10N4r2N785x59sx3gx4N76x45sx15N194o4No27No2NoN2oNo10No4NoNoN6oN4",
   "oNoNoNo3No2NoN2oNoNoNoNoNo2NoN2o4No7No4No4NoNo10No17N5o3No5No17N52a2N270s44N4s100N12s15N2s15",
   "Ns15Ns37N10x13s161N56s29N13s44N4s9N7s2N14s6N154s251k5s728N5s16N3s13N3s116N12s89N7s12N4sN15",
   "s12N4s56N8s10N6s40N8s30N2s2N78s340N12s14N2s5N3s5N3s7N9s29N3s11N5s6N10s10N6s8N8s7N9s147Ns55",
   "N37d10N1030o42720N32o4153N7o222N2o5762N14o7473N3103o542N1506o4939N715958FN30F96N128n240",
   "N65040P65534N2P65534N2"]

/-- Reads run text into the first code point of each run with its category. The pending run is
`category`, its length so far `length` (0 while no digit was read). -/
def decodeRuns (first length : Nat) (category : Category) (acc : Array (Nat × Category)) :
    List Char → Array (Nat × Category)
  | [] => acc.push (first, category)
  | c :: rest =>
    if c.isDigit then decodeRuns first (10 * length + (c.toNat - 48)) category acc rest
    else decodeRuns (first + max length 1) 0 (ofCode c) (acc.push (first, category)) rest

/-- The first code point of each run, ascending, with the category of the run. -/
def runs : Array (Nat × Category) :=
  match (String.join runText).toList with
  | [] => #[]
  | c :: rest => decodeRuns 0 0 (ofCode c) #[] rest

/-- The last run that starts at or before `n`, looking at the runs from `low` up to `high`. -/
def searchRuns (n : Nat) : (fuel low high : Nat) → Nat × Category
  | 0, low, _ => runs.getD low (0, .cn)
  | fuel + 1, low, high =>
    let mid := (low + high + 1) / 2
    if high ≤ low then runs.getD low (0, .cn)
    else if (runs.getD mid (0, .cn)).1 ≤ n then searchRuns n fuel mid high
    else searchRuns n fuel low (mid - 1)

/-- The run of equal category that holds the code point `n`: its first code point and the
category. Sixteen halvings are enough for the length of the table. -/
def runAt (n : Nat) : Nat × Category :=
  searchRuns n 16 0 (runs.size - 1)

/-- The general category of a character. -/
def ofChar (c : Char) : Category :=
  if c.toNat < 128 then ofAscii c.toNat else (runAt c.toNat).2

/-- Code points that newer versions put into another category than the base table: first, last,
category. All but one are unassigned in the base table, and that one is a mark. -/
def later : List (Nat × Nat × Category) :=
  [(0x897, 0x897, .mn), (0xCF3, 0xCF3, .mc), (0xECE, 0xECE, .mn), (0x1B4E, 0x1B4F, .po),
   (0x1B7F, 0x1B7F, .po), (0x1C89, 0x1C89, .lu), (0x1C8A, 0x1C8A, .ll), (0x2427, 0x2429, .so),
   (0x2FFC, 0x2FFF, .so), (0x31E4, 0x31E5, .so), (0x31EF, 0x31EF, .so), (0xA7CB, 0xA7CC, .lu),
   (0xA7CD, 0xA7CD, .ll), (0xA7DA, 0xA7DA, .lu), (0xA7DB, 0xA7DB, .ll), (0xA7DC, 0xA7DC, .lu),
   (0x105C0, 0x105F3, .lo), (0x10D40, 0x10D49, .nd), (0x10D4A, 0x10D4D, .lo),
   (0x10D4E, 0x10D4E, .lm), (0x10D4F, 0x10D4F, .lo), (0x10D50, 0x10D65, .lu),
   (0x10D69, 0x10D6D, .mn), (0x10D6E, 0x10D6E, .pd), (0x10D6F, 0x10D6F, .lm),
   (0x10D70, 0x10D85, .ll), (0x10D8E, 0x10D8F, .sm), (0x10EC2, 0x10EC4, .lo),
   (0x10EFC, 0x10EFF, .mn), (0x1123F, 0x11240, .lo), (0x11241, 0x11241, .mn),
   (0x11380, 0x11389, .lo), (0x1138B, 0x1138B, .lo), (0x1138E, 0x1138E, .lo),
   (0x11390, 0x113B5, .lo), (0x113B7, 0x113B7, .lo), (0x113B8, 0x113BA, .mc),
   (0x113BB, 0x113C0, .mn), (0x113C2, 0x113C2, .mc), (0x113C5, 0x113C5, .mc),
   (0x113C7, 0x113CA, .mc), (0x113CC, 0x113CD, .mc), (0x113CE, 0x113CE, .mn),
   (0x113CF, 0x113CF, .mc), (0x113D0, 0x113D0, .mn), (0x113D1, 0x113D1, .lo),
   (0x113D2, 0x113D2, .mn), (0x113D3, 0x113D3, .lo), (0x113D4, 0x113D5, .po),
   (0x113D7, 0x113D8, .po), (0x113E1, 0x113E2, .mn), (0x116D0, 0x116E3, .nd),
   (0x1171E, 0x1171E, .mc), (0x11B00, 0x11B09, .po), (0x11BC0, 0x11BE0, .lo),
   (0x11BE1, 0x11BE1, .po), (0x11BF0, 0x11BF9, .nd), (0x11F00, 0x11F01, .mn),
   (0x11F02, 0x11F02, .lo), (0x11F03, 0x11F03, .mc), (0x11F04, 0x11F10, .lo),
   (0x11F12, 0x11F33, .lo), (0x11F34, 0x11F35, .mc), (0x11F36, 0x11F3A, .mn),
   (0x11F3E, 0x11F3F, .mc), (0x11F40, 0x11F40, .mn), (0x11F41, 0x11F41, .mc),
   (0x11F42, 0x11F42, .mn), (0x11F43, 0x11F4F, .po), (0x11F50, 0x11F59, .nd),
   (0x11F5A, 0x11F5A, .mn), (0x1342F, 0x1342F, .lo), (0x13439, 0x1343F, .cf),
   (0x13440, 0x13440, .mn), (0x13441, 0x13446, .lo), (0x13447, 0x13455, .mn),
   (0x13460, 0x143FA, .lo), (0x16100, 0x1611D, .lo), (0x1611E, 0x16129, .mn),
   (0x1612A, 0x1612C, .mc), (0x1612D, 0x1612F, .mn), (0x16130, 0x16139, .nd),
   (0x16D40, 0x16D42, .lm), (0x16D43, 0x16D6A, .lo), (0x16D6B, 0x16D6C, .lm),
   (0x16D6D, 0x16D6F, .po), (0x16D70, 0x16D79, .nd), (0x18CFF, 0x18CFF, .lo),
   (0x1B132, 0x1B132, .lo), (0x1B155, 0x1B155, .lo), (0x1CC00, 0x1CCEF, .so),
   (0x1CCF0, 0x1CCF9, .nd), (0x1CD00, 0x1CEB3, .so), (0x1D2C0, 0x1D2D3, .no),
   (0x1DF25, 0x1DF2A, .ll), (0x1E030, 0x1E06D, .lm), (0x1E08F, 0x1E08F, .mn),
   (0x1E4D0, 0x1E4EA, .lo), (0x1E4EB, 0x1E4EB, .lm), (0x1E4EC, 0x1E4EF, .mn),
   (0x1E4F0, 0x1E4F9, .nd), (0x1E5D0, 0x1E5ED, .lo), (0x1E5EE, 0x1E5EF, .mn),
   (0x1E5F0, 0x1E5F0, .lo), (0x1E5F1, 0x1E5FA, .nd), (0x1E5FF, 0x1E5FF, .po),
   (0x1F6DC, 0x1F6DC, .so), (0x1F774, 0x1F776, .so), (0x1F77B, 0x1F77F, .so),
   (0x1F7D9, 0x1F7D9, .so), (0x1F8B2, 0x1F8BB, .so), (0x1F8C0, 0x1F8C1, .so),
   (0x1FA75, 0x1FA77, .so), (0x1FA87, 0x1FA89, .so), (0x1FA8F, 0x1FA8F, .so),
   (0x1FAAD, 0x1FAAF, .so), (0x1FABB, 0x1FABF, .so), (0x1FAC6, 0x1FAC6, .so),
   (0x1FACE, 0x1FACF, .so), (0x1FADA, 0x1FADC, .so), (0x1FADF, 0x1FADF, .so),
   (0x1FAE8, 0x1FAE9, .so), (0x1FAF7, 0x1FAF8, .so), (0x1FBCB, 0x1FBEF, .so),
   (0x2B739, 0x2B739, .lo), (0x2EBF0, 0x2EE5D, .lo), (0x31350, 0x323AF, .lo)]

/-- The general category of a character, newer assignments included. -/
def latest (c : Char) : Category :=
  let category := ofChar c
  if category == .cn || category == .mn then
    match later.find? fun (first, last, _) => first ≤ c.toNat && c.toNat ≤ last with
    | some (_, _, newer) => newer
    | none => category
  else category

end Category

end Rubric.Text
