import Rubric.Regex.CharSet
import Rubric.Text.Block
import Rubric.Text.Script

/-! Sets of characters by name: those between `[:` and `:]` in a class, and those in braces behind
`\p`, which are categories, traits, scripts and blocks. -/

namespace Rubric.Regex

open Text (CodeSet)

namespace CharSet

/-- The set that a table lists. -/
def table (set : CodeSet) : CharSet :=
  property (.table set)

/-- The names between `[:` and `:]`. -/
def bracketed : List (String × CharSet) :=
  [("alnum", union (property .alphabetic) (property (.category .nd))),
   ("alpha", property .alphabetic), ("ascii", property .ascii), ("blank", property .blank),
   ("cntrl", property (.category .cc)), ("digit", property (.category .nd)),
   ("graph", property .graph), ("lower", property .lower), ("print", property .print),
   ("punct", union (property .punctuation) (property .symbol)), ("space", property .space),
   ("upper", property .upper), ("word", property .word), ("xdigit", property .hexDigit)]

/-- The names of categories and of groups of categories, short and long. -/
def categories : List (List String × Property) :=
  [(["l", "letter"], .letter), (["lc", "casedletter"], .casedLetter),
   (["lu", "uppercaseletter"], .category .lu), (["ll", "lowercaseletter"], .category .ll),
   (["lt", "titlecaseletter"], .category .lt), (["lm", "modifierletter"], .category .lm),
   (["lo", "otherletter"], .category .lo),
   (["m", "mark", "combiningmark"], .mark),
   (["mn", "nonspacingmark"], .category .mn), (["mc", "spacingmark"], .category .mc),
   (["me", "enclosingmark"], .category .me),
   (["n", "number"], .number), (["nd", "decimalnumber"], .category .nd),
   (["nl", "letternumber"], .category .nl), (["no", "othernumber"], .category .no),
   (["p", "punctuation", "punct"], .punctuation),
   (["pc", "connectorpunctuation"], .category .pc), (["pd", "dashpunctuation"], .category .pd),
   (["ps", "openpunctuation"], .category .ps), (["pe", "closepunctuation"], .category .pe),
   (["pi", "initialpunctuation"], .category .pi), (["pf", "finalpunctuation"], .category .pf),
   (["po", "otherpunctuation"], .category .po),
   (["s", "symbol"], .symbol), (["sm", "mathsymbol"], .category .sm),
   (["sc", "currencysymbol"], .category .sc), (["sk", "modifiersymbol"], .category .sk),
   (["so", "othersymbol"], .category .so),
   (["z", "separator"], .separator), (["zs", "spaceseparator"], .category .zs),
   (["zl", "lineseparator"], .category .zl), (["zp", "paragraphseparator"], .category .zp),
   (["c", "other"], .other), (["cc", "control"], .category .cc), (["cf", "format"], .category .cf),
   (["cn", "unassigned"], .category .cn), (["co", "privateuse"], .category .co),
   (["cs", "surrogate"], .category .cs), (["any"], .any)]

/-- Characters of some case. -/
def cased : CharSet :=
  unions [property .lower, property .upper, property (.category .lt)]

/-- Characters that lower-casing changes. -/
def lowercased : CharSet :=
  without (union (property .upper) (property (.category .lt))) (table Text.uppercaseOnly)

/-- Characters that upper-casing changes. -/
def uppercased : CharSet :=
  union (without (property .lower) (table Text.lowercaseOnly)) (table Text.titlecased)

/-- Characters that title-casing changes. -/
def titlecased : CharSet :=
  union (without uppercased (table Text.titlecaseSame)) (table Text.titlecaseOnly)

/-- Characters that case folding changes. -/
def folded : CharSet :=
  union (without lowercased (table Text.foldedSame)) (table Text.foldedOnly)

/-- Characters that can begin an identifier. -/
def identifierStart : CharSet :=
  without
    (unions [property .letter, property (.category .nl), table Text.otherIdentifierStart])
    (single 0x2E2F)

/-- Characters that can continue an identifier. -/
def identifierPart : CharSet :=
  unions [identifierStart, property (.category .mn), property (.category .mc),
    property (.category .nd), property (.category .pc), table Text.otherIdentifierPart]

/-- Characters that extend the one before them. -/
def graphemeExtend : CharSet :=
  unions [property (.category .me), property (.category .mn), table Text.otherGraphemeExtend]

/-- Characters that other characters can extend. -/
def graphemeBase : CharSet :=
  compl (unions [property .other, property (.category .zl), property (.category .zp),
    graphemeExtend])

/-- Characters that case mapping passes over. -/
def caseIgnorable : CharSet :=
  unions [property (.category .mn), property (.category .me), property (.category .cf),
    property (.category .lm), property (.category .sk), table Text.otherCaseIgnorable]

/-- The names of traits, short and long. -/
def traits : List (List String × CharSet) :=
  [(["newline"], single 0x0A), (["posixpunct"], union (property .punctuation) (property .symbol)),
   (["assigned"], compl (property (.category .cn))),
   (["unknown", "zzzz"], unions [property (.category .cn), property (.category .co),
     property (.category .cs)]),
   (["ahex", "asciihexdigit"], property .hexDigit),
   (["alphabetic"], property .alphabetic),
   (["bidic", "bidicontrol"], table Text.bidiControl),
   (["cased"], cased), (["ci", "caseignorable"], caseIgnorable),
   (["cwcf", "changeswhencasefolded"], folded),
   (["cwcm", "changeswhencasemapped"], unions [lowercased, uppercased, titlecased]),
   (["cwl", "changeswhenlowercased"], lowercased),
   (["cwt", "changeswhentitlecased"], titlecased),
   (["cwu", "changeswhenuppercased"], uppercased),
   (["dash"], table Text.dash), (["dep", "deprecated"], table Text.deprecated),
   (["di", "defaultignorablecodepoint"], table Text.defaultIgnorable),
   (["dia", "diacritic"], table Text.diacritic), (["ebase", "emojimodifierbase"],
     table Text.emojiModifierBase),
   (["ecomp", "emojicomponent"], table Text.emojiComponent),
   (["emod", "emojimodifier"], table Text.emojiModifier), (["emoji"], table Text.emoji),
   (["epres", "emojipresentation"], table Text.emojiPresentation),
   (["ext", "extender"], table Text.extender),
   (["extpict", "extendedpictographic"], table Text.extendedPictographic),
   (["grbase", "graphemebase"], graphemeBase), (["grext", "graphemeextend"], graphemeExtend),
   (["grlink", "graphemelink"], table Text.graphemeLink),
   (["hex", "hexdigit"], table Text.wideHexDigits), (["hyphen"], table Text.hyphen),
   (["idc", "idcontinue"], identifierPart), (["ids", "idstart"], identifierStart),
   (["idcompatmathcontinue"], table Text.mathIdentifierPart),
   (["idcompatmathstart"], table Text.mathIdentifierStart),
   (["ideo", "ideographic"], table Text.ideographic),
   (["idsb", "idsbinaryoperator"], table Text.binaryDescription),
   (["idst", "idstrinaryoperator"], table Text.ternaryDescription),
   (["idsu", "idsunaryoperator"], table Text.unaryDescription),
   (["joinc", "joincontrol"], table Text.joinControl),
   (["loe", "logicalorderexception"], table Text.logicalOrderException),
   (["lowercase"], property .lower),
   (["math"], union (property (.category .sm)) (table Text.otherMath)),
   (["mcm", "modifiercombiningmark"], table Text.modifierCombiningMark),
   (["nchar", "noncharactercodepoint"], table Text.noncharacter),
   (["oalpha", "otheralphabetic"],
     unions [table Text.otherAlphabetic, table Text.circledLetters, single 0x345]),
   (["odi", "otherdefaultignorablecodepoint"], table Text.otherDefaultIgnorable),
   (["ogrext", "othergraphemeextend"], table Text.otherGraphemeExtend),
   (["oidc", "otheridcontinue"], table Text.otherIdentifierPart),
   (["oids", "otheridstart"], table Text.otherIdentifierStart),
   (["olower", "otherlowercase"], table Text.otherLowercase),
   (["omath", "othermath"], table Text.otherMath),
   (["oupper", "otheruppercase"], table Text.otherUppercase),
   (["patsyn", "patternsyntax"], table Text.patternSyntax),
   (["patws", "patternwhitespace"], table Text.patternWhiteSpace),
   (["pcm", "prependedconcatenationmark"], table Text.prependedConcatenation),
   (["qmark", "quotationmark"], table Text.quotationMark), (["radical"], table Text.radical),
   (["ri", "regionalindicator"], table Text.regionalIndicator),
   (["sd", "softdotted"], table Text.softDotted),
   (["sterm", "sentenceterminal"], table Text.sentenceTerminal),
   (["term", "terminalpunctuation"], table Text.terminalPunctuation),
   (["uideo", "unifiedideograph"], table Text.unifiedIdeograph),
   (["uppercase"], property .upper),
   (["vs", "variationselector"], table Text.variationSelector),
   (["wspace", "whitespace"], property .space),
   (["xidc", "xidcontinue"], without identifierPart (table Text.unstableIdentifierPart)),
   (["xids", "xidstart"], without identifierStart (table Text.unstableIdentifierStart))]

/-- Names are compared without case, spaces, hyphens and low lines. -/
def foldName (name : List Char) : String :=
  String.ofList
    ((name.filter fun c => c != ' ' && c != '-' && c != '_').map fun c =>
      if 'A' ≤ c && c ≤ 'Z' then Char.ofNat (c.toNat + 32) else c)

/-- The block of a name, which begins with `in`. What lies in no block has a name as well. -/
def block? (name : String) : Option CharSet :=
  if name == "innoblock" then
    some (compl (unions (Text.blocks.map fun (first, last, _) => range first last)))
  else
    (Text.blocks.find? fun (_, _, block) => name == "in" ++ foldName block.toList).map
      fun (first, last, _) => range first last

/-- The set of a folded name among names with their spellings. -/
def lookupAny {α : Type} (name : String) (entries : List (List String × α)) : Option α :=
  (entries.find? (·.1.contains name)).map (·.2)

/-- The set that a name in braces stands for. Punctuation in the narrow sense, without symbols, is
`punct` here. -/
def named? (name : List Char) : Option CharSet :=
  let name := foldName name
  ((lookupAny name categories).map property)
    |>.or (bracketed.lookup name)
    |>.or (lookupAny name traits)
    |>.or ((Text.script? name).map table)
    |>.or (block? name)

end CharSet

end Rubric.Regex
