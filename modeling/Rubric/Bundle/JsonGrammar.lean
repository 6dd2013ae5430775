import Rubric.Grammar.Rule

/-! The grammar of JSON documents that comes with the library. -/

namespace Rubric.Bundle

/-- The grammar of JSON documents, comments included. -/
def json : Grammar where
  scopeName := .str "source.json"
  patterns :=
    [{ reference := some (.str "#value") }]
  repository :=
    [("array",
       { scopes := ["meta.structure.array.json"]
         opening := some (.str "\\[")
         closing := some (.str "\\]")
         openingCaptures := [(0, { scopes := ["punctuation.definition.array.begin.json"] })]
         closingCaptures := [(0, { scopes := ["punctuation.definition.array.end.json"] })]
         children :=
           [{ reference := some (.str "#value") },
            { scopes := ["punctuation.separator.array.json"], single := some (.str ",") },
            { scopes := ["invalid.illegal.expected-array-separator.json"]
              single := some (.str "[^\\s\\]]") }] }),
     ("comments",
       { children :=
           [{ scopes := ["comment.block.json"]
              opening := some (.str "/\\*")
              closing := some (.str "\\*/")
              openingCaptures := [(0, { scopes := ["punctuation.definition.comment.json"] })]
              closingCaptures := [(0, { scopes := ["punctuation.definition.comment.json"] })] },
            { scopes := ["comment.line.double-slash.json"]
              single := some (.str "(//).*$\\n?")
              captures := [(1, { scopes := ["punctuation.definition.comment.json"] })] }] }),
     ("constant",
       { scopes := ["constant.language.json"]
         single := some (.str "\\b(?:true|false|null)\\b") }),
     ("number",
       { scopes := ["constant.numeric.json"]
         single := some (.str "-?(?:0|[1-9]\\d*)(?:(?:\\.\\d+)?(?:[eE][+-]?\\d+)?)?") }),
     ("object",
       { scopes := ["meta.structure.dictionary.json"]
         opening := some (.str "\\\x7b")
         closing := some (.str "\\\x7d")
         openingCaptures := [(0, { scopes := ["punctuation.definition.dictionary.begin.json"] })]
         closingCaptures := [(0, { scopes := ["punctuation.definition.dictionary.end.json"] })]
         children :=
           [{ reference := some (.str "#objectkey") },
            { reference := some (.str "#comments") },
            { scopes := ["meta.structure.dictionary.value.json"]
              opening := some (.str ":")
              closing := some (.str "(,)|(?=\\\x7d)")
              openingCaptures :=
                [(0, { scopes := ["punctuation.separator.dictionary.key-value.json"] })]
              closingCaptures :=
                [(1, { scopes := ["punctuation.separator.dictionary.pair.json"] })]
              children :=
                [{ reference := some (.str "#value") },
                 { scopes := ["invalid.illegal.expected-dictionary-separator.json"]
                   single := some (.str "[^\\s,]") }] },
            { scopes := ["invalid.illegal.expected-dictionary-separator.json"]
              single := some (.str "[^\\s\\\x7d]") }] }),
     ("objectkey",
       { scopes := ["string.json", "support.type.property-name.json"]
         opening := some (.str "\"")
         closing := some (.str "\"")
         openingCaptures :=
           [(0, { scopes := ["punctuation.support.type.property-name.begin.json"] })]
         closingCaptures :=
           [(0, { scopes := ["punctuation.support.type.property-name.end.json"] })]
         children := [{ reference := some (.str "#stringcontent") }] }),
     ("string",
       { scopes := ["string.quoted.double.json"]
         opening := some (.str "\"")
         closing := some (.str "\"")
         openingCaptures := [(0, { scopes := ["punctuation.definition.string.begin.json"] })]
         closingCaptures := [(0, { scopes := ["punctuation.definition.string.end.json"] })]
         children := [{ reference := some (.str "#stringcontent") }] }),
     ("stringcontent",
       { children :=
           [{ scopes := ["constant.character.escape.json"]
              single := some (.str "\\\\(?:[\"\\\\/bfnrt]|u[0-9a-fA-F]\x7b4\x7d)") },
            { scopes := ["invalid.illegal.unrecognized-string-escape.json"]
              single := some (.str "\\\\.") }] }),
     ("value",
       { children :=
           [{ reference := some (.str "#constant") },
            { reference := some (.str "#number") },
            { reference := some (.str "#string") },
            { reference := some (.str "#array") },
            { reference := some (.str "#object") },
            { reference := some (.str "#comments") }] })]

end Rubric.Bundle
