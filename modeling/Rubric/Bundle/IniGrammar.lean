import Rubric.Grammar.Rule

/-! The grammar of settings in sections that comes with the library. -/

namespace Rubric.Bundle

/-- The grammar of settings in sections. -/
def ini : Grammar where
  scopeName := .str "source.ini"
  patterns :=
    [{ scopes := ["comment.line.number-sign.ini"]
       single := some (.str "^\\s*(#).*$\\n?")
       captures := [(1, { scopes := ["punctuation.definition.comment.ini"] })] },
     { scopes := ["comment.line.semicolon.ini"]
       single := some (.str "^\\s*(;).*$\\n?")
       captures := [(1, { scopes := ["punctuation.definition.comment.ini"] })] },
     { scopes := ["meta.section.ini"]
       single := some (.str "^\\s*(\\[)(.*?)(\\])")
       captures :=
         [(1, { scopes := ["punctuation.definition.entity.ini"] }),
          (2, { scopes := ["entity.name.section.group-title.ini"] }),
          (3, { scopes := ["punctuation.definition.entity.ini"] })] },
     { single := some (.str "\\b([a-zA-Z0-9_.-]+)\\b\\s*(=)")
       captures :=
         [(1, { scopes := ["keyword.other.definition.ini"] }),
          (2, { scopes := ["punctuation.separator.key-value.ini"] })] },
     { scopes := ["string.quoted.single.ini"]
       opening := some (.str "'")
       closing := some (.str "'")
       openingCaptures := [(0, { scopes := ["punctuation.definition.string.begin.ini"] })]
       closingCaptures := [(0, { scopes := ["punctuation.definition.string.end.ini"] })]
       children :=
         [{ scopes := ["constant.character.escape.ini"], single := some (.str "\\\\.") }] },
     { scopes := ["string.quoted.double.ini"]
       opening := some (.str "\"")
       closing := some (.str "\"")
       openingCaptures := [(0, { scopes := ["punctuation.definition.string.begin.ini"] })]
       closingCaptures := [(0, { scopes := ["punctuation.definition.string.end.ini"] })] }]
  repository := []

end Rubric.Bundle
