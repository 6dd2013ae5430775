import Rubric.Grammar.Rule

/-! The grammar of differences between files that comes with the library. -/

namespace Rubric.Bundle

/-- The grammar of differences between files. -/
def diff : Grammar where
  scopeName := .str "source.diff"
  patterns :=
    [{ scopes := ["meta.diff.header"]
       single := some (.str "^(?:(-\x7b3\x7d)|(\\+\x7b3\x7d)|(\\*\x7b3\x7d)) .*$\\n?")
       captures :=
         [(1, { scopes := ["punctuation.definition.from-file.diff"] }),
          (2, { scopes := ["punctuation.definition.to-file.diff"] }),
          (3, { scopes := ["punctuation.definition.from-file.diff"] })] },
     { scopes := ["meta.diff.range.unified"]
       single := some (.str "^(@@)\\s*(.+?)\\s*(@@)(.*)$\\n?")
       captures :=
         [(1, { scopes := ["punctuation.definition.range.diff"] }),
          (2, { scopes := ["meta.toc-list.line-number.diff"] }),
          (3, { scopes := ["punctuation.definition.range.diff"] }),
          (4, { scopes := ["entity.name.section.diff"] })] },
     { scopes := ["meta.diff.header.git"]
       single :=
         some (.str "^(diff|index|new file mode|deleted file mode|similarity index|rename from|rename to)\\b.*$\\n?")
       captures := [(1, { scopes := ["keyword.other.diff"] })] },
     { scopes := ["markup.inserted.diff"]
       single := some (.str "^(((>)( .*)?)|((\\+).*))$\\n?")
       captures :=
         [(3, { scopes := ["punctuation.definition.inserted.diff"] }),
          (6, { scopes := ["punctuation.definition.inserted.diff"] })] },
     { scopes := ["markup.changed.diff"]
       single := some (.str "^(!).*$\\n?")
       captures := [(1, { scopes := ["punctuation.definition.changed.diff"] })] },
     { scopes := ["markup.deleted.diff"]
       single := some (.str "^(((<)( .*)?)|((-).*))$\\n?")
       captures :=
         [(3, { scopes := ["punctuation.definition.deleted.diff"] }),
          (6, { scopes := ["punctuation.definition.deleted.diff"] })] },
     { scopes := ["meta.diff.only-in"], single := some (.str "^Only in .*: .*$\\n?") }]
  repository := []

end Rubric.Bundle
