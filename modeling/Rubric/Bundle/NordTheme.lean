import Rubric.Theme.Basic

/-! The theme `nord`, which comes with the library. -/

namespace Rubric.Bundle

/-- The dark theme `nord`, the default one. -/
def nord : Theme where
  name := .str "nord"
  background := .str "#2e3440"
  foreground := .str "#d8dee9"
  rules :=
    [{ selector := [["emphasis"]], fontStyle := some { italic := true } },
     { selector := [["strong"]], fontStyle := some { bold := true } },
     { selector := [["comment"]], foreground := some (.str "#616E88") },
     { selector := [["constant", "character"]], foreground := some (.str "#EBCB8B") },
     { selector := [["constant", "character", "escape"]], foreground := some (.str "#EBCB8B") },
     { selector := [["constant", "language"]], foreground := some (.str "#81A1C1") },
     { selector := [["constant", "numeric"]], foreground := some (.str "#B48EAD") },
     { selector := [["constant", "regexp"]], foreground := some (.str "#EBCB8B") },
     { selector := [["entity", "name", "class"]], foreground := some (.str "#8FBCBB") },
     { selector := [["entity", "name", "type", "class"]], foreground := some (.str "#8FBCBB") },
     { selector := [["entity", "name", "function"]], foreground := some (.str "#88C0D0") },
     { selector := [["entity", "name", "tag"]], foreground := some (.str "#81A1C1") },
     { selector := [["entity", "name", "section"]]
       foreground := some (.str "#88C0D0")
       fontStyle := some { bold := true } },
     { selector := [["entity", "other", "attribute-name"]], foreground := some (.str "#8FBCBB") },
     { selector := [["entity", "other", "inherited-class"]]
       foreground := some (.str "#8FBCBB")
       fontStyle := some { bold := true } },
     { selector := [["invalid", "deprecated"]], foreground := some (.str "#D8DEE9") },
     { selector := [["invalid", "illegal"]], foreground := some (.str "#D8DEE9") },
     { selector := [["keyword"]], foreground := some (.str "#81A1C1") },
     { selector := [["keyword", "operator"]], foreground := some (.str "#81A1C1") },
     { selector := [["keyword", "other", "definition"]], foreground := some (.str "#8FBCBB") },
     { selector := [["markup", "changed"]], foreground := some (.str "#EBCB8B") },
     { selector := [["markup", "deleted"]], foreground := some (.str "#BF616A") },
     { selector := [["markup", "inserted"]], foreground := some (.str "#A3BE8C") },
     { selector := [["meta", "decorator"]], foreground := some (.str "#D08770") },
     { selector := [["meta", "diff", "header"]], foreground := some (.str "#81A1C1") },
     { selector := [["meta", "diff", "range"]], foreground := some (.str "#B48EAD") },
     { selector := [["punctuation"]], foreground := some (.str "#ECEFF4") },
     { selector := [["punctuation", "definition", "comment"]]
       foreground := some (.str "#616E88") },
     { selector := [["punctuation", "definition", "string"]]
       foreground := some (.str "#A3BE8C") },
     { selector := [["punctuation", "separator", "key-value"]]
       foreground := some (.str "#81A1C1") },
     { selector := [["storage"]], foreground := some (.str "#81A1C1") },
     { selector := [["storage", "type"]], foreground := some (.str "#81A1C1") },
     { selector := [["string"]], foreground := some (.str "#A3BE8C") },
     { selector := [["support", "function"]], foreground := some (.str "#88C0D0") },
     { selector := [["support", "type", "property-name"]], foreground := some (.str "#8FBCBB") },
     { selector := [["variable", "language"]], foreground := some (.str "#81A1C1") },
     { selector := [["variable", "parameter"]], foreground := some (.str "#D8DEE9") },
     { selector := [["meta", "structure", "dictionary", "value", "json"],
         ["string", "quoted", "double", "json"]]
       foreground := some (.str "#A3BE8C") },
     { selector := [["support", "type", "property-name", "json"]]
       foreground := some (.str "#8FBCBB") }]

end Rubric.Bundle
