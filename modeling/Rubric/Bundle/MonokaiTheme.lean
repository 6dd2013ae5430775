import Rubric.Theme.Basic

/-! The theme `monokai`, which comes with the library. -/

namespace Rubric.Bundle

/-- The dark theme `monokai`. -/
def monokai : Theme where
  name := .str "monokai"
  background := .str "#272822"
  foreground := .str "#F8F8F2"
  rules :=
    [{ selector := [["comment"]], foreground := some (.str "#88846f") },
     { selector := [["string"]], foreground := some (.str "#E6DB74") },
     { selector := [["constant", "numeric"]], foreground := some (.str "#AE81FF") },
     { selector := [["constant", "language"]], foreground := some (.str "#AE81FF") },
     { selector := [["constant", "character"]], foreground := some (.str "#AE81FF") },
     { selector := [["constant", "other"]], foreground := some (.str "#AE81FF") },
     { selector := [["variable"]], fontStyle := some {} },
     { selector := [["keyword"]], foreground := some (.str "#F92672") },
     { selector := [["storage"]], foreground := some (.str "#F92672") },
     { selector := [["storage", "type"]]
       foreground := some (.str "#66D9EF")
       fontStyle := some { italic := true } },
     { selector := [["entity", "name", "class"]]
       foreground := some (.str "#A6E22E")
       fontStyle := some { underline := true } },
     { selector := [["entity", "name", "type"]]
       foreground := some (.str "#A6E22E")
       fontStyle := some { underline := true } },
     { selector := [["entity", "name", "namespace"]]
       foreground := some (.str "#A6E22E")
       fontStyle := some { underline := true } },
     { selector := [["entity", "name", "scope-resolution"]]
       foreground := some (.str "#A6E22E")
       fontStyle := some { underline := true } },
     { selector := [["entity", "other", "inherited-class"]]
       foreground := some (.str "#A6E22E")
       fontStyle := some { italic := true, underline := true } },
     { selector := [["entity", "name", "function"]], foreground := some (.str "#A6E22E") },
     { selector := [["variable", "parameter"]]
       foreground := some (.str "#FD971F")
       fontStyle := some { italic := true } },
     { selector := [["entity", "name", "tag"]], foreground := some (.str "#F92672") },
     { selector := [["entity", "other", "attribute-name"]], foreground := some (.str "#A6E22E") },
     { selector := [["entity", "name", "section"]], foreground := some (.str "#A6E22E") },
     { selector := [["support", "function"]], foreground := some (.str "#66D9EF") },
     { selector := [["support", "constant"]], foreground := some (.str "#66D9EF") },
     { selector := [["support", "type"]]
       foreground := some (.str "#66D9EF")
       fontStyle := some { italic := true } },
     { selector := [["support", "class"]]
       foreground := some (.str "#66D9EF")
       fontStyle := some { italic := true } },
     { selector := [["support", "type", "property-name"]]
       foreground := some (.str "#66D9EF")
       fontStyle := some {} },
     { selector := [["meta", "decorator"]], foreground := some (.str "#A6E22E") },
     { selector := [["invalid"]], foreground := some (.str "#F44747") },
     { selector := [["markup", "deleted"]], foreground := some (.str "#F92672") },
     { selector := [["markup", "inserted"]], foreground := some (.str "#A6E22E") },
     { selector := [["markup", "changed"]], foreground := some (.str "#E6DB74") },
     { selector := [["meta", "diff"]], foreground := some (.str "#75715E") },
     { selector := [["meta", "diff", "header"]], foreground := some (.str "#75715E") },
     { selector := [["keyword", "other", "definition", "ini"]]
       foreground := some (.str "#66D9EF") }]

end Rubric.Bundle
