import Rubric.Grammar.Rule

/-! The grammar of Python that comes with the library. -/

namespace Rubric.Bundle

/-- The grammar of Python. -/
def python : Grammar where
  scopeName := .str "source.python"
  patterns :=
    [{ reference := some (.str "#statement") }]
  repository :=
    [("statement",
       { children :=
           [{ reference := some (.str "#comment") },
            { reference := some (.str "#decorator") },
            { reference := some (.str "#function-def") },
            { reference := some (.str "#class-def") },
            { reference := some (.str "#expression") }] }),
     ("comment",
       { scopes := ["comment.line.number-sign.python"]
         single := some (.str "(#).*$\\n?")
         captures := [(1, { scopes := ["punctuation.definition.comment.python"] })] }),
     ("decorator",
       { scopes := ["meta.decorator.python"]
         single := some (.str "^\\s*(@)\\s*([A-Za-z_][\\w.]*)")
         captures :=
           [(1, { scopes := ["punctuation.definition.decorator.python"] }),
            (2, { scopes := ["entity.name.function.decorator.python"] })] }),
     ("function-def",
       { scopes := ["meta.function.python"]
         opening := some (.str "\\b(?:(async)\\s+)?(def)\\s+([A-Za-z_]\\w*)\\s*(\\()")
         closing := some (.str "(\\))")
         contentScopes := ["meta.function.parameters.python"]
         openingCaptures :=
           [(1, { scopes := ["storage.type.function.async.python"] }),
            (2, { scopes := ["storage.type.function.python"] }),
            (3, { scopes := ["entity.name.function.python"] }),
            (4, { scopes := ["punctuation.definition.parameters.begin.python"] })]
         closingCaptures := [(1, { scopes := ["punctuation.definition.parameters.end.python"] })]
         children :=
           [{ reference := some (.str "#comment") },
            { scopes := ["variable.parameter.function.language.special.python"]
              single := some (.str "\\b(self|cls)\\b") },
            { single := some (.str "(?<![\\w.])([A-Za-z_]\\w*)\\s*(?=[,:=)]|$)")
              captures := [(1, { scopes := ["variable.parameter.function.language.python"] })] },
            { reference := some (.str "#expression") }] }),
     ("class-def",
       { scopes := ["meta.class.python"]
         single := some (.str "\\b(class)\\s+([A-Za-z_]\\w*)")
         captures :=
           [(1, { scopes := ["storage.type.class.python"] }),
            (2, { scopes := ["entity.name.type.class.python"] })] }),
     ("expression",
       { children :=
           [{ reference := some (.str "#string") },
            { reference := some (.str "#number") },
            { scopes := ["constant.language.python"]
              single := some (.str "\\b(?:True|False|None|NotImplemented|Ellipsis)\\b") },
            { scopes := ["keyword.operator.logical.python"]
              single := some (.str "\\b(?:and|in|is|not|or)\\b") },
            { scopes := ["keyword.control.import.python"]
              single := some (.str "\\b(?:import|from)\\b") },
            { scopes := ["keyword.control.flow.python"]
              single :=
                some (.str "\\b(?:if|elif|else|for|while|break|continue|return|yield|try|except|finally|raise|with|as|pass|global|nonlocal|assert|del|lambda|await|async)\\b") },
            { scopes := ["variable.language.special.python"]
              single := some (.str "\\b(?:self|cls)\\b") },
            { scopes := ["support.function.builtin.python"]
              single :=
                some (.str "\\b(?:abs|all|any|bool|dict|enumerate|filter|float|getattr|hasattr|int|isinstance|iter|len|list|map|max|min|next|open|print|range|repr|set|setattr|sorted|str|sum|super|tuple|type|zip)\\b(?=\\s*\\()") },
            { scopes := ["meta.function-call.python"]
              single := some (.str "\\b([A-Za-z_]\\w*)\\s*(?=\\()")
              captures := [(1, { scopes := ["entity.name.function.call.python"] })] },
            { scopes := ["keyword.operator.python"]
              single := some (.str "\\*\\*=?|//=?|==|:=|->|[-+*/%@&|^~<>!]=?|=") },
            { scopes := ["punctuation.parenthesis.python"]
              single := some (.str "[()\\[\\]\x7b\x7d]") },
            { scopes := ["punctuation.separator.element.python"], single := some (.str ",") },
            { scopes := ["punctuation.separator.period.python"]
              single := some (.str "\\.") },
            { scopes := ["punctuation.separator.colon.python"], single := some (.str ":") }] }),
     ("number",
       { scopes := ["constant.numeric.python"]
         single :=
           some (.str "\\b(?:0[xX][0-9a-fA-F_]+|0[oO][0-7_]+|0[bB][01_]+|(?:\\d[\\d_]*)?\\.?\\d[\\d_]*(?:[eE][+-]?\\d+)?[jJ]?)\\b") }),
     ("string",
       { children :=
           [{ scopes := ["string.quoted.multi.python"]
              opening := some (.str "(?i)(?<!\\w)([rbuf]\x7b0,2\x7d)(\"\"\"|''')")
              closing := some (.str "(\\2)")
              openingCaptures :=
                [(1, { scopes := ["storage.type.string.python"] }),
                 (2, { scopes := ["punctuation.definition.string.begin.python"] })]
              closingCaptures := [(1, { scopes := ["punctuation.definition.string.end.python"] })]
              children := [{ reference := some (.str "#escape") }] },
            { scopes := ["string.quoted.single.python"]
              opening := some (.str "(?i)(?<!\\w)([rbuf]\x7b0,2\x7d)([\"'])")
              closing := some (.str "(\\2)|((?<!\\\\)\\n)")
              openingCaptures :=
                [(1, { scopes := ["storage.type.string.python"] }),
                 (2, { scopes := ["punctuation.definition.string.begin.python"] })]
              closingCaptures :=
                [(1, { scopes := ["punctuation.definition.string.end.python"] }),
                 (2, { scopes := ["invalid.illegal.newline.python"] })]
              children := [{ reference := some (.str "#escape") }] }] }),
     ("escape",
       { scopes := ["constant.character.escape.python"]
         single :=
           some (.str "\\\\(?:[\\\\'\"abfnrtv0-7]|x[0-9A-Fa-f]\x7b2\x7d|u[0-9A-Fa-f]\x7b4\x7d|N\\\x7b[^\x7d]+\\\x7d|$)") })]

end Rubric.Bundle
