import BoolQuery.Analysis
import BoolQuery.Expr.Document

/-!
# Documents about queries

The JSON documents for tokens, highlights and errors. The expressions have theirs
beside their type.
-/

namespace BoolQuery

def Span.toJson (s : Span) : Json := .obj [("end", .num s.stop), ("start", .num s.start)]

def Token.toJson (t : Token) : Json :=
  .obj [("kind", .str t.kind.name), ("span", t.span.toJson), ("text", .str t.text)]

/-- The document of a stream: all its tokens, whitespace included, in the order of
the query. -/
def TokenStream.toJson (s : TokenStream) : Json := .arr (s.merged.map Token.toJson)

def Highlight.toJson (h : Highlight) : Json :=
  .obj [("category", .str h.category.name), ("span", h.span.toJson), ("text", .str h.text)]

def Highlight.listToJson (highlights : List Highlight) : Json :=
  .arr (highlights.map Highlight.toJson)

def QueryError.toJson (e : QueryError) : Json :=
  .obj [("message", .str e.message), ("span", e.span.toJson), ("stage", .str e.stage.name)]

end BoolQuery
