import BoolQuery.Highlight
import BoolQuery.Query

/-!
# Analyses

The analysis of a query is its expression or the error that kept it from having
one, together with its highlights, which are there in both cases. An analysis also
reports its course as events: that tokens are about to be read, and how reading
ended.
-/

namespace BoolQuery

/-- What can be reported of the course of an analysis. -/
inductive Event where
  /-- A query has been cut into so many tokens and is about to be read. -/
  | reading (tokens whitespace : Nat)
  | accepted (expr : Expr)
  | rejected (error : QueryError)

namespace Event

def level : Event → String
  | reading _ _ => "TRACE"
  | accepted _ | rejected _ => "DEBUG"

/-- What an event says, as fields by name. -/
def fields : Event → List (String × String)
  | reading tokens whitespace =>
      [("message", "parsing token stream"), ("tokens", toString tokens),
        ("whitespace", toString whitespace)]
  | accepted expr =>
      [("block_type", expr.blockType.name), ("leaves", toString expr.leafCount),
        ("message", "query accepted")]
  | rejected error =>
      [("error", error.message), ("message", "query rejected"), ("stage", error.stage.name)]

end Event

/-- What is found out about a query. -/
structure Analysis where
  result : Except QueryError Expr
  highlights : List Highlight
  events : List Event

/-- How reading ended, as an event. -/
def Event.ofResult : Except QueryError Expr → Event
  | .ok expr => accepted expr
  | .error error => rejected error

def analyze (query : String) : Analysis :=
  let tokens := TokenStream.ofQuery query
  let result := (tokens.mapError .lexical).bind compile
  let beforeReading := match tokens with
    | .ok stream => [Event.reading stream.tokens.length stream.whitespace.length]
    | .error _ => []
  { result
    highlights := Highlight.ofTokens query tokens
    events := beforeReading ++ [.ofResult result] }

theorem result_analyze (query : String) : (analyze query).result = parse query := rfl

theorem highlights_analyze (query : String) :
    (analyze query).highlights = Highlight.ofQuery query := rfl

end BoolQuery
