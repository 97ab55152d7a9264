import BoolQuery.TokenStream

/-!
# Highlighting

A highlight is a piece of a query with the category it is shown in. Highlights come
from the tokens alone, so a query that breaks the grammar is still shown in full
colour; one that cannot even be cut into tokens is shown as one plain piece. Either
way the texts of the highlights, joined, are the query.
-/

namespace BoolQuery

/-- How a piece of a query is shown. -/
inductive Category where
  | operator
  | key
  | string
  | word
  | paren
  /-- Blanks, and text that could not be cut into tokens. -/
  | plain
deriving DecidableEq, Repr

namespace Category

def ofKind : Kind → Category
  | .not | .and | .or => operator
  | .key => key
  | .quoted => string
  | .word => word
  | .lparen | .rparen => paren
  | .whitespace => plain

def name : Category → String
  | operator => "operator"
  | key => "key"
  | string => "string"
  | word => "word"
  | paren => "paren"
  | plain => "none"

end Category

/-- A piece of a query and how it is shown. -/
structure Highlight where
  category : Category
  text : String
  span : Span
deriving DecidableEq, Repr

namespace Highlight

def ofToken (t : Token) : Highlight := ⟨.ofKind t.kind, t.text, t.span⟩

/-- All tokens of a stream as they are shown, in the order of the query. -/
def ofStream (s : TokenStream) : List Highlight := s.merged.map ofToken

/-- A query as one plain piece, or none if it is empty. -/
def unclassified (query : String) : List Highlight :=
  if query.isEmpty then []
  else [⟨.plain, query, ⟨0, Text.byteLength query.toList⟩⟩]

/-- A query as it is shown, from the outcome of cutting it. -/
def ofTokens (query : String) : Except LexError TokenStream → List Highlight
  | .ok stream => ofStream stream
  | .error _ => unclassified query

def ofQuery (query : String) : List Highlight :=
  ofTokens query (TokenStream.ofQuery query)

/-- The text that highlights are made of. -/
def reconstruct (highlights : List Highlight) : String :=
  String.join (highlights.map fun h => h.text)

end Highlight

end BoolQuery
