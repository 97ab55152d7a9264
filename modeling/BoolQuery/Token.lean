import BoolQuery.Span

/-!
# Tokens

A token is a piece of a query with its class. A query is cut into tokens without
a gap, so blanks are tokens too; those of them that matter to the grammar are
called significant, and the others are whitespace.
-/

namespace BoolQuery

/-- The class of a token. -/
inductive Kind where
  | whitespace
  | not
  | and
  | or
  | lparen
  | rparen
  /-- A key with its equals sign. -/
  | key
  /-- A phrase with its quotes. -/
  | quoted
  | word
deriving DecidableEq, Repr

namespace Kind

def name : Kind → String
  | whitespace => "whitespace"
  | not => "not"
  | and => "and"
  | or => "or"
  | lparen => "lparen"
  | rparen => "rparen"
  | key => "key"
  | quoted => "quoted"
  | word => "word"

/-- Whether tokens of a kind mean nothing to the grammar. -/
def isWhitespace (kind : Kind) : Bool := kind == whitespace

def isReserved : Kind → Bool
  | not | and | or => true
  | _ => false

end Kind

/-- A classified piece of a query. -/
structure Token where
  kind : Kind
  text : String
  span : Span
deriving DecidableEq, Repr

namespace Token

/-- A token as messages name it. -/
def description (t : Token) : String :=
  match t.kind with
  | .whitespace => "whitespace"
  | .quoted => s!"string {t.text}"
  | .key => s!"key '{t.text}'"
  | _ => s!"'{t.text}'"

def isWhitespace (t : Token) : Bool := t.kind.isWhitespace

end Token

end BoolQuery
