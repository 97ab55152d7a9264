import BoolQuery.Highlight

/-!
# Highlights as HTML

Each piece is put in a `span` element with a class for its category; plain pieces
stand for themselves. The five characters that mean something in markup are
replaced by entities everywhere, so the text of a query can neither open nor close
an element.
-/

namespace BoolQuery.Markup

/-- A character as it stands in markup. -/
def escapeChar (c : Char) : List Char :=
  if c = '&' then ['&', 'a', 'm', 'p', ';']
  else if c = '<' then ['&', 'l', 't', ';']
  else if c = '>' then ['&', 'g', 't', ';']
  else if c = '"' then ['&', 'q', 'u', 'o', 't', ';']
  else if c = '\'' then ['&', '#', '3', '9', ';']
  else [c]

def escape (text : String) : String := String.ofList (text.toList.flatMap escapeChar)

def openTag (category : Category) : String := "<span class=\"hl-" ++ category.name ++ "\">"

def closeTag : String := "</span>"

def renderOne (h : Highlight) : String :=
  match h.category with
  | .plain => escape h.text
  | category => openTag category ++ escape h.text ++ closeTag

/-- Highlights as markup. -/
def render (highlights : List Highlight) : String := String.join (highlights.map renderOne)

end BoolQuery.Markup
