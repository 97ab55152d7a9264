import BoolQuery.Query

/-!
# Failures of commands

What a command can fail on, in words. A query that cannot be read is shown under
its message with carets below the range at fault. The query takes one line there,
so line breaks in it are shown as blanks, and columns are counted in characters
while ranges are in bytes; `caret?` is where the one turns into the other. If the
range starts at no place of the query, nothing is drawn.
-/

namespace BoolQuery.Command

/-- Why a command failed. -/
inductive Failure where
  | unreadable (query : String) (error : QueryError)
  | json (reason : String)
  | io (reason : String)
  | noInput
  | unknownCategory (name : String)
  | unknownFormat (name : String)
deriving DecidableEq, Repr

/-- A character of a query that is shown on one line. -/
def flatChar (c : Char) : Char := if c = '\n' ∨ c = '\r' then ' ' else c

/-- A query on one line, and the carets below it for a range. -/
def caretAt? (query : String) (span : Span) : Option String := do
  let chars := query.toList
  let (before, _) ← Text.split? span.start chars
  let width := match span.slice? chars with
    | some part => max 1 part.length
    | none => 1
  let shown := "  " ++ query.map flatChar
  let carets := "  " ++ String.ofList
    (List.replicate before.length ' ' ++ List.replicate width '^')
  return shown ++ "\n" ++ carets

/-- A query on one line, and carets below what is wrong with it. -/
def caret? (query : String) (error : QueryError) : Option String := caretAt? query error.span

namespace Failure

def message : Failure → String
  | unreadable query error =>
      let headline := error.stage.title ++ " error: " ++ error.message
      match caret? query error with
      | some lines => headline ++ "\n" ++ lines
      | none => headline
  | json reason => "JSON error: " ++ reason
  | io reason => "IO error: " ++ reason
  | noInput => "No query provided. Pass it as an argument or pipe it to stdin."
  | unknownCategory name =>
      s!"Unknown category: '{name}'\nRun 'boolex docs' to see available categories."
  | unknownFormat name => s!"Unknown format: '{name}' (expected 'json' or 'html')"

/-- What lies behind a failure, in words, from the nearest cause to the last. A
query failed because reading it failed, and that because one stage did, which says
the same again. -/
def causes : Failure → List String
  | unreadable _ error => [error.message, error.message]
  | json reason => [reason]
  | io reason => [reason]
  | noInput | unknownCategory _ | unknownFormat _ => []

end Failure

end BoolQuery.Command
