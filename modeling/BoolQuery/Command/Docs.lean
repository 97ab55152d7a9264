import BoolQuery.Text.Lower

/-!
# Documentation pages

The pages that the command line shows: an overview, and one page for each category,
which can be asked for under several names. A page is a list of lines, and each of
its lines ends with a line break.
-/

namespace BoolQuery.Command

/-- What a page of the documentation is about. -/
inductive DocCategory where
  | grammar
  | operators
  | terms
  | errors
deriving DecidableEq, Repr

namespace DocCategory

def name : DocCategory → String
  | grammar => "syntax"
  | operators => "operators"
  | terms => "terms"
  | errors => "errors"

/-- The category that a name asks for, in upper or lower case. -/
def ofName? (name : String) : Option DocCategory :=
  match Text.lower name with
  | "syntax" | "grammar" => some grammar
  | "operators" | "ops" => some operators
  | "terms" | "term" | "blocks" | "keys" => some terms
  | "errors" | "error" => some errors
  | _ => none

end DocCategory

/-- The text of a page from its lines. -/
def page (lines : List String) : String := String.join (lines.map fun line => line ++ "\n")

/-- The list of categories, with the language and the commands in brief. -/
def overview : String := page [
  "BOOLEX DOCUMENTATION",
  "",
  "Boolex is a boolean language for search expressions. Terms or key=value",
  "assertions are combined with AND, OR and NOT and grouped with parentheses.",
  "",
  "DOCUMENTATION CATEGORIES",
  "",
  "  syntax            Grammar, tokens and grouping",
  "  operators         AND, OR, NOT and how they associate",
  "  terms             Bare terms, quoted phrases and KEY=\"value\" assertions",
  "  errors            Lexical, syntax and validation errors",
  "",
  "QUICK REFERENCE",
  "",
  "  kernel                    Bare term",
  "  \"out of memory\"           Quoted phrase",
  "  STATUS=\"open\"             Key/value assertion",
  "  a AND b                   Both",
  "  a OR b                    Either",
  "  NOT a                     Negation",
  "  (a OR b) AND c            Grouping",
  "",
  "COMMANDS",
  "",
  "  boolex check <QUERY>      Validate a query and print its AST",
  "  boolex highlight <QUERY>  Print highlight spans (json or html)",
  "  boolex tokens <QUERY>     Print the token stream",
  "  boolex doc <CATEGORY>     Show one documentation category"]

def grammarPage : String := page [
  "SYNTAX",
  "",
  "GRAMMAR",
  "  expression := binary",
  "  binary     := primary ( (AND | OR) primary )*",
  "  primary    := prefix | group | block",
  "  prefix     := NOT primary",
  "  group      := '(' expression ')'",
  "  block      := QUOTED | WORD | KEY QUOTED",
  "",
  "TOKENS (first matching rule wins)",
  "  whitespace    Spaces, tabs, newlines; ignored by the parser",
  "  NOT AND OR    Reserved words, uppercase, whole words only",
  "  ( )           Grouping",
  "  KEY=          Uppercase ASCII letters followed by '='",
  "  \"...\" '...'   Quoted phrase; backslash escapes the next character",
  "  word          Letters, digits, '_', '*', '-'",
  "",
  "  Reserved words only count as operators when they stand alone:",
  "    ORDER     word",
  "    and       word",
  "    AND       operator",
  "",
  "GROUPING",
  "  Parentheses are kept in the parsed tree and printed back as written:",
  "    (a OR b) AND c"]

def operatorsPage : String := page [
  "OPERATORS",
  "",
  "AND / OR",
  "  a AND b",
  "  a OR b",
  "",
  "  AND and OR have the SAME precedence and are applied left to right:",
  "    a OR b AND c      =>  (a OR b) AND c",
  "    a AND b OR c      =>  (a AND b) OR c",
  "",
  "  Use parentheses to group differently:",
  "    a OR (b AND c)",
  "",
  "NOT",
  "  NOT a",
  "  NOT (a OR b)",
  "",
  "  NOT applies to the nearest term or group only:",
  "    NOT a AND b       =>  (NOT a) AND b",
  "    NOT NOT a         =>  NOT (NOT a)"]

def termsPage : String := page [
  "TERMS",
  "",
  "BARE TERMS",
  "  kernel",
  "  log4*",
  "  x86_64-linux",
  "  \"out of memory\"",
  "  'single quotes'",
  "",
  "KEY/VALUE ASSERTIONS",
  "  STATUS=\"open\"",
  "  OWNER='me'",
  "",
  "  The key is uppercase ASCII letters followed by '='; the value must be quoted.",
  "",
  "ONE KIND PER QUERY",
  "  A query uses either bare terms or key/value assertions, never both.",
  "",
  "    kernel AND \"page fault\"           OK",
  "    STATUS=\"open\" OR STATUS=\"new\"     OK",
  "    kernel AND STATUS=\"open\"          validation error"]

def errorsPage : String := page [
  "ERRORS",
  "",
  "Every error reports its stage, a message and the offending position.",
  "",
  "LEXICAL",
  "  A character no token rule accepts, or a quote that is never closed.",
  "    a & b             Unexpected character '&' at position 2",
  "    \"open             Unterminated string",
  "",
  "SYNTAX",
  "  The token stream breaks the grammar. Parsing stops at the first problem.",
  "    a AND             Expected a term ... got end of input",
  "    ((a)              Expected ')' in group, got end of input",
  "    a b               Expected AND, OR or end of input",
  "",
  "VALIDATION",
  "  The query mixes bare terms and key/value assertions.",
  "    a AND KEY=\"v\"     Cannot mix bare terms and key=value pairs",
  "",
  "Highlighting is still produced for syntax and validation errors."]

def DocCategory.text : DocCategory → String
  | grammar => grammarPage
  | operators => operatorsPage
  | terms => termsPage
  | errors => errorsPage

end BoolQuery.Command
