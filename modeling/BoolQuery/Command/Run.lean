import BoolQuery.Command.Docs
import BoolQuery.Command.Failure
import BoolQuery.Command.Request
import BoolQuery.Document
import BoolQuery.Markup

/-!
# Running commands

Each command is a function from a query to what it prints or the failure it ends
with. A request has an `Outcome`: the two texts that the program prints and its
status. `run` is the whole program as a function, from the arguments and what there
is on standard input.

A query that is not given is read from standard input, unless that is a terminal;
nobody is asked for one. A query from standard input loses the line break that a
shell puts behind it: one line feed, and then one carriage return. Blanks mean
nothing at the end of a query, so this changes no answer but the place of the end.
-/

namespace BoolQuery.Command

/-- What a check that went well reports. -/
inductive CheckReport where
  | valid
  | tree (document : Json)

def check (query : String) (syntaxOnly : Bool) : Except Failure CheckReport :=
  match (analyze query).result with
  | .ok expr => .ok (if syntaxOnly then .valid else .tree expr.toJson)
  | .error error => .error (.unreadable query error)

/-- The form in which highlights are printed. -/
inductive Format where
  | json
  | html
deriving DecidableEq, Repr

def Format.name : Format → String
  | json => "json"
  | html => "html"

/-- The format that a name asks for, in upper or lower case. -/
def Format.ofName? (name : String) : Option Format :=
  match Text.lower name with
  | "json" => some json
  | "html" => some html
  | _ => none

/-- A document on one line or over many. -/
def write (pretty : Bool) (document : Json) : String :=
  if pretty then document.prettyText else document.text

/-- The highlights of a query, which may be any text. -/
def highlight (query : String) (format : Format) (pretty : Bool) : String :=
  let highlights := Highlight.ofQuery query
  match format with
  | .html => Markup.render highlights
  | .json => write pretty (Highlight.listToJson highlights)

def tokens (query : String) : Except Failure Json :=
  match TokenStream.ofQuery query with
  | .ok stream => .ok stream.toJson
  | .error error => .error (.unreadable query (.lexical error))

/-- The page of the category that a name asks for. -/
def doc (name : String) : Except Failure String :=
  match DocCategory.ofName? name with
  | some category => .ok category.text
  | none => .error (.unknownCategory name)

/-- The format that a name asks for, or the failure that there is none. -/
def format (name : String) : Except Failure Format :=
  match Format.ofName? name with
  | some format => .ok format
  | none => .error (.unknownFormat name)

/-- A text without its last character, if that is the given one. -/
def dropLast (c : Char) (text : List Char) : List Char :=
  if text.getLast? = some c then text.dropLast else text

/-- The query in what standard input holds. -/
def trimInput (text : String) : String :=
  String.ofList (dropLast '\r' (dropLast '\n' text.toList))

/-- What standard input is: a terminal, or bytes from a pipe or a file. -/
inductive StandardInput where
  | terminal
  | piped (bytes : ByteArray)

instance : Coe ByteArray StandardInput := ⟨.piped⟩

/-- The query to work on: the given one, or else that on standard input. -/
def readQuery (stdin : StandardInput) : Option String → Except Failure String
  | some query => .ok query
  | none =>
      match stdin with
      | .terminal => .error .noInput
      | .piped bytes =>
          match String.fromUTF8? bytes with
          | some text => .ok (trimInput text)
          | none => .error (.io "stream did not contain valid UTF-8")

def line (text : String) : String := text ++ "\n"

/-- What the program prints for a request. -/
def Request.output (stdin : StandardInput) : Request → Except Failure String
  | .version => .ok "boolex 0.1.0\n"
  | .check query pretty syntaxOnly => do
      match ← Command.check (← readQuery stdin query) syntaxOnly with
      | .valid => return line "Query is valid"
      | .tree document => return line (write pretty document)
  | .highlight query formatName pretty => do
      let format ← Command.format formatName
      return line (Command.highlight (← readQuery stdin query) format pretty)
  | .tokens query pretty => do
      return line (write pretty (← Command.tokens (← readQuery stdin query)))
  | .docs => .ok overview
  | .doc category => Command.doc category

structure Outcome where
  status : Nat
  stdout : String
  stderr : String
deriving DecidableEq, Repr

/-- How the program ends with a request. -/
def Request.outcome (stdin : StandardInput) (request : Request) : Outcome :=
  match request.output stdin with
  | .ok text => ⟨0, text, ""⟩
  | .error failure => ⟨1, "", line failure.message⟩

/-- The program: its arguments and standard input to how it ends. -/
def run (arguments : List String) (stdin : StandardInput) : Outcome :=
  match Request.ofArguments? arguments with
  | none => ⟨2, "", line "Usage: boolex <COMMAND>"⟩
  | some request => request.outcome stdin

end BoolQuery.Command
