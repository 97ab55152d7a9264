/-!
# Requests on the command line

A command line is a subcommand, then options and at most one plain argument in any
order. Options are written in full after two dashes or as letters after one; letters
may be joined. An option with a value takes it from what is joined to it, or else
from the next argument. Two dashes alone end the options, and one dash alone is a
plain argument.

A command line that does not fit is refused as a whole, so there is one answer for
all the ways of not fitting: no request.
-/

namespace BoolQuery.Command

/-- An option of some subcommand. -/
inductive Flag where
  | pretty
  | syntaxOnly
  | format
deriving DecidableEq, Repr

namespace Flag

def long : Flag → String
  | pretty => "pretty"
  | syntaxOnly => "syntax-only"
  | format => "format"

def short? : Flag → Option Char
  | pretty => some 'p'
  | syntaxOnly => none
  | format => some 'f'

def takesValue : Flag → Bool
  | format => true
  | pretty | syntaxOnly => false

end Flag

/-- What has been found on a command line: the options with their values, which
are empty for an option without one, and the plain arguments. -/
structure Found where
  flags : List (Flag × String)
  plain : List String
deriving DecidableEq, Repr

namespace Found

def nothing : Found := ⟨[], []⟩

/-- The value of an option, if it was given. -/
def value? (found : Found) (flag : Flag) : Option String :=
  (found.flags.find? fun given => given.1 = flag).map fun given => given.2

def has (found : Found) (flag : Flag) : Bool := (found.value? flag).isSome

/-- Adds an option, which must not be there already. -/
def addFlag (found : Found) (flag : Flag) (value : String) : Option Found :=
  if found.has flag then none else some { found with flags := (flag, value) :: found.flags }

def addPlain (found : Found) (arguments : List String) : Found :=
  { found with plain := found.plain ++ arguments }

/-- The one plain argument, if there is any; more than one are refused. -/
def atMostOnePlain (found : Found) : Option (Option String) :=
  match found.plain with
  | [] => some none
  | [argument] => some (some argument)
  | _ => none

end Found

/-- Reads joined letters. The result has the option that still waits for its value,
if the last letter is one that takes it. -/
def readLetters (accepted : List Flag) (found : Found) :
    List Char → Option (Found × Option Flag)
  | [] => some (found, none)
  | c :: cs => do
      let flag ← accepted.find? fun flag => flag.short? = some c
      if flag.takesValue then
        match cs with
        | [] => return (found, some flag)
        | '=' :: value => return (← found.addFlag flag (String.ofList value), none)
        | value => return (← found.addFlag flag (String.ofList value), none)
      else
        readLetters accepted (← found.addFlag flag "") cs

/-- Reads an option written in full, without its dashes. The result has the option
if it still waits for its value. -/
def readLong (accepted : List Flag) (found : Found) (option : List Char) :
    Option (Found × Option Flag) := do
  let name := String.ofList (option.takeWhile (· ≠ '='))
  let joined := option.dropWhile (· ≠ '=')
  let flag ← accepted.find? fun flag => flag.long = name
  match flag.takesValue, joined with
  | true, [] => return (found, some flag)
  | true, _ :: value => return (← found.addFlag flag (String.ofList value), none)
  | false, [] => return (← found.addFlag flag "", none)
  | false, _ :: _ => none

/-- Reads the arguments behind a subcommand. While an option waits for its value,
the next argument is that value, but an argument that looks like an option is not. -/
def readArguments (accepted : List Flag) :
    Option Flag → Found → List String → Option Found
  | none, found, [] => some found
  | some _, _, [] => none
  | some flag, found, argument :: rest => do
      if argument.toList.head? = some '-' ∧ argument ≠ "-" then none
      readArguments accepted none (← found.addFlag flag argument) rest
  | none, found, argument :: rest =>
      match argument.toList with
      | ['-', '-'] => some (found.addPlain rest)
      | '-' :: '-' :: option => do
          let (found, waiting) ← readLong accepted found option
          readArguments accepted waiting found rest
      | '-' :: c :: letters => do
          let (found, waiting) ← readLetters accepted found (c :: letters)
          readArguments accepted waiting found rest
      | _ => readArguments accepted none (found.addPlain [argument]) rest

/-- What the command line asks for. A query that is not given is to be read from
standard input. -/
inductive Request where
  | version
  | check (query : Option String) (pretty syntaxOnly : Bool)
  | highlight (query : Option String) (format : String) (pretty : Bool)
  | tokens (query : Option String) (pretty : Bool)
  | docs
  | doc (category : String)
deriving DecidableEq, Repr

namespace Request

/-- Whether an argument in the place of the subcommand asks for the version. -/
def asksVersion (argument : String) : Bool :=
  argument = "--version" || ['-', 'V'].isPrefixOf argument.toList

/-- The request of a command line, if it fits. -/
def ofArguments? : List String → Option Request
  | [] => none
  | "check" :: rest => do
      let found ← readArguments [.pretty, .syntaxOnly] none .nothing rest
      return check (← found.atMostOnePlain) (found.has .pretty) (found.has .syntaxOnly)
  | "highlight" :: rest => do
      let found ← readArguments [.pretty, .format] none .nothing rest
      return highlight (← found.atMostOnePlain) ((found.value? .format).getD "json")
        (found.has .pretty)
  | "tokens" :: rest => do
      let found ← readArguments [.pretty] none .nothing rest
      return tokens (← found.atMostOnePlain) (found.has .pretty)
  | "docs" :: rest => do
      let found ← readArguments [] none .nothing rest
      if found.plain.isEmpty then return docs else none
  | "doc" :: rest => do
      let found ← readArguments [] none .nothing rest
      return doc (← (← found.atMostOnePlain))
  | argument :: _ => if asksVersion argument then some version else none

end Request

end BoolQuery.Command
