import BoolQuery.Command.Run

/-!
# The program

Hands the arguments and standard input to `BoolQuery.Command.run`, and prints what
comes of it. Standard input is read only where the request needs it, and never if it
is a terminal.
-/

namespace BoolQuery.Command

/-- Whether a request works on a query from standard input. A name of a format that
is unknown is reported without waiting for a query. -/
def Request.needsInput : Request → Bool
  | check none _ _ | tokens none _ => true
  | highlight none formatName _ => (Format.ofName? formatName).isSome
  | _ => false

/-- All that a stream still holds. -/
def readAllBytes (stream : IO.FS.Stream) : IO ByteArray := do
  let mut bytes := ByteArray.empty
  repeat do
    let chunk ← stream.read 65536
    if chunk.isEmpty then break
    bytes := bytes ++ chunk
  return bytes

end BoolQuery.Command

/-- The `boolex` command. -/
def main (arguments : List String) : IO UInt32 := do
  let request? := BoolQuery.Command.Request.ofArguments? arguments
  let stream ← IO.getStdin
  let stdin : BoolQuery.Command.StandardInput ←
    if ← stream.isTty then
      pure .terminal
    else if request?.any fun request => request.needsInput then
      pure (.piped (← BoolQuery.Command.readAllBytes stream))
    else
      pure (.piped .empty)
  let outcome := BoolQuery.Command.run arguments stdin
  (← IO.getStdout).putStr outcome.stdout
  (← IO.getStderr).putStr outcome.stderr
  return UInt32.ofNat outcome.status
