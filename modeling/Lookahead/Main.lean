import Lookahead.Command.Program

/-!
# The command line program

Reads files and lines, prints what the library answers.
-/

set_option autoImplicit false

namespace Lookahead

def fileMessage : IO.Error → String
  | .noFileOrDirectory .. => "No such file or directory (os error 2)"
  | .permissionDenied .. => "Permission denied (os error 13)"
  | .inappropriateType .. => "Is a directory (os error 21)"
  | error => toString error

def readBytes (path : String) : IO (Except String (List UInt8)) := do
  match ← (IO.FS.readBinFile path).toBaseIO with
  | .error error => pure (.error (fileMessage error))
  | .ok bytes => pure (.ok bytes.toList)

/-- The bytes of the next line with its end, empty at the end of the input. They are held last
first. -/
partial def nextLine (input : IO.FS.Stream) (held : List UInt8) : IO (List UInt8) := do
  match (← input.read 1).toList with
  | [] => pure held.reverse
  | byte :: _ =>
      if byte = 10 then pure (byte :: held).reverse else nextLine input (byte :: held)

partial def converseLines (session : Command.Session) (input : IO.FS.Stream) : IO Unit := do
  let line ← nextLine input []
  unless line.isEmpty do
    match Command.converseLine session line with
    | .error errors => IO.eprint errors
    | .ok (next, answer) =>
        IO.print answer
        converseLines next input

def printAnswer (answer : Command.Answer) : IO UInt32 := do
  IO.print answer.output
  IO.eprint answer.errors
  pure answer.code.toUInt32

end Lookahead

def main (arguments : List String) : IO UInt32 := do
  match Lookahead.Command.Plan.ofArguments arguments with
  | .finish answer => Lookahead.printAnswer answer
  | .check path start =>
      Lookahead.printAnswer
        (Lookahead.Command.answerCheck path start (← Lookahead.readBytes path))
  | .converse shown session =>
      IO.print shown
      Lookahead.converseLines session (← IO.getStdin)
      pure 0
