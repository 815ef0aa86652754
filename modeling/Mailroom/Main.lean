import Mailroom.Command.Image

/-!
# Command line

The first argument names the command, `label-mail` or `label-message`; the others are its own.
The standard input holds the situation, in lines.  What the command shows goes to the standard
output, and the disk as it is afterwards, in lines, to the standard error.
-/

namespace Mailroom

/-- All lines of a stream. -/
partial def readLines (stream : IO.FS.Stream) (before : Array Text) : IO (Array Text) := do
  let line ← stream.getLine
  if line.isEmpty then return before
  readLines stream (before.push (Text.dropEndWhile (· == '\n') line.toList))

/-- A boundary at random. -/
def randomBoundary : IO Text := do
  let n ← IO.rand 0 (Nat.pow 2 178)
  return Boundary.numeral Boundary.width n

/-- Prints a text. -/
def printText (stream : IO.FS.Stream) (t : Text) : IO Unit := stream.putStr (String.ofList t)

/-- What stopped a command. -/
def Outcome.complaint? (o : Outcome) : Option Text :=
  match o.result with
  | .ok _ => none
  | .error (.inl f) => some f.message
  | .error (.inr e) => some e.message

/-- Runs a program on the situation in the standard input. -/
def serve (p : Program) (arguments : List String) : IO UInt32 := do
  let stdout ← IO.getStdout
  let stderr ← IO.getStderr
  let lines ← readLines (← IO.getStdin) #[]
  match Image.parse [← randomBoundary] lines.toList with
  | none =>
    printText stderr "error: the input is no situation\n"
    return 1
  | some s =>
    let o := runCommand p (arguments.map String.toList) s
    printText stdout o.output
    if let some t := o.complaint? then printText stderr ("error: " ++ t ++ "\n")
    for l in Image.lines o.disk do
      printText stderr (l ++ "\n")
    return UInt32.ofNat o.code

end Mailroom

/-- Runs the command that the first argument names. -/
def main (arguments : List String) : IO UInt32 := do
  match arguments with
  | "label-mail" :: rest => Mailroom.serve .labelMail rest
  | "label-message" :: rest => Mailroom.serve .labelMessage rest
  | _ =>
    IO.eprintln "usage: label-mail [OPTIONS] | label-message FOLDER FILENAME [OPTIONS]"
    return 2
