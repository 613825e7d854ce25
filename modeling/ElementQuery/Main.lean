/-
The command-line program: reads the arguments and the source they name, writes the answer.
-/
import ElementQuery.Command.Run

namespace ElementQuery.Command

/-- The system's wording for the number of an error. -/
def errorWording : Nat → Option String
  | 2 => some "No such file or directory"
  | 5 => some "Input/output error"
  | 13 => some "Permission denied"
  | 20 => some "Not a directory"
  | 21 => some "Is a directory"
  | 36 => some "File name too long"
  | 40 => some "Too many levels of symbolic links"
  | _ => none

/-- The failure behind the code of a system call, which may be the number of an error negated. -/
def failureOfCode (code : UInt32) (details : String) : ReadFailure :=
  let number := (if code < 0x80000000 then code else 0 - code).toNat
  .system ((errorWording number).getD details) number

/-- The failure behind an error of the operating system. -/
def readFailure (e : IO.Error) : ReadFailure :=
  match e with
  | .noFileOrDirectory _ code details | .inappropriateType _ code details
  | .permissionDenied _ code details | .invalidArgument _ code details
  | .hardwareFault code details => failureOfCode code details
  | e => .system (toString e) 0

/-- Reads a source; a terminal is not read. -/
def readSource (source : Source) (named : Bool) : IO (Except Failure String) := do
  let stdin ← IO.getStdin
  if !named && (← stdin.isTty) then return .error .noPredicate
  try
    let bytes ← match source with
      | .stdin => stdin.readBinToEnd
      | .file path => IO.FS.readBinFile path
    return decodeInput source (.ok bytes)
  catch e => return decodeInput source (.error (readFailure e))

/-- Answers the arguments. -/
def answerArguments (args : List String) : IO Answer := do
  match Options.ofArguments args with
  | .error stop => return stop.answer
  | .ok o =>
    match o.source? with
    | some source => return answer o (← readSource source o.json.isSome)
    | none => return answer o (.ok "")

end ElementQuery.Command

/-- Answers the arguments on standard output and standard error. -/
def main (args : List String) : IO UInt32 := do
  let answer ← ElementQuery.Command.answerArguments args
  IO.print answer.stdout
  IO.eprint answer.stderr
  return UInt32.ofNat answer.exit
