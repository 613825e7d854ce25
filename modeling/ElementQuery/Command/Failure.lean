/-
What can go wrong on the command line, as causes, and their wording.
-/
import ElementQuery.Error

namespace ElementQuery.Command

/-- Where a predicate is read from. -/
inductive Source where
  | stdin
  | file (path : String)
  deriving DecidableEq, Repr

/-- A source as it is shown. -/
def Source.display : Source → String
  | stdin => "stdin"
  | file path => path

/-- Why a source cannot be read. -/
inductive ReadFailure where
  | notText
  | system (description : String) (code : Nat)
  deriving DecidableEq, Repr

/-- The wording of a read failure. -/
def ReadFailure.message : ReadFailure → String
  | notText => "stream did not contain valid UTF-8"
  | system description code => description ++ " (os error " ++ toString code ++ ")"

/-- Why the command fails. -/
inductive Failure where
  | noPredicate
  | unreadable (source : Source) (cause : ReadFailure)
  | bindingWithoutValue (argument : String)
  | bindingWithoutName (argument : String)
  | invalidPredicate (cause : Error)
  | invalidJson
  | rejected (cause : Error)
  deriving DecidableEq, Repr

/-- The wording of a failure. -/
def Failure.message : Failure → String
  | noPredicate => "no predicate given (pass it as an argument or on stdin)"
  | unreadable source cause => "failed to read " ++ source.display ++ ": " ++ cause.message
  | bindingWithoutValue argument => "invalid --var '" ++ argument ++ "', expected NAME=VALUE"
  | bindingWithoutName argument => "invalid --var '" ++ argument ++ "', empty name"
  | invalidPredicate cause => "invalid predicate: " ++ cause.message
  | invalidJson => "invalid predicate JSON: not the JSON form of a predicate"
  | rejected cause => cause.message

end ElementQuery.Command
