/-
The command: it gathers the predicate, binds variables, and answers with the location path or the
query. All it does is a function of the options and of the text read from their source; the
answer holds what goes to standard output and standard error, and the exit code.
-/
import ElementQuery.Command.Describe
import ElementQuery.Command.Failure
import ElementQuery.Command.Options
import ElementQuery.Expr.XPath
import ElementQuery.Json.Writer
import ElementQuery.Query.Json

namespace ElementQuery.Command

/-- A logged part of the command. -/
abbrev Task (α : Type) := Logged Failure α

/-- An entry of the command itself. -/
def entry (level : Level) (message : String) : Entry := ⟨level, "wherepath", message⟩

/-- The source that the options name, if the predicate is not among the arguments. -/
def Options.source? (o : Options) : Option Source :=
  match o.json, o.predicate with
  | some "-", _ => some .stdin
  | some path, _ => some (.file path)
  | none, some _ => none
  | none, none => some .stdin

/-! ## Bindings -/

/-- The name and value of a binding `NAME=VALUE`. The name is what stands before the first equals
sign, without white space around it; the value is JSON, or else a text. -/
def readBinding (argument : String) : Except Failure (String × Json.Value) :=
  let cs := argument.toList
  match cs.dropWhile (· != '=') with
  | [] => .error (.bindingWithoutValue argument)
  | _ :: raw =>
    let name := Text.trim (cs.takeWhile (· != '='))
    if name.isEmpty then .error (.bindingWithoutName argument)
    else
      let raw := String.ofList raw
      .ok (String.ofList name, (Json.Value.ofText? raw).getD (.string raw))

/-- Binds the variables of the arguments, in order. -/
def bindAll : Bindings → List String → Task Bindings
  | b, [] => return b
  | b, argument :: arguments => do
    let (name, value) ← Logged.ofResult (readBinding argument)
    Logged.record (entry .debug ("binding " ++ name ++ " = " ++ value.compact))
    bindAll (b.bind name value) arguments

/-! ## The predicate -/

/-- The entries that parsing makes: one for a variable that is not bound. -/
def parseLog : Except Error Expr → List Entry
  | .error (.unbound (.operand name offset)) =>
    [⟨.debug, "wherepath_core::predicate::parser",
      "unbound identifier '" ++ name ++ "' at " ++ toString offset⟩]
  | _ => []

/-- Parses predicate text without the white space around it. -/
def parseSource (bindings : Bindings) (source : String) : Task Expr :=
  let result := (Parser.parseChars bindings (Text.trim source.toList)).result
  ⟨parseLog result, result.mapError .invalidPredicate⟩

/-- The predicate that the options ask for. `input` is the text read from their source, if they
name one. -/
def load (o : Options) (input : Except Failure String) : Task Expr :=
  match o.json with
  | some _ => do
    match Expr.ofText? (← Logged.ofResult input) with
    | some e => return e
    | none => Logged.fail .invalidJson
  | none => do
    let source ← match o.predicate with
      | some source => pure source
      | none => Logged.ofResult input
    parseSource (← bindAll .empty o.vars) source

/-! ## The answer -/

/-- Walks a predicate, with an entry for each conjunct visited. -/
def build (strict : Bool) (e : Expr) : Task Query :=
  let walk := e.walk strict .empty
  ⟨walk.visits.map Visit.entry, walk.built.mapError .rejected⟩

/-- The location path of a predicate, with an entry for it. -/
def locate (strict : Bool) (e : Expr) : Task String := do
  let xpath := (← build strict e).xpath
  Logged.record ⟨.debug, "wherepath_core::translate", "`" ++ e.display ++ "` => " ++ xpath⟩
  return xpath

/-- Does what the options ask for. -/
def run (o : Options) (input : Except Failure String) : Task String := do
  if o.json.isSome && !o.vars.isEmpty then
    Logged.record (entry .warn "--var has no effect with --json")
  let e ← load o input
  if o.model then return (← build o.strict e).toJson.pretty
  else locate o.strict e

/-- What the command leaves: its exit code and what it wrote. -/
structure Answer where
  exit : Nat
  stdout : String
  stderr : String
  deriving DecidableEq, Repr

/-- The entries that are shown: all of them if the command is verbose, else those from warnings
on. -/
def shown (o : Options) (log : List Entry) : List Entry :=
  log.filter fun e => o.verbose || e.level == .warn

/-- The answer to options, given the text read from their source. -/
def answer (o : Options) (input : Except Failure String) : Answer :=
  let outcome := run o input
  let lines := String.join ((shown o outcome.log).map Entry.line)
  match outcome.result with
  | .ok output => ⟨0, output ++ "\n", lines⟩
  | .error failure => ⟨1, "", lines ++ "error: " ++ failure.message ++ "\n"⟩

/-- The line that tells the version. -/
def versionLine : String := "wherepath 0.1.0\n"

/-- The text that tells how the command is used. -/
def usage : String :=
  "Turn element predicates into XPath location paths\n\n" ++
  "Usage: wherepath [OPTIONS] [PREDICATE]\n\n" ++
  "Arguments:\n" ++
  "  [PREDICATE]  Predicate text (read from stdin when omitted)\n\n" ++
  "Options:\n" ++
  "  -j, --json <FILE>       Read a JSON predicate tree from FILE (\"-\" for stdin)\n" ++
  "      --var <NAME=VALUE>  Bind a variable: NAME=VALUE (VALUE is JSON, or a plain string)\n" ++
  "      --strict            Fail on conditions that no rule recognises instead of skipping them\n" ++
  "      --model             Print the query model as JSON instead of the XPath\n" ++
  "  -v, --verbose           Show verbose output\n" ++
  "  -h, --help              Print help\n" ++
  "  -V, --version           Print version\n"

/-- The answer when reading the arguments ended without options. -/
def Stop.answer : Stop → Answer
  | misuse => ⟨2, "", "error: unexpected arguments\n\n" ++ usage⟩
  | help => ⟨0, usage, ""⟩
  | version => ⟨0, versionLine, ""⟩

/-- The text of bytes read from a source, or the failure to read them. -/
def decodeInput (source : Source) : Except ReadFailure ByteArray → Except Failure String
  | .error cause => .error (.unreadable source cause)
  | .ok bytes =>
    match String.fromUTF8? bytes with
    | some text => .ok text
    | none => .error (.unreadable source .notText)

end ElementQuery.Command
