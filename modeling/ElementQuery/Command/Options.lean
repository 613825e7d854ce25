/-
The arguments of the command line. Options may stand anywhere before `--`, with their value after
an equals sign or as the next argument, and short ones may be bundled; a value that is not attached
must not look like an option. A switch or a file may be given once, bindings any number of times,
and a file excludes a predicate. The first argument that cannot be taken ends the reading.
-/

namespace ElementQuery.Command

/-- What the command line asks for. -/
structure Options where
  predicate : Option String
  json : Option String
  vars : List String
  strict : Bool
  model : Bool
  verbose : Bool
  deriving DecidableEq, Repr

/-- Why reading the arguments ends without options. -/
inductive Stop where
  | misuse
  | help
  | version
  deriving DecidableEq, Repr

/-- An option without a value. -/
inductive Switch where
  | strict
  | model
  | verbose
  | help
  | version
  deriving DecidableEq, Repr

/-- An option with a value. -/
inductive Setting where
  | json
  | var
  deriving DecidableEq, Repr

/-- An option. -/
inductive Flag where
  | switch (s : Switch)
  | setting (s : Setting)
  deriving DecidableEq, Repr

/-- The option with a long name. -/
def Flag.ofName? : String → Option Flag
  | "json" => some (.setting .json)
  | "var" => some (.setting .var)
  | "strict" => some (.switch .strict)
  | "model" => some (.switch .model)
  | "verbose" => some (.switch .verbose)
  | "help" => some (.switch .help)
  | "version" => some (.switch .version)
  | _ => none

/-- The option with a short name. -/
def Flag.ofLetter? : Char → Option Flag
  | 'j' => some (.setting .json)
  | 'v' => some (.switch .verbose)
  | 'h' => some (.switch .help)
  | 'V' => some (.switch .version)
  | _ => none

namespace Options

/-- No options given. -/
def initial : Options := ⟨none, none, [], false, false, false⟩

/-- Takes an option without a value, which must not be on yet. -/
def turnOn (o : Options) : Switch → Except Stop Options
  | .strict => if o.strict then .error .misuse else .ok { o with strict := true }
  | .model => if o.model then .error .misuse else .ok { o with model := true }
  | .verbose => if o.verbose then .error .misuse else .ok { o with verbose := true }
  | .help => .error .help
  | .version => .error .version

/-- Takes the value of an option. -/
def fill (o : Options) (value : String) : Setting → Except Stop Options
  | .json => if o.json.isSome then .error .misuse else .ok { o with json := some value }
  | .var => .ok { o with vars := o.vars ++ [value] }

/-- Takes an argument that is no option. -/
def positional (o : Options) (value : String) : Except Stop Options :=
  if o.predicate.isSome then .error .misuse else .ok { o with predicate := some value }

end Options

/-- The options taken so far, the option that waits for its value, and whether `--` was met. -/
structure Reading where
  options : Options
  awaiting : Option Setting
  ended : Bool

namespace Reading

/-- Takes an option, with the value attached to it if there is one. -/
def take (r : Reading) (value : Option String) : Flag → Except Stop Reading
  | .switch s =>
    match value with
    | some _ => .error .misuse
    | none => do return { r with options := ← r.options.turnOn s }
  | .setting s =>
    match value with
    | some value => do return { r with options := ← r.options.fill value s }
    | none => .ok { r with awaiting := some s }

/-- Takes an argument after `--name`, which may have a value after an equals sign. -/
def long (r : Reading) (cs : List Char) : Except Stop Reading :=
  match Flag.ofName? (String.ofList (cs.takeWhile (· != '='))) with
  | none => .error .misuse
  | some flag =>
    r.take ((cs.dropWhile (· != '=')).tail?.map String.ofList) flag

/-- Takes bundled letters; what follows a letter that takes a value is the value. -/
def letters (r : Reading) : List Char → Except Stop Reading
  | [] => .ok r
  | c :: cs =>
    match Flag.ofLetter? c with
    | none => .error .misuse
    | some (.switch s) => do letters (← r.take none (.switch s)) cs
    | some (.setting s) =>
      match cs with
      | [] => r.take none (.setting s)
      | '=' :: cs => r.take (some (String.ofList cs)) (.setting s)
      | cs => r.take (some (String.ofList cs)) (.setting s)

/-- Takes the next argument. -/
def next (r : Reading) (arg : String) : Except Stop Reading :=
  if r.ended then do return { r with options := ← r.options.positional arg }
  else match arg.toList, r.awaiting with
    | ['-', '-'], _ => .ok { r with ended := true }
    | '-' :: _ :: _, some _ => .error .misuse
    | '-' :: '-' :: cs, none => r.long cs
    | '-' :: c :: cs, none => r.letters (c :: cs)
    | _, some s => do return { r with options := ← r.options.fill arg s, awaiting := none }
    | _, none => do return { r with options := ← r.options.positional arg }

/-- The options of a reading in which nothing is missing and nothing conflicts. -/
def finish (r : Reading) : Except Stop Options :=
  if r.awaiting.isSome || (r.options.json.isSome && r.options.predicate.isSome) then .error .misuse
  else .ok r.options

end Reading

/-- The options that arguments give. -/
def Options.ofArguments (args : List String) : Except Stop Options := do
  (← args.foldlM Reading.next ⟨initial, none, false⟩).finish

end ElementQuery.Command
