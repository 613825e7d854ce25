/-
Log lines as values. A logged computation yields its entries, in order, beside its result; an
error keeps the entries made before it. Entries are shown from a level on, each on a line with its
level and source; further lines of a message are indented, and control sequences are left out.
-/
import ElementQuery.Text.ControlSequence

namespace ElementQuery

/-- How important a log entry is. -/
inductive Level where
  | debug
  | warn
  deriving DecidableEq, Repr

/-- The name of a level, padded to five characters. -/
def Level.word : Level → String
  | debug => "DEBUG"
  | warn => "WARN "

/-- A log entry: its level, the part of the program it comes from, and what it says. -/
structure Entry where
  level : Level
  source : String
  message : String
  deriving DecidableEq, Repr

/-- A message whose further lines are indented by four spaces. -/
def indentLines (message : String) : String :=
  String.join (message.toList.map fun c => if c = '\n' then "\n    " else c.toString)

/-- The line of a log entry. A control sequence that the message leaves open takes the end of the
line with it. -/
def Entry.line (e : Entry) : String :=
  Text.stripControls
    ("[" ++ e.level.word ++ " " ++ e.source ++ "] " ++ indentLines e.message ++ "\n")

/-- The entries of a computation and its result. -/
structure Logged (ε α : Type) where
  log : List Entry
  result : Except ε α

namespace Logged

variable {ε α : Type}

instance : Monad (Logged ε) where
  pure a := ⟨[], .ok a⟩
  bind x f :=
    match x with
    | ⟨log, .ok a⟩ => let y := f a; ⟨log ++ y.log, y.result⟩
    | ⟨log, .error e⟩ => ⟨log, .error e⟩

/-- Makes an entry. -/
def record (e : Entry) : Logged ε Unit := ⟨[e], .ok ()⟩

/-- Fails with an error. -/
def fail (e : ε) : Logged ε α := ⟨[], .error e⟩

/-- A result without entries. -/
def ofResult (r : Except ε α) : Logged ε α := ⟨[], r⟩

@[simp] theorem result_pure (a : α) : (pure a : Logged ε α).result = .ok a := rfl

@[simp] theorem result_ofResult (r : Except ε α) : (ofResult r).result = r := rfl

@[simp] theorem result_record (e : Entry) : (record e : Logged ε Unit).result = .ok () := rfl

theorem result_bind {β : Type} (x : Logged ε α) (f : α → Logged ε β) :
    (x >>= f).result = x.result.bind fun a => (f a).result := by
  rcases x with ⟨log, e | a⟩ <;> rfl

end Logged

end ElementQuery
