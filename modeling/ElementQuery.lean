import ElementQuery.Main
import ElementQuery.Proofs.Command.Bindings
import ElementQuery.Proofs.Condition.Rules
import ElementQuery.Proofs.Expr.Inline
import ElementQuery.Proofs.Expr.Join
import ElementQuery.Proofs.Expr.Json
import ElementQuery.Proofs.Expr.Position
import ElementQuery.Proofs.Expr.RoundTrip
import ElementQuery.Proofs.Grammar.Receiver
import ElementQuery.Proofs.Literal.Convert
import ElementQuery.Proofs.Operand.Readings
import ElementQuery.Proofs.Parser.Calls
import ElementQuery.Proofs.Parser.Erase
import ElementQuery.Proofs.Parser.Levels
import ElementQuery.Proofs.Parser.Names
import ElementQuery.Proofs.Parser.Nesting
import ElementQuery.Proofs.Parser.Places
import ElementQuery.Proofs.Query.Attributes
import ElementQuery.Proofs.Query.Injective
import ElementQuery.Proofs.Query.Invariant
import ElementQuery.Proofs.Query.Order
import ElementQuery.Proofs.Token.Strings
import ElementQuery.Proofs.Walk.Strict
import ElementQuery.Proofs.Walk.Swapped
