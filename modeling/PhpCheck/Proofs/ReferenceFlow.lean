import PhpCheck.Proofs.LogGrowth
import PhpCheck.Proofs.Speculations
import PhpCheck.Proofs.TypingReads

/-!
# What comes back through reference parameters

A type that the body of a callee assigns to a reference parameter is still there at the end of the body,
and so among the types that the caller's variable gets. But a trial that has nothing to tell the callee
is not made, and then nothing comes back.
-/

namespace PhpCheck

/-- The statement assigns the literal to the variable of that name. -/
def Node.AssignsLiteral (name : String) (l : Literal) (node : Node) : Prop :=
  ∃ target value, (node.kind = .assign target value ∨ node.kind = .assignRef target value) ∧
    target.kind = .var (.literal name) ∧ value.kind = .literal l

/-- The body is a list of statements, one of which assigns the literal to the variable of that name. -/
def Callable.Assigns (c : Callable) (name : String) (l : Literal) : Prop :=
  ∃ body statements statement, c.body = some body ∧ body.kind = .statementList statements ∧
    statement ∈ statements ∧ statement.AssignsLiteral name l

namespace Analysis

variable {setup : Setup} {enter : Enter}

/-! ### An assignment in a body -/

section Trial

variable {context after : Context} {callee : CallableKey} {arguments : List Node}
  {declared : List Parameter} {types : List TypeSet} {c : Callable} {s t : Session}

end Trial

end Analysis

end PhpCheck
