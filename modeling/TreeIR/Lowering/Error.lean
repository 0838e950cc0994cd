/-!
# Why a tree cannot be lowered

A cause is a name that the descriptor and the scopes do not account for, or a return that the
lowering of loops leaves no way to express. The error carries the diagnostic text of the node that
failed, which is all a message shows of it.
-/

namespace TreeIR.Lowering

/-- What a program asks for that cannot be had. -/
inductive Cause where
  | undeclaredType (name : String)
  | undeclaredFunction (name : String)
  | unboundTypeParam (name : String)
  | unboundParam (name : String)
  | typeParamTwice (name : String)
  | paramTwice (name : String)
  | returnInLoop
  deriving DecidableEq, Repr

/-- Why a program has no text, and the node where that shows. -/
structure Error where
  cause : Cause
  /-- The diagnostic text of the node. -/
  node : String
  deriving DecidableEq, Repr

/-- What is reported of an error. -/
def Error.message (e : Error) : String :=
  match e.cause with
  | .undeclaredType name => "Unknown type: " ++ name ++ " in " ++ e.node
  | .undeclaredFunction name => "Unknown function: " ++ name ++ " in " ++ e.node
  | .unboundTypeParam name => "Typevar " ++ name ++ " is not specified in " ++ e.node
  | .unboundParam name => "Argument " ++ name ++ " is not specified in " ++ e.node
  | .typeParamTwice name => "Typevar " ++ name ++ " is specified more than once in " ++ e.node
  | .paramTwice name => "Argument " ++ name ++ " is specified more than once in " ++ e.node
  | .returnInLoop =>
    "Return inside a loop body is not supported by the callback loop lowering: " ++ e.node

end TreeIR.Lowering
