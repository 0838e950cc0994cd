import TreeIR.Descriptor.Basic
import TreeIR.Lowering.Error

/-!
# The surroundings of a place in a program

While a tree is lowered, the functions that the program has defined so far are kept in a stack of
scopes, innermost first, and shadow those of the descriptor. A counter says how many loop bodies
are open around the current place, counted from the innermost function.

A lowering is a state over surroundings that may stop with an error. The state outlives the error,
so that `withScope`, `inLoop` and `inFunction` undo what they did whether their body succeeds or
not.
-/

namespace TreeIR.Lowering

/-- What the lowering knows where it stands. -/
structure Env where
  descriptor : Descriptor
  /-- The parameters of the functions of the program, innermost scope first. -/
  scopes : List NameTable
  openLoops : Nat

namespace Env

/-- Where a program begins: one scope, with nothing in it. -/
def start (d : Descriptor) : Env := ⟨d, [[]], 0⟩

/-- Opens a scope with nothing in it. -/
def openScope (env : Env) : Env :=
  { env with scopes := [] :: env.scopes }

/-- Leaves the innermost scope; the outermost one stays. -/
def closeScope (env : Env) : Env :=
  match env.scopes with
  | _ :: outer :: rest => { env with scopes := outer :: rest }
  | _ => env

/-- Enters a function of the program into the innermost scope. -/
def define (name : String) (params : List String) (env : Env) : Env :=
  match env.scopes with
  | scope :: rest => { env with scopes := Table.insert name params scope :: rest }
  | [] => env

/-- The parameters of a function: those of its innermost definition, else those declared. -/
def paramsOf (name : String) (env : Env) : Option (List String) :=
  (env.scopes.findSome? (Table.get? name)).or (env.descriptor.funcParamsOf name)

/-- Is there a loop to leave? -/
def insideLoop (env : Env) : Bool :=
  0 < env.openLoops

def openLoop (env : Env) : Env :=
  { env with openLoops := env.openLoops + 1 }

def closeLoop (env : Env) : Env :=
  { env with openLoops := env.openLoops - 1 }

/-- Opens a function, which is in no loop of its own; the count is handed back at its end. -/
def openFunction (env : Env) : Nat × Env :=
  (env.openLoops, { env with openLoops := 0 })

/-- Leaves a function, for the loops that were open around it. -/
def closeFunction (openLoops : Nat) (env : Env) : Env :=
  { env with openLoops := openLoops }

end Env

end Lowering

/-- A lowering: a result or an error, and the surroundings after it. -/
abbrev Lower (α : Type) := ExceptT Lowering.Error (StateM Lowering.Env) α

namespace Lower

open Lowering (Env Cause Error)

variable {α : Type}

/-- Ends with an error about a node. -/
def fail (node : String) (cause : Cause) : Lower α :=
  throw ⟨cause, node⟩

/-- The result of a step that does not touch the surroundings. -/
def ofExcept : Except Error α → Lower α
  | .ok a => pure a
  | .error e => throw e

/-- The descriptor, which is the same everywhere. -/
def descriptor : Lower Descriptor := do
  return (← get).descriptor

/-- Runs a body between two changes of the surroundings; the second one is never left out. -/
def between (enter leave : Env → Env) (body : Lower α) : Lower α :=
  fun env =>
    let (result, env') := body (enter env)
    (result, leave env')

/-- Runs a body in a scope of its own. -/
def withScope (body : Lower α) : Lower α :=
  between Env.openScope Env.closeScope body

/-- Runs a body as the body of a loop. -/
def inLoop (body : Lower α) : Lower α :=
  between Env.openLoop Env.closeLoop body

/-- Runs a body as the body of a function. -/
def inFunction (body : Lower α) : Lower α :=
  fun env =>
    let (openLoops, inner) := env.openFunction
    let (result, env') := body inner
    (result, env'.closeFunction openLoops)

end Lower

end TreeIR
