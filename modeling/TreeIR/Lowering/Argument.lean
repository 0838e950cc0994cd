import TreeIR.Lowering.Env
import TreeIR.Target.Form
import TreeIR.Tree.Basic

/-!
# Passing arguments by name

A program names its arguments and lists them in any order; the target takes them in declared
order. `places` finds, for each declared name, where the program lists it: one scan enters the
listed names into a table, and each declared name is looked up there. No name may be listed twice,
every declared name must be listed, and listed names that are not declared are not passed.

The listed order is also the order of evaluation. Arguments are passed directly where nobody can
tell: if evaluating them has no effect, or if there is at most one and it is passed. Otherwise all
of them are first bound to references in listed order, inside a closure that is called at once.
-/

namespace TreeIR.Lowering

/-- Enters names with their places into a table, unless one is in it already. -/
def enterPlaces (table : Table Nat) (place : Nat) : List String → Except Cause (Table Nat)
  | [] => .ok table
  | name :: names =>
    match Table.get? name table with
    | some _ => .error (.paramTwice name)
    | none => enterPlaces (Table.insert name place table) (place + 1) names

/-- The place that a table has for a name, which it must have. -/
def placeOf (table : Table Nat) (name : String) : Except Cause Nat :=
  match Table.get? name table with
  | some place => .ok place
  | none => .error (.unboundParam name)

/-- The place of each declared name among the listed names, in declared order. -/
def places (declared listed : List String) : Except Cause (List Nat) := do
  let table ← enterPlaces [] 0 listed
  declared.mapM (placeOf table)

/-- Can the arguments be passed without binding them first? -/
def passDirectly (args : List Arg) (order : List Nat) : Bool :=
  (order.length == args.length && args.length ≤ 1) || args.all (·.value.isInert)

/-- Runs the lowerings of the arguments and binds each, from this place on. -/
def bindFrom (place : Nat) : List (Lower String) → Lower String
  | [] => pure ""
  | value :: values => do
    let text ← value
    return Target.binding place text ++ (← bindFrom (place + 1) values)

/-- Passes arguments, given by their lowerings, to a callee in the given order. -/
def pass (i : Indent) (direct : Bool) (order : List Nat) (values : List (Lower String))
    (callee : String → String) : Lower String :=
  if direct then do
    let passed ← order.mapM fun place => values.getD place (pure "")
    return Target.direct (callee (Target.commas passed))
  else do
    let bindings ← bindFrom 0 values
    return Target.bound i bindings (callee (Target.commas (order.map Target.reference)))

end TreeIR.Lowering
