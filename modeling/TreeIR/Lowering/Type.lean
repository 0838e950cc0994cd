import TreeIR.Lowering.Env
import TreeIR.Target.Form
import TreeIR.Tree.Render

/-!
# Lowering types

A named type is its name. A type with parameters needs a declaration, which fixes the order of
the parameters; each must be bound once. Arguments for parameters that are not declared are passed
over. Nothing a program defines has an effect on types, so the descriptor is all that is needed.
-/

namespace TreeIR

open Lowering (Error Cause)

mutual

/-- The text of a type, with its arguments in declared order. -/
def Ty.lower (d : Descriptor) : Ty → Except Error String
  | .named name => .ok name
  | .generic name args =>
    let fail (cause : Cause) : Except Error String :=
      .error ⟨cause, (Ty.generic name args).render⟩
    match d.typeParamsOf name with
    | none => fail (.undeclaredType name)
    | some declared =>
      match firstRepeat (args.map TypeArg.name) with
      | some twice => fail (.typeParamTwice twice)
      | none => do
        let bound := TypeArg.lowerAll d args
        let params ← declared.mapM fun param =>
          (Table.get? param bound).getD (fail (.unboundTypeParam param))
        return name ++ "<" ++ Target.commas params ++ ">"

/-- The text of each type argument, or its error, by name. -/
def TypeArg.lowerAll (d : Descriptor) : List TypeArg → Table (Except Error String)
  | [] => []
  | ⟨name, ty⟩ :: as => (name, ty.lower d) :: TypeArg.lowerAll d as

end

/-- A parameter is taken by reference. -/
def Param.lower (d : Descriptor) (p : Param) : Except Error String := do
  return (← p.ty.lower d) ++ " &" ++ p.name

/-- The parameters and the result of a function, in this order. -/
def lowerSignature (d : Descriptor) (params : List Param) (result : Ty) :
    Except Error (List String × String) := do
  let params ← params.mapM (Param.lower d)
  return (params, ← result.lower d)

end TreeIR
