import TreeIR.Lowering.Argument
import TreeIR.Target.Literal
import TreeIR.Lowering.Type

/-!
# Lowering trees

Expressions become C++ expressions and statements become lines of C++, each part in the order in
which it stands in the tree, so that the first error in that order is the one reported. Each body
has a scope of its own: the functions it defines end with it, as in the target.

Loop bodies are callbacks. A return of the program has no form inside one, and is refused before
its value is looked at.
-/

namespace TreeIR

open Lowering (places passDirectly pass)

namespace Lower

def ty (t : Ty) : Lower String := do
  ofExcept (t.lower (← descriptor))

/-- Lowers the parameters of a function and its result. -/
def signature (params : List Param) (result : Ty) : Lower (List String × String) := do
  ofExcept (lowerSignature (← descriptor) params result)

/-- The order in which a callee takes the listed arguments. -/
def argumentOrder (node : String) (declared : List String) (args : List Arg) :
    Lower (List Nat) :=
  match places declared (args.map Arg.name) with
  | .ok order => pure order
  | .error cause => fail node cause

/-- A function body has a scope of its own and is in no loop. -/
def functionBody (body : Lower String) : Lower String :=
  inFunction (withScope body)

/-- A loop body has a scope of its own. -/
def loopBody (body : Lower String) : Lower String :=
  inLoop (withScope body)

end Lower

mutual

def Expr.lower (i : Indent) : Expr → Lower String
  | .num text isFloat => pure (Target.numLiteral text isFloat)
  | .str value => pure (Target.stringLiteral value)
  | .ident name => pure name
  | .func params result body => do
    let (params, result) ← Lower.signature params result
    let body ← Lower.functionBody (body.lower i)
    return i.block (Target.closure params result) body
  | .create ty args => do
    match (← Lower.descriptor).initParamsOf ty.name with
    | none => Lower.fail (Expr.create ty args).render (.undeclaredType ty.name)
    | some declared =>
      let order ← Lower.argumentOrder (Expr.create ty args).render declared args
      let head ← Lower.ty ty
      pass i (passDirectly args order) order (Arg.lowerAll i args) (Target.initialise head)
  | .call callee args => do
    match (← get).paramsOf callee with
    | none => Lower.fail (Expr.call callee args).render (.undeclaredFunction callee)
    | some declared =>
      let order ← Lower.argumentOrder (Expr.call callee args).render declared args
      pass i (passDirectly args order) order (Arg.lowerAll i args) (Target.apply callee)

/-- The lowerings of the arguments, none of which has been run. -/
def Arg.lowerAll (i : Indent) : List Arg → List (Lower String)
  | [] => []
  | ⟨_, value⟩ :: as => value.lower i :: Arg.lowerAll i as

/-- Lowers a statement. A function that it defines is known from here on, and in its own body. -/
def Stmt.lower (i : Indent) : Stmt → Lower String
  | .assign target true (.func params result body) => do
    let names := params.map Param.name
    modify (·.define target names)
    let (params, result) ← Lower.signature params result
    let body ← Lower.functionBody (body.lower i)
    return Target.define i target names params result body
  | .assign target true value => do return Target.declare target (← value.lower i)
  | .assign target false value => do return Target.update target (← value.lower i)
  | .eval value => do return Target.eval (← value.lower i)
  | .forEach item source body => do
    let source ← source.lower i
    return Target.forEach i item source (← Lower.loopBody (body.lower i))
  | .whileDo cond body => do
    let cond ← cond.lower i
    return Target.whileDo i cond (← Lower.loopBody (body.lower i))
  | .branch cases none => do return Target.branchHead ++ (← Case.lowerAll i cases)
  | .branch cases (some body) => do
    let cases ← Case.lowerAll i cases
    let body ← Lower.withScope (body.lower i)
    return Target.branchHead ++ cases ++ Target.fallback i body
  | .ret none => do
    if (← get).insideLoop then Lower.fail "return" .returnInLoop
    else return Target.retNothing
  | .ret (some value) => do
    if (← get).insideLoop then Lower.fail ("return(" ++ value.render ++ ")") .returnInLoop
    else return Target.ret (← value.lower i)
  | .brk => do return Target.brk (← get).insideLoop
  | .cont => do return Target.cont (← get).insideLoop
  | .suite body => Lower.withScope (Stmt.lowerAll i body)

/-- Lowers cases one after the other, each body in a scope of its own. -/
def Case.lowerAll (i : Indent) : List Case → Lower String
  | [] => pure ""
  | ⟨cond, body⟩ :: cs => do
    let cond ← cond.lower i
    let body ← Lower.withScope (body.lower i)
    return Target.case i cond body ++ (← Case.lowerAll i cs)

/-- Lowers statements one after the other, each with the functions that those before it define. -/
def Stmt.lowerAll (i : Indent) : List Stmt → Lower String
  | [] => pure ""
  | s :: ss => do
    let text ← s.lower i
    return text ++ (← Stmt.lowerAll i ss)

end

def Node.lower (i : Indent) : Node → Lower String
  | .ty t => Lower.ty t
  | .typeArg a => Lower.ty a.ty
  | .param p => do Lower.ofExcept (p.lower (← Lower.descriptor))
  | .expr e => e.lower i
  | .arg a => a.value.lower i
  | .stmt s => s.lower i
  | .case c => Case.lowerAll i [c]
  | .fallback body => do return Target.fallback i (← Lower.withScope (body.lower i))

end TreeIR
