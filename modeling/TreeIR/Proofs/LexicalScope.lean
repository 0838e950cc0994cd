import TreeIR.Lowering.Program

/-!
# Scopes are lexical

A lowering threads its surroundings through the tree: scopes are opened and
closed, functions are entered into the innermost one, loops are counted. What
a place in a program can see of all that is little: the parameters of each
function by name, and whether the place is in a loop of its own function. Both
are fixed by where the place stands, so the whole machinery ought to be an
implementation of plain lexical scope.

This file says so. `View` is what a place sees, `lowerIn` lowers a tree against
a view and changes nothing, and `lower_eq_lowerIn` identifies the two
lowerings, texts and errors alike.

The induction has to say what is left of the surroundings as well, and it has
to say it for failing runs too, because an enclosing scope is closed after a
failure just as after a success. Two facts carry it: an expression leaves its
surroundings alone, and a statement changes nothing but the innermost scope.
-/

namespace TreeIR

namespace Lowering

/-- What a place in a program sees: the parameters of the functions that can
be called there, and whether it stands in a loop body. -/
structure View where
  paramsOf : String → Option (List String)
  inLoop : Bool

namespace View

/-- Outside everything, only the functions of the descriptor are seen. -/
def start (d : Descriptor) : View :=
  ⟨fun f => d.funcParamsOf f, false⟩

/-- One more function, which hides any other of its name. -/
def define (name : String) (params : List String) (v : View) : View :=
  { v with paramsOf := fun f => if f = name then some params else v.paramsOf f }

/-- The view from inside a loop. -/
def loopBody (v : View) : View :=
  { v with inLoop := true }

/-- The body of a function is in no loop until it opens one. -/
def functionBody (v : View) : View :=
  { v with inLoop := false }

/-- What the next statement of the same suite sees. -/
def after (v : View) : Stmt → View
  | .assign name true (.func params _ _) => v.define name (params.map Param.name)
  | _ => v

end View

/-- The text of an application, given the texts of the listed arguments. Only
the arguments that are passed are asked for when they are passed directly. -/
def application (i : Indent) (direct : Bool) (order : List Nat)
    (values : List (Except Error String)) (callee : String → String) :
    Except Error String :=
  if direct then do
    let passed ← order.mapM fun place => values.getD place (.ok "")
    return Target.direct (callee (Target.commas passed))
  else do
    let texts ← values.mapM id
    return Target.bound i (String.join (texts.mapIdx Target.binding))
      (callee (Target.commas (order.map Target.reference)))

/-- The order in which a callee takes its arguments, or the error of `node`. -/
def orderFor (node : String) (declared : List String) (args : List Arg) :
    Except Error (List Nat) :=
  (places declared (args.map Arg.name)).mapError (⟨·, node⟩)

end Lowering

open Lowering

mutual

/-- The text of an expression in a view. -/
def Expr.lowerIn (d : Descriptor) (i : Indent) (v : View) : Expr → Except Error String
  | .num text isFloat => .ok (Target.numLiteral text isFloat)
  | .str value => .ok (Target.stringLiteral value)
  | .ident name => .ok name
  | .func params result body => do
    let (params, result) ← lowerSignature d params result
    let body ← body.lowerIn d i v.functionBody
    return i.block (Target.closure params result) body
  | .create ty args =>
    match d.initParamsOf ty.name with
    | none => .error ⟨.undeclaredType ty.name, (Expr.create ty args).render⟩
    | some declared => do
      let order ← orderFor (Expr.create ty args).render declared args
      let head ← ty.lower d
      application i (passDirectly args order) order (Arg.lowerAllIn d i v args)
        (Target.initialise head)
  | .call callee args =>
    match v.paramsOf callee with
    | none => .error ⟨.undeclaredFunction callee, (Expr.call callee args).render⟩
    | some declared => do
      let order ← orderFor (Expr.call callee args).render declared args
      application i (passDirectly args order) order (Arg.lowerAllIn d i v args)
        (Target.apply callee)

/-- The text of each argument, or its error. Which of the errors counts is settled
where the arguments are passed. -/
def Arg.lowerAllIn (d : Descriptor) (i : Indent) (v : View) :
    List Arg → List (Except Error String)
  | [] => []
  | ⟨_, value⟩ :: as => value.lowerIn d i v :: Arg.lowerAllIn d i v as

/-- The text of a statement in a view. -/
def Stmt.lowerIn (d : Descriptor) (i : Indent) (v : View) : Stmt → Except Error String
  | .assign target true (.func params result body) => do
    let names := params.map Param.name
    let (params, result) ← lowerSignature d params result
    let body ← body.lowerIn d i (v.define target names).functionBody
    return Target.define i target names params result body
  | .assign target true value => do return Target.declare target (← value.lowerIn d i v)
  | .assign target false value => do return Target.update target (← value.lowerIn d i v)
  | .eval value => do return Target.eval (← value.lowerIn d i v)
  | .forEach item source body => do
    let source ← source.lowerIn d i v
    return Target.forEach i item source (← body.lowerIn d i v.loopBody)
  | .whileDo cond body => do
    let cond ← cond.lowerIn d i v
    return Target.whileDo i cond (← body.lowerIn d i v.loopBody)
  | .branch cases none => do return Target.branchHead ++ (← Case.lowerAllIn d i v cases)
  | .branch cases (some body) => do
    let cases ← Case.lowerAllIn d i v cases
    let body ← body.lowerIn d i v
    return Target.branchHead ++ cases ++ Target.fallback i body
  | .ret none =>
    if v.inLoop then .error ⟨.returnInLoop, "return"⟩ else .ok Target.retNothing
  | .ret (some value) =>
    if v.inLoop then .error ⟨.returnInLoop, "return(" ++ value.render ++ ")"⟩
    else do return Target.ret (← value.lowerIn d i v)
  | .brk => .ok (Target.brk v.inLoop)
  | .cont => .ok (Target.cont v.inLoop)
  | .suite body => Stmt.lowerAllIn d i v body

/-- The text of cases in a view, one after the other. -/
def Case.lowerAllIn (d : Descriptor) (i : Indent) (v : View) :
    List Case → Except Error String
  | [] => .ok ""
  | ⟨cond, body⟩ :: cs => do
    let cond ← cond.lowerIn d i v
    let body ← body.lowerIn d i v
    return Target.case i cond body ++ (← Case.lowerAllIn d i v cs)

/-- A statement is seen by those after it, and by no other. -/
def Stmt.lowerAllIn (d : Descriptor) (i : Indent) (v : View) :
    List Stmt → Except Error String
  | [] => .ok ""
  | s :: ss => do
    let text ← s.lowerIn d i v
    return text ++ (← Stmt.lowerAllIn d i (v.after s) ss)

end

/-- The text of any node in a view. -/
def Node.lowerIn (d : Descriptor) (i : Indent) (v : View) : Node → Except Error String
  | .ty t => t.lower d
  | .typeArg a => a.ty.lower d
  | .param p => p.lower d
  | .expr e => e.lowerIn d i v
  | .arg a => a.value.lowerIn d i v
  | .stmt s => s.lowerIn d i v
  | .case c => Case.lowerAllIn d i v [c]
  | .fallback body => do return Target.fallback i (← body.lowerIn d i v)

theorem Stmt.lowerIn_declare {d : Descriptor} {i : Indent} {v : View} {target : String}
    {e : Expr} (h : e.paramNames? = none) :
    (Stmt.assign target true e).lowerIn d i v
      = (do return Target.declare target (← e.lowerIn d i v)) := by
  rw [Stmt.lowerIn]
  rintro params result body rfl
  cases h

/-! ## Running a lowering

One equation per primitive. A step that keeps its surroundings and a rest that
keeps them too compose to the composition of their results, which is the only
form in which the binds of a lowering are met below. -/

section Bind

variable {σ ε α β : Type} {m : ExceptT ε (StateM σ) α} {f : α → ExceptT ε (StateM σ) β} {s s' : σ}

theorem bind_of_ok {a : α} (h : m s = (.ok a, s')) : (m >>= f) s = f a s' := by
  have hbind : (m >>= f) s = ExceptT.bindCont f (m s).1 (m s).2 := rfl
  rw [hbind, h]
  rfl

theorem bind_of_error {e : ε} (h : m s = (.error e, s')) : (m >>= f) s = (.error e, s') := by
  have hbind : (m >>= f) s = ExceptT.bindCont f (m s).1 (m s).2 := rfl
  rw [hbind, h]
  rfl

end Bind

namespace Lower

variable {α β : Type} {env env' : Env}

theorem bind_of_run {m : Lower α} {r : Except Error α} {f : α → Lower β}
    {g : α → Except Error β} (hm : m env = (r, env'))
    (hf : ∀ a, f a env' = (g a, env')) : (m >>= f) env = (r >>= g, env') := by
  cases r with
  | error e => exact bind_of_error hm
  | ok a => rw [bind_of_ok hm, hf a]; rfl

theorem pure_run (a : α) : (pure a : Lower α) env = (.ok a, env) := rfl

theorem get_run : (get : Lower Env) env = (.ok env, env) := rfl

theorem ofExcept_run (r : Except Error α) : ofExcept r env = (r, env) := by
  cases r with
  | ok a => rfl
  | error e => rfl

theorem ty_run (t : Ty) : Lower.ty t env = (t.lower env.descriptor, env) :=
  ofExcept_run _

theorem signature_run (params : List Param) (result : Ty) :
    Lower.signature params result env
      = (lowerSignature env.descriptor params result, env) :=
  ofExcept_run _

theorem argumentOrder_run (node : String) (declared : List String) (args : List Arg) :
    Lower.argumentOrder node declared args env = (orderFor node declared args, env) := by
  rw [Lower.argumentOrder, orderFor]
  cases places declared (args.map Arg.name) with
  | ok order => rfl
  | error cause => rfl

/-- Steps that all keep the surroundings are taken one after the other. -/
theorem mapM_run {f : α → Lower β} {g : α → Except Error β} (as : List α)
    (h : ∀ a, f a env = (g a, env)) : as.mapM f env = (as.mapM g, env) := by
  induction as with
  | nil => rfl
  | cons a as ih =>
      rw [List.mapM_cons, List.mapM_cons]
      refine bind_of_run (h a) fun b => ?_
      exact bind_of_run ih fun bs => rfl

/-- Binding the arguments from a place on is lowering all of them and then
writing their bindings with the places counted on. -/
theorem bindFrom_run {f : α → Lower String} {g : α → Except Error String} (as : List α)
    (h : ∀ a ∈ as, f a env = (g a, env)) (place : Nat) :
    bindFrom place (as.map f) env
      = (((as.map g).mapM id).map fun texts =>
          String.join (texts.mapIdx fun k => Target.binding (k + place)), env) := by
  induction as generalizing place with
  | nil => rfl
  | cons a as ih =>
      rw [List.map_cons, List.map_cons, bindFrom, List.mapM_cons, id]
      have ha := h a List.mem_cons_self
      have hrest := ih (fun b hb => h b (List.mem_cons_of_mem a hb)) (place + 1)
      cases hg : g a with
      | error e => rw [hg] at ha; exact bind_of_error ha
      | ok text =>
          rw [hg] at ha
          rw [bind_of_ok ha]
          cases hgs : (as.map g).mapM id with
          | error e => rw [hgs] at hrest; exact bind_of_error hrest
          | ok texts =>
              rw [hgs] at hrest
              rw [bind_of_ok hrest, pure_run]
              have hcount : (fun k => Target.binding (k + (place + 1)))
                  = fun k => Target.binding (k + 1 + place) := by
                funext k
                rw [Nat.add_right_comm, Nat.add_assoc]
              simp only [hcount, Except.map, bind, pure, Except.bind, Except.pure,
                List.mapIdx_cons, String.join_cons, Nat.zero_add]

theorem pass_run {f : α → Lower String} {g : α → Except Error String} {as : List α}
    (h : ∀ a ∈ as, f a env = (g a, env)) (i : Indent) (direct : Bool)
    (order : List Nat) (callee : String → String) :
    pass i direct order (as.map f) callee env
      = (application i direct order (as.map g) callee, env) := by
  cases direct with
  | true =>
      refine bind_of_run (mapM_run order fun place => ?_) fun passed => rfl
      rw [List.getD_eq_getElem?_getD, List.getD_eq_getElem?_getD, List.getElem?_map,
        List.getElem?_map]
      cases ha : as[place]? with
      | none => rfl
      | some a => exact h a (List.mem_of_getElem? ha)
  | false =>
      have hbind := bindFrom_run as h 0
      rw [application]
      cases hgs : (as.map g).mapM id with
      | error e => rw [hgs] at hbind; exact bind_of_error hbind
      | ok texts => rw [hgs] at hbind; exact bind_of_ok hbind

end Lower

/-! ## Surroundings as views

Surroundings always have a scope to define functions in; `scopes ≠ []` is that
fact. Each change of the surroundings is a change of the view, most of them by
definition, and closing a scope undoes whatever was defined in it. -/

namespace Lowering.Env

variable {env env' env'' : Env}

/-- What a place with these surroundings sees. -/
def view (env : Env) : View :=
  ⟨fun f => env.paramsOf f, env.insideLoop⟩

/-- The surroundings after a statement: a function it defines is entered, and
nothing else happens. -/
def after (env : Env) : Stmt → Env
  | .assign name true (.func params _ _) => env.define name (params.map Param.name)
  | _ => env

/-- Nothing but the innermost scope is different. -/
def SameOutside (env env' : Env) : Prop :=
  ∃ top, env' = { env with scopes := top :: env.scopes.tail }

theorem view_paramsOf (f : String) : env.view.paramsOf f = env.paramsOf f := rfl

theorem view_inLoop : env.view.inLoop = env.insideLoop := rfl

theorem view_openLoop : env.openLoop.view = env.view.loopBody := by
  have h : env.openLoop.insideLoop = true := decide_eq_true (Nat.succ_pos env.openLoops)
  rw [view, h]
  rfl

theorem openScope_ne_nil (env : Env) : env.openScope.scopes ≠ [] := List.cons_ne_nil _ _

theorem define_ne_nil (name : String) (params : List String) (h : env.scopes ≠ []) :
    (env.define name params).scopes ≠ [] := by
  obtain ⟨d, scopes, loops⟩ := env
  cases scopes with
  | nil => exact absurd rfl h
  | cons scope rest => exact List.cons_ne_nil _ _

theorem descriptor_define {name : String} {params : List String} :
    (env.define name params).descriptor = env.descriptor := by
  obtain ⟨d, scopes, loops⟩ := env
  cases scopes with
  | nil => rfl
  | cons scope rest => rfl

theorem view_define {name : String} {params : List String} (h : env.scopes ≠ []) :
    (env.define name params).view = env.view.define name params := by
  obtain ⟨d, scopes, loops⟩ := env
  cases scopes with
  | nil => exact absurd rfl h
  | cons scope rest =>
      refine congrArg (View.mk · _) (funext fun f => ?_)
      show (List.findSome? (Table.get? f) (Table.insert name params scope :: rest)).or _ = _
      by_cases hf : f = name
      · subst hf
        rw [List.findSome?_cons, Table.get?_insert_self, if_pos rfl]
        rfl
      · rw [List.findSome?_cons, Table.get?_insert_of_ne hf, if_neg hf]
        rfl

theorem after_ne_nil (s : Stmt) (h : env.scopes ≠ []) : (env.after s).scopes ≠ [] := by
  unfold after
  split
  · exact define_ne_nil _ _ h
  · exact h

theorem descriptor_after (s : Stmt) : (env.after s).descriptor = env.descriptor := by
  unfold after
  split
  · exact descriptor_define
  · rfl

theorem view_after (s : Stmt) (h : env.scopes ≠ []) :
    (env.after s).view = env.view.after s := by
  unfold after View.after
  split
  · exact view_define h
  · rfl

theorem SameOutside.refl (h : env.scopes ≠ []) : SameOutside env env := by
  obtain ⟨d, scopes, loops⟩ := env
  cases scopes with
  | nil => exact absurd rfl h
  | cons scope rest => exact ⟨scope, rfl⟩

theorem SameOutside.trans (h : SameOutside env env') (h' : SameOutside env' env'') :
    SameOutside env env'' := by
  obtain ⟨top, rfl⟩ := h
  obtain ⟨top', rfl⟩ := h'
  exact ⟨top', rfl⟩

theorem sameOutside_after (s : Stmt) (h : env.scopes ≠ []) :
    SameOutside env (env.after s) := by
  unfold after
  split
  · obtain ⟨d, scopes, loops⟩ := env
    cases scopes with
    | nil => exact absurd rfl h
    | cons scope rest => exact ⟨_, rfl⟩
  · exact SameOutside.refl h

theorem closeScope_of_sameOutside (h : env.scopes ≠ [])
    (h' : SameOutside env.openScope env') : env'.closeScope = env := by
  obtain ⟨top, rfl⟩ := h'
  obtain ⟨d, scopes, loops⟩ := env
  cases scopes with
  | nil => exact absurd rfl h
  | cons scope rest => rfl

end Lowering.Env

namespace Lower

variable {α : Type} {env env' : Env}

/-- What a body does to its own scope is gone at its end, whether it succeeds
or fails. -/
theorem withScope_run {body : Lower α} {r : Except Error α} (hs : env.scopes ≠ [])
    (hbody : body env.openScope = (r, env')) (hsame : env.openScope.SameOutside env') :
    withScope body env = (r, env) := by
  have hscope : withScope body env
      = ((body env.openScope).1, (body env.openScope).2.closeScope) := rfl
  rw [hscope, hbody]
  exact congrArg (r, ·) (Env.closeScope_of_sameOutside hs hsame)

theorem inLoop_run {body : Lower α} {r : Except Error α}
    (hbody : body env.openLoop = (r, env.openLoop)) : inLoop body env = (r, env) := by
  have hloop : inLoop body env
      = ((body env.openLoop).1, (body env.openLoop).2.closeLoop) := rfl
  rw [hloop, hbody]
  rfl

theorem inFunction_run {body : Lower α} {r : Except Error α}
    (hbody : body env.openFunction.2 = (r, env.openFunction.2)) :
    inFunction body env = (r, env) := by
  have hfunction : inFunction body env = ((body env.openFunction.2).1,
      (body env.openFunction.2).2.closeFunction env.openLoops) := rfl
  rw [hfunction, hbody]
  rfl

end Lower

/-! ## The two lowerings agree

The lists of arguments are maps in both lowerings, so that an application asks
for no more than that each argument agrees. -/

theorem Arg.lowerAll_eq_map (i : Indent) (as : List Arg) :
    Arg.lowerAll i as = as.map fun a => a.value.lower i := by
  induction as with
  | nil => rfl
  | cons a as ih =>
      obtain ⟨_, _⟩ := a
      rw [Arg.lowerAll, ih]
      rfl

theorem Arg.lowerAllIn_eq_map (d : Descriptor) (i : Indent) (v : View) (as : List Arg) :
    Arg.lowerAllIn d i v as = as.map fun a => a.value.lowerIn d i v := by
  induction as with
  | nil => rfl
  | cons a as ih =>
      obtain ⟨_, _⟩ := a
      rw [Arg.lowerAllIn, ih]
      rfl

theorem Stmt.functionBody_run {i : Indent} {s : Stmt} {env : Env} (hs : env.scopes ≠ [])
    (h : ∀ {env : Env}, env.scopes ≠ [] →
      s.lower i env = (s.lowerIn env.descriptor i env.view, env.after s)) :
    Lower.functionBody (s.lower i) env
      = (s.lowerIn env.descriptor i env.view.functionBody, env) := by
  refine Lower.inFunction_run (Lower.withScope_run hs (h env.openScope_ne_nil) ?_)
  exact Env.sameOutside_after s env.openScope_ne_nil

theorem Stmt.loopBody_run {i : Indent} {s : Stmt} {env : Env} (hs : env.scopes ≠ [])
    (h : ∀ {env : Env}, env.scopes ≠ [] →
      s.lower i env = (s.lowerIn env.descriptor i env.view, env.after s)) :
    Lower.loopBody (s.lower i) env
      = (s.lowerIn env.descriptor i env.view.loopBody, env) := by
  rw [← Env.view_openLoop]
  refine Lower.inLoop_run (Lower.withScope_run hs (h env.openScope_ne_nil) ?_)
  exact Env.sameOutside_after s env.openScope_ne_nil

theorem Stmt.scoped_run {i : Indent} {s : Stmt} {env : Env} (hs : env.scopes ≠ [])
    (h : ∀ {env : Env}, env.scopes ≠ [] →
      s.lower i env = (s.lowerIn env.descriptor i env.view, env.after s)) :
    Lower.withScope (s.lower i) env = (s.lowerIn env.descriptor i env.view, env) :=
  Lower.withScope_run hs (h env.openScope_ne_nil)
    (Env.sameOutside_after s env.openScope_ne_nil)

mutual

theorem Expr.lower_run (i : Indent) (e : Expr) {env : Env} (hs : env.scopes ≠ []) :
    e.lower i env = (e.lowerIn env.descriptor i env.view, env) := by
  match e with
  | .num .. | .str _ | .ident _ =>
      rw [Expr.lower, Expr.lowerIn]
      exact Lower.pure_run _
  | .func params result body =>
      rw [Expr.lower, Expr.lowerIn]
      refine Lower.bind_of_run (Lower.signature_run params result) fun (ps, r) => ?_
      refine Lower.bind_of_run (Stmt.functionBody_run hs (Stmt.lower_run i body)) fun b => ?_
      exact Lower.pure_run _
  | .create ty args =>
      rw [Expr.lower, Expr.lowerIn]
      refine (bind_of_ok rfl).trans ?_
      cases env.descriptor.initParamsOf ty.name with
      | none => rfl
      | some declared =>
          refine Lower.bind_of_run (Lower.argumentOrder_run _ declared args) fun order => ?_
          refine Lower.bind_of_run (Lower.ty_run ty) fun head => ?_
          rw [Arg.lowerAll_eq_map, Arg.lowerAllIn_eq_map]
          exact Lower.pass_run (Arg.lowerAll_run i args hs) i _ order _
  | .call callee args =>
      rw [Expr.lower, Expr.lowerIn, Env.view_paramsOf]
      refine (bind_of_ok Lower.get_run).trans ?_
      cases env.paramsOf callee with
      | none => rfl
      | some declared =>
          refine Lower.bind_of_run (Lower.argumentOrder_run _ declared args) fun order => ?_
          rw [Arg.lowerAll_eq_map, Arg.lowerAllIn_eq_map]
          exact Lower.pass_run (Arg.lowerAll_run i args hs) i _ order _

theorem Arg.lowerAll_run (i : Indent) (as : List Arg) {env : Env} (hs : env.scopes ≠ []) :
    ∀ a ∈ as, a.value.lower i env = (a.value.lowerIn env.descriptor i env.view, env) := by
  match as with
  | [] => exact fun a ha => absurd ha List.not_mem_nil
  | ⟨_, value⟩ :: as =>
      exact List.forall_mem_cons.mpr ⟨Expr.lower_run i value hs, Arg.lowerAll_run i as hs⟩

theorem Stmt.lower_run (i : Indent) (s : Stmt) {env : Env} (hs : env.scopes ≠ []) :
    s.lower i env = (s.lowerIn env.descriptor i env.view, env.after s) := by
  match s with
  | .assign target true (.func params result body) =>
      have hd := Env.define_ne_nil target (params.map Param.name) hs
      rw [Stmt.lower, Stmt.lowerIn, ← Env.descriptor_define, ← Env.view_define hs]
      refine (bind_of_ok rfl).trans ?_
      refine Lower.bind_of_run (Lower.signature_run params result) fun (ps, r) => ?_
      refine Lower.bind_of_run (Stmt.functionBody_run hd (Stmt.lower_run i body)) fun b => ?_
      exact Lower.pure_run _
  | .assign target true (.num ..) | .assign target true (.str _)
  | .assign target true (.ident _) | .assign target true (.create ..)
  | .assign target true (.call ..) | .assign target false _ | .eval _ =>
      simp only [Stmt.lower, Stmt.lowerIn]
      exact Lower.bind_of_run (Expr.lower_run i _ hs) fun _ => Lower.pure_run _
  | .forEach item source body =>
      rw [Stmt.lower, Stmt.lowerIn]
      refine Lower.bind_of_run (Expr.lower_run i source hs) fun _ => ?_
      refine Lower.bind_of_run (Stmt.loopBody_run hs (Stmt.lower_run i body)) fun _ => ?_
      exact Lower.pure_run _
  | .whileDo cond body =>
      rw [Stmt.lower, Stmt.lowerIn]
      refine Lower.bind_of_run (Expr.lower_run i cond hs) fun _ => ?_
      refine Lower.bind_of_run (Stmt.loopBody_run hs (Stmt.lower_run i body)) fun _ => ?_
      exact Lower.pure_run _
  | .branch cases none =>
      rw [Stmt.lower, Stmt.lowerIn]
      exact Lower.bind_of_run (Case.lowerAll_run i cases hs) fun _ => Lower.pure_run _
  | .branch cases (some body) =>
      rw [Stmt.lower, Stmt.lowerIn]
      refine Lower.bind_of_run (Case.lowerAll_run i cases hs) fun _ => ?_
      refine Lower.bind_of_run (Stmt.scoped_run hs (Stmt.lower_run i body)) fun _ => ?_
      exact Lower.pure_run _
  | .ret none =>
      rw [Stmt.lower, Stmt.lowerIn, Env.view_inLoop]
      refine (bind_of_ok Lower.get_run).trans ?_
      cases env.insideLoop with
      | true => rfl
      | false => rfl
  | .ret (some value) =>
      rw [Stmt.lower, Stmt.lowerIn, Env.view_inLoop]
      refine (bind_of_ok Lower.get_run).trans ?_
      cases env.insideLoop with
      | true => rfl
      | false => exact Lower.bind_of_run (Expr.lower_run i value hs) fun _ => rfl
  | .brk => rw [Stmt.lower, Stmt.lowerIn]; exact bind_of_ok Lower.get_run
  | .cont => rw [Stmt.lower, Stmt.lowerIn]; exact bind_of_ok Lower.get_run
  | .suite body =>
      obtain ⟨env', hrun, hsame⟩ := Stmt.lowerAll_run i body env.openScope_ne_nil
      rw [Stmt.lower, Stmt.lowerIn]
      exact Lower.withScope_run hs hrun hsame

theorem Case.lowerAll_run (i : Indent) (cs : List Case) {env : Env} (hs : env.scopes ≠ []) :
    Case.lowerAll i cs env = (Case.lowerAllIn env.descriptor i env.view cs, env) := by
  match cs with
  | [] => rw [Case.lowerAll, Case.lowerAllIn]; exact Lower.pure_run _
  | ⟨cond, body⟩ :: cs =>
      rw [Case.lowerAll, Case.lowerAllIn]
      refine Lower.bind_of_run (Expr.lower_run i cond hs) fun _ => ?_
      refine Lower.bind_of_run (Stmt.scoped_run hs (Stmt.lower_run i body)) fun _ => ?_
      exact Lower.bind_of_run (Case.lowerAll_run i cs hs) fun _ => Lower.pure_run _

theorem Stmt.lowerAll_run (i : Indent) (ss : List Stmt) {env : Env} (hs : env.scopes ≠ []) :
    ∃ env', Stmt.lowerAll i ss env
        = (Stmt.lowerAllIn env.descriptor i env.view ss, env') ∧
      env.SameOutside env' := by
  match ss with
  | [] =>
      refine ⟨env, ?_, Env.SameOutside.refl hs⟩
      rw [Stmt.lowerAll, Stmt.lowerAllIn]
      exact Lower.pure_run _
  | s :: ss =>
      have hrun := Stmt.lower_run i s hs
      have hafter := Env.sameOutside_after s hs
      obtain ⟨env', hrest, hsame⟩ := Stmt.lowerAll_run i ss (Env.after_ne_nil s hs)
      rw [Env.descriptor_after, Env.view_after s hs] at hrest
      rw [Stmt.lowerAll, Stmt.lowerAllIn]
      cases htext : s.lowerIn env.descriptor i env.view with
      | error e =>
          rw [htext] at hrun
          exact ⟨env.after s, bind_of_error hrun, hafter⟩
      | ok text =>
          rw [htext] at hrun
          refine ⟨env', (bind_of_ok hrun).trans ?_, hafter.trans hsame⟩
          exact Lower.bind_of_run (g := fun t => .ok (text ++ t)) hrest fun _ => rfl

end

/-- The surroundings after a node. Only a statement can change them. -/
def Lowering.Env.afterNode (env : Env) : Node → Env
  | .stmt s => env.after s
  | _ => env

theorem Node.lower_run (i : Indent) (n : Node) {env : Env} (hs : env.scopes ≠ []) :
    n.lower i env = (n.lowerIn env.descriptor i env.view, env.afterNode n) := by
  cases n with
  | ty t => exact Lower.ty_run t
  | typeArg a => exact Lower.ty_run a.ty
  | param p => exact Lower.ofExcept_run _
  | expr e => exact Expr.lower_run i e hs
  | arg a => exact Expr.lower_run i a.value hs
  | stmt s => exact Stmt.lower_run i s hs
  | case c => exact Case.lowerAll_run i [c] hs
  | fallback body =>
      exact Lower.bind_of_run (Stmt.scoped_run hs (Stmt.lower_run i body)) fun _ => rfl

theorem Node.lower_start (d : Descriptor) (i : Indent) (n : Node) :
    n.lower i (Env.start d) = (n.lowerIn d i (View.start d), (Env.start d).afterNode n) :=
  Node.lower_run i n (List.cons_ne_nil _ _)

/-- Lowering a tree against a descriptor is lowering it against what the
descriptor declares, every place with its own lexical view: the texts are the
same, and so are the errors. -/
theorem lower_eq_lowerIn (d : Descriptor) (l : Layout) (n : Node) :
    lower d l n = n.lowerIn d l.indent (View.start d) := by
  rw [lower, Node.lower_run l.indent n (List.cons_ne_nil _ _)]
  rfl

end TreeIR
