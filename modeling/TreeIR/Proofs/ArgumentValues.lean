import TreeIR.Proofs.ArgumentOrder
import TreeIR.Proofs.Subtree

/-!
# What arguments are worth

Which argument a parameter gets is settled by places alone, and so is the order
of evaluation. What the argument is worth is not: its value depends on what the
names in it stand for, and a closure that binds arguments to references gives some
names a new meaning. To ask whether that matters one needs values, on both sides.

`Expr.value` is the value of an expression in a scope: arguments are evaluated as
they are listed, all of them in the scope of the expression, and a callee receives
them by name. `Term` is the code for an expression, with the names that it binds
in plain sight, and `Term.eval` is what the target makes of it: in a closure each
name is in scope from its own initialiser on. `Expr.term` is the code that the
lowering writes, and `Expr.print_term` says so.

A `Host` supplies the rest, which is the same on both sides. A value is whatever
an expression denotes, so it may be a reference to something that a later argument
changes.
-/

namespace TreeIR

open Lowering

namespace Node

/-- The names that a node itself brings into the text. Those of arguments and of
type arguments are not among them, since the target takes both by position. -/
def ownNames : Node → List String
  | .ty t => [t.name]
  | .param p => [p.name]
  | .expr (.ident name) => [name]
  | .expr (.call callee _) => [callee]
  | .stmt (.assign target _ _) => [target]
  | .stmt (.forEach item _ _) => [item]
  | _ => []

/-- The names of a program, wherever in it they stand. -/
def names (n : Node) : List String :=
  n.ownNames ++ n.children.attach.flatMap fun c => names c.1
termination_by n
decreasing_by exact c.2

theorem names_eq (n : Node) : n.names = n.ownNames ++ n.children.flatMap names := by
  rw [names, List.flatMap_subtype fun _ _ => rfl, List.unattach_attach]

theorem ownNames_subset (n : Node) : n.ownNames ⊆ n.names := by
  rw [n.names_eq]
  exact List.subset_append_left _ _

end Node

/-- The names that a callee brings into the text. -/
def Lowering.Callee.names : Callee → List String
  | .function name => [name]
  | .type ty => (Node.ty ty).names

namespace Lowering.Callee

variable {callee : Callee} {args : List Arg}

theorem mem_names_on {x : String} : x ∈ (Node.expr (callee.on args)).names ↔
    x ∈ callee.names ∨ ∃ a ∈ args, x ∈ (Node.expr a.value).names := by
  have harg : ∀ a : Arg, (Node.arg a).names = (Node.expr a.value).names := by
    intro a
    rw [Node.names_eq]
    exact List.flatMap_singleton _ _
  have hnames : (Node.expr (callee.on args)).names
      = callee.names ++ args.flatMap fun a => (Node.arg a).names := by
    cases callee with
    | function name =>
        rw [Callee.on, Node.names_eq, Node.children, List.flatMap_map]
        rfl
    | type ty =>
        rw [Callee.on, Node.names_eq, Node.children, List.flatMap_cons, List.flatMap_map]
        rfl
  rw [hnames]
  simp only [harg, List.mem_append, List.mem_flatMap]

theorem names_subset : callee.names ⊆ (Node.expr (callee.on args)).names :=
  fun _ hx => mem_names_on.mpr (.inl hx)

theorem names_value_subset {a : Arg} (ha : a ∈ args) :
    (Node.expr a.value).names ⊆ (Node.expr (callee.on args)).names :=
  fun _ hx => mem_names_on.mpr (.inr ⟨a, ha, hx⟩)

end Lowering.Callee

section ArgInduction

variable {motive : Expr → Prop}

mutual

/-- What holds of every expression that applies nothing, and of an application
whenever it holds of its arguments, holds of every expression. -/
@[elab_as_elim]
theorem Expr.argInduction (inert : ∀ e : Expr, e.isApplication = false → motive e)
    (apply : ∀ (callee : Callee) (args : List Arg), (∀ a ∈ args, motive a.value) →
      motive (callee.on args)) (e : Expr) : motive e := by
  match e with
  | .num .. | .str _ | .ident _ | .func .. => exact inert _ rfl
  | .create ty args => exact apply (.type ty) args (Arg.argInduction inert apply args)
  | .call name args => exact apply (.function name) args (Arg.argInduction inert apply args)

theorem Arg.argInduction (inert : ∀ e : Expr, e.isApplication = false → motive e)
    (apply : ∀ (callee : Callee) (args : List Arg), (∀ a ∈ args, motive a.value) →
      motive (callee.on args)) (args : List Arg) : ∀ a ∈ args, motive a.value := by
  match args with
  | [] => exact List.forall_mem_nil _
  | ⟨_, value⟩ :: args =>
      exact List.forall_mem_cons.mpr
        ⟨Expr.argInduction inert apply value, Arg.argInduction inert apply args⟩

end

end ArgInduction

/-! ## The value of an expression

Nothing is said of the target here. Arguments have the scope of their application, and
no name has a meaning that the program does not give it. -/

/-- What each name stands for. -/
abbrev Scope (V : Type) := String → V

namespace Scope

variable {V : Type} {ρ ρ' : Scope V} {names names' : List String} {name : String} {a : V}

/-- Gives one name a new meaning. -/
def bind (name : String) (a : V) (ρ : Scope V) : Scope V :=
  fun x => if x = name then a else ρ x

/-- All of these names stand for the same in both scopes. -/
def Agree (names : List String) (ρ ρ' : Scope V) : Prop :=
  ∀ x ∈ names, ρ x = ρ' x

theorem bind_self : ρ.bind name a name = a :=
  if_pos rfl

theorem bind_of_ne {x : String} (h : x ≠ name) : ρ.bind name a x = ρ x :=
  if_neg h

theorem Agree.mono (h : Agree names ρ ρ') (hsub : names' ⊆ names) : Agree names' ρ ρ' :=
  fun x hx => h x (hsub hx)

theorem Agree.bind (h : Agree names ρ ρ') (hname : name ∉ names) :
    Agree names (ρ.bind name a) ρ' := by
  intro x hx
  have hne : x ≠ name := fun heq => hname (heq ▸ hx)
  rw [bind_of_ne hne]
  exact h x hx

end Scope

/-- What is given to both sides: the meaning of literals, and what an application
does once its arguments have been evaluated. Neither sees more of a scope than the
names that stand in it. For a callee that is its own name, since what a function
sees from within is settled where it is defined. -/
structure Host (σ V : Type) where
  literal : Expr → Scope V → V
  apply : Callee → Scope V → List V → StateM σ V
  /-- What a name stands for in its own initialiser. -/
  unset : V
  literal_congr : ∀ (e : Expr) (ρ ρ' : Scope V),
    Scope.Agree (Node.expr e).names ρ ρ' → literal e ρ = literal e ρ'
  apply_congr : ∀ (callee : Callee) (ρ ρ' : Scope V),
    Scope.Agree callee.names ρ ρ' → apply callee ρ = apply callee ρ'

variable {σ V : Type}

/-- The value of an expression that applies nothing. -/
def Host.inert (o : Host σ V) (ρ : Scope V) : Expr → V
  | .ident name => ρ name
  | e => o.literal e ρ

/-- The values that a callee receives: for each declared name, the one given under
that name. -/
def Host.received (o : Host σ V) (declared : Option (List String)) (values : Table V) : List V :=
  (declared.getD []).map fun name => (Table.get? name values).getD o.unset

mutual

/-- The value of an expression. -/
def Expr.value (d : Descriptor) (v : View) (o : Host σ V) (ρ : Scope V) : Expr → StateM σ V
  | .create ty args => do
    let values ← Arg.values d v o ρ args
    o.apply (.type ty) ρ (o.received (d.initParamsOf ty.name) values)
  | .call callee args => do
    let values ← Arg.values d v o ρ args
    o.apply (.function callee) ρ (o.received (v.paramsOf callee) values)
  | e => pure (o.inert ρ e)

/-- The values of arguments by name, evaluated as they are listed. -/
def Arg.values (d : Descriptor) (v : View) (o : Host σ V) (ρ : Scope V) :
    List Arg → StateM σ (Table V)
  | [] => pure []
  | ⟨name, value⟩ :: as => do
    let a ← value.value d v o ρ
    return (name, a) :: (← Arg.values d v o ρ as)

end

section Values

variable {d : Descriptor} {v : View} {callee : Callee} {args : List Arg} {e : Expr}
  {o : Host σ V} {ρ ρ' : Scope V}

theorem Expr.value_of_inert (h : e.isApplication = false) :
    e.value d v o ρ = pure (o.inert ρ e) := by
  cases e with
  | create | call => cases h
  | num | str | ident | func => rw [Expr.value] <;> nofun

theorem Lowering.Callee.value_on : (callee.on args).value d v o ρ = (do
    let values ← Arg.values d v o ρ args
    o.apply callee ρ (o.received (callee.declared? d v) values)) := by
  cases callee with
  | function name =>
      rw [Callee.on, Expr.value]
      rfl
  | type ty =>
      rw [Callee.on, Expr.value]
      rfl

theorem Host.inert_congr (h : Scope.Agree (Node.expr e).names ρ ρ') :
    o.inert ρ e = o.inert ρ' e := by
  cases e with
  | ident name => exact h name (Node.ownNames_subset (.expr (.ident name)) List.mem_cons_self)
  | num | str | func | create | call => exact o.literal_congr _ ρ ρ' h

end Values

/-! ## The code of an expression

The text of an application has its arguments in it as text. `Term` has them as code, so
that it can be run as well as printed. -/

mutual

/-- The code of an expression. -/
inductive Term where
  /-- An expression that applies nothing. -/
  | inert (expr : Expr)
  | direct (callee : Callee) (args : List Term)
  /-- A closure that is called where it stands. It binds names, one after the other,
  and passes some of them. -/
  | closure (callee : Callee) (locals : List Local) (passed : List String)

/-- A name that a closure binds, with its initialiser. -/
structure Local where
  name : String
  value : Term

end

mutual

/-- What the target makes of code. Plain arguments are taken from left to right. The
target may take them in any order, but they are not written where one could tell. -/
def Term.eval (o : Host σ V) (ρ : Scope V) : Term → StateM σ V
  | .inert e => pure (o.inert ρ e)
  | .direct callee args => do
    let values ← Term.evalAll o ρ args
    o.apply callee ρ values
  | .closure callee locals passed => do
    let ρ' ← Local.enter o ρ locals
    o.apply callee ρ' (passed.map ρ')

/-- The values of plain arguments. -/
def Term.evalAll (o : Host σ V) (ρ : Scope V) : List Term → StateM σ (List V)
  | [] => pure []
  | t :: ts => do
    let a ← t.eval o ρ
    return a :: (← Term.evalAll o ρ ts)

/-- The scope after some names have been bound. A name already hides any other of
its kind in its own initialiser. -/
def Local.enter (o : Host σ V) (ρ : Scope V) : List Local → StateM σ (Scope V)
  | [] => pure ρ
  | ⟨name, value⟩ :: ls => do
    let a ← value.eval o (ρ.bind name o.unset)
    Local.enter o (ρ.bind name a) ls

end

mutual

/-- The text of code. -/
def Term.print (d : Descriptor) (i : Indent) (v : View) : Term → Except Error String
  | .inert e => e.lowerIn d i v
  | .direct callee args => do
    let write ← callee.write d
    let args ← Term.printAll d i v args
    return "(" ++ write (", ".intercalate args) ++ ")"
  | .closure callee locals passed => do
    let write ← callee.write d
    let locals ← Local.printAll d i v locals
    return "(" ++ i.block "[&]() -> decltype(auto)"
      (locals ++ "return " ++ write (", ".intercalate passed) ++ ";\n") ++ "())"

/-- The texts of plain arguments. -/
def Term.printAll (d : Descriptor) (i : Indent) (v : View) :
    List Term → Except Error (List String)
  | [] => .ok []
  | t :: ts => do
    let text ← t.print d i v
    return text :: (← Term.printAll d i v ts)

/-- The text of the bindings of a closure. -/
def Local.printAll (d : Descriptor) (i : Indent) (v : View) : List Local → Except Error String
  | [] => .ok ""
  | ⟨name, value⟩ :: ls => do
    let text ← value.print d i v
    return "auto &&" ++ name ++ " = " ++ text ++ ";\n" ++ (← Local.printAll d i v ls)

end

/-- Binds code to references, from a place on. -/
def Local.references (place : Nat) : Table Term → List Local
  | [] => []
  | (_, value) :: ts => ⟨Target.reference place, value⟩ :: Local.references (place + 1) ts

/-- The code of an application, given the code of its arguments. -/
def Lowering.Callee.code (callee : Callee) (declared : Option (List String)) (args : List Arg)
    (terms : Table Term) : Term :=
  if PassesPlainly args (declared.getD []) then
    .direct callee ((declared.getD []).filterMap (Table.get? · terms))
  else
    .closure callee (Local.references 0 terms)
      ((declared.getD []).map fun name => Target.reference ((args.map Arg.name).idxOf name))

mutual

/-- The code that an expression is lowered to. -/
def Expr.term (d : Descriptor) (v : View) : Expr → Term
  | .create ty args =>
    (Callee.type ty).code (d.initParamsOf ty.name) args (Arg.terms d v args)
  | .call callee args =>
    (Callee.function callee).code (v.paramsOf callee) args (Arg.terms d v args)
  | e => .inert e

/-- The code of arguments, by name. -/
def Arg.terms (d : Descriptor) (v : View) : List Arg → Table Term
  | [] => []
  | ⟨name, value⟩ :: as => (name, value.term d v) :: Arg.terms d v as

end

section Written

variable {d : Descriptor} {i : Indent} {v : View} {callee : Callee} {args : List Arg}
  {e : Expr} {out : String}

theorem Expr.term_of_inert (h : e.isApplication = false) : e.term d v = .inert e := by
  cases e with
  | create | call => cases h
  | num | str | ident | func => rw [Expr.term] <;> nofun

theorem Lowering.Callee.term_on : (callee.on args).term d v
    = callee.code (callee.declared? d v) args (Arg.terms d v args) := by
  cases callee with
  | function name =>
      rw [Callee.on, Expr.term]
      rfl
  | type ty =>
      rw [Callee.on, Expr.term]
      rfl

theorem Arg.terms_eq_map (as : List Arg) :
    Arg.terms d v as = as.map fun a => (a.name, a.value.term d v) := by
  induction as with
  | nil => rfl
  | cons a as ih =>
      obtain ⟨name, value⟩ := a
      rw [Arg.terms, ih]
      rfl

theorem Term.printAll_eq_ok {terms : List Term} {texts : List String}
    (h : List.Forall₂ (fun t text => t.print d i v = .ok text) terms texts) :
    Term.printAll d i v terms = .ok texts := by
  induction h with
  | nil => rfl
  | cons ht _ ih =>
      rw [Term.printAll, ht, ih]
      rfl

theorem Local.printAll_references {terms : Table Term} {texts : List String} (place : Nat)
    (h : List.Forall₂ (fun t text => t.2.print d i v = .ok text) terms texts) :
    Local.printAll d i v (Local.references place terms)
      = .ok (String.join (texts.mapIdx fun k => Target.binding (place + k))) := by
  induction h generalizing place with
  | nil => rfl
  | @cons t text terms texts ht _ ih =>
      have hcount : (fun k => Target.binding (place + 1 + k))
          = fun k => Target.binding (place + (k + 1)) := by
        funext k
        rw [Nat.add_right_comm, Nat.add_assoc]
      rw [Local.references, Local.printAll, ht, ih, hcount, List.mapIdx_cons, String.join_cons]
      rfl

theorem Lowering.get?_entries {α β : Type} {key : α → String} {f : α → β} (as : List α)
    (name : String) : Table.get? name (as.map fun a => (key a, f a))
      = (as.find? fun a => key a = name).map f := by
  induction as with
  | nil => rfl
  | cons a as ih =>
      rw [List.map_cons, Table.get?_cons, ih]
      by_cases ha : key a = name
      · simp [ha]
      · simp [ha]

/-- Code found by name is the code of what is found by name. -/
theorem Lowering.Reads.forall₂_terms {declared texts : List String}
    (h : Reads (args.map fun a => (a.name, a.value.lowerIn d i v)) declared texts)
    (hprint : ∀ a ∈ args, ∀ out, a.value.lowerIn d i v = .ok out →
      (a.value.term d v).print d i v = .ok out) :
    List.Forall₂ (fun t text => t.print d i v = .ok text)
      (declared.filterMap (Table.get? · (Arg.terms d v args))) texts := by
  induction h with
  | nil => exact .nil
  | @cons name text declared texts hget _ ih =>
      rw [get?_entries] at hget
      obtain ⟨a, hfind, htext⟩ := Option.map_eq_some_iff.mp hget
      rw [List.filterMap_cons, Arg.terms_eq_map, get?_entries, hfind, ← Arg.terms_eq_map]
      exact .cons (hprint a (List.mem_of_find?_eq_some hfind) text htext) ih

/-- Where an expression has a text, it is the text of its code. -/
theorem Expr.print_term (e : Expr) :
    ∀ out, e.lowerIn d i v = .ok out → (e.term d v).print d i v = .ok out := by
  induction e using Expr.argInduction with
  | inert e hinert =>
      intro out h
      rw [Expr.term_of_inert hinert, Term.print]
      exact h
  | apply callee args ih =>
      intro out h
      obtain ⟨declared, write, hdeclared, hwrite, happ⟩ := Callee.lowerIn_on_eq_ok_iff.mp h
      rw [Callee.term_on, hdeclared, Callee.code, Option.getD_some]
      by_cases hplain : PassesPlainly args declared
      · obtain ⟨-, texts, hreads, rfl⟩ := (applied_plainly_eq_ok_iff hplain).mp happ
        rw [if_pos hplain, Term.print, hwrite, Term.printAll_eq_ok (hreads.forall₂_terms ih)]
        rfl
      · obtain ⟨-, -, texts, htexts, rfl⟩ := (applied_bound_eq_ok_iff hplain).mp happ
        have hterms : List.Forall₂ (fun t text => t.2.print d i v = .ok text)
            (Arg.terms d v args) texts := by
          rw [Arg.terms_eq_map, List.forall₂_map_left_iff]
          exact ((List.forall₂_and_left args texts).mpr ⟨ih, htexts⟩).imp
            fun a text ha => ha.1 text ha.2
        rw [if_neg hplain, Term.print, hwrite, Local.printAll_references 0 hterms]
        simp only [Nat.zero_add]
        rfl

end Written

end TreeIR
