import TreeIR.Tree.Basic

/-!
# Nodes inside a node

The trees are four mutual types with lists of each, and most laws about them
are not: they hold of every node once they hold of the nodes directly inside
it. `Node.children` lists those, in the order in which they are written, and
`Node.childInduction` is the induction that it gives. Names are text here and
not nodes, so they are no children.

`Within` is what "somewhere inside" means.
-/

namespace TreeIR

namespace Node

/-- The nodes directly inside a node, in written order. -/
def children : Node → List Node
  | .ty (.named _) => []
  | .ty (.generic _ args) => args.map .typeArg
  | .typeArg a => [.ty a.ty]
  | .param p => [.ty p.ty]
  | .expr (.num ..) | .expr (.str _) | .expr (.ident _) => []
  | .expr (.func params result body) => params.map .param ++ [.ty result, .stmt body]
  | .expr (.create t args) => .ty t :: args.map .arg
  | .expr (.call _ args) => args.map .arg
  | .arg a => [.expr a.value]
  | .stmt (.assign _ _ value) | .stmt (.eval value) => [.expr value]
  | .stmt (.forEach _ source body) => [.expr source, .stmt body]
  | .stmt (.whileDo cond body) => [.expr cond, .stmt body]
  | .stmt (.branch cases last) => cases.map .case ++ (last.map .fallback).toList
  | .stmt (.ret value) => (value.map .expr).toList
  | .stmt .brk | .stmt .cont => []
  | .stmt (.suite body) => body.map .stmt
  | .case c => [.expr c.cond, .stmt c.body]
  | .fallback body => [.stmt body]

/-- The first node is the second one or stands somewhere inside it. -/
inductive Within : Node → Node → Prop
  | refl (n : Node) : Within n n
  | child {m c n : Node} (h : Within m c) (hc : c ∈ n.children) : Within m n

theorem within_iff {m n : Node} :
    m.Within n ↔ m = n ∨ ∃ c ∈ n.children, m.Within c := by
  constructor
  · intro h
    cases h with
    | refl => exact Or.inl rfl
    | child h hc => exact Or.inr ⟨_, hc, h⟩
  · rintro (rfl | ⟨c, hc, h⟩)
    · exact .refl m
    · exact .child h hc

/-- A property that passes from the children to their node. -/
def Hereditary (motive : Node → Prop) : Prop :=
  ∀ n, (∀ c ∈ n.children, motive c) → motive n

end Node

/-! ## Induction over children

The recursion is the one of the types, each list with a theorem of its own;
all it does at a node is to hand the children to the step. -/

section ChildInduction

variable {motive : Node → Prop}

mutual

theorem Ty.childInduction (step : Node.Hereditary motive) (t : Ty) :
    motive (.ty t) := by
  match t with
  | .named _ => exact step _ fun _ hc => absurd hc List.not_mem_nil
  | .generic _ args =>
      exact step _ (List.forall_mem_map.mpr (TypeArg.childInduction step args))

theorem TypeArg.childInduction (step : Node.Hereditary motive) (as : List TypeArg) :
    ∀ a ∈ as, motive (.typeArg a) := by
  match as with
  | [] => exact fun _ ha => absurd ha List.not_mem_nil
  | ⟨_, t⟩ :: as =>
      refine List.forall_mem_cons.mpr ⟨step _ ?_, TypeArg.childInduction step as⟩
      exact List.forall_mem_singleton.mpr (Ty.childInduction step t)

end

theorem Param.childInduction (step : Node.Hereditary motive) (p : Param) :
    motive (.param p) :=
  step _ (List.forall_mem_singleton.mpr (Ty.childInduction step p.ty))

mutual

theorem Expr.childInduction (step : Node.Hereditary motive) (e : Expr) :
    motive (.expr e) := by
  match e with
  | .num .. | .str _ | .ident _ => exact step _ fun _ hc => absurd hc List.not_mem_nil
  | .func params result body =>
      refine step _ (List.forall_mem_append.mpr ⟨List.forall_mem_map.mpr ?_, ?_⟩)
      · exact fun p _ => Param.childInduction step p
      · exact List.forall_mem_cons.mpr ⟨Ty.childInduction step result,
          List.forall_mem_singleton.mpr (Stmt.childInduction step body)⟩
  | .create ty args =>
      exact step _ (List.forall_mem_cons.mpr ⟨Ty.childInduction step ty,
        List.forall_mem_map.mpr (Arg.childInduction step args)⟩)
  | .call _ args => exact step _ (List.forall_mem_map.mpr (Arg.childInduction step args))

theorem Arg.childInduction (step : Node.Hereditary motive) (as : List Arg) :
    ∀ a ∈ as, motive (.arg a) := by
  match as with
  | [] => exact fun _ ha => absurd ha List.not_mem_nil
  | ⟨_, value⟩ :: as =>
      refine List.forall_mem_cons.mpr ⟨step _ ?_, Arg.childInduction step as⟩
      exact List.forall_mem_singleton.mpr (Expr.childInduction step value)

theorem Stmt.childInduction (step : Node.Hereditary motive) (s : Stmt) :
    motive (.stmt s) := by
  match s with
  | .brk | .cont | .ret none => exact step _ fun _ hc => absurd hc List.not_mem_nil
  | .assign _ _ value | .eval value | .ret (some value) =>
      exact step _ (List.forall_mem_singleton.mpr (Expr.childInduction step value))
  | .forEach _ value body | .whileDo value body =>
      exact step _ (List.forall_mem_cons.mpr ⟨Expr.childInduction step value,
        List.forall_mem_singleton.mpr (Stmt.childInduction step body)⟩)
  | .branch cases none =>
      refine step _ (List.forall_mem_append.mpr ⟨List.forall_mem_map.mpr ?_, ?_⟩)
      · exact Case.childInduction step cases
      · exact fun _ hc => absurd hc List.not_mem_nil
  | .branch cases (some body) =>
      refine step _ (List.forall_mem_append.mpr ⟨List.forall_mem_map.mpr ?_, ?_⟩)
      · exact Case.childInduction step cases
      · refine List.forall_mem_singleton.mpr (step _ ?_)
        exact List.forall_mem_singleton.mpr (Stmt.childInduction step body)
  | .suite body => exact step _ (List.forall_mem_map.mpr (Stmt.childInductionAll step body))

theorem Case.childInduction (step : Node.Hereditary motive) (cs : List Case) :
    ∀ c ∈ cs, motive (.case c) := by
  match cs with
  | [] => exact fun _ hc => absurd hc List.not_mem_nil
  | ⟨cond, body⟩ :: cs =>
      refine List.forall_mem_cons.mpr ⟨step _ ?_, Case.childInduction step cs⟩
      exact List.forall_mem_cons.mpr ⟨Expr.childInduction step cond,
        List.forall_mem_singleton.mpr (Stmt.childInduction step body)⟩

theorem Stmt.childInductionAll (step : Node.Hereditary motive) (ss : List Stmt) :
    ∀ s ∈ ss, motive (.stmt s) := by
  match ss with
  | [] => exact fun _ hs => absurd hs List.not_mem_nil
  | s :: ss =>
      exact List.forall_mem_cons.mpr
        ⟨Stmt.childInduction step s, Stmt.childInductionAll step ss⟩

end

/-- What holds of a node whenever it holds of the nodes directly inside it
holds of every node. -/
@[elab_as_elim]
theorem Node.childInduction (step : ∀ n, (∀ c ∈ n.children, motive c) → motive n)
    (n : Node) : motive n := by
  cases n with
  | ty t => exact Ty.childInduction step t
  | typeArg a => exact TypeArg.childInduction step [a] a List.mem_cons_self
  | param p => exact Param.childInduction step p
  | expr e => exact Expr.childInduction step e
  | arg a => exact Arg.childInduction step [a] a List.mem_cons_self
  | stmt s => exact Stmt.childInduction step s
  | case c => exact Case.childInduction step [c] c List.mem_cons_self
  | fallback body =>
      exact step _ (List.forall_mem_singleton.mpr (Stmt.childInduction step body))

end ChildInduction

/-- Functions on nodes may recurse on the children. -/
instance : WellFoundedRelation Node where
  rel c n := c ∈ n.children
  wf := ⟨fun n => Node.childInduction (fun n h => Acc.intro n h) n⟩

end TreeIR
