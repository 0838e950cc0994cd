import TreeIR.Proofs.Subtree
import TreeIR.Tree.Render

/-!
# Trees without nested suites

The diagnostic text does not show suites: a suite is written as its statements,
one after the other, and the text of a body is the same with and without a suite
around it. `Node.flatten` takes a tree to the one among those with the same text
in which every body is one suite and no statement of a suite is a suite again.
Here it is shown that the text stays the same; that nothing else can be exchanged
without changing the text is for another file.

A statement is looked at in two ways. `Stmt.dissolved` takes apart the suites it
consists of and leaves the rest as it is, down to the bodies of its loops;
`Stmt.flat` does the same and flattens what it finds.
-/

namespace TreeIR

mutual

/-- The statements of a statement, its suites taken apart. -/
def Stmt.dissolved : Stmt → List Stmt
  | .suite body => Stmt.dissolvedAll body
  | s => [s]

/-- Statements that follow each other, with all suites among them dissolved. -/
def Stmt.dissolvedAll : List Stmt → List Stmt
  | [] => []
  | s :: ss => s.dissolved ++ Stmt.dissolvedAll ss

end

mutual

/-- An expression with the bodies of all functions in it flattened. -/
def Expr.flatten : Expr → Expr
  | .func params result body => .func params result (.suite body.flat)
  | .create ty args => .create ty (Arg.flattenAll args)
  | .call callee args => .call callee (Arg.flattenAll args)
  | .num text isFloat => .num text isFloat
  | .str value => .str value
  | .ident name => .ident name

/-- Arguments with flattened values. -/
def Arg.flattenAll : List Arg → List Arg
  | [] => []
  | ⟨name, value⟩ :: as => ⟨name, value.flatten⟩ :: Arg.flattenAll as

/-- The statements of a statement, its suites taken apart and all bodies made
into one suite each. -/
def Stmt.flat : Stmt → List Stmt
  | .assign target defines value => [.assign target defines value.flatten]
  | .eval value => [.eval value.flatten]
  | .forEach item source body => [.forEach item source.flatten (.suite body.flat)]
  | .whileDo cond body => [.whileDo cond.flatten (.suite body.flat)]
  | .branch cases none => [.branch (Case.flattenAll cases) none]
  | .branch cases (some body) => [.branch (Case.flattenAll cases) (some (.suite body.flat))]
  | .ret none => [.ret none]
  | .ret (some value) => [.ret (some value.flatten)]
  | .brk => [.brk]
  | .cont => [.cont]
  | .suite body => Stmt.flatAll body

/-- Cases with flattened conditions and bodies. -/
def Case.flattenAll : List Case → List Case
  | [] => []
  | ⟨cond, body⟩ :: cs => ⟨cond.flatten, .suite body.flat⟩ :: Case.flattenAll cs

/-- Statements that follow each other, flattened into one list. -/
def Stmt.flatAll : List Stmt → List Stmt
  | [] => []
  | s :: ss => s.flat ++ Stmt.flatAll ss

end

/-- An argument with a flattened value. -/
def Arg.flatten (a : Arg) : Arg :=
  ⟨a.name, a.value.flatten⟩

/-- A case with a flattened condition and body. -/
def Case.flatten (c : Case) : Case :=
  ⟨c.cond.flatten, .suite c.body.flat⟩

/-- The tree with every nested suite spliced into the one around it, and with a
suite around every body and around the whole, if that is a statement. -/
def Node.flatten : Node → Node
  | .ty t => .ty t
  | .typeArg a => .typeArg a
  | .param p => .param p
  | .expr e => .expr e.flatten
  | .arg a => .arg a.flatten
  | .stmt s => .stmt (.suite s.flat)
  | .case c => .case c.flatten
  | .fallback body => .fallback (.suite body.flat)

theorem Arg.flattenAll_eq_map (as : List Arg) : Arg.flattenAll as = as.map Arg.flatten := by
  induction as with
  | nil => rfl
  | cons a as ih =>
      obtain ⟨name, value⟩ := a
      rw [Arg.flattenAll, ih]
      rfl

theorem Case.flattenAll_eq_map (cs : List Case) : Case.flattenAll cs = cs.map Case.flatten := by
  induction cs with
  | nil => rfl
  | cons c cs ih =>
      obtain ⟨cond, body⟩ := c
      rw [Case.flattenAll, ih]
      rfl

theorem Stmt.renderAll_append (ss ss' : List Stmt) :
    Stmt.renderAll (ss ++ ss') = Stmt.renderAll ss ++ Stmt.renderAll ss' := by
  induction ss with
  | nil => exact (String.empty_append ..).symm
  | cons s ss ih =>
      rw [List.cons_append, Stmt.renderAll, Stmt.renderAll, ih, String.append_assoc]

theorem Stmt.renderAll_singleton (s : Stmt) : Stmt.renderAll [s] = s.render :=
  String.append_empty ..

mutual

theorem Expr.render_flatten (e : Expr) : e.flatten.render = e.render := by
  match e with
  | .num .. | .str _ | .ident _ => rfl
  | .func params result body =>
      simp only [Expr.flatten, Expr.render, Stmt.render, body.renderAll_flat]
  | .create ty args => simp only [Expr.flatten, Expr.render, Arg.renderAll_flattenAll args]
  | .call callee args => simp only [Expr.flatten, Expr.render, Arg.renderAll_flattenAll args]

theorem Arg.renderAll_flattenAll (as : List Arg) :
    Arg.renderAll (Arg.flattenAll as) = Arg.renderAll as := by
  match as with
  | [] => rfl
  | ⟨name, value⟩ :: as =>
      simp only [Arg.flattenAll, Arg.renderAll, value.render_flatten, Arg.renderAll_flattenAll as]

theorem Stmt.renderAll_flat (s : Stmt) : Stmt.renderAll s.flat = s.render := by
  match s with
  | .brk | .cont | .ret none => exact Stmt.renderAll_singleton _
  | .assign _ _ value | .eval value | .ret (some value) =>
      simp only [Stmt.flat, Stmt.renderAll_singleton, Stmt.render, value.render_flatten]
  | .forEach _ value body | .whileDo value body =>
      simp only [Stmt.flat, Stmt.renderAll_singleton, Stmt.render, value.render_flatten,
        body.renderAll_flat]
  | .branch cases none =>
      simp only [Stmt.flat, Stmt.renderAll_singleton, Stmt.render,
        Case.renderAll_flattenAll cases]
  | .branch cases (some body) =>
      simp only [Stmt.flat, Stmt.renderAll_singleton, Stmt.render,
        Case.renderAll_flattenAll cases, body.renderAll_flat]
  | .suite body => simp only [Stmt.flat, Stmt.render, Stmt.renderAll_flatAll body]

theorem Case.renderAll_flattenAll (cs : List Case) :
    Case.renderAll (Case.flattenAll cs) = Case.renderAll cs := by
  match cs with
  | [] => rfl
  | ⟨cond, body⟩ :: cs =>
      simp only [Case.flattenAll, Case.renderAll, Stmt.render, cond.render_flatten,
        body.renderAll_flat, Case.renderAll_flattenAll cs]

theorem Stmt.renderAll_flatAll (ss : List Stmt) :
    Stmt.renderAll (Stmt.flatAll ss) = Stmt.renderAll ss := by
  match ss with
  | [] => rfl
  | s :: ss =>
      simp only [Stmt.flatAll, Stmt.renderAll, Stmt.renderAll_append, s.renderAll_flat,
        Stmt.renderAll_flatAll ss]

end

/-- Suites do not show in the diagnostic text. -/
theorem Node.render_flatten (n : Node) : n.flatten.render = n.render := by
  cases n with
  | ty t => rfl
  | typeArg a => rfl
  | param p => rfl
  | expr e => exact e.render_flatten
  | arg a => simp only [Node.flatten, Node.render, Arg.flatten, Arg.render, Expr.render_flatten]
  | stmt s => simp only [Node.flatten, Node.render, Stmt.render, s.renderAll_flat]
  | case c =>
      simp only [Node.flatten, Node.render, Case.flatten, Case.render, Stmt.render,
        Expr.render_flatten, Stmt.renderAll_flat]
  | fallback body => simp only [Node.flatten, Node.render, Stmt.render, body.renderAll_flat]

/-- Is the statement a suite? -/
def Stmt.isSuite : Stmt → Bool
  | .suite _ => true
  | _ => false

theorem Stmt.dissolved_of_not_isSuite {s : Stmt} (h : s.isSuite = false) :
    s.dissolved = [s] := by
  cases s with
  | suite body => cases h
  | _ => rfl

theorem Stmt.dissolved_suite (ss : List Stmt) :
    (Stmt.suite ss).dissolved = ss.flatMap Stmt.dissolved := by
  rw [Stmt.dissolved]
  induction ss with
  | nil => rfl
  | cons s ss ih => rw [Stmt.dissolvedAll, ih, List.flatMap_cons]

/-- What holds of statements that are no suites, and of a suite if it holds of its
statements, holds of all. -/
@[elab_as_elim]
theorem Stmt.suiteInduction {motive : Stmt → Prop}
    (single : ∀ s : Stmt, s.isSuite = false → motive s)
    (suite : ∀ ss : List Stmt, (∀ s ∈ ss, motive s) → motive (.suite ss)) (s : Stmt) :
    motive s := by
  have hnode : ∀ n : Node, ∀ s, n = .stmt s → motive s := by
    intro n
    induction n using Node.childInduction with
    | step n ih =>
        rintro s rfl
        cases hs : s.isSuite with
        | false => exact single s hs
        | true =>
            cases s with
            | suite ss => exact suite ss fun s hs => ih _ (List.mem_map_of_mem hs) s rfl
            | _ => cases hs
  exact hnode _ s rfl

theorem Stmt.isSuite_of_mem_dissolved {s t : Stmt} (h : t ∈ s.dissolved) :
    t.isSuite = false := by
  induction s using Stmt.suiteInduction with
  | single s hs =>
      rw [Stmt.dissolved_of_not_isSuite hs] at h
      rw [List.mem_singleton.mp h]
      exact hs
  | suite ss ih =>
      rw [Stmt.dissolved_suite] at h
      obtain ⟨s, hs, ht⟩ := List.mem_flatMap.mp h
      exact ih s hs ht

theorem Stmt.renderAll_dissolved (s : Stmt) : Stmt.renderAll s.dissolved = s.render := by
  induction s using Stmt.suiteInduction with
  | single s hs => rw [Stmt.dissolved_of_not_isSuite hs, Stmt.renderAll_singleton]
  | suite ss ih =>
      rw [Stmt.dissolved_suite, Stmt.render]
      induction ss with
      | nil => rfl
      | cons s ss ihss =>
          obtain ⟨hs, hss⟩ := List.forall_mem_cons.mp ih
          rw [List.flatMap_cons, Stmt.renderAll_append, hs, ihss hss, Stmt.renderAll]

theorem Stmt.flat_eq_flatMap (s : Stmt) : s.flat = s.dissolved.flatMap Stmt.flat := by
  induction s using Stmt.suiteInduction with
  | single s hs => rw [Stmt.dissolved_of_not_isSuite hs, List.flatMap_singleton]
  | suite ss ih =>
      rw [Stmt.dissolved_suite, Stmt.flat]
      induction ss with
      | nil => rfl
      | cons s ss ihss =>
          obtain ⟨hs, hss⟩ := List.forall_mem_cons.mp ih
          rw [List.flatMap_cons, List.flatMap_append, ← hs, ← ihss hss, Stmt.flatAll]

end TreeIR
