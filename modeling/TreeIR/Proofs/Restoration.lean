import TreeIR.Proofs.LexicalScope
import TreeIR.Tree.Kind

/-!
# What a lowering leaves behind

The surroundings are changed in place while a tree is lowered, and a lowering
may stop at any point inside it. Scopes that stayed open or loops that stayed
counted would not be noticed there: closing the last scope does nothing, and
neither does closing a loop when none is open. They would only make a later
name mean something else.

So the surroundings after a lowering are those before it, stopped or not. There
is one exception, and it is wanted: a statement that gives a name to a function
leaves the name behind in the innermost scope, for the statements after it. It
does so even if the function itself cannot be lowered, because the name is
entered first.
-/

namespace TreeIR

open Lowering

/-- The function that a node gives a name to, with the names of its parameters. -/
def Node.defined? : Node → Option (String × List String)
  | .stmt (.assign name true (.func params _ _)) => some (name, params.map Param.name)
  | _ => none

theorem Node.defined?_eq_none_of_kind {n : Node} (h : n.kind ≠ .assign) :
    n.defined? = none := by
  unfold Node.defined?
  split
  · exact absurd rfl h
  · rfl

namespace Lowering.Env

variable {env : Env} {n : Node}

theorem afterNode_of_none (h : n.defined? = none) : env.afterNode n = env := by
  unfold afterNode
  split
  · next s =>
      unfold after
      split
      · cases h
      · rfl
  · rfl

theorem afterNode_of_some {name : String} {params : List String}
    (h : n.defined? = some (name, params)) : env.afterNode n = env.define name params := by
  unfold Node.defined? at h
  split at h
  · cases h
    rfl
  · cases h

end Lowering.Env

/-- After a lowering, whether it succeeds or fails and wherever it fails, the
surroundings are what they were, descriptor, open loops and every scope. Only a
definition of a function is entered, into the innermost scope and nowhere else. -/
theorem Node.lower_restores (i : Indent) (n : Node) (env : Env) (hs : env.scopes ≠ []) :
    (n.defined? = none → (n.lower i env).2 = env) ∧
    (n.kind ≠ .assign → (n.lower i env).2 = env) ∧
    ∀ name params, n.defined? = some (name, params) →
      ∃ scope rest, env.scopes = scope :: rest ∧
        (n.lower i env).2 = { env with scopes := Table.insert name params scope :: rest } ∧
        (n.lower i env).2.paramsOf name = some params := by
  have hafter : (n.lower i env).2 = env.afterNode n := by rw [Node.lower_run i n hs]
  have hnone : n.defined? = none → (n.lower i env).2 = env := fun h =>
    hafter.trans (Env.afterNode_of_none h)
  refine ⟨hnone, fun h => hnone (Node.defined?_eq_none_of_kind h), ?_⟩
  intro name params h
  obtain ⟨scope, rest, hscopes⟩ := List.exists_cons_of_ne_nil hs
  have hdefine : env.define name params
      = { env with scopes := Table.insert name params scope :: rest } := by
    rw [Env.define, hscopes]
  refine ⟨scope, rest, hscopes, ?_, ?_⟩
  · rw [hafter, Env.afterNode_of_some h, hdefine]
  · rw [hafter, Env.afterNode_of_some h, ← Env.view_paramsOf, Env.view_define hs]
    exact if_pos rfl

/-- A function that cannot be lowered, because a loop in its body calls an
unknown one after defining another, in a loop and under an outer function of its
name. -/
theorem Node.lower_restores_failing :
    let env : Env := ⟨Descriptor.empty, [[("g", [])], [("f", ["x"])]], 2⟩
    let body : Stmt := .whileDo (.ident "c")
      (.suite [.assign "h" true (.func [] (.named "T") (.suite [])), .eval (.call "k" [])])
    let n : Node := .stmt (.assign "f" true (.func [⟨"y", .named "T"⟩] (.named "T") body))
    env.scopes ≠ [] ∧ (∃ e, (n.lower .tabs env).1 = .error e) ∧
      (n.lower .tabs env).2
        = ⟨Descriptor.empty, [[("g", []), ("f", ["y"])], [("f", ["x"])]], 2⟩ := by
  intro env body n
  have hs : env.scopes ≠ [] := List.cons_ne_nil _ _
  obtain ⟨-, -, hsome⟩ := Node.lower_restores .tabs n env hs
  obtain ⟨scope, rest, hscopes, henv, -⟩ := hsome "f" ["y"] rfl
  cases hscopes
  exact ⟨hs, ⟨_, rfl⟩, henv⟩

end TreeIR
