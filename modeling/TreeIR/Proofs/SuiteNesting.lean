import TreeIR.Proofs.Rearrangement

/-!
# Suites are only punctuation

A suite opens a scope and closes it again, but in the target it leaves no trace:
its statements stand one after the other. So it should not matter how the
statements of a program are grouped. A body may be put into a suite of its own,
and a suite inside a suite may be dissolved; neither the text nor the diagnostic
text shows it, nor does the error of a program that cannot be lowered.

There is one thing that a suite does keep to itself, and that is the functions
defined in it. A suite that defines none directly can be dissolved, and this is
all that is asked.

`Regroups` makes one such change anywhere in a tree and `Regrouped` any number of
them, forth and back. The two changes themselves are about lists of statements.
The rest is congruence, this time with equality: an error quotes the node it was
found at, and the quotation is the same because the diagnostic text is.
-/

namespace TreeIR

open Lowering

/-- Does this statement define a function? -/
def Stmt.definesFunction : Stmt → Bool
  | .assign _ true (.func ..) => true
  | _ => false

namespace Node

/-- The second tree is the first one with one body put into a suite, or with one
suite dissolved that defines no function of its own. -/
inductive Regroups : Node → Node → Prop
  | funcSuite {params : List Param} {result : Ty} {s : Stmt} :
      Regroups (.expr (.func params result s)) (.expr (.func params result (.suite [s])))
  | forEachSuite {item : String} {source : Expr} {s : Stmt} :
      Regroups (.stmt (.forEach item source s)) (.stmt (.forEach item source (.suite [s])))
  | whileSuite {cond : Expr} {s : Stmt} :
      Regroups (.stmt (.whileDo cond s)) (.stmt (.whileDo cond (.suite [s])))
  | caseSuite {cond : Expr} {s : Stmt} : Regroups (.case ⟨cond, s⟩) (.case ⟨cond, .suite [s]⟩)
  | fallbackSuite {s : Stmt} : Regroups (.fallback s) (.fallback (.suite [s]))
  | dissolve {before inner after : List Stmt} (h : ∀ s ∈ inner, s.definesFunction = false) :
      Regroups (.stmt (.suite (before ++ .suite inner :: after)))
        (.stmt (.suite (before ++ inner ++ after)))
  -- somewhere inside an expression or an argument
  | funcBody {params : List Param} {result : Ty} {s s' : Stmt}
      (h : Regroups (.stmt s) (.stmt s')) :
      Regroups (.expr (.func params result s)) (.expr (.func params result s'))
  | createArg {t : Ty} {before after : List Arg} {a a' : Arg}
      (h : Regroups (.arg a) (.arg a')) :
      Regroups (.expr (.create t (before ++ a :: after)))
        (.expr (.create t (before ++ a' :: after)))
  | callArg {callee : String} {before after : List Arg} {a a' : Arg}
      (h : Regroups (.arg a) (.arg a')) :
      Regroups (.expr (.call callee (before ++ a :: after)))
        (.expr (.call callee (before ++ a' :: after)))
  | arg {name : String} {e e' : Expr} (h : Regroups (.expr e) (.expr e')) :
      Regroups (.arg ⟨name, e⟩) (.arg ⟨name, e'⟩)
  -- somewhere inside a statement or a case
  | assign {target : String} {defines : Bool} {e e' : Expr}
      (h : Regroups (.expr e) (.expr e')) :
      Regroups (.stmt (.assign target defines e)) (.stmt (.assign target defines e'))
  | eval {e e' : Expr} (h : Regroups (.expr e) (.expr e')) :
      Regroups (.stmt (.eval e)) (.stmt (.eval e'))
  | forEachSource {item : String} {e e' : Expr} {body : Stmt}
      (h : Regroups (.expr e) (.expr e')) :
      Regroups (.stmt (.forEach item e body)) (.stmt (.forEach item e' body))
  | forEachBody {item : String} {source : Expr} {s s' : Stmt}
      (h : Regroups (.stmt s) (.stmt s')) :
      Regroups (.stmt (.forEach item source s)) (.stmt (.forEach item source s'))
  | whileCond {e e' : Expr} {body : Stmt} (h : Regroups (.expr e) (.expr e')) :
      Regroups (.stmt (.whileDo e body)) (.stmt (.whileDo e' body))
  | whileBody {cond : Expr} {s s' : Stmt} (h : Regroups (.stmt s) (.stmt s')) :
      Regroups (.stmt (.whileDo cond s)) (.stmt (.whileDo cond s'))
  | branchCase {before after : List Case} {c c' : Case} {last : Option Stmt}
      (h : Regroups (.case c) (.case c')) :
      Regroups (.stmt (.branch (before ++ c :: after) last))
        (.stmt (.branch (before ++ c' :: after) last))
  | branchLast {cases : List Case} {s s' : Stmt} (h : Regroups (.fallback s) (.fallback s')) :
      Regroups (.stmt (.branch cases (some s))) (.stmt (.branch cases (some s')))
  | ret {e e' : Expr} (h : Regroups (.expr e) (.expr e')) :
      Regroups (.stmt (.ret (some e))) (.stmt (.ret (some e')))
  | suite {before after : List Stmt} {s s' : Stmt} (h : Regroups (.stmt s) (.stmt s')) :
      Regroups (.stmt (.suite (before ++ s :: after))) (.stmt (.suite (before ++ s' :: after)))
  | caseCond {e e' : Expr} {body : Stmt} (h : Regroups (.expr e) (.expr e')) :
      Regroups (.case ⟨e, body⟩) (.case ⟨e', body⟩)
  | caseBody {cond : Expr} {s s' : Stmt} (h : Regroups (.stmt s) (.stmt s')) :
      Regroups (.case ⟨cond, s⟩) (.case ⟨cond, s'⟩)
  | fallback {s s' : Stmt} (h : Regroups (.stmt s) (.stmt s')) :
      Regroups (.fallback s) (.fallback s')

/-- The statements are grouped in another way, at any number of places. -/
def Regrouped : Node → Node → Prop :=
  Relation.EqvGen Regroups

namespace Regroups

theorem arg_name {a a' : Arg} (h : Regroups (.arg a) (.arg a')) : a.name = a'.name := by
  cases h
  rfl

theorem arg_isInert {a a' : Arg} (h : Regroups (.arg a) (.arg a')) :
    a.value.isInert = a'.value.isInert := by
  cases h with
  | arg h => cases h <;> rfl

theorem stmt_after {s s' : Stmt} (h : Regroups (.stmt s) (.stmt s')) (v : View) :
    v.after s = v.after s' := by
  cases h with
  | @assign target defines e e' h =>
      cases defines with
      | false => rfl
      | true => cases h <;> rfl
  | _ => rfl

end Regroups

end Node

section Lists

variable {d : Descriptor} {i : Indent} {v : View}

theorem Stmt.render_suite (ss : List Stmt) :
    (Stmt.suite ss).render = String.join (ss.map Stmt.render) := by
  rw [Stmt.render]
  induction ss with
  | nil => rfl
  | cons s ss ih => rw [Stmt.renderAll, ih, List.map_cons, String.join_cons]

theorem Case.renderAll_eq_join (cs : List Case) :
    Case.renderAll cs = String.join (cs.map Case.render) := by
  induction cs with
  | nil => rfl
  | cons c cs ih =>
      obtain ⟨cond, body⟩ := c
      rw [Case.renderAll, ih, List.map_cons, String.join_cons]
      rfl

theorem Arg.renderAll_eq_map (as : List Arg) : Arg.renderAll as = as.map Arg.render := by
  induction as with
  | nil => rfl
  | cons a as ih =>
      obtain ⟨name, value⟩ := a
      rw [Arg.renderAll, ih]
      rfl

theorem Stmt.after_of_not_definesFunction {s : Stmt} (h : s.definesFunction = false) :
    v.after s = v := by
  unfold View.after
  split
  · cases h
  · rfl

theorem Stmt.lowerAllIn_singleton (s : Stmt) :
    Stmt.lowerAllIn d i v [s] = s.lowerIn d i v := by
  rw [Stmt.lowerAllIn, Stmt.lowerAllIn]
  show (s.lowerIn d i v >>= fun text => pure (text ++ "")) = s.lowerIn d i v
  simp only [String.append_empty, bind_pure]

/-- What follows may be exchanged for what is the same wherever it stands. -/
theorem Stmt.lowerAllIn_append_congr {after after' : List Stmt}
    (h : ∀ v, Stmt.lowerAllIn d i v after = Stmt.lowerAllIn d i v after')
    (before : List Stmt) :
    Stmt.lowerAllIn d i v (before ++ after) = Stmt.lowerAllIn d i v (before ++ after') := by
  induction before generalizing v with
  | nil => exact h v
  | cons s before ih =>
      rw [List.cons_append, List.cons_append, Stmt.lowerAllIn, Stmt.lowerAllIn, ih]

/-- Statements that define no function leave what follows as it was. -/
theorem Stmt.lowerAllIn_append {inner : List Stmt}
    (h : ∀ s ∈ inner, s.definesFunction = false) (after : List Stmt) :
    Stmt.lowerAllIn d i v (inner ++ after)
      = (do return (← Stmt.lowerAllIn d i v inner) ++ (← Stmt.lowerAllIn d i v after)) := by
  induction inner with
  | nil =>
      rw [List.nil_append, Stmt.lowerAllIn]
      show _ = (Stmt.lowerAllIn d i v after >>= fun text => pure ("" ++ text))
      simp only [String.empty_append, bind_pure]
  | cons s inner ih =>
      obtain ⟨hs, hinner⟩ := List.forall_mem_cons.mp h
      rw [List.cons_append, Stmt.lowerAllIn, Stmt.lowerAllIn,
        Stmt.after_of_not_definesFunction hs, ih hinner]
      simp only [bind_assoc, pure_bind, String.append_assoc]

theorem Stmt.lowerAllIn_dissolve {inner : List Stmt}
    (h : ∀ s ∈ inner, s.definesFunction = false) (after : List Stmt) :
    Stmt.lowerAllIn d i v (.suite inner :: after) = Stmt.lowerAllIn d i v (inner ++ after) := by
  rw [Stmt.lowerAllIn_append h, Stmt.lowerAllIn, Stmt.lowerIn]
  rfl

theorem Case.lowerAllIn_congr {c c' : Case}
    (h : Case.lowerAllIn d i v [c] = Case.lowerAllIn d i v [c']) (before after : List Case) :
    Case.lowerAllIn d i v (before ++ c :: after)
      = Case.lowerAllIn d i v (before ++ c' :: after) := by
  induction before with
  | nil =>
      rw [List.nil_append, List.nil_append, Case.lowerAllIn_cons c, Case.lowerAllIn_cons c', h]
  | cons b before ih =>
      rw [List.cons_append, List.cons_append, Case.lowerAllIn_cons b, ih,
        ← Case.lowerAllIn_cons b]

theorem Stmt.lowerIn_branch_some (cases : List Case) (s : Stmt) :
    (Stmt.branch cases (some s)).lowerIn d i v
      = (do return Target.branchHead ++ (← Case.lowerAllIn d i v cases) ++
          (← (Node.fallback s).lowerIn d i v)) := by
  simp only [Stmt.lowerIn, Node.lowerIn, bind_assoc, pure_bind]

end Lists

/-! ## Nodes that can be exchanged

Other than for rearranged trees, errors count as well: nodes are exchanged if they cannot
be told apart by anything that is written of them. -/

namespace Node

/-- Two nodes that look the same: their texts are, wherever they stand, and so
are their diagnostic texts. -/
structure Same (n n' : Node) : Prop where
  render : n.render = n'.render
  lowerIn : ∀ d i v, n.lowerIn d i v = n'.lowerIn d i v

/-- A suite around one statement does not show. -/
theorem same_suite (s : Stmt) : Same (.stmt s) (.stmt (.suite [s])) where
  render := by
    show s.render = (Stmt.suite [s]).render
    rw [Stmt.render_suite, List.map_singleton, String.join_cons, String.join_nil,
      String.append_empty]
  lowerIn d i v := by
    show s.lowerIn d i v = (Stmt.suite [s]).lowerIn d i v
    rw [Stmt.lowerIn, Stmt.lowerAllIn_singleton]

theorem same_dissolve {before inner after : List Stmt}
    (h : ∀ s ∈ inner, s.definesFunction = false) :
    Same (.stmt (.suite (before ++ .suite inner :: after)))
      (.stmt (.suite (before ++ inner ++ after))) where
  render := by
    show (Stmt.suite _).render = (Stmt.suite _).render
    simp only [Stmt.render_suite, List.map_append, List.map_cons, String.join_append,
      String.join_cons, String.append_assoc]
  lowerIn d i v := by
    show (Stmt.suite _).lowerIn d i v = (Stmt.suite _).lowerIn d i v
    rw [Stmt.lowerIn, Stmt.lowerIn, List.append_assoc]
    exact Stmt.lowerAllIn_append_congr (fun v => Stmt.lowerAllIn_dissolve h after) before

namespace Same

variable {e e' : Expr} {s s' : Stmt}

theorem refl (n : Node) : Same n n := ⟨rfl, fun _ _ _ => rfl⟩

theorem expr_render (h : Same (.expr e) (.expr e')) : e.render = e'.render := h.render

theorem expr_lowerIn (h : Same (.expr e) (.expr e')) (d : Descriptor) (i : Indent) (v : View) :
    e.lowerIn d i v = e'.lowerIn d i v := h.lowerIn d i v

theorem stmt_render (h : Same (.stmt s) (.stmt s')) : s.render = s'.render := h.render

theorem stmt_lowerIn (h : Same (.stmt s) (.stmt s')) (d : Descriptor) (i : Indent) (v : View) :
    s.lowerIn d i v = s'.lowerIn d i v := h.lowerIn d i v

theorem func {params : List Param} {result : Ty} (h : Same (.stmt s) (.stmt s')) :
    Same (.expr (.func params result s)) (.expr (.func params result s')) where
  render := by simp only [Node.render, Expr.render, h.stmt_render]
  lowerIn d i v := by simp only [Node.lowerIn, Expr.lowerIn, h.stmt_lowerIn]

theorem define {target : String} {params : List Param} {result : Ty}
    (h : Same (.stmt s) (.stmt s')) :
    Same (.stmt (.assign target true (.func params result s)))
      (.stmt (.assign target true (.func params result s'))) where
  render := by simp only [Node.render, Stmt.render, Expr.render, h.stmt_render]
  lowerIn d i v := by simp only [Node.lowerIn, Stmt.lowerIn, h.stmt_lowerIn]

theorem declare {target : String} (h : Same (.expr e) (.expr e')) (he : e.paramNames? = none)
    (he' : e'.paramNames? = none) :
    Same (.stmt (.assign target true e)) (.stmt (.assign target true e')) where
  render := by simp only [Node.render, Stmt.render, h.expr_render]
  lowerIn d i v := by
    simp only [Node.lowerIn, Stmt.lowerIn_declare he, Stmt.lowerIn_declare he', h.expr_lowerIn]

theorem update {target : String} (h : Same (.expr e) (.expr e')) :
    Same (.stmt (.assign target false e)) (.stmt (.assign target false e')) where
  render := by simp only [Node.render, Stmt.render, h.expr_render]
  lowerIn d i v := by simp only [Node.lowerIn, Stmt.lowerIn, h.expr_lowerIn]

theorem eval (h : Same (.expr e) (.expr e')) : Same (.stmt (.eval e)) (.stmt (.eval e')) where
  render := by simp only [Node.render, Stmt.render, h.expr_render]
  lowerIn d i v := by simp only [Node.lowerIn, Stmt.lowerIn, h.expr_lowerIn]

theorem forEach {item : String} (he : Same (.expr e) (.expr e'))
    (hs : Same (.stmt s) (.stmt s')) :
    Same (.stmt (.forEach item e s)) (.stmt (.forEach item e' s')) where
  render := by simp only [Node.render, Stmt.render, he.expr_render, hs.stmt_render]
  lowerIn d i v := by simp only [Node.lowerIn, Stmt.lowerIn, he.expr_lowerIn, hs.stmt_lowerIn]

theorem whileDo (he : Same (.expr e) (.expr e')) (hs : Same (.stmt s) (.stmt s')) :
    Same (.stmt (.whileDo e s)) (.stmt (.whileDo e' s')) where
  render := by simp only [Node.render, Stmt.render, he.expr_render, hs.stmt_render]
  lowerIn d i v := by simp only [Node.lowerIn, Stmt.lowerIn, he.expr_lowerIn, hs.stmt_lowerIn]

/-- The value of a return shows in its error as well. -/
theorem ret (h : Same (.expr e) (.expr e')) :
    Same (.stmt (.ret (some e))) (.stmt (.ret (some e'))) where
  render := by simp only [Node.render, Stmt.render, h.expr_render]
  lowerIn d i v := by simp only [Node.lowerIn, Stmt.lowerIn, h.expr_lowerIn, h.expr_render]

theorem case (he : Same (.expr e) (.expr e')) (hs : Same (.stmt s) (.stmt s')) :
    Same (.case ⟨e, s⟩) (.case ⟨e', s'⟩) where
  render := by simp only [Node.render, Case.render, he.expr_render, hs.stmt_render]
  lowerIn d i v := by
    simp only [Node.lowerIn, Case.lowerAllIn, he.expr_lowerIn, hs.stmt_lowerIn]

theorem fallback (h : Same (.stmt s) (.stmt s')) : Same (.fallback s) (.fallback s') where
  render := by simp only [Node.render, h.stmt_render]
  lowerIn d i v := by simp only [Node.lowerIn, h.stmt_lowerIn]

/-- One statement of a suite. What comes after it must see the same functions. -/
theorem suite {before after : List Stmt} (h : Same (.stmt s) (.stmt s'))
    (hafter : ∀ v : View, v.after s = v.after s') :
    Same (.stmt (.suite (before ++ s :: after))) (.stmt (.suite (before ++ s' :: after))) where
  render := by
    simp only [Node.render, Stmt.render_suite, List.map_append, List.map_cons, h.stmt_render]
  lowerIn d i v := by
    simp only [Node.lowerIn, Stmt.lowerIn]
    refine Stmt.lowerAllIn_append_congr (fun v => ?_) before
    rw [Stmt.lowerAllIn, Stmt.lowerAllIn, h.stmt_lowerIn, hafter]

theorem branchCase {before after : List Case} {c c' : Case} {last : Option Stmt}
    (h : Same (.case c) (.case c')) :
    Same (.stmt (.branch (before ++ c :: after) last))
      (.stmt (.branch (before ++ c' :: after) last)) where
  render := by
    have hc : c.render = c'.render := h.render
    cases last <;> simp only [Node.render, Stmt.render, Case.renderAll_eq_join, List.map_append,
      List.map_cons, hc]
  lowerIn d i v := by
    have hcases := Case.lowerAllIn_congr (h.lowerIn d i v) before after
    cases last <;> simp only [Node.lowerIn, Stmt.lowerIn, hcases]

theorem branchLast {cases : List Case} (h : Same (.fallback s) (.fallback s')) :
    Same (.stmt (.branch cases (some s))) (.stmt (.branch cases (some s'))) where
  render := by
    have hlast : Form.fallback s.render = Form.fallback s'.render := h.render
    simp only [Node.render, Stmt.render, hlast]
  lowerIn d i v := by
    show (Stmt.branch cases _).lowerIn d i v = (Stmt.branch cases _).lowerIn d i v
    rw [Stmt.lowerIn_branch_some, Stmt.lowerIn_branch_some, h.lowerIn]

/-- One argument of an application. Its name and whether it has an effect decide
how it is passed. -/
theorem application {before after : List Arg} {a a' : Arg} (h : Same (.arg a) (.arg a'))
    (hname : a.name = a'.name) (hinert : a.value.isInert = a'.value.isInert) :
    (∀ callee, Same (.expr (.call callee (before ++ a :: after)))
      (.expr (.call callee (before ++ a' :: after)))) ∧
    ∀ t, Same (.expr (.create t (before ++ a :: after)))
      (.expr (.create t (before ++ a' :: after))) := by
  have hnode : a.render = a'.render := h.render
  have hvalue : ∀ d i v, a.value.lowerIn d i v = a'.value.lowerIn d i v := h.lowerIn
  have hrender : Arg.renderAll (before ++ a :: after) = Arg.renderAll (before ++ a' :: after) := by
    simp only [Arg.renderAll_eq_map, List.map_append, List.map_cons, hnode]
  have horder : ∀ node declared, orderFor node declared (before ++ a :: after)
      = orderFor node declared (before ++ a' :: after) := by
    intro node declared
    simp only [orderFor, List.map_append, List.map_cons, hname]
  have hdirect : ∀ order, passDirectly (before ++ a :: after) order
      = passDirectly (before ++ a' :: after) order := by
    intro order
    apply passDirectly_congr
    simp only [List.map_append, List.map_cons, hinert]
  have hvalues : ∀ d i v, Arg.lowerAllIn d i v (before ++ a :: after)
      = Arg.lowerAllIn d i v (before ++ a' :: after) := by
    intro d i v
    simp only [Arg.lowerAllIn_eq_map, List.map_append, List.map_cons, hvalue]
  refine ⟨fun callee => ⟨?_, fun d i v => ?_⟩, fun t => ⟨?_, fun d i v => ?_⟩⟩
  · simp only [Node.render, Expr.render, hrender]
  · simp only [Node.lowerIn, Expr.lowerIn, Expr.render, hrender, horder, hdirect, hvalues]
  · simp only [Node.render, Expr.render, hrender]
  · simp only [Node.lowerIn, Expr.lowerIn, Expr.render, hrender, horder, hdirect, hvalues]

end Same

/-- Nodes that look the same, also where an expression is given a name. -/
structure Interchangeable (n n' : Node) : Prop extends Same n n' where
  definition : ∀ target e e', n = .expr e → n' = .expr e' →
    Same (.stmt (.assign target true e)) (.stmt (.assign target true e'))

namespace Interchangeable

theorem of_func {params : List Param} {result : Ty} {s s' : Stmt}
    (h : Same (.stmt s) (.stmt s')) :
    Interchangeable (.expr (.func params result s)) (.expr (.func params result s')) := by
  refine ⟨h.func, ?_⟩
  rintro target _ _ ⟨⟩ ⟨⟩
  exact h.define

theorem of_application {e e' : Expr} (h : Same (.expr e) (.expr e')) (he : e.paramNames? = none)
    (he' : e'.paramNames? = none) : Interchangeable (.expr e) (.expr e') := by
  refine ⟨h, ?_⟩
  rintro target _ _ ⟨⟩ ⟨⟩
  exact h.declare he he'

end Interchangeable

/-- One step does not show anywhere. -/
theorem Regroups.interchangeable {n n' : Node} (h : Regroups n n') : Interchangeable n n' := by
  induction h with
  | funcSuite => exact .of_func (same_suite _)
  | forEachSuite => exact ⟨.forEach (.refl _) (same_suite _), nofun⟩
  | whileSuite => exact ⟨.whileDo (.refl _) (same_suite _), nofun⟩
  | caseSuite => exact ⟨.case (.refl _) (same_suite _), nofun⟩
  | fallbackSuite => exact ⟨.fallback (same_suite _), nofun⟩
  | dissolve h => exact ⟨same_dissolve h, nofun⟩
  | funcBody _ ih => exact .of_func ih.toSame
  | createArg h ih =>
      exact .of_application ((ih.toSame.application h.arg_name h.arg_isInert).2 _) rfl rfl
  | callArg h ih =>
      exact .of_application ((ih.toSame.application h.arg_name h.arg_isInert).1 _) rfl rfl
  | @arg name e e' _ ih =>
      refine ⟨⟨?_, ih.lowerIn⟩, nofun⟩
      exact congrArg (Form.arg name) ih.toSame.expr_render
  | @assign target defines e e' _ ih =>
      cases defines with
      | true => exact ⟨ih.definition target e e' rfl rfl, nofun⟩
      | false => exact ⟨ih.toSame.update, nofun⟩
  | eval _ ih => exact ⟨ih.toSame.eval, nofun⟩
  | forEachSource _ ih => exact ⟨ih.toSame.forEach (.refl _), nofun⟩
  | forEachBody _ ih => exact ⟨.forEach (.refl _) ih.toSame, nofun⟩
  | whileCond _ ih => exact ⟨ih.toSame.whileDo (.refl _), nofun⟩
  | whileBody _ ih => exact ⟨.whileDo (.refl _) ih.toSame, nofun⟩
  | branchCase _ ih => exact ⟨ih.toSame.branchCase, nofun⟩
  | branchLast _ ih => exact ⟨ih.toSame.branchLast, nofun⟩
  | ret _ ih => exact ⟨ih.toSame.ret, nofun⟩
  | suite h ih => exact ⟨ih.toSame.suite h.stmt_after, nofun⟩
  | caseCond _ ih => exact ⟨ih.toSame.case (.refl _), nofun⟩
  | caseBody _ ih => exact ⟨.case (.refl _) ih.toSame, nofun⟩
  | fallback _ ih => exact ⟨ih.toSame.fallback, nofun⟩

theorem Regrouped.same {n n' : Node} (h : Regrouped n n') : Same n n' := by
  induction h with
  | rel n n' h => exact h.interchangeable.toSame
  | refl n => exact .refl n
  | symm n n' _ ih => exact ⟨ih.render.symm, fun d i v => (ih.lowerIn d i v).symm⟩
  | trans n n' n'' _ _ ih ih' =>
      exact ⟨ih.render.trans ih'.render,
        fun d i v => (ih.lowerIn d i v).trans (ih'.lowerIn d i v)⟩

end Node

/-- How the statements of a tree are grouped into suites does not show, as long as
no function leaves or enters the suite it is defined in: the diagnostic text is
the same, and so is the result of every lowering, be it a text or an error. -/
theorem render_lower_of_regrouped (n n' : Node) (h : n.Regrouped n') :
    n.render = n'.render ∧ ∀ d l, lower d l n = lower d l n' := by
  refine ⟨h.same.render, fun d l => ?_⟩
  rw [lower, lower, Node.lower_start, Node.lower_start]
  exact h.same.lowerIn d l.indent _

/-- A suite is dissolved, a body inside an argument gets one and a suite is made of
another statement. The call cannot be lowered, and both errors quote it. -/
theorem render_lower_of_regrouped_failing :
    let x : Stmt := .eval (.ident "x")
    let call (body : Stmt) : Stmt := .eval (.call "k" [⟨"a", .func [] (.named "T") body⟩])
    let n : Node := .stmt (.suite [.suite [x, call .brk], .ret none])
    let n' : Node := .stmt (.suite [.suite [x], call (.suite [.brk]), .ret none])
    n.Regrouped n' ∧ n.render = n'.render ∧
      ∃ e, lower .empty {} n = .error e ∧ lower .empty {} n' = .error e := by
  intro x call n n'
  have hdissolve : n.Regrouped (.stmt (.suite [x, call .brk, .ret none])) := by
    refine .rel _ _ (@Node.Regroups.dissolve [] [x, call .brk] [.ret none] ?_)
    simp [x, call, Stmt.definesFunction]
  have hbody : Node.Regrouped (.stmt (.suite [x, call .brk, .ret none]))
      (.stmt (.suite [x, call (.suite [.brk]), .ret none])) := by
    refine .rel _ _ (@Node.Regroups.suite [x] [.ret none] (call .brk) (call (.suite [.brk])) ?_)
    exact .eval (@Node.Regroups.callArg "k" [] [] _ _ (.arg .funcSuite))
  have hmake : n'.Regrouped (.stmt (.suite [x, call (.suite [.brk]), .ret none])) := by
    refine .rel _ _ (@Node.Regroups.dissolve [] [x] _ ?_)
    simp [x, Stmt.definesFunction]
  have h : n.Regrouped n' := .trans _ _ _ (.trans _ _ _ hdissolve hbody) (.symm _ _ hmake)
  obtain ⟨hrender, hlower⟩ := render_lower_of_regrouped n n' h
  have hfails : lower .empty {} n = .error ⟨.undeclaredFunction "k",
      "($k($a=()->#T\x7b\n  break\n\x7d))"⟩ := by rfl
  exact ⟨h, hrender, _, hfails, (hlower .empty {}).symm.trans hfails⟩

-- A suite that defines a function does show: the function ends with it.
example :
    let f : Stmt := .assign "f" true (.func [] (.named "T") (.ret none))
    let call : Stmt := .eval (.call "f" [])
    (lower .empty {} (.stmt (.suite [f, call]))).isOk = true ∧
      (lower .empty {} (.stmt (.suite [.suite [f], call]))).isOk = false := by
  exact ⟨rfl, rfl⟩

end TreeIR
