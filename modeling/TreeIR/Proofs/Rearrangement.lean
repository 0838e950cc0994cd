import Mathlib.Logic.Relation
import TreeIR.Proofs.ByName

/-!
# The order of named arguments does not show

A program that lists its arguments in another order is the same program, as long
as nobody can tell when they are evaluated. For the arguments of a type that is
always so; for those of an application it is so if none of them has an effect.
This file proves that two such programs have the same text.

`Shuffles` puts the arguments of one node in another order, at any depth, and
`Rearranged` is what any number of such steps relates. A step at the root is
about tables, which do not know their order. All the rest is congruence: texts
are put together from the texts of parts, so a part may be exchanged for one that
agrees with it. Errors do not agree, as they show the node they were found at;
`Agree` therefore asks only for the same text, and for none on both sides.

The congruence has one joint that is not a plain one. A function that is given a
name is lowered with that name in sight, which its text by itself does not say,
so the induction carries the definition along with the expression.
-/

namespace TreeIR

open Lowering

namespace Node

/-- The second tree is the first one with one list of arguments in another
order. -/
inductive Shuffles : Node → Node → Prop
  | typeArgs {name : String} {as as' : List TypeArg} (h : as.Perm as') :
      Shuffles (.ty (.generic name as)) (.ty (.generic name as'))
  | createArgs {t : Ty} {as as' : List Arg} (hinert : ∀ a ∈ as, a.value.isInert = true)
      (h : as.Perm as') : Shuffles (.expr (.create t as)) (.expr (.create t as'))
  | callArgs {callee : String} {as as' : List Arg}
      (hinert : ∀ a ∈ as, a.value.isInert = true) (h : as.Perm as') :
      Shuffles (.expr (.call callee as)) (.expr (.call callee as'))
  -- somewhere inside a type or a parameter
  | generic {name : String} {before after : List TypeArg} {a a' : TypeArg}
      (h : Shuffles (.typeArg a) (.typeArg a')) :
      Shuffles (.ty (.generic name (before ++ a :: after)))
        (.ty (.generic name (before ++ a' :: after)))
  | typeArg {name : String} {t t' : Ty} (h : Shuffles (.ty t) (.ty t')) :
      Shuffles (.typeArg ⟨name, t⟩) (.typeArg ⟨name, t'⟩)
  | param {name : String} {t t' : Ty} (h : Shuffles (.ty t) (.ty t')) :
      Shuffles (.param ⟨name, t⟩) (.param ⟨name, t'⟩)
  -- somewhere inside an expression or an argument
  | funcParam {before after : List Param} {p p' : Param} {result : Ty} {body : Stmt}
      (h : Shuffles (.param p) (.param p')) :
      Shuffles (.expr (.func (before ++ p :: after) result body))
        (.expr (.func (before ++ p' :: after) result body))
  | funcResult {params : List Param} {t t' : Ty} {body : Stmt}
      (h : Shuffles (.ty t) (.ty t')) :
      Shuffles (.expr (.func params t body)) (.expr (.func params t' body))
  | funcBody {params : List Param} {result : Ty} {s s' : Stmt}
      (h : Shuffles (.stmt s) (.stmt s')) :
      Shuffles (.expr (.func params result s)) (.expr (.func params result s'))
  | createTy {t t' : Ty} {args : List Arg} (h : Shuffles (.ty t) (.ty t')) :
      Shuffles (.expr (.create t args)) (.expr (.create t' args))
  | createArg {t : Ty} {before after : List Arg} {a a' : Arg}
      (h : Shuffles (.arg a) (.arg a')) :
      Shuffles (.expr (.create t (before ++ a :: after)))
        (.expr (.create t (before ++ a' :: after)))
  | callArg {callee : String} {before after : List Arg} {a a' : Arg}
      (h : Shuffles (.arg a) (.arg a')) :
      Shuffles (.expr (.call callee (before ++ a :: after)))
        (.expr (.call callee (before ++ a' :: after)))
  | arg {name : String} {e e' : Expr} (h : Shuffles (.expr e) (.expr e')) :
      Shuffles (.arg ⟨name, e⟩) (.arg ⟨name, e'⟩)
  -- somewhere inside a statement or a case
  | assign {target : String} {defines : Bool} {e e' : Expr}
      (h : Shuffles (.expr e) (.expr e')) :
      Shuffles (.stmt (.assign target defines e)) (.stmt (.assign target defines e'))
  | eval {e e' : Expr} (h : Shuffles (.expr e) (.expr e')) :
      Shuffles (.stmt (.eval e)) (.stmt (.eval e'))
  | forEachSource {item : String} {e e' : Expr} {body : Stmt}
      (h : Shuffles (.expr e) (.expr e')) :
      Shuffles (.stmt (.forEach item e body)) (.stmt (.forEach item e' body))
  | forEachBody {item : String} {source : Expr} {s s' : Stmt}
      (h : Shuffles (.stmt s) (.stmt s')) :
      Shuffles (.stmt (.forEach item source s)) (.stmt (.forEach item source s'))
  | whileCond {e e' : Expr} {body : Stmt} (h : Shuffles (.expr e) (.expr e')) :
      Shuffles (.stmt (.whileDo e body)) (.stmt (.whileDo e' body))
  | whileBody {cond : Expr} {s s' : Stmt} (h : Shuffles (.stmt s) (.stmt s')) :
      Shuffles (.stmt (.whileDo cond s)) (.stmt (.whileDo cond s'))
  | branchCase {before after : List Case} {c c' : Case} {last : Option Stmt}
      (h : Shuffles (.case c) (.case c')) :
      Shuffles (.stmt (.branch (before ++ c :: after) last))
        (.stmt (.branch (before ++ c' :: after) last))
  | branchLast {cases : List Case} {s s' : Stmt}
      (h : Shuffles (.stmt s) (.stmt s')) :
      Shuffles (.stmt (.branch cases (some s))) (.stmt (.branch cases (some s')))
  | ret {e e' : Expr} (h : Shuffles (.expr e) (.expr e')) :
      Shuffles (.stmt (.ret (some e))) (.stmt (.ret (some e')))
  | suite {before after : List Stmt} {s s' : Stmt} (h : Shuffles (.stmt s) (.stmt s')) :
      Shuffles (.stmt (.suite (before ++ s :: after))) (.stmt (.suite (before ++ s' :: after)))
  | caseCond {e e' : Expr} {body : Stmt} (h : Shuffles (.expr e) (.expr e')) :
      Shuffles (.case ⟨e, body⟩) (.case ⟨e', body⟩)
  | caseBody {cond : Expr} {s s' : Stmt} (h : Shuffles (.stmt s) (.stmt s')) :
      Shuffles (.case ⟨cond, s⟩) (.case ⟨cond, s'⟩)
  | fallback {s s' : Stmt} (h : Shuffles (.stmt s) (.stmt s')) :
      Shuffles (.fallback s) (.fallback s')

/-- Any number of lists of arguments are in another order. -/
def Rearranged : Node → Node → Prop :=
  Relation.EqvGen Shuffles

namespace Shuffles

theorem ty_name {t t' : Ty} (h : Shuffles (.ty t) (.ty t')) : t.name = t'.name := by
  cases h <;> rfl

theorem typeArg_name {a a' : TypeArg} (h : Shuffles (.typeArg a) (.typeArg a')) :
    a.name = a'.name := by
  cases h
  rfl

theorem param_name {p p' : Param} (h : Shuffles (.param p) (.param p')) :
    p.name = p'.name := by
  cases h
  rfl

theorem arg_name {a a' : Arg} (h : Shuffles (.arg a) (.arg a')) : a.name = a'.name := by
  cases h
  rfl

theorem expr_isInert {e e' : Expr} (h : Shuffles (.expr e) (.expr e')) :
    e.isInert = e'.isInert := by
  cases h <;> rfl

theorem arg_isInert {a a' : Arg} (h : Shuffles (.arg a) (.arg a')) :
    a.value.isInert = a'.value.isInert := by
  cases h with
  | arg h => exact h.expr_isInert

theorem expr_paramNames? {e e' : Expr} (h : Shuffles (.expr e) (.expr e')) :
    e.paramNames? = e'.paramNames? := by
  cases h with
  | funcParam h =>
      simp only [Expr.paramNames?, List.map_append, List.map_cons, h.param_name]
  | _ => rfl

theorem stmt_after {s s' : Stmt} (h : Shuffles (.stmt s) (.stmt s')) (v : View) :
    v.after s = v.after s' := by
  cases h with
  | @assign target defines e e' h =>
      have hnames := h.expr_paramNames?
      cases defines with
      | false => rfl
      | true =>
          cases h with
          | funcParam | funcResult | funcBody =>
              exact congrArg (View.define target · v) (Option.some.inj hnames)
          | _ => rfl
  | _ => rfl

end Shuffles

end Node

/-! ## Results that agree

A rearranged tree may fail with another error, so errors are not compared. -/

namespace Lowering

/-- The same result, or none on either side. -/
def Agree {α : Type} (r r' : Except Error α) : Prop :=
  ∀ a, r = .ok a ↔ r' = .ok a

namespace Agree

variable {α β : Type} {r r' : Except Error α} {f f' : α → Except Error β}

theorem refl (r : Except Error α) : Agree r r := fun _ => Iff.rfl

theorem bind (h : Agree r r') (hf : ∀ a, Agree (f a) (f' a)) :
    Agree (r >>= f) (r' >>= f') := by
  intro b
  rw [bind_eq_ok_iff, bind_eq_ok_iff]
  exact exists_congr fun a => and_congr (h a) (hf a b)

theorem bind_left (h : Agree r r') (f : α → Except Error β) : Agree (r >>= f) (r' >>= f) :=
  h.bind fun a => refl (f a)

theorem bind_right (r : Except Error α) (hf : ∀ a, Agree (f a) (f' a)) :
    Agree (r >>= f) (r >>= f') :=
  (refl r).bind hf

theorem mapM {as as' : List α} (h : List.Forall₂ (fun a a' => Agree (f a) (f' a')) as as') :
    Agree (as.mapM f) (as'.mapM f') := by
  induction h with
  | nil => exact refl _
  | cons ha _ ih =>
      rw [List.mapM_cons, List.mapM_cons]
      exact ha.bind fun _ => ih.bind_left _

end Agree

/-- Lists that differ in one place. -/
theorem forall₂_middle {α : Type} {R : α → α → Prop} (hrefl : ∀ a, R a a) {a a' : α}
    (h : R a a') (before after : List α) :
    List.Forall₂ R (before ++ a :: after) (before ++ a' :: after) := by
  induction before with
  | nil => exact .cons h (List.forall₂_same.mpr fun a _ => hrefl a)
  | cons b before ih => exact .cons (hrefl b) ih

theorem agree_getD {rs rs' : List (Except Error String)} (h : List.Forall₂ Agree rs rs')
    (place : Nat) : Agree (rs.getD place (.ok "")) (rs'.getD place (.ok "")) := by
  induction h generalizing place with
  | nil => exact .refl _
  | cons hr _ ih =>
      cases place with
      | zero => exact hr
      | succ place => exact ih place

variable {i : Indent} {node node' : String} {declared : List String} {args args' : List Arg}
  {f f' : Arg → Except Error String} {write : String → String}

theorem agree_application {rs rs' : List (Except Error String)}
    (h : List.Forall₂ Agree rs rs') (direct : Bool) (order : List Nat) :
    Agree (application i direct order rs write) (application i direct order rs' write) := by
  cases direct with
  | true =>
      refine Agree.bind_left (Agree.mapM (List.forall₂_same.mpr fun place _ => ?_)) _
      exact agree_getD h place
  | false => exact Agree.bind_left (Agree.mapM h) _

theorem passDirectly_congr {order : List Nat}
    (h : args.map (·.value.isInert) = args'.map (·.value.isInert)) :
    passDirectly args order = passDirectly args' order := by
  have hlength : args.length = args'.length := by simpa using congrArg List.length h
  have hall := congrArg (List.all · id) h
  simp only [List.all_map] at hall
  rw [passDirectly, passDirectly, hlength]
  exact congrArg _ hall

/-- Arguments may be exchanged for ones of the same names whose texts agree, as
long as those with an effect keep having one. -/
theorem agree_applied
    (h : List.Forall₂ (fun a a' => a.name = a'.name ∧ a.value.isInert = a'.value.isInert ∧
      Agree (f a) (f' a')) args args') :
    Agree (applied i node declared args f write) (applied i node' declared args' f' write) := by
  have hnames : args.map Arg.name = args'.map Arg.name := by
    rw [← List.forall₂_eq_eq_eq, List.forall₂_map_left_iff, List.forall₂_map_right_iff]
    exact h.imp fun _ _ ha => ha.1
  have hinert : args.map (·.value.isInert) = args'.map (·.value.isInert) := by
    rw [← List.forall₂_eq_eq_eq, List.forall₂_map_left_iff, List.forall₂_map_right_iff]
    exact h.imp fun _ _ ha => ha.2.1
  have hvalues : List.Forall₂ Agree (args.map f) (args'.map f') := by
    rw [List.forall₂_map_left_iff, List.forall₂_map_right_iff]
    exact h.imp fun _ _ ha => ha.2.2
  refine Agree.bind (fun order => ?_) fun order => ?_
  · rw [orderFor_eq_ok_iff, orderFor_eq_ok_iff, hnames]
  · rw [passDirectly_congr hinert]
    exact agree_application hvalues _ order

/-- Where no argument has an effect, the order of the arguments does not matter. -/
theorem agree_applied_perm (hinert : ∀ a ∈ args, a.value.isInert = true)
    (h : args.Perm args') :
    Agree (applied i node declared args f write) (applied i node' declared args' f write) := by
  have hplain : ∀ {as : List Arg}, (∀ a ∈ as, a.value.isInert = true) →
      PassesPlainly as declared := fun has => Or.inl fun a ha => by
    simpa [Expr.isInert_eq] using has a ha
  intro out
  rw [applied_plainly_eq_ok_iff (hplain hinert),
    applied_plainly_eq_ok_iff (hplain fun a ha => hinert a (h.mem_iff.mpr ha)),
    (h.map Arg.name).nodup_iff]
  refine and_congr_right fun hnodup => exists_congr fun texts => and_congr_left fun _ => ?_
  exact reads_entries_perm_iff ((h.map Arg.name).nodup_iff.mpr hnodup) h

theorem agree_signature {d : Descriptor} {params params' : List Param} {t t' : Ty}
    (hparams : List.Forall₂ (fun p p' => Agree (p.lower d) (p'.lower d)) params params')
    (ht : Agree (t.lower d) (t'.lower d)) :
    Agree (lowerSignature d params t) (lowerSignature d params' t') :=
  Agree.bind (Agree.mapM hparams) fun _ => ht.bind_left _

theorem get?_entries_of_agree {α : Type} {key : α → String} {f : α → Except Error String}
    {as as' : List α} {name text : String}
    (h : List.Forall₂ (fun a a' => key a = key a' ∧ Agree (f a) (f a')) as as') :
    Table.get? name (as.map fun a => (key a, f a)) = some (.ok text) ↔
      Table.get? name (as'.map fun a => (key a, f a)) = some (.ok text) := by
  induction h with
  | nil => exact Iff.rfl
  | @cons a a' as as' ha _ ih =>
      rw [List.map_cons, List.map_cons, Table.get?_cons, Table.get?_cons, ha.1]
      by_cases hname : key a' = name
      · rw [if_pos hname, if_pos hname, Option.some.injEq, Option.some.injEq]
        exact ha.2 text
      · rw [if_neg hname, if_neg hname]
        exact ih

end Lowering

section Congruence

variable {d : Descriptor} {i : Indent} {v : View}

theorem Ty.agree_generic_perm {name : String} {as as' : List TypeArg} (h : as.Perm as') :
    Agree ((Ty.generic name as).lower d) ((Ty.generic name as').lower d) := by
  intro out
  rw [Ty.lower_generic_eq_ok_iff, Ty.lower_generic_eq_ok_iff,
    (h.map TypeArg.name).nodup_iff]
  refine exists_congr fun declared => and_congr_right fun _ => and_congr_right fun hnodup =>
    exists_congr fun texts => and_congr_left fun _ => ?_
  exact reads_entries_perm_iff ((h.map TypeArg.name).nodup_iff.mpr hnodup) h

theorem Ty.agree_generic {name : String} {as as' : List TypeArg}
    (h : List.Forall₂ (fun a a' => a.name = a'.name ∧ Agree (a.ty.lower d) (a'.ty.lower d))
      as as') :
    Agree ((Ty.generic name as).lower d) ((Ty.generic name as').lower d) := by
  have hnames : as.map TypeArg.name = as'.map TypeArg.name := by
    rw [← List.forall₂_eq_eq_eq, List.forall₂_map_left_iff, List.forall₂_map_right_iff]
    exact h.imp fun _ _ ha => ha.1
  intro out
  rw [Ty.lower_generic_eq_ok_iff, Ty.lower_generic_eq_ok_iff, hnames]
  refine exists_congr fun declared => and_congr_right fun _ => and_congr_right fun _ =>
    exists_congr fun texts => and_congr_left fun _ => reads_congr fun name text => ?_
  exact get?_entries_of_agree h

theorem Expr.agree_call {callee : String} {args args' : List Arg}
    (h : ∀ declared, Agree
      (applied i (Expr.call callee args).render declared args (fun a => a.value.lowerIn d i v)
        (Target.apply callee))
      (applied i (Expr.call callee args').render declared args'
        (fun a => a.value.lowerIn d i v) (Target.apply callee))) :
    Agree ((Expr.call callee args).lowerIn d i v) ((Expr.call callee args').lowerIn d i v) := by
  intro out
  rw [Expr.lowerIn_call_eq_ok_iff, Expr.lowerIn_call_eq_ok_iff]
  exact exists_congr fun declared => and_congr_right fun _ => h declared out

theorem Expr.agree_create {t t' : Ty} {args args' : List Arg} (hname : t.name = t'.name)
    (ht : Agree (t.lower d) (t'.lower d))
    (h : ∀ declared head, Agree
      (applied i (Expr.create t args).render declared args (fun a => a.value.lowerIn d i v)
        (Target.initialise head))
      (applied i (Expr.create t' args').render declared args'
        (fun a => a.value.lowerIn d i v) (Target.initialise head))) :
    Agree ((Expr.create t args).lowerIn d i v) ((Expr.create t' args').lowerIn d i v) := by
  intro out
  rw [Expr.lowerIn_create_eq_ok_iff, Expr.lowerIn_create_eq_ok_iff, hname]
  exact exists_congr fun declared => and_congr_right fun _ => exists_congr fun head =>
    and_congr (ht head) (h declared head out)

theorem Expr.agree_func {params params' : List Param} {t t' : Ty} {s s' : Stmt}
    (hsignature : Agree (lowerSignature d params t) (lowerSignature d params' t'))
    (hbody : ∀ v, Agree (s.lowerIn d i v) (s'.lowerIn d i v)) :
    Agree ((Expr.func params t s).lowerIn d i v) ((Expr.func params' t' s').lowerIn d i v) := by
  rw [Expr.lowerIn, Expr.lowerIn]
  exact hsignature.bind fun _ => (hbody _).bind_left _

theorem Stmt.agree_define {target : String} {params params' : List Param} {t t' : Ty}
    {s s' : Stmt} (hnames : params.map Param.name = params'.map Param.name)
    (hsignature : Agree (lowerSignature d params t) (lowerSignature d params' t'))
    (hbody : ∀ v, Agree (s.lowerIn d i v) (s'.lowerIn d i v)) :
    Agree ((Stmt.assign target true (.func params t s)).lowerIn d i v)
      ((Stmt.assign target true (.func params' t' s')).lowerIn d i v) := by
  rw [Stmt.lowerIn, Stmt.lowerIn, hnames]
  exact hsignature.bind fun _ => (hbody _).bind_left _

theorem Case.lowerAllIn_cons (c : Case) (cs : List Case) :
    Case.lowerAllIn d i v (c :: cs)
      = (do return (← Case.lowerAllIn d i v [c]) ++ (← Case.lowerAllIn d i v cs)) := by
  obtain ⟨cond, body⟩ := c
  rw [Case.lowerAllIn, Case.lowerAllIn, Case.lowerAllIn]
  cases cond.lowerIn d i v with
  | error e => rfl
  | ok condText =>
      cases body.lowerIn d i v with
      | error e => rfl
      | ok bodyText => simp only [bind, pure, Except.bind, Except.pure, String.append_empty]

theorem Case.agree_lowerAllIn {c c' : Case} {before after : List Case}
    (h : Agree (Case.lowerAllIn d i v [c]) (Case.lowerAllIn d i v [c'])) :
    Agree (Case.lowerAllIn d i v (before ++ c :: after))
      (Case.lowerAllIn d i v (before ++ c' :: after)) := by
  induction before with
  | nil =>
      rw [List.nil_append, List.nil_append, Case.lowerAllIn_cons c, Case.lowerAllIn_cons c']
      exact h.bind_left _
  | cons b before ih =>
      rw [List.cons_append, List.cons_append, Case.lowerAllIn_cons b (before ++ c :: after),
        Case.lowerAllIn_cons b (before ++ c' :: after)]
      exact .bind_right _ fun _ => ih.bind_left _

theorem Stmt.agree_lowerAllIn {s s' : Stmt} {before after : List Stmt}
    (hafter : ∀ v : View, v.after s = v.after s')
    (h : ∀ v, Agree (s.lowerIn d i v) (s'.lowerIn d i v)) :
    Agree (Stmt.lowerAllIn d i v (before ++ s :: after))
      (Stmt.lowerAllIn d i v (before ++ s' :: after)) := by
  induction before generalizing v with
  | nil =>
      rw [List.nil_append, List.nil_append, Stmt.lowerAllIn, Stmt.lowerAllIn, hafter v]
      exact (h v).bind_left _
  | cons b before ih =>
      rw [List.cons_append, List.cons_append, Stmt.lowerAllIn, Stmt.lowerAllIn]
      exact .bind_right _ fun _ => ih.bind_left _

end Congruence

/-- Nodes that can be exchanged for one another wherever they stand. -/
structure Node.Alike (d : Descriptor) (i : Indent) (n n' : Node) : Prop where
  text : ∀ v, Agree (n.lowerIn d i v) (n'.lowerIn d i v)
  /-- Given a name, expressions still agree. -/
  definition : ∀ v target e e', n = .expr e → n' = .expr e' →
    Agree ((Stmt.assign target true e).lowerIn d i v)
      ((Stmt.assign target true e').lowerIn d i v)

namespace Node

variable {d : Descriptor} {i : Indent}

theorem Alike.of_application {e e' : Expr} (he : e.paramNames? = none)
    (he' : e'.paramNames? = none) (h : ∀ v, Agree (e.lowerIn d i v) (e'.lowerIn d i v)) :
    Alike d i (.expr e) (.expr e') := by
  refine ⟨h, ?_⟩
  rintro v target _ _ ⟨⟩ ⟨⟩
  rw [Stmt.lowerIn_declare he, Stmt.lowerIn_declare he']
  exact (h v).bind_left _

theorem Alike.of_func {params params' : List Param} {t t' : Ty} {s s' : Stmt}
    (hnames : params.map Param.name = params'.map Param.name)
    (hsignature : Agree (lowerSignature d params t) (lowerSignature d params' t'))
    (hbody : ∀ v, Agree (s.lowerIn d i v) (s'.lowerIn d i v)) :
    Alike d i (.expr (.func params t s)) (.expr (.func params' t' s')) := by
  refine ⟨fun v => Expr.agree_func hsignature hbody, ?_⟩
  rintro v target _ _ ⟨⟩ ⟨⟩
  exact Stmt.agree_define hnames hsignature hbody

/-- One step makes no difference anywhere. -/
theorem Shuffles.alike {n n' : Node} (h : Shuffles n n') : Alike d i n n' := by
  induction h with
  | typeArgs h => exact ⟨fun v => Ty.agree_generic_perm h, nofun⟩
  | createArgs hinert h =>
      refine .of_application rfl rfl fun v => ?_
      exact Expr.agree_create rfl (.refl _) fun _ _ => agree_applied_perm hinert h
  | callArgs hinert h =>
      refine .of_application rfl rfl fun v => ?_
      exact Expr.agree_call fun _ => agree_applied_perm hinert h
  | generic h ih =>
      refine ⟨fun v => Ty.agree_generic ?_, nofun⟩
      exact forall₂_middle (fun _ => ⟨rfl, .refl _⟩) ⟨h.typeArg_name, ih.text v⟩ _ _
  | typeArg _ ih => exact ⟨ih.text, nofun⟩
  | param _ ih => exact ⟨fun v => (ih.text v).bind_left _, nofun⟩
  | funcParam h ih =>
      refine .of_func ?_ (agree_signature ?_ (.refl _)) fun _ => .refl _
      · simp only [List.map_append, List.map_cons, h.param_name]
      · refine forall₂_middle (fun _ => .refl _) ?_ _ _
        exact ih.text (View.start d)
  | funcResult _ ih =>
      refine .of_func rfl (agree_signature ?_ (ih.text (View.start d))) fun _ => .refl _
      exact List.forall₂_same.mpr fun _ _ => .refl _
  | funcBody _ ih => exact .of_func rfl (.refl _) ih.text
  | createTy h ih =>
      refine .of_application rfl rfl fun v => Expr.agree_create h.ty_name (ih.text v) ?_
      exact fun _ _ => agree_applied (List.forall₂_same.mpr fun _ _ => ⟨rfl, rfl, .refl _⟩)
  | createArg h ih =>
      refine .of_application rfl rfl fun v => Expr.agree_create rfl (.refl _) fun _ _ => ?_
      exact agree_applied (forall₂_middle (fun _ => ⟨rfl, rfl, .refl _⟩)
        ⟨h.arg_name, h.arg_isInert, ih.text v⟩ _ _)
  | callArg h ih =>
      refine .of_application rfl rfl fun v => Expr.agree_call fun _ => ?_
      exact agree_applied (forall₂_middle (fun _ => ⟨rfl, rfl, .refl _⟩)
        ⟨h.arg_name, h.arg_isInert, ih.text v⟩ _ _)
  | arg _ ih => exact ⟨ih.text, nofun⟩
  | @assign target defines e e' _ ih =>
      refine ⟨fun v => ?_, nofun⟩
      cases defines with
      | true => exact ih.definition v target e e' rfl rfl
      | false =>
          simp only [Node.lowerIn, Stmt.lowerIn]
          exact (ih.text v).bind_left _
  | eval _ ih | forEachSource _ ih | whileCond _ ih =>
      refine ⟨fun v => ?_, nofun⟩
      simp only [Node.lowerIn, Stmt.lowerIn]
      exact (ih.text v).bind_left _
  | forEachBody _ ih | whileBody _ ih =>
      refine ⟨fun v => ?_, nofun⟩
      simp only [Node.lowerIn, Stmt.lowerIn]
      exact .bind_right _ fun _ => (ih.text v.loopBody).bind_left _
  | @branchCase before after c c' last _ ih =>
      refine ⟨fun v => ?_, nofun⟩
      cases last with
      | none =>
          simp only [Node.lowerIn, Stmt.lowerIn]
          exact (Case.agree_lowerAllIn (ih.text v)).bind_left _
      | some body =>
          simp only [Node.lowerIn, Stmt.lowerIn]
          exact (Case.agree_lowerAllIn (ih.text v)).bind_left _
  | branchLast _ ih =>
      refine ⟨fun v => ?_, nofun⟩
      simp only [Node.lowerIn, Stmt.lowerIn]
      exact .bind_right _ fun _ => (ih.text v).bind_left _
  | ret _ ih =>
      refine ⟨fun v => ?_, nofun⟩
      simp only [Node.lowerIn, Stmt.lowerIn]
      cases v.inLoop with
      | true => exact fun _ => iff_of_false nofun nofun
      | false => exact (ih.text v).bind_left _
  | suite h ih =>
      refine ⟨fun v => ?_, nofun⟩
      simp only [Node.lowerIn, Stmt.lowerIn]
      exact Stmt.agree_lowerAllIn h.stmt_after ih.text
  | caseCond _ ih =>
      refine ⟨fun v => ?_, nofun⟩
      simp only [Node.lowerIn, Case.lowerAllIn]
      exact (ih.text v).bind_left _
  | caseBody _ ih =>
      refine ⟨fun v => ?_, nofun⟩
      simp only [Node.lowerIn, Case.lowerAllIn]
      exact .bind_right _ fun _ => (ih.text v).bind_left _
  | fallback _ ih => exact ⟨fun v => (ih.text v).bind_left _, nofun⟩

theorem Rearranged.agree {n n' : Node} (h : Rearranged n n') (v : View) :
    Agree (n.lowerIn d i v) (n'.lowerIn d i v) := by
  induction h with
  | rel n n' h => exact h.alike.text v
  | refl n => exact .refl _
  | symm n n' _ ih => exact fun text => (ih text).symm
  | trans n n' n'' _ _ ih ih' => exact fun text => (ih text).trans (ih' text)

end Node

/-- Two trees that differ only in the order of arguments, of types anywhere and
of applications without effects among their arguments, have the same text, and
if one has none then neither has the other. -/
theorem lower_eq_ok_iff_of_rearranged (d : Descriptor) (l : Layout) (n n' : Node)
    (h : n.Rearranged n') (text : String) :
    lower d l n = .ok text ↔ lower d l n' = .ok text := by
  rw [lower, lower, Node.lower_start, Node.lower_start]
  exact h.agree (View.start d) text

/-- The arguments of a type inside a function that is itself an argument, and
then the arguments of the call around it, one of which is not declared. -/
theorem lower_eq_ok_iff_of_rearranged_nested :
    let d := (Descriptor.empty.withTypeParams "Map" ["K", "V"]).withFuncParams "f" ["a", "b"]
    let k : TypeArg := ⟨"K", .named "S"⟩
    let v : TypeArg := ⟨"V", .named "T"⟩
    let a (types : List TypeArg) : Arg :=
      ⟨"a", .func [⟨"m", .generic "Map" types⟩] (.named "T") (.suite [])⟩
    let b : Arg := ⟨"b", .ident "x"⟩
    let c : Arg := ⟨"c", .num "1" false⟩
    let tree (args : List Arg) : Node := .stmt (.suite [.eval (.call "f" args)])
    (tree [a [k, v], b, c]).Rearranged (tree [c, b, a [v, k]]) ∧
      ∃ text, lower d {} (tree [a [k, v], b, c]) = .ok text ∧
        lower d {} (tree [c, b, a [v, k]]) = .ok text := by
  intro d k v a b c tree
  have hcall : ∀ {args args' : List Arg},
      Node.Shuffles (.expr (.call "f" args)) (.expr (.call "f" args')) →
      (tree args).Rearranged (tree args') := fun h =>
    .rel _ _ (@Node.Shuffles.suite [] [] _ _ (.eval h))
  have htypes : (tree [a [k, v], b, c]).Rearranged (tree [a [v, k], b, c]) := by
    refine hcall (@Node.Shuffles.callArg "f" [] [b, c] (a [k, v]) (a [v, k]) (.arg ?_))
    exact @Node.Shuffles.funcParam [] [] _ _ _ _ (.param (.typeArgs (.swap v k [])))
  have hargs : (tree [a [v, k], b, c]).Rearranged (tree [c, b, a [v, k]]) := by
    refine hcall (.callArgs ?_ (List.reverse_perm [c, b, a [v, k]]))
    simp [a, b, c, Expr.isInert]
  have h := Relation.EqvGen.trans _ _ _ htypes hargs
  refine ⟨h, _, rfl, ?_⟩
  exact (lower_eq_ok_iff_of_rearranged d {} _ _ h _).mp rfl

end TreeIR
