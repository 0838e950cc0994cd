import Mathlib
import TreeIR.Proofs.ByName

/-!
# Arguments are evaluated in the order in which they are listed

A program lists its arguments by name and counts on two things: that they are
evaluated in the order in which they are listed, and that each parameter gets
the argument of its name. The target takes arguments by position and leaves the
order of their evaluation open, so the lowering chooses between two sites for
an application. This file is about both at once: about the text of a site, and
about what the target makes of it.

`Site` is the code at an application with each argument left open as its place
in the list. `Site.text` writes it, and `Site.Runs` says which arguments are
evaluated, in which order, and which one each parameter gets. Every order of
evaluation that the target may choose is a run, so what holds of all runs holds
of the code that is emitted. What the text of an argument means is not looked at;
here an argument is its place in the list.
-/

namespace TreeIR

namespace Lowering

/-- What arguments can be passed to. -/
inductive Callee where
  | function (name : String)
  | type (ty : Ty)

/-- The application of a callee to arguments. -/
def Callee.on (args : List Arg) : Callee → Expr
  | .function name => .call name args
  | .type ty => .create ty args

/-- The names that a callee declares, as far as it is known. -/
def Callee.declared? (d : Descriptor) (v : View) : Callee → Option (List String)
  | .function name => v.paramsOf name
  | .type ty => d.initParamsOf ty.name

/-- How an application is written around what is passed. -/
def Callee.write (d : Descriptor) : Callee → Except Error (String → String)
  | .function name => .ok fun passed => name ++ "(" ++ passed ++ ")"
  | .type ty => do
    let head ← ty.lower d
    return fun passed => head ++ "\x7b" ++ passed ++ "\x7d"

/-- The names that a callee declares, and how its application is written around
the passed arguments. -/
inductive Callee.Resolves (env : Env) : Callee → List String → (String → String) → Prop
  | function {name : String} {declared : List String}
      (h : env.paramsOf name = some declared) :
      Resolves env (.function name) declared fun passed => name ++ "(" ++ passed ++ ")"
  | type {ty : Ty} {declared : List String} {head : String}
      (h : env.descriptor.initParamsOf ty.name = some declared)
      (hhead : ty.lower env.descriptor = .ok head) :
      Resolves env (.type ty) declared fun passed => head ++ "\x7b" ++ passed ++ "\x7d"

/-- The code at an application of `n` listed arguments. -/
inductive Site (n : Nat) where
  /-- The arguments stand in the application itself. -/
  | plain (passed : List (Fin n))
  /-- A closure, called at once, binds arguments to references one after the
  other and passes the references. -/
  | closure (bindings : List (String × Fin n)) (passed : List String)

namespace Site

variable {n : Nat}

/-- All arguments are bound, as they are listed. -/
def bound (order : List (Fin n)) : Site n :=
  .closure ((List.finRange n).map fun p => ("_a" ++ toString p.val, p))
    (order.map fun p => "_a" ++ toString p.val)

/-- The arguments that stand in the code. -/
def sources : Site n → List (Fin n)
  | .plain passed => passed
  | .closure bindings _ => bindings.map Prod.snd

/-- The text of a site, given the text of each argument. -/
def text (i : Indent) (write : String → String) (value : Fin n → String) : Site n → String
  | .plain passed => "(" ++ write (", ".intercalate (passed.map value)) ++ ")"
  | .closure bindings passed =>
    "(" ++ i.block "[&]() -> decltype(auto)"
      (String.join (bindings.map fun b => "auto &&" ++ b.1 ++ " = " ++ value b.2 ++ ";\n")
        ++ "return " ++ write (", ".intercalate passed) ++ ";\n") ++ "())"

/-- A run of a site evaluates the first list of arguments, in that order, and
hands the second one to the parameters. Plain arguments are evaluated in any
order, bindings from top to bottom, and to pass a reference evaluates nothing. -/
inductive Runs : Site n → List (Fin n) → List (Fin n) → Prop
  | plain {passed evaluated : List (Fin n)} (h : evaluated.Perm passed) :
      Runs (.plain passed) evaluated passed
  | closure {bindings : List (String × Fin n)} {passed : List String}
      {received : List (Fin n)}
      (h : passed.map (Table.get? · bindings) = received.map some) :
      Runs (.closure bindings passed) (bindings.map Prod.snd) received

end Site

theorem reference_injective {p q : Nat} (h : Target.reference p = Target.reference q) :
    p = q :=
  Nat.repr_inj.mp ((String.append_right_inj "_a").mp h)

theorem get?_reference {n : Nat} {p : Fin n} :
    ∀ {ps : List (Fin n)}, p ∈ ps →
      Table.get? (Target.reference p.val) (ps.map fun q => (Target.reference q.val, q))
        = some p
  | q :: ps, h => by
      rw [List.map_cons, Table.get?_cons]
      by_cases hq : q = p
      · rw [hq, if_pos rfl]
      · have hne : Target.reference q.val ≠ Target.reference p.val := fun heq =>
          hq (Fin.ext (reference_injective heq))
        rw [if_neg hne]
        exact get?_reference (List.mem_of_ne_of_mem (Ne.symm hq) h)

namespace Site

variable {n : Nat}

/-- The references of a closure that binds everything are those of the listed
arguments, so each passes the argument it was made for. -/
theorem bound_references (order : List (Fin n)) :
    (order.map fun p => "_a" ++ toString p.val).map
        (Table.get? · ((List.finRange n).map fun p => ("_a" ++ toString p.val, p)))
      = order.map some := by
  rw [List.map_map]
  exact List.map_congr_left fun p _ => get?_reference (List.mem_finRange p)

theorem runs_bound_iff {order evaluated received : List (Fin n)} :
    (bound order).Runs evaluated received ↔ evaluated = List.finRange n ∧ received = order := by
  have hall : ((List.finRange n).map fun p => ("_a" ++ toString p.val, p)).map Prod.snd
      = List.finRange n := by
    rw [List.map_map]
    exact List.map_id _
  constructor
  · intro h
    cases h with
    | closure h =>
        rw [bound_references] at h
        exact ⟨hall, (List.map_inj_right fun _ _ => Option.some.inj).mp h.symm⟩
  · rintro ⟨rfl, rfl⟩
    have hrun : (bound received).Runs _ received := .closure (bound_references received)
    rw [hall] at hrun
    exact hrun

end Site

/-- Each place is one of a listed argument, and the argument there has the
declared name. -/
theorem places_eq_ok {declared : List String} {args : List Arg} {order : List Nat}
    (h : places declared (args.map Arg.name) = .ok order) :
    ∃ ps : List (Fin args.length),
      ps.map Fin.val = order ∧ ps.map (fun p => args[p].name) = declared := by
  obtain ⟨hnodup, hplaces⟩ := places_eq_ok_iff.mp h
  clear h
  induction hplaces with
  | nil => exact ⟨[], rfl, rfl⟩
  | cons hplace _ ih =>
      obtain ⟨hp, rfl⟩ := (idxOf?_eq_some_iff_of_nodup hnodup).mp hplace
      obtain ⟨ps, rfl, rfl⟩ := ih
      exact ⟨⟨_, hp⟩ :: ps, rfl, rfl⟩

/-- The text of a result that has one. -/
def textOf (r : Except Error String) : String :=
  r.toOption.getD ""

theorem eq_map_textOf {α : Type} {g : α → Except Error String} {as : List α}
    {texts : List String} (h : List.Forall₂ (fun a text => g a = .ok text) as texts) :
    texts = as.map (fun a => textOf (g a)) ∧ ∀ a ∈ as, g a = .ok (textOf (g a)) := by
  induction h with
  | nil => exact ⟨rfl, List.forall_mem_nil _⟩
  | cons ha _ ih =>
      rw [List.map_cons, List.forall_mem_cons, ha]
      exact ⟨congrArg (_ :: ·) ih.1, rfl, ih.2⟩

variable {i : Indent} {args : List Arg} {ps : List (Fin args.length)}
  {f : Arg → Except Error String} {write : String → String} {out : String}

theorem plain_of_application
    (h : application i true (ps.map Fin.val) (args.map f) write = .ok out) :
    (∀ p ∈ ps, f args[p] = .ok (textOf (f args[p]))) ∧
      out = (Site.plain ps).text i write fun p => textOf (f args[p]) := by
  obtain ⟨texts, htexts, rfl⟩ := application_direct_eq_ok_iff.mp h
  have hget : List.Forall₂ (fun p text => f args[p] = .ok text) ps texts := by
    simpa [List.forall₂_map_left_iff] using htexts
  obtain ⟨rfl, hall⟩ := eq_map_textOf hget
  exact ⟨hall, rfl⟩

theorem mapIdx_binding (value : Arg → String) :
    (args.map value).mapIdx Target.binding
      = (List.finRange args.length).map fun p => Target.binding p.val (value args[p]) :=
  List.ext_getElem (by simp) (by simp)

theorem bound_of_application
    (h : application i false (ps.map Fin.val) (args.map f) write = .ok out) :
    (∀ p : Fin args.length, f args[p] = .ok (textOf (f args[p]))) ∧
      out = (Site.bound ps).text i write fun p => textOf (f args[p]) := by
  obtain ⟨texts, htexts, rfl⟩ := application_bound_eq_ok_iff.mp h
  obtain ⟨rfl, hall⟩ := eq_map_textOf htexts
  refine ⟨fun p => hall _ (List.getElem_mem p.isLt), ?_⟩
  rw [mapIdx_binding, List.map_map, Site.bound, Site.text, List.map_map]
  rfl

/-- However the target orders plain arguments, those that have an effect are
evaluated as listed: there are none, or there is one argument in all. -/
theorem filter_of_passesPlainly {declared : List String} {evaluated : List (Fin args.length)}
    (hplain : PassesPlainly args declared) (hlen : ps.length = declared.length)
    (hperm : evaluated.Perm ps) :
    evaluated.filter (fun p => args[p].value.isApplication)
      = (List.finRange args.length).filter fun p => args[p].value.isApplication := by
  rcases hplain with hinert | ⟨hargs, hdeclared⟩
  · have hnone : ∀ qs : List (Fin args.length),
        qs.filter (fun p => args[p].value.isApplication) = [] := by
      intro qs
      refine List.filter_eq_nil_iff.mpr fun p _ => ?_
      have hp : args[p].value.isApplication = false := hinert _ (List.getElem_mem p.isLt)
      rw [hp]
      exact Bool.false_ne_true
    rw [hnone, hnone]
  · -- a list of one argument has one place, and one parameter leaves one order
    obtain ⟨a, rfl⟩ := List.length_eq_one_iff.mp hargs
    obtain ⟨p, rfl⟩ := List.length_eq_one_iff.mp (hlen.trans hdeclared)
    have hp : p = ⟨0, Nat.one_pos⟩ := Fin.ext (Nat.lt_one_iff.mp p.isLt)
    rw [List.perm_singleton.mp hperm, hp]
    rfl

namespace Callee

variable {d : Descriptor} {v : View} {callee : Callee}

/-- An application has a text exactly if its callee is declared and its arguments
can be passed to it. -/
theorem lowerIn_on_eq_ok_iff :
    (callee.on args).lowerIn d i v = .ok out ↔
      ∃ declared write, callee.declared? d v = some declared ∧ callee.write d = .ok write ∧
        applied i (callee.on args).render declared args (fun a => a.value.lowerIn d i v) write
          = .ok out := by
  cases callee with
  | function name =>
      rw [Callee.on, Expr.lowerIn_call_eq_ok_iff]
      simp only [declared?, Callee.write, Except.ok.injEq, exists_and_left, exists_eq_left']
      rfl
  | type ty =>
      rw [Callee.on, Expr.lowerIn_create_eq_ok_iff]
      simp only [declared?, Callee.write, bind_pure_eq_ok_iff, exists_and_left]
      refine exists_congr fun declared => and_congr_right fun _ => ?_
      constructor
      · rintro ⟨head, hhead, happ⟩
        exact ⟨_, ⟨head, hhead, rfl⟩, happ⟩
      · rintro ⟨_, ⟨head, hhead, rfl⟩, happ⟩
        exact ⟨head, hhead, happ⟩

theorem resolves_of_write {env : Env} {declared : List String}
    (hdeclared : callee.declared? env.descriptor env.view = some declared)
    (hwrite : callee.write env.descriptor = .ok write) : callee.Resolves env declared write := by
  cases callee with
  | function name =>
      obtain rfl := Except.ok.inj hwrite
      rw [declared?, Env.view_paramsOf] at hdeclared
      exact .function hdeclared
  | type ty =>
      obtain ⟨head, hhead, rfl⟩ := bind_pure_eq_ok_iff.mp hwrite
      exact .type hdeclared hhead

end Callee

end Lowering

open Lowering

/-- Wherever an application has a text, the text is a site that passes to each
parameter the argument of its name. The arguments stand in the application if
none of them has an effect or if there is only one and it is passed; otherwise
all of them are bound first, passed or not. In every run of the site, the
arguments that may have an effect are evaluated once each and as listed. -/
theorem Expr.lower_application (i : Indent) (env : Env) (callee : Callee) (args : List Arg)
    (out : String) (hs : env.scopes ≠ []) (h : ((callee.on args).lower i env).1 = .ok out) :
    ∃ declared write, callee.Resolves env declared write ∧
    ∃ order : List (Fin args.length), order.map (fun p => args[p].name) = declared ∧
    ∃ (site : Site args.length) (value : Fin args.length → String),
      (PassesPlainly args declared → site = .plain order) ∧
      (¬ PassesPlainly args declared → site = .bound order) ∧
      (∀ p ∈ site.sources, (args[p].value.lower i env).1 = .ok (value p)) ∧
      out = site.text i write value ∧
      (∃ evaluated received, site.Runs evaluated received) ∧
      ∀ evaluated received, site.Runs evaluated received →
        evaluated.filter (fun p => args[p].value.isApplication)
          = (List.finRange args.length).filter (fun p => args[p].value.isApplication) ∧
        received = order := by
  rw [Expr.lower_run i _ hs] at h
  obtain ⟨declared, write, hdeclared, hwrite, happ⟩ := Callee.lowerIn_on_eq_ok_iff.mp h
  obtain ⟨places, hplaces, happ⟩ := applied_eq_ok_iff.mp happ
  obtain ⟨order, rfl, hnames⟩ := places_eq_ok hplaces
  have hlen : order.length = declared.length := by rw [← hnames, List.length_map]
  refine ⟨declared, write, Callee.resolves_of_write hdeclared hwrite, order, hnames, ?_⟩
  by_cases hplain : PassesPlainly args declared
  · rw [decide_eq_true hplain] at happ
    obtain ⟨hvalues, hout⟩ := plain_of_application happ
    refine ⟨.plain order, _, fun _ => rfl, fun hn => absurd hplain hn, fun p hp => ?_, hout,
      ⟨order, order, .plain (.refl order)⟩, fun evaluated received hrun => ?_⟩
    · rw [Expr.lower_run i _ hs]
      exact hvalues p hp
    · cases hrun with
      | plain hperm => exact ⟨filter_of_passesPlainly hplain hlen hperm, rfl⟩
  · rw [decide_eq_false hplain] at happ
    obtain ⟨hvalues, hout⟩ := bound_of_application happ
    refine ⟨.bound order, _, fun h => absurd h hplain, fun _ => rfl, fun p _ => ?_, hout,
      ⟨_, _, Site.runs_bound_iff.mpr ⟨rfl, rfl⟩⟩, fun evaluated received hrun => ?_⟩
    · rw [Expr.lower_run i _ hs]
      exact hvalues p
    · obtain ⟨rfl, rfl⟩ := Site.runs_bound_iff.mp hrun
      exact ⟨rfl, rfl⟩

/-- A parameter declared twice, and an argument that has an effect and is not
declared. -/
theorem Expr.lower_application_undeclared :
    let env := Env.start ((Descriptor.empty.withFuncParams "f" ["x", "x"]).withFuncParams "g" [])
    let args : List Arg := [⟨"y", .call "g" []⟩, ⟨"x", .call "g" []⟩]
    env.scopes ≠ [] ∧
    ∃ out, (((Callee.function "f").on args).lower .tabs env).1 = .ok out ∧
    ∃ (site : Site 2) (write : String → String) (value : Fin 2 → String),
      out = site.text .tabs write value ∧
      (∃ evaluated received, site.Runs evaluated received) ∧
      ∀ evaluated received, site.Runs evaluated received →
        evaluated.filter (fun p => args[p].value.isApplication) = [0, 1] ∧
        received.map (fun p => args[p].name) = ["x", "x"] := by
  intro env args
  have hs : env.scopes ≠ [] := List.cons_ne_nil _ _
  refine ⟨hs, _, rfl, ?_⟩
  obtain ⟨declared, write, hresolves, order, hnames, site, value, -, -, -, hout, hrun, hruns⟩ :=
    Expr.lower_application .tabs env (.function "f") args _ hs rfl
  refine ⟨site, write, value, hout, hrun, fun evaluated received hrun => ?_⟩
  obtain ⟨hevaluated, rfl⟩ := hruns evaluated received hrun
  cases hresolves with
  | function hdeclared => exact ⟨hevaluated, hnames.trans (Option.some.inj hdeclared).symm⟩

end TreeIR
