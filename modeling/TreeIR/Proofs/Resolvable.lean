import TreeIR.Proofs.ByName
import TreeIR.Proofs.Subtree
import TreeIR.Tree.Kind

/-!
# Which trees have a text

A lowering fails on the first thing it cannot resolve, so to know when it
succeeds one would have to follow it. This file says it without following
anything: `Resolvable` asks of every node what its declaration demands and,
beyond that, only that the nodes inside it are resolvable where they stand.

Where a node stands is its view. `Node.placed` gives each child its view: a
statement of a suite sees the functions defined before it, a function that is
given a name sees itself, loop bodies are in a loop and function bodies are not.

Not every child counts. An argument for a type parameter that is not declared is
never looked at, and neither is an undeclared argument of an application, unless
some argument there has an effect: then all are evaluated, and all must have a
text.
-/

namespace TreeIR

open Lowering

/-- The statements of a suite, each with what it sees. -/
def Stmt.placedAll (v : View) : List Stmt → List (View × Node)
  | [] => []
  | s :: ss => (v, .stmt s) :: Stmt.placedAll (v.after s) ss

namespace Node

/-- The children of a node, each with what it sees. -/
def placed (v : View) : Node → List (View × Node)
  | .stmt (.suite body) => Stmt.placedAll v body
  | .expr (.func params result body) =>
    params.map (fun p => (v, .param p)) ++ [(v, .ty result), (v.functionBody, .stmt body)]
  | .stmt (.forEach _ source body) => [(v, .expr source), (v.loopBody, .stmt body)]
  | .stmt (.whileDo cond body) => [(v, .expr cond), (v.loopBody, .stmt body)]
  | .stmt (.assign target defines value) =>
    [(v.after (.assign target defines value), .expr value)]
  | n => n.children.map fun c => (v, c)

/-- Does this node take its arguments by declared names? -/
def takesNames (n : Node) : Bool :=
  n.kind ∈ [.genericType, .create, .call]

end Node

/-- Does the text of an application depend on this argument? If one argument
has an effect it depends on all of them, and otherwise on those declared. -/
def Arg.Matters (args : List Arg) (declared : List String) (a : Arg) : Prop :=
  (∃ b ∈ args, b.value.isApplication = true) ∨ a.name ∈ declared

/-- A node that has a text where it stands. -/
inductive Node.Resolvable (d : Descriptor) : View → Node → Prop
  | generic {v : View} {name : String} {args : List TypeArg} {declared : List String}
      (hdeclared : d.typeParamsOf name = some declared)
      (hdistinct : (args.map TypeArg.name).Nodup)
      (hsupplied : ∀ param ∈ declared, param ∈ args.map TypeArg.name)
      (hargs : ∀ a ∈ args, a.name ∈ declared → Resolvable d v (.typeArg a)) :
      Resolvable d v (.ty (.generic name args))
  | create {v : View} {ty : Ty} {args : List Arg} {declared : List String}
      (hdeclared : d.initParamsOf ty.name = some declared)
      (hty : Resolvable d v (.ty ty))
      (hdistinct : (args.map Arg.name).Nodup)
      (hsupplied : ∀ param ∈ declared, param ∈ args.map Arg.name)
      (hargs : ∀ a ∈ args, a.Matters args declared → Resolvable d v (.arg a)) :
      Resolvable d v (.expr (.create ty args))
  | call {v : View} {callee : String} {args : List Arg} {declared : List String}
      (hdeclared : v.paramsOf callee = some declared)
      (hdistinct : (args.map Arg.name).Nodup)
      (hsupplied : ∀ param ∈ declared, param ∈ args.map Arg.name)
      (hargs : ∀ a ∈ args, a.Matters args declared → Resolvable d v (.arg a)) :
      Resolvable d v (.expr (.call callee args))
  | other {v : View} {n : Node} (hother : n.takesNames = false)
      (hreturn : n.kind = .ret → v.inLoop = false)
      (hplaced : ∀ p ∈ n.placed v, Resolvable d p.1 p.2) : Resolvable d v n

namespace Node

variable {d : Descriptor} {v : View}

theorem resolvable_generic_iff {name : String} {args : List TypeArg} :
    Resolvable d v (.ty (.generic name args)) ↔
      ∃ declared, d.typeParamsOf name = some declared ∧ (args.map TypeArg.name).Nodup ∧
        (∀ param ∈ declared, param ∈ args.map TypeArg.name) ∧
        ∀ a ∈ args, a.name ∈ declared → Resolvable d v (.typeArg a) := by
  constructor
  · intro h
    cases h with
    | generic hdeclared hdistinct hsupplied hargs =>
        exact ⟨_, hdeclared, hdistinct, hsupplied, hargs⟩
    | other hother => cases hother
  · rintro ⟨declared, hdeclared, hdistinct, hsupplied, hargs⟩
    exact .generic hdeclared hdistinct hsupplied hargs

theorem resolvable_create_iff {t : Ty} {args : List Arg} :
    Resolvable d v (.expr (.create t args)) ↔
      ∃ declared, d.initParamsOf t.name = some declared ∧ Resolvable d v (.ty t) ∧
        (args.map Arg.name).Nodup ∧ (∀ param ∈ declared, param ∈ args.map Arg.name) ∧
        ∀ a ∈ args, a.Matters args declared → Resolvable d v (.arg a) := by
  constructor
  · intro h
    cases h with
    | create hdeclared hty hdistinct hsupplied hargs =>
        exact ⟨_, hdeclared, hty, hdistinct, hsupplied, hargs⟩
    | other hother => cases hother
  · rintro ⟨declared, hdeclared, hty, hdistinct, hsupplied, hargs⟩
    exact .create hdeclared hty hdistinct hsupplied hargs

theorem resolvable_call_iff {callee : String} {args : List Arg} :
    Resolvable d v (.expr (.call callee args)) ↔
      ∃ declared, v.paramsOf callee = some declared ∧ (args.map Arg.name).Nodup ∧
        (∀ param ∈ declared, param ∈ args.map Arg.name) ∧
        ∀ a ∈ args, a.Matters args declared → Resolvable d v (.arg a) := by
  constructor
  · intro h
    cases h with
    | call hdeclared hdistinct hsupplied hargs =>
        exact ⟨_, hdeclared, hdistinct, hsupplied, hargs⟩
    | other hother => cases hother
  · rintro ⟨declared, hdeclared, hdistinct, hsupplied, hargs⟩
    exact .call hdeclared hdistinct hsupplied hargs

theorem resolvable_other_iff {n : Node} (hother : n.takesNames = false) :
    Resolvable d v n ↔
      (n.kind = .ret → v.inLoop = false) ∧ ∀ p ∈ n.placed v, Resolvable d p.1 p.2 := by
  constructor
  · intro h
    cases h with
    | generic | create | call => cases hother
    | other _ hreturn hplaced => exact ⟨hreturn, hplaced⟩
  · rintro ⟨hreturn, hplaced⟩
    exact .other hother hreturn hplaced

end Node

namespace Lowering

variable {α β : Type} {r : Except Error α}

@[simp] theorem exists_bind_iff {f : α → Except Error β} :
    (∃ b, r >>= f = .ok b) ↔ ∃ a, r = .ok a ∧ ∃ b, f a = .ok b := by
  simp only [bind_eq_ok_iff]
  exact ⟨fun ⟨b, a, ha, hb⟩ => ⟨a, ha, b, hb⟩, fun ⟨a, ha, b, hb⟩ => ⟨b, a, ha, hb⟩⟩

@[simp] theorem exists_map_iff {g : α → β} :
    (∃ b, g <$> r = .ok b) ↔ ∃ a, r = .ok a := by
  cases r with
  | error e => exact ⟨nofun, nofun⟩
  | ok a => exact ⟨fun _ => ⟨a, rfl⟩, fun _ => ⟨g a, rfl⟩⟩

theorem exists_signature_iff {d : Descriptor} {params : List Param} {result : Ty} :
    (∃ ps r, lowerSignature d params result = .ok (ps, r)) ↔
      (∀ p ∈ params, ∃ text, p.lower d = .ok text) ∧ ∃ text, result.lower d = .ok text := by
  rw [← exists_forall₂_iff]
  constructor
  · rintro ⟨_, _, h⟩
    obtain ⟨ps, hps, h⟩ := bind_eq_ok h
    obtain ⟨r, hr, -⟩ := bind_eq_ok h
    exact ⟨⟨ps, mapM_eq_ok_iff_forall₂.mp hps⟩, r, hr⟩
  · rintro ⟨⟨ps, hps⟩, r, hr⟩
    refine ⟨ps, r, bind_eq_ok_iff.mpr ⟨ps, mapM_eq_ok_iff_forall₂.mpr hps, ?_⟩⟩
    exact bind_eq_ok_iff.mpr ⟨r, hr, rfl⟩

/-- An application has a text if its names can be resolved and each argument
that matters has one. -/
theorem exists_applied_iff {i : Indent} {node : String} {declared : List String}
    {args : List Arg} {f : Arg → Except Error String} {write : String → String} :
    (∃ out, applied i node declared args f write = .ok out) ↔
      (args.map Arg.name).Nodup ∧ (∀ name ∈ declared, name ∈ args.map Arg.name) ∧
      ∀ a ∈ args, a.Matters args declared → ∃ text, f a = .ok text := by
  by_cases hplain : PassesPlainly args declared
  · have hreads : (∃ out, applied i node declared args f write = .ok out) ↔
        (args.map Arg.name).Nodup ∧
          ∃ texts, Reads (args.map fun a => (a.name, f a)) declared texts := by
      simp only [applied_plainly_eq_ok_iff hplain]
      exact ⟨fun ⟨_, hnodup, texts, h, _⟩ => ⟨hnodup, texts, h⟩,
        fun ⟨hnodup, texts, h⟩ => ⟨_, hnodup, texts, h, rfl⟩⟩
    rw [hreads]
    refine and_congr_right fun hnodup => ?_
    rw [exists_reads_entries_iff hnodup]
    refine and_congr_right fun hsupplied => forall₂_congr fun a ha => ?_
    -- where arguments are passed plainly, those that matter are those declared
    have hmatters : a.Matters args declared ↔ a.name ∈ declared := by
      refine ⟨?_, Or.inr⟩
      rintro (⟨b, hb, heffect⟩ | hname)
      · rcases hplain with hinert | ⟨hone, hdeclared⟩
        · rw [hinert b hb] at heffect
          cases heffect
        · obtain ⟨c, rfl⟩ := List.length_eq_one_iff.mp hone
          obtain ⟨name, rfl⟩ := List.length_eq_one_iff.mp hdeclared
          have hname := hsupplied name List.mem_cons_self
          rw [List.mem_singleton.mp ha, List.mem_singleton]
          exact (List.mem_singleton.mp hname).symm
      · exact hname
    rw [hmatters]
  · rw [exists_applied_bound_iff hplain]
    refine and_congr_right fun _ => and_congr_right fun _ => forall₂_congr fun a ha => ?_
    have heffect : ∃ b ∈ args, b.value.isApplication = true := by
      by_contra hnone
      refine hplain (Or.inl fun b hb => ?_)
      exact Bool.eq_false_iff.mpr fun h => hnone ⟨b, hb, h⟩
    exact ⟨fun h _ => h, fun h => h (Or.inl heffect)⟩

end Lowering

/-! ## One node

For each node: it has a text exactly if what is asked of it holds and the
children that matter have one. -/

section OneNode

variable {d : Descriptor} {i : Indent} {v : View}

theorem Ty.exists_lower_generic_iff {name : String} {args : List TypeArg} :
    (∃ text, (Ty.generic name args).lower d = .ok text) ↔
      ∃ declared, d.typeParamsOf name = some declared ∧ (args.map TypeArg.name).Nodup ∧
        (∀ param ∈ declared, param ∈ args.map TypeArg.name) ∧
        ∀ a ∈ args, a.name ∈ declared → ∃ text, a.ty.lower d = .ok text := by
  simp only [Ty.lower_generic_eq_ok_iff]
  constructor
  · rintro ⟨_, declared, hdeclared, hnodup, texts, hreads, -⟩
    exact ⟨declared, hdeclared, hnodup, (exists_reads_entries_iff hnodup).mp ⟨texts, hreads⟩⟩
  · rintro ⟨declared, hdeclared, hnodup, h⟩
    obtain ⟨texts, hreads⟩ := (exists_reads_entries_iff hnodup).mpr h
    exact ⟨_, declared, hdeclared, hnodup, texts, hreads, rfl⟩

theorem Expr.exists_lowerIn_call_iff {callee : String} {args : List Arg} :
    (∃ text, (Expr.call callee args).lowerIn d i v = .ok text) ↔
      ∃ declared, v.paramsOf callee = some declared ∧ (args.map Arg.name).Nodup ∧
        (∀ param ∈ declared, param ∈ args.map Arg.name) ∧
        ∀ a ∈ args, a.Matters args declared → ∃ text, a.value.lowerIn d i v = .ok text := by
  simp only [Expr.lowerIn_call_eq_ok_iff]
  rw [exists_comm]
  simp only [exists_and_left, exists_applied_iff]

theorem Expr.exists_lowerIn_create_iff {ty : Ty} {args : List Arg} :
    (∃ text, (Expr.create ty args).lowerIn d i v = .ok text) ↔
      ∃ declared, d.initParamsOf ty.name = some declared ∧
        (∃ head, ty.lower d = .ok head) ∧ (args.map Arg.name).Nodup ∧
        (∀ param ∈ declared, param ∈ args.map Arg.name) ∧
        ∀ a ∈ args, a.Matters args declared → ∃ text, a.value.lowerIn d i v = .ok text := by
  simp only [Expr.lowerIn_create_eq_ok_iff]
  rw [exists_comm]
  refine exists_congr fun declared => ?_
  rw [exists_and_left, exists_comm]
  simp only [exists_and_left, exists_applied_iff, exists_and_right]

theorem exists_lowerAllIn_iff_placed (ss : List Stmt) :
    (∃ text, Stmt.lowerAllIn d i v ss = .ok text) ↔
      ∀ p ∈ Stmt.placedAll v ss, ∃ text, p.2.lowerIn d i p.1 = .ok text := by
  induction ss generalizing v with
  | nil => simp [Stmt.lowerAllIn, Stmt.placedAll]
  | cons s ss ih =>
      rw [Stmt.placedAll, List.forall_mem_cons, ← ih]
      simp [Stmt.lowerAllIn, Node.lowerIn]

theorem exists_cases_iff (cs : List Case) :
    (∃ text, Case.lowerAllIn d i v cs = .ok text) ↔
      ∀ c ∈ cs, (∃ text, c.cond.lowerIn d i v = .ok text) ∧
        ∃ text, c.body.lowerIn d i v = .ok text := by
  induction cs with
  | nil => simp [Case.lowerAllIn]
  | cons c cs ih =>
      obtain ⟨cond, body⟩ := c
      rw [List.forall_mem_cons, ← ih]
      simp [Case.lowerAllIn, and_assoc]

theorem Node.exists_lowerIn_iff_of_ne_ret {n : Node} (hother : n.takesNames = false)
    (hreturn : n.kind ≠ .ret) :
    (∃ text, n.lowerIn d i v = .ok text) ↔
      ∀ p ∈ n.placed v, ∃ text, p.2.lowerIn d i p.1 = .ok text := by
  match n with
  | .ty (.generic ..) | .expr (.create ..) | .expr (.call ..) => cases hother
  | .stmt (.ret _) => exact absurd rfl hreturn
  | .ty (.named _) => simp [Node.lowerIn, Ty.lower, Node.placed, Node.children]
  | .expr (.num ..) | .expr (.str _) | .expr (.ident _) =>
      simp [Node.lowerIn, Expr.lowerIn, Node.placed, Node.children]
  | .stmt .brk | .stmt .cont =>
      simp [Node.lowerIn, Stmt.lowerIn, Node.placed, Node.children]
  | .typeArg a | .arg a | .param a | .fallback a =>
      simp [Node.lowerIn, Param.lower, Node.placed, Node.children]
  | .case c => simp [Node.lowerIn, Node.placed, Node.children, exists_cases_iff]
  | .expr (.func params result body) =>
      rw [Node.placed]
      simp only [List.forall_mem_append, List.forall_mem_map]
      simp [Node.lowerIn, Expr.lowerIn, exists_signature_iff, and_assoc]
  | .stmt (.assign target true (.func params result body)) =>
      simp [Node.lowerIn, Stmt.lowerIn, Expr.lowerIn, Node.placed, View.after]
  | .stmt (.assign target true (.num ..)) | .stmt (.assign target true (.str _))
  | .stmt (.assign target true (.ident _)) | .stmt (.assign target true (.create ..))
  | .stmt (.assign target true (.call ..)) | .stmt (.assign target false _) =>
      simp [Node.lowerIn, Stmt.lowerIn, Node.placed, View.after]
  | .stmt (.eval _) =>
      simp [Node.lowerIn, Stmt.lowerIn, Node.placed, Node.children]
  | .stmt (.forEach item source body) | .stmt (.whileDo source body) =>
      simp [Node.lowerIn, Stmt.lowerIn, Node.placed]
  | .stmt (.branch cases none) =>
      simp [Node.lowerIn, Stmt.lowerIn, Node.placed, Node.children, exists_cases_iff]
  | .stmt (.branch cases (some body)) =>
      simp only [Node.placed, Node.children, List.forall_mem_map, List.forall_mem_append]
      simp [Node.lowerIn, Stmt.lowerIn, exists_cases_iff]
  | .stmt (.suite body) =>
      rw [Node.placed, ← exists_lowerAllIn_iff_placed, Node.lowerIn, Stmt.lowerIn]

theorem Node.eq_ret_of_kind {n : Node} (h : n.kind = .ret) :
    ∃ value, n = .stmt (.ret value) := by
  cases n with
  | stmt s =>
      cases s with
      | ret value => exact ⟨value, rfl⟩
      | _ => cases h
  | ty t => cases t <;> cases h
  | expr e => cases e <;> cases h
  | _ => cases h

theorem Node.exists_lowerIn_ret_iff {value : Option Expr} :
    (∃ text, (Node.stmt (.ret value)).lowerIn d i v = .ok text) ↔
      v.inLoop = false ∧
      ∀ p ∈ (Node.stmt (.ret value)).placed v, ∃ text, p.2.lowerIn d i p.1 = .ok text := by
  cases hloop : v.inLoop with
  | true => cases value <;> simp [Node.lowerIn, Stmt.lowerIn, hloop]
  | false =>
      cases value <;> simp [Node.lowerIn, Stmt.lowerIn, Node.placed, Node.children, hloop]

theorem Node.exists_lowerIn_iff_placed {n : Node} (hother : n.takesNames = false) :
    (∃ text, n.lowerIn d i v = .ok text) ↔
      (n.kind = .ret → v.inLoop = false) ∧
      ∀ p ∈ n.placed v, ∃ text, p.2.lowerIn d i p.1 = .ok text := by
  by_cases hreturn : n.kind = .ret
  · obtain ⟨value, rfl⟩ := Node.eq_ret_of_kind hreturn
    rw [Node.exists_lowerIn_ret_iff, forall_prop_of_true hreturn]
  · rw [Node.exists_lowerIn_iff_of_ne_ret hother hreturn, forall_prop_of_false hreturn,
      true_and]

end OneNode

theorem Stmt.map_snd_placedAll (v : View) (ss : List Stmt) :
    (Stmt.placedAll v ss).map Prod.snd = ss.map Node.stmt := by
  induction ss generalizing v with
  | nil => rfl
  | cons s ss ih => rw [Stmt.placedAll, List.map_cons, List.map_cons, ih]

theorem Node.map_snd_placed (v : View) (n : Node) :
    (n.placed v).map Prod.snd = n.children := by
  unfold Node.placed
  split
  · exact Stmt.map_snd_placedAll v _
  · simp [Node.children]
  · rfl
  · rfl
  · rfl
  · rw [List.map_map]
    exact List.map_id _

theorem Node.exists_lowerIn_iff_resolvable (d : Descriptor) (i : Indent) (n : Node) :
    ∀ v, (∃ text, n.lowerIn d i v = .ok text) ↔ n.Resolvable d v := by
  induction n using Node.childInduction with
  | step n ih =>
      intro v
      cases hother : n.takesNames with
      | false =>
          rw [Node.resolvable_other_iff hother, Node.exists_lowerIn_iff_placed hother]
          refine and_congr_right fun _ => forall₂_congr fun p hp => ih p.2 ?_ p.1
          rw [← Node.map_snd_placed v n]
          exact List.mem_map_of_mem hp
      | true =>
          cases n with
          | ty t =>
              cases t with
              | named => cases hother
              | generic name args =>
                  rw [Node.resolvable_generic_iff]
                  refine Ty.exists_lower_generic_iff.trans ?_
                  refine exists_congr fun declared => and_congr_right fun _ =>
                    and_congr_right fun _ => and_congr_right fun _ =>
                    forall₂_congr fun a ha => imp_congr_right fun _ => ?_
                  exact ih (.typeArg a) (List.mem_map_of_mem ha) v
          | expr e =>
              cases e with
              | create t args =>
                  rw [Node.resolvable_create_iff]
                  refine Expr.exists_lowerIn_create_iff.trans ?_
                  refine exists_congr fun declared => and_congr_right fun _ =>
                    and_congr (ih (.ty t) List.mem_cons_self v) (and_congr_right fun _ =>
                    and_congr_right fun _ => forall₂_congr fun a ha => imp_congr_right fun _ => ?_)
                  exact ih (.arg a) (List.mem_cons_of_mem _ (List.mem_map_of_mem ha)) v
              | call callee args =>
                  rw [Node.resolvable_call_iff]
                  refine Expr.exists_lowerIn_call_iff.trans ?_
                  refine exists_congr fun declared => and_congr_right fun _ =>
                    and_congr_right fun _ => and_congr_right fun _ =>
                    forall₂_congr fun a ha => imp_congr_right fun _ => ?_
                  exact ih (.arg a) (List.mem_map_of_mem ha) v
              | _ => cases hother
          | stmt s => cases s <;> cases hother
          | _ => cases hother

/-- A tree can be lowered, by itself or as a whole program, exactly if it is
resolvable where nothing but the descriptor is seen. -/
theorem lower_succeeds_iff_resolvable (d : Descriptor) (l : Layout) (n : Node) :
    ((∃ text, lower d l n = .ok text) ↔ n.Resolvable d (View.start d)) ∧
    ((∃ text, bundle d l n = .ok text) ↔ n.Resolvable d (View.start d)) := by
  have hlower : (∃ text, lower d l n = .ok text) ↔ n.Resolvable d (View.start d) := by
    rw [← Node.exists_lowerIn_iff_resolvable d l.indent n, lower, Node.lower_start]
  refine ⟨hlower, ?_⟩
  rw [← hlower]
  simp [bundle]

end TreeIR
