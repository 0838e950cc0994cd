import TreeIR.Proofs.Rearrangement
import TreeIR.Proofs.Resolvable

/-!
# What an error says is so

An error of a lowering quotes one node and gives one cause, and it is all that
is left of the tree by the time somebody reads it. It had better be true: the
quoted node must be a node of the tree, and the cause must be a fact about that
node, at the place where it stands.

`Stands` is a node together with its place: what it sees there is given along
with it, as `Node.placed` passes it down. `Cause.HoldsAt` says what each cause
asserts of a node that sees this much, without a word on how it was found out:
in terms of what is declared, what is supplied and what comes first. The proof
is one induction over children. Either an error is the error of a node itself,
and there each check is read as what it asserts; or the node failed because a
child did, and then it is the child's error that is passed on.

That a place is in a loop is part of what it sees, but there it is a flag that
was set on the way down. `LoopedWithin` says the same by the nodes around the
place: a loop body, and no function body in between.
-/

namespace TreeIR

open Lowering

namespace Node

/-- A node that sees `w` stands inside a node that sees `v`, or is that node. -/
inductive Stands : View → Node → View → Node → Prop
  | here (v : View) (n : Node) : Stands v n v n
  | inside {v w : View} {n m : Node} {p : View × Node} (hp : p ∈ n.placed v)
      (h : Stands p.1 p.2 w m) : Stands v n w m

/-- The body of a loop, where a jump has something to leave. -/
def loopBody? : Node → Option Node
  | .stmt (.forEach _ _ body) | .stmt (.whileDo _ body) => some (.stmt body)
  | _ => none

/-- The body of a function, which no loop around the function reaches into. -/
def functionBody? : Node → Option Node
  | .expr (.func _ _ body) => some (.stmt body)
  | _ => none

/-- The first node is the second one or stands inside it, and not in the body of
a function there. -/
inductive WithinFunction : Node → Node → Prop
  | refl (n : Node) : WithinFunction n n
  | child {m c n : Node} (h : WithinFunction m c) (hc : c ∈ n.children)
      (hbody : n.functionBody? ≠ some c) : WithinFunction m n

/-- The first node stands inside the second one in a loop body, and no function
that it stands in is closer than that. -/
def LoopedWithin (m n : Node) : Prop :=
  ∃ loop body : Node, loop.Within n ∧ loop.loopBody? = some body ∧ m.WithinFunction body

/-- The names that are declared for what this node takes by name. -/
def declared? (d : Descriptor) (v : View) : Node → Option (List String)
  | .ty (.generic name _) => d.typeParamsOf name
  | .expr (.create t _) => d.initParamsOf t.name
  | .expr (.call callee _) => v.paramsOf callee
  | _ => none

/-- The names that this node itself lists. -/
def supplied : Node → List String
  | .ty (.generic _ args) => args.map TypeArg.name
  | .expr (.create _ args) | .expr (.call _ args) => args.map Arg.name
  | _ => []

end Node

namespace Lowering

/-- The first name of a list that has stood in it before. -/
def FirstTwice (name : String) (names : List String) : Prop :=
  ∃ before after, names = before ++ name :: after ∧ before.Nodup ∧ name ∈ before

/-- The first of the declared names that is not among those supplied. -/
def FirstMissing (name : String) (declared supplied : List String) : Prop :=
  ∃ before after, declared = before ++ name :: after ∧
    (∀ param ∈ before, param ∈ supplied) ∧ name ∉ supplied

/-- The node supplies no name twice, and this is the first that it lacks. -/
def Lacks (d : Descriptor) (v : View) (n : Node) (name : String) : Prop :=
  ∃ declared, n.declared? d v = some declared ∧ n.supplied.Nodup ∧
    FirstMissing name declared n.supplied

/-- What a cause asserts of a node that sees `v`. -/
def Cause.HoldsAt (d : Descriptor) (v : View) (n : Node) : Cause → Prop
  | .undeclaredFunction name =>
    (∃ args, n = .expr (.call name args)) ∧ d.funcParamsOf name = none ∧ v.paramsOf name = none
  | .undeclaredType name =>
    (∃ args, n = .ty (.generic name args)) ∧ d.typeParamsOf name = none ∨
      (∃ t args, n = .expr (.create t args) ∧ t.name = name) ∧ d.initParamsOf name = none
  | .unboundTypeParam name => n.kind = .genericType ∧ Lacks d v n name
  | .unboundParam name => (n.kind = .create ∨ n.kind = .call) ∧ Lacks d v n name
  | .typeParamTwice name => n.kind = .genericType ∧ FirstTwice name n.supplied
  | .paramTwice name => (n.kind = .create ∨ n.kind = .call) ∧ FirstTwice name n.supplied
  | .returnInLoop => n.kind = .ret ∧ v.inLoop = true

/-- The error quotes this node. A return is quoted without the end of its line. -/
def Error.Quotes (e : Error) (n : Node) : Prop :=
  n.render = if e.cause = .returnInLoop then e.node ++ "\n" else e.node

/-- The error quotes this node, and its cause holds of it. -/
def Error.Blames (d : Descriptor) (v : View) (n : Node) (e : Error) : Prop :=
  e.Quotes n ∧ e.cause.HoldsAt d v n

/-- The error blames a node inside this one, as it stands there. -/
def Error.Located (d : Descriptor) (v : View) (n : Node) (e : Error) : Prop :=
  ∃ w m, n.Stands v w m ∧ e.Blames d w m

theorem repeatAfter_eq_some {seen names : List String} {name : String}
    (h : repeatAfter seen names = some name) :
    ∃ before after, names = before ++ name :: after ∧ before.Nodup ∧
      (∀ b ∈ before, b ∉ seen) ∧ (name ∈ seen ∨ name ∈ before) := by
  induction names generalizing seen with
  | nil => cases h
  | cons n ns ih =>
      rw [repeatAfter] at h
      by_cases hn : n ∈ seen
      · rw [if_pos hn] at h
        cases h
        exact ⟨[], ns, rfl, List.nodup_nil, List.forall_mem_nil _, .inl hn⟩
      · rw [if_neg hn] at h
        obtain ⟨before, after, rfl, hnodup, hnew, htwice⟩ := ih h
        have hfresh : n ∉ before := fun hmem => hnew n hmem List.mem_cons_self
        refine ⟨n :: before, after, rfl, List.nodup_cons.mpr ⟨hfresh, hnodup⟩, ?_, ?_⟩
        · refine List.forall_mem_cons.mpr ⟨hn, fun b hb hseen => ?_⟩
          exact hnew b hb (List.mem_cons_of_mem n hseen)
        · rcases htwice with hseen | hbefore
          · rcases List.mem_cons.mp hseen with rfl | hseen
            · exact .inr List.mem_cons_self
            · exact .inl hseen
          · exact .inr (List.mem_cons_of_mem n hbefore)

theorem firstTwice_of_firstRepeat {names : List String} {name : String}
    (h : firstRepeat names = some name) : FirstTwice name names := by
  obtain ⟨before, after, hnames, hnodup, -, htwice⟩ := repeatAfter_eq_some h
  rcases htwice with hnone | hbefore
  · exact absurd hnone List.not_mem_nil
  · exact ⟨before, after, hnames, hnodup, hbefore⟩

theorem FirstTwice.not_nodup {name : String} {names : List String}
    (h : FirstTwice name names) : ¬ names.Nodup := by
  obtain ⟨before, after, rfl, -, hbefore⟩ := h
  intro hnodup
  exact List.disjoint_of_nodup_append hnodup hbefore List.mem_cons_self

/-- Why listed names cannot be put in declared order. -/
theorem places_eq_error {declared listed : List String} {cause : Cause}
    (h : places declared listed = .error cause) :
    (∃ name, cause = .paramTwice name ∧ FirstTwice name listed) ∨
    ∃ name, cause = .unboundParam name ∧ listed.Nodup ∧ FirstMissing name declared listed := by
  cases htwice : firstRepeat listed with
  | some name =>
      rw [places_of_firstRepeat htwice] at h
      cases h
      exact .inl ⟨name, rfl, firstTwice_of_firstRepeat htwice⟩
  | none =>
      have hnodup := firstRepeat_eq_none_iff.mp htwice
      rw [places_of_nodup hnodup] at h
      obtain ⟨before, name, after, rfl, hbefore, hname⟩ := mapM_eq_error h
      cases hmissing : listed.idxOf? name with
      | some place =>
          rw [hmissing] at hname
          cases hname
      | none =>
          rw [hmissing] at hname
          cases hname
          refine .inr ⟨name, rfl, hnodup, before, after, rfl, ?_, ?_⟩
          · intro param hparam
            obtain ⟨place, hplace⟩ := hbefore param hparam
            rw [← List.isSome_idxOf?]
            cases hidx : listed.idxOf? param with
            | none =>
                rw [hidx] at hplace
                cases hplace
            | some found => rfl
          · exact List.idxOf?_eq_none_iff.mp hmissing

/-- Names are looked up and their results taken in one go, so that an error under
a name can come before a missing name; the names before a missing one were found
all the same. -/
theorem mapM_entries_eq_error {α : Type} {key : α → String} {f : α → Except Error String}
    {as : List α} {names : List String} {missing : String → Error} {e : Error}
    (has : (as.map key).Nodup)
    (h : names.mapM (fun name => (Table.get? name (as.map fun a => (key a, f a))).getD
      (.error (missing name))) = .error e) :
    (∃ a ∈ as, f a = .error e) ∨
      ∃ name, e = missing name ∧ FirstMissing name names (as.map key) := by
  obtain ⟨before, name, after, rfl, hbefore, hname⟩ := mapM_eq_error h
  cases hget : Table.get? name (as.map fun a => (key a, f a)) with
  | some r =>
      rw [hget] at hname
      obtain ⟨a, ha, -, hr⟩ := (get?_entries_iff has).mp hget
      exact .inl ⟨a, ha, hr.trans hname⟩
  | none =>
      rw [hget] at hname
      cases hname
      refine .inr ⟨name, rfl, before, after, rfl, ?_, ?_⟩
      · intro b hb
        obtain ⟨text, htext⟩ := hbefore b hb
        obtain ⟨a, ha, rfl, -⟩ := (get?_entries_iff has).mp (getD_error_eq_ok_iff.mp htext)
        exact List.mem_map_of_mem ha
      · intro hmem
        obtain ⟨a, ha, rfl⟩ := List.mem_map.mp hmem
        rw [(get?_entries_iff has).mpr ⟨a, ha, rfl, rfl⟩] at hget
        cases hget

/-- An application whose names are in order fails only if an argument does. -/
theorem application_eq_error {i : Indent} {direct : Bool} {order : List Nat} {args : List Arg}
    {f : Arg → Except Error String} {write : String → String} {e : Error}
    (h : application i direct order (args.map f) write = .error e) :
    ∃ a ∈ args, f a = .error e := by
  cases direct with
  | true =>
      rw [application, if_pos rfl] at h
      obtain ⟨place, -, hplace⟩ := exists_mem_of_mapM_eq_error (bind_pure_eq_error h)
      rw [List.getD_eq_getElem?_getD, List.getElem?_map] at hplace
      cases ha : args[place]? with
      | none => rw [ha] at hplace; cases hplace
      | some a => rw [ha] at hplace; exact ⟨a, List.mem_of_getElem? ha, hplace⟩
  | false =>
      rw [application, if_neg Bool.false_ne_true] at h
      obtain ⟨r, hr, hfail⟩ := exists_mem_of_mapM_eq_error (bind_pure_eq_error h)
      obtain ⟨a, ha, rfl⟩ := List.mem_map.mp hr
      exact ⟨a, ha, hfail⟩

theorem signature_eq_error {d : Descriptor} {params : List Param} {result : Ty} {e : Error}
    (h : lowerSignature d params result = .error e) :
    (∃ p ∈ params, p.lower d = .error e) ∨ result.lower d = .error e := by
  rcases bind_eq_error h with h | ⟨ps, -, h⟩
  · exact .inl (exists_mem_of_mapM_eq_error h)
  · exact .inr (bind_pure_eq_error h)

end Lowering

/-! ## Errors of one node

A node is blamed itself, or one of its children fails where it is placed with
the same error. -/

section OneNode

variable {d : Descriptor} {i : Indent} {v : View} {e : Error}

theorem quotes_of_ne {cause : Cause} (n : Node) (h : cause ≠ .returnInLoop) :
    Error.Quotes ⟨cause, n.render⟩ n :=
  (if_neg h).symm

theorem blames_of_orderFor {n : Node} {declared : List String} {args : List Arg}
    (hkind : n.kind = .create ∨ n.kind = .call) (hdeclared : n.declared? d v = some declared)
    (hsupplied : n.supplied = args.map Arg.name)
    (h : orderFor n.render declared args = .error e) : e.Blames d v n := by
  rw [orderFor, ← hsupplied] at h
  cases hplaces : places declared n.supplied with
  | ok order => rw [hplaces] at h; cases h
  | error cause =>
      rw [hplaces] at h
      cases h
      rcases places_eq_error hplaces with ⟨name, rfl, htwice⟩ | ⟨name, rfl, hnodup, hmissing⟩
      · exact ⟨quotes_of_ne n (by simp), hkind, htwice⟩
      · exact ⟨quotes_of_ne n (by simp), hkind, declared, hdeclared, hnodup, hmissing⟩

theorem Expr.lowerIn_call_eq_error {callee : String} {args : List Arg}
    (hv : v.paramsOf callee = none → d.funcParamsOf callee = none)
    (h : (Expr.call callee args).lowerIn d i v = .error e) :
    e.Blames d v (.expr (.call callee args)) ∨
      ∃ a ∈ args, a.value.lowerIn d i v = .error e := by
  rw [Expr.lowerIn, Arg.lowerAllIn_eq_map] at h
  cases hparams : v.paramsOf callee with
  | none =>
      rw [hparams] at h
      cases h
      exact .inl ⟨quotes_of_ne _ (by simp), ⟨args, rfl⟩, hv hparams, hparams⟩
  | some declared =>
      rw [hparams] at h
      rcases bind_eq_error h with horder | ⟨order, -, happ⟩
      · exact .inl (blames_of_orderFor (.inr rfl) hparams rfl horder)
      · exact .inr (application_eq_error happ)

theorem Expr.lowerIn_create_eq_error {t : Ty} {args : List Arg}
    (h : (Expr.create t args).lowerIn d i v = .error e) :
    e.Blames d v (.expr (.create t args)) ∨ t.lower d = .error e ∨
      ∃ a ∈ args, a.value.lowerIn d i v = .error e := by
  rw [Expr.lowerIn, Arg.lowerAllIn_eq_map] at h
  cases hparams : d.initParamsOf t.name with
  | none =>
      rw [hparams] at h
      cases h
      exact .inl ⟨quotes_of_ne _ (by simp), .inr ⟨⟨t, args, rfl, rfl⟩, hparams⟩⟩
  | some declared =>
      rw [hparams] at h
      rcases bind_eq_error h with horder | ⟨order, -, h⟩
      · exact .inl (blames_of_orderFor (.inl rfl) hparams rfl horder)
      · rcases bind_eq_error h with hhead | ⟨head, -, happ⟩
        · exact .inr (.inl hhead)
        · exact .inr (.inr (application_eq_error happ))

theorem Ty.lower_generic_eq_error {name : String} {args : List TypeArg}
    (h : (Ty.generic name args).lower d = .error e) :
    e.Blames d v (.ty (.generic name args)) ∨ ∃ a ∈ args, a.ty.lower d = .error e := by
  have hquotes : ∀ {cause : Cause}, cause ≠ .returnInLoop →
      Error.Quotes ⟨cause, (Ty.generic name args).render⟩ (.ty (.generic name args)) :=
    quotes_of_ne (.ty (.generic name args))
  rw [Ty.lower, TypeArg.lowerAll_eq_map] at h
  cases hdeclared : d.typeParamsOf name with
  | none =>
      rw [hdeclared] at h
      cases h
      exact .inl ⟨hquotes (by simp), .inl ⟨⟨args, rfl⟩, hdeclared⟩⟩
  | some declared =>
      rw [hdeclared] at h
      cases htwice : firstRepeat (args.map TypeArg.name) with
      | some twice =>
          rw [htwice] at h
          cases h
          exact .inl ⟨hquotes (by simp), rfl, firstTwice_of_firstRepeat htwice⟩
      | none =>
          rw [htwice] at h
          have hnodup := firstRepeat_eq_none_iff.mp htwice
          rcases mapM_entries_eq_error hnodup (bind_pure_eq_error h) with hchild | hmissing
          · exact .inr hchild
          · obtain ⟨param, rfl, hmissing⟩ := hmissing
            exact .inl ⟨hquotes (by simp), rfl, declared, hdeclared, hnodup, hmissing⟩

theorem Stmt.lowerAllIn_eq_error {ss : List Stmt} (h : Stmt.lowerAllIn d i v ss = .error e) :
    ∃ p ∈ Stmt.placedAll v ss, p.2.lowerIn d i p.1 = .error e := by
  induction ss generalizing v with
  | nil => rw [Stmt.lowerAllIn] at h; cases h
  | cons s ss ih =>
      rw [Stmt.lowerAllIn] at h
      rcases bind_eq_error h with hs | ⟨text, -, h⟩
      · exact ⟨(v, .stmt s), List.mem_cons_self, hs⟩
      · obtain ⟨p, hp, hfail⟩ := ih (bind_pure_eq_error h)
        exact ⟨p, List.mem_cons_of_mem _ hp, hfail⟩

theorem Case.lowerAllIn_eq_error {cs : List Case} (h : Case.lowerAllIn d i v cs = .error e) :
    ∃ c ∈ cs, (Node.case c).lowerIn d i v = .error e := by
  induction cs with
  | nil => rw [Case.lowerAllIn] at h; cases h
  | cons c cs ih =>
      rw [Case.lowerAllIn_cons] at h
      rcases bind_eq_error h with hc | ⟨text, -, h⟩
      · exact ⟨c, List.mem_cons_self, hc⟩
      · obtain ⟨c', hc', hfail⟩ := ih (bind_pure_eq_error h)
        exact ⟨c', List.mem_cons_of_mem c hc', hfail⟩

theorem Expr.lowerIn_func_eq_error {params : List Param} {result : Ty} {body : Stmt}
    (h : (Expr.func params result body).lowerIn d i v = .error e) :
    ∃ p ∈ (Node.expr (.func params result body)).placed v, p.2.lowerIn d i p.1 = .error e := by
  rw [Expr.lowerIn] at h
  rw [Node.placed]
  rcases bind_eq_error h with hsignature | ⟨signature, -, h⟩
  · rcases signature_eq_error hsignature with ⟨p, hp, hfail⟩ | hfail
    · exact ⟨(v, .param p), List.mem_append_left _ (List.mem_map_of_mem hp), hfail⟩
    · exact ⟨(v, .ty result), List.mem_append_right _ List.mem_cons_self, hfail⟩
  · refine ⟨(v.functionBody, .stmt body), List.mem_append_right _ ?_, bind_pure_eq_error h⟩
    exact List.mem_cons_of_mem _ List.mem_cons_self

theorem Stmt.lowerIn_assign_eq_error {target : String} {defines : Bool} {value : Expr}
    (h : (Stmt.assign target defines value).lowerIn d i v = .error e) :
    value.lowerIn d i (v.after (.assign target defines value)) = .error e := by
  match defines, value with
  | true, .func params result body =>
      rw [Stmt.lowerIn] at h
      rw [View.after, Expr.lowerIn]
      rcases bind_eq_error h with hsignature | ⟨signature, hsignature, h⟩
      · rw [hsignature]
        rfl
      · rw [hsignature]
        show (body.lowerIn d i _ >>= fun _ => pure _) = _
        rw [bind_pure_eq_error h]
        rfl
  | true, .num .. | true, .str _ | true, .ident _ | true, .create .. | true, .call ..
  | false, _ =>
      simp only [Stmt.lowerIn] at h
      exact bind_pure_eq_error h

theorem Stmt.lowerIn_ret_eq_error {value : Option Expr}
    (h : (Stmt.ret value).lowerIn d i v = .error e) :
    e.Blames d v (.stmt (.ret value)) ∨ ∃ x ∈ value, x.lowerIn d i v = .error e := by
  cases hloop : v.inLoop with
  | true =>
      cases value with
      | none =>
          rw [Stmt.lowerIn, if_pos hloop] at h
          cases h
          exact .inl ⟨rfl, rfl, hloop⟩
      | some value =>
          rw [Stmt.lowerIn, if_pos hloop] at h
          cases h
          refine .inl ⟨?_, rfl, hloop⟩
          show "return(" ++ value.render ++ ")\n" = "return(" ++ value.render ++ ")" ++ "\n"
          have hend : ")\n" = ")" ++ "\n" := rfl
          rw [hend]
          exact String.append_assoc.symm
  | false =>
      have hout : ¬ v.inLoop = true := Bool.eq_false_iff.mp hloop
      cases value with
      | none => rw [Stmt.lowerIn, if_neg hout] at h; cases h
      | some value =>
          rw [Stmt.lowerIn, if_neg hout] at h
          exact .inr ⟨value, rfl, bind_pure_eq_error h⟩

theorem Node.lowerIn_eq_error {n : Node}
    (hv : ∀ f, v.paramsOf f = none → d.funcParamsOf f = none)
    (h : n.lowerIn d i v = .error e) :
    e.Blames d v n ∨ ∃ p ∈ n.placed v, p.2.lowerIn d i p.1 = .error e := by
  have hchild : ∀ {c : Node}, n.placed v = n.children.map (fun c => (v, c)) →
      c ∈ n.children → c.lowerIn d i v = .error e →
      ∃ p ∈ n.placed v, p.2.lowerIn d i p.1 = .error e := by
    intro c hplaced hc hfail
    exact ⟨(v, c), hplaced ▸ List.mem_map_of_mem hc, hfail⟩
  -- Only types, applications, functions, assignments and returns have checks or views
  -- of their own; all others come last and hand on what a child fails with.
  match n with
  | .ty (.named _) => rw [Node.lowerIn, Ty.lower] at h; cases h
  | .expr (.num ..) | .expr (.str _) | .expr (.ident _) =>
      rw [Node.lowerIn, Expr.lowerIn] at h; cases h
  | .stmt .brk | .stmt .cont => rw [Node.lowerIn, Stmt.lowerIn] at h; cases h
  | .ty (.generic name args) =>
      rcases Ty.lower_generic_eq_error h with hself | ⟨a, ha, hfail⟩
      · exact .inl hself
      · exact .inr (hchild rfl (List.mem_map_of_mem ha) hfail)
  | .expr (.call callee args) =>
      rcases Expr.lowerIn_call_eq_error (hv callee) h with hself | ⟨a, ha, hfail⟩
      · exact .inl hself
      · exact .inr (hchild rfl (List.mem_map_of_mem ha) hfail)
  | .expr (.create t args) =>
      rcases Expr.lowerIn_create_eq_error h with hself | hfail | ⟨a, ha, hfail⟩
      · exact .inl hself
      · exact .inr (hchild rfl List.mem_cons_self hfail)
      · exact .inr (hchild rfl (List.mem_cons_of_mem _ (List.mem_map_of_mem ha)) hfail)
  | .expr (.func params result body) => exact .inr (Expr.lowerIn_func_eq_error h)
  | .stmt (.ret value) =>
      rcases Stmt.lowerIn_ret_eq_error h with hself | ⟨x, hx, hfail⟩
      · exact .inl hself
      · refine .inr (hchild (c := .expr x) rfl ?_ hfail)
        rw [Node.children, hx]
        exact List.mem_cons_self
  | .stmt (.assign target defines value) =>
      exact .inr ⟨_, List.mem_cons_self, Stmt.lowerIn_assign_eq_error h⟩
  | .typeArg a => exact .inr (hchild rfl List.mem_cons_self h)
  | .arg a => exact .inr (hchild rfl List.mem_cons_self h)
  | .param p => exact .inr (hchild rfl List.mem_cons_self (bind_pure_eq_error h))
  | .fallback body => exact .inr (hchild rfl List.mem_cons_self (bind_pure_eq_error h))
  | .stmt (.eval value) =>
      rw [Node.lowerIn, Stmt.lowerIn] at h
      exact .inr (hchild rfl List.mem_cons_self (bind_pure_eq_error h))
  | .stmt (.forEach _ value body) | .stmt (.whileDo value body) =>
      rw [Node.lowerIn, Stmt.lowerIn] at h
      rcases bind_eq_error h with hfail | ⟨text, -, h⟩
      · exact .inr ⟨(v, .expr value), List.mem_cons_self, hfail⟩
      · refine .inr ⟨(v.loopBody, .stmt body), ?_, bind_pure_eq_error h⟩
        exact List.mem_cons_of_mem _ List.mem_cons_self
  | .case ⟨cond, body⟩ =>
      rw [Node.lowerIn, Case.lowerAllIn] at h
      rcases bind_eq_error h with hfail | ⟨text, -, h⟩
      · exact .inr (hchild rfl List.mem_cons_self hfail)
      · rcases bind_eq_error h with hfail | ⟨_, -, h⟩
        · exact .inr (hchild rfl (List.mem_cons_of_mem _ List.mem_cons_self) hfail)
        · rw [Case.lowerAllIn] at h
          cases h
  | .stmt (.branch cases none) =>
      rw [Node.lowerIn, Stmt.lowerIn] at h
      obtain ⟨c, hc, hfail⟩ := Case.lowerAllIn_eq_error (bind_pure_eq_error h)
      exact .inr (hchild rfl (List.mem_append_left _ (List.mem_map_of_mem hc)) hfail)
  | .stmt (.branch cases (some body)) =>
      rw [Node.lowerIn, Stmt.lowerIn] at h
      rcases bind_eq_error h with h | ⟨text, -, h⟩
      · obtain ⟨c, hc, hfail⟩ := Case.lowerAllIn_eq_error h
        exact .inr (hchild rfl (List.mem_append_left _ (List.mem_map_of_mem hc)) hfail)
      · have hfail : (Node.fallback body).lowerIn d i v = .error e := by
          rw [Node.lowerIn, bind_pure_eq_error h]
          rfl
        exact .inr (hchild rfl (List.mem_append_right _ List.mem_cons_self) hfail)
  | .stmt (.suite body) =>
      rw [Node.lowerIn, Stmt.lowerIn] at h
      exact .inr (Stmt.lowerAllIn_eq_error h)

end OneNode

/-! ## What places see

Going down only ever adds functions to a view, and the loop flag changes at loop
bodies and function bodies alone. -/

section Places

variable {v w : View} {n m : Node} {p : View × Node}

/-- All functions of the second view are known in the first, perhaps as others. -/
def Lowering.View.Extends (w v : View) : Prop :=
  ∀ f, w.paramsOf f = none → v.paramsOf f = none

theorem Lowering.View.Extends.refl (v : View) : v.Extends v := fun _ h => h

theorem Lowering.View.extends_after (v : View) (s : Stmt) : (v.after s).Extends v := by
  intro f hf
  unfold View.after at hf
  split at hf
  · next name params _ _ =>
      have hf : (if f = name then some (params.map Param.name) else v.paramsOf f) = none := hf
      split at hf
      · cases hf
      · exact hf
  · exact hf

theorem Lowering.View.inLoop_after (v : View) (s : Stmt) : (v.after s).inLoop = v.inLoop := by
  unfold View.after
  split
  · rfl
  · rfl

theorem Stmt.mem_placedAll {ss : List Stmt} (hp : p ∈ Stmt.placedAll v ss) :
    p.1.Extends v ∧ p.1.inLoop = v.inLoop := by
  induction ss generalizing v with
  | nil => exact absurd hp List.not_mem_nil
  | cons s ss ih =>
      rcases List.mem_cons.mp hp with rfl | hp
      · exact ⟨.refl v, rfl⟩
      · obtain ⟨hextends, hloop⟩ := ih hp
        exact ⟨fun f hf => v.extends_after s f (hextends f hf), hloop.trans (v.inLoop_after s)⟩

theorem Node.eq_func_of_functionBody? {c : Node} (h : n.functionBody? = some c) :
    ∃ params result body, n = .expr (.func params result body) := by
  unfold Node.functionBody? at h
  split at h
  · exact ⟨_, _, _, rfl⟩
  · cases h

theorem Node.mem_placed (hp : p ∈ n.placed v) :
    p.1.Extends v ∧ (n.loopBody? = some p.2 ∨ p.1.inLoop = false ∨
      n.functionBody? ≠ some p.2 ∧ p.1.inLoop = v.inLoop) := by
  unfold Node.placed at hp
  split at hp
  · obtain ⟨hextends, hloop⟩ := Stmt.mem_placedAll hp
    exact ⟨hextends, .inr (.inr ⟨nofun, hloop⟩)⟩
  · rcases List.mem_append.mp hp with hp | hp
    · obtain ⟨param, -, rfl⟩ := List.mem_map.mp hp
      exact ⟨.refl v, .inr (.inr ⟨nofun, rfl⟩)⟩
    · rcases List.mem_cons.mp hp with rfl | hp
      · exact ⟨.refl v, .inr (.inr ⟨nofun, rfl⟩)⟩
      · cases List.mem_singleton.mp hp
        exact ⟨.refl v, .inr (.inl rfl)⟩
  · rcases List.mem_cons.mp hp with rfl | hp
    · exact ⟨.refl v, .inr (.inr ⟨nofun, rfl⟩)⟩
    · cases List.mem_singleton.mp hp
      exact ⟨.refl v, .inl rfl⟩
  · rcases List.mem_cons.mp hp with rfl | hp
    · exact ⟨.refl v, .inr (.inr ⟨nofun, rfl⟩)⟩
    · cases List.mem_singleton.mp hp
      exact ⟨.refl v, .inl rfl⟩
  · cases List.mem_singleton.mp hp
    exact ⟨v.extends_after _, .inr (.inr ⟨nofun, v.inLoop_after _⟩)⟩
  · next hfunc _ _ _ =>
      obtain ⟨c, -, rfl⟩ := List.mem_map.mp hp
      refine ⟨.refl v, .inr (.inr ⟨fun hbody => ?_, rfl⟩)⟩
      obtain ⟨params, result, body, rfl⟩ := Node.eq_func_of_functionBody? hbody
      exact hfunc params result body rfl

theorem Node.mem_children_of_mem_placed (hp : p ∈ n.placed v) : p.2 ∈ n.children := by
  rw [← Node.map_snd_placed v n]
  exact List.mem_map_of_mem hp

/-- A place that sees itself in a loop is in the same function as a place above
it that does, or else in a loop body in between. -/
theorem Node.Stands.looped (h : n.Stands v w m) (hw : w.inLoop = true) :
    v.inLoop = true ∧ m.WithinFunction n ∨ m.LoopedWithin n := by
  -- From the inside out: the flag is followed up to the body that set it.
  induction h with
  | here v n => exact .inl ⟨hw, .refl n⟩
  | inside hp _ ih =>
      have hchild := Node.mem_children_of_mem_placed hp
      rcases ih hw with ⟨hloop, hwithin⟩ | ⟨loop, body, hin, hbody, hwithin⟩
      · rcases (Node.mem_placed hp).2 with hbody | hout | ⟨hfunction, hsame⟩
        · exact .inr ⟨_, _, .refl _, hbody, hwithin⟩
        · rw [hout] at hloop
          cases hloop
        · exact .inl ⟨hsame.symm.trans hloop, .child hwithin hchild hfunction⟩
      · exact .inr ⟨loop, body, hin.child hchild, hbody, hwithin⟩

end Places

theorem Node.located_of_lowerIn_eq_error (d : Descriptor) (i : Indent) (n : Node) :
    ∀ (v : View) (e : Error), v.Extends (View.start d) → n.lowerIn d i v = .error e →
      e.Located d v n := by
  induction n using Node.childInduction with
  | step n ih =>
      intro v e hv h
      rcases Node.lowerIn_eq_error hv h with hself | ⟨p, hp, hfail⟩
      · exact ⟨v, n, .here v n, hself⟩
      · have hextends : p.1.Extends (View.start d) := fun f hf =>
          hv f ((Node.mem_placed hp).1 f hf)
        obtain ⟨w, m, hstands, hblames⟩ :=
          ih p.2 (Node.mem_children_of_mem_placed hp) p.1 e hextends hfail
        exact ⟨w, m, .inside hp hstands, hblames⟩

/-- When a tree cannot be lowered, the error quotes a node that stands in the
tree, and what its cause asserts is true of that node where it stands. A return
that is refused stands in a loop body with no function in between. -/
theorem lower_error_blames {d : Descriptor} {l : Layout} {n : Node} {e : Error}
    (h : lower d l n = .error e) :
    ∃ w m, n.Stands (View.start d) w m ∧ e.Quotes m ∧ e.cause.HoldsAt d w m ∧
      (e.cause = .returnInLoop → m.LoopedWithin n) := by
  rw [lower, Node.lower_start] at h
  obtain ⟨w, m, hstands, hquotes, hholds⟩ :=
    Node.located_of_lowerIn_eq_error d l.indent n _ e (.refl _) h
  refine ⟨w, m, hstands, hquotes, hholds, fun hcause => ?_⟩
  rw [hcause] at hholds
  rcases hstands.looped hholds.2 with ⟨hloop, -⟩ | hlooped
  · cases hloop
  · exact hlooped

/-- The second of two returns in a loop of a function: the first is that of a
function inside the loop. After it comes a call that fails as well. -/
theorem lower_error_blames_return :
    let loop : Stmt := .whileDo (.ident "c") (.suite
      [.assign "g" true (.func [] (.named "T") (.ret none)), .ret (some (.ident "x"))])
    let n : Node := .stmt (.suite
      [.assign "f" true (.func [⟨"x", .named "T"⟩] (.named "T") loop), .eval (.call "k" [])])
    lower Descriptor.empty {} n = .error ⟨.returnInLoop, "return($x)"⟩ ∧
    ∃ m : Node, m.kind = .ret ∧ m.render = "return($x)\n" ∧ m.LoopedWithin n := by
  intro loop n
  have hfails : lower Descriptor.empty {} n = .error ⟨.returnInLoop, "return($x)"⟩ := by rfl
  obtain ⟨w, m, -, hquotes, hholds, hlooped⟩ := lower_error_blames hfails
  exact ⟨hfails, m, hholds.1, hquotes, hlooped rfl⟩

end TreeIR
