import TreeIR.Proofs.ByName

/-!
# A larger descriptor changes no text

A descriptor grows: a library gets new types and functions. A program that was
lowered against the old one should not notice, and its text should be the same
to the letter. The danger is in the names a program gives to functions of its
own, for the new descriptor may declare one of them with other parameters.

Both lowerings are followed side by side, the second with views in which more
is found. Every question that a lowering puts to its descriptor or its view is
what is declared under a name, and an answer is the same in both. Only the
answer that there is nothing can differ, and no text ever depends on it: it is
the end of the lowering. A function of the program is defined in both views
alike, and from there on hides what is declared under its name in either.
-/

namespace TreeIR

/-- What is found under a name in the first table is found in the second. -/
def Table.Within {α : Type} (t t' : Table α) : Prop :=
  ∀ key value, get? key t = some value → get? key t' = some value

theorem Table.within_insert {α : Type} {key : String} {t : Table α} (h : get? key t = none)
    (value : α) : Table.Within t (insert key value t) := by
  intro other found hfound
  have hne : other ≠ key := by
    rintro rfl
    rw [h] at hfound
    cases hfound
  rw [get?_insert_of_ne hne]
  exact hfound

/-- All that the first descriptor declares, the second declares with the same
names. -/
structure Descriptor.Within (d d' : Descriptor) : Prop where
  typeParams : Table.Within d.typeParams d'.typeParams
  initParams : Table.Within d.initParams d'.initParams
  funcParams : Table.Within d.funcParams d'.funcParams

namespace Lowering

/-- The first view sees no function that the second does not see the same way,
and they agree on being in a loop. -/
structure View.Within (v v' : View) : Prop where
  paramsOf : ∀ f params, v.paramsOf f = some params → v'.paramsOf f = some params
  inLoop : v.inLoop = v'.inLoop

namespace View.Within

variable {v v' : View}

theorem start {d d' : Descriptor} (h : d.Within d') : (View.start d).Within (View.start d') :=
  ⟨h.funcParams, rfl⟩

/-- A function that is defined in both hides the same name in both. -/
theorem define (h : v.Within v') (name : String) (params : List String) :
    (v.define name params).Within (v'.define name params) := by
  refine ⟨fun f found hf => ?_, h.inLoop⟩
  have hf : (if f = name then some params else v.paramsOf f) = some found := hf
  show (if f = name then some params else v'.paramsOf f) = some found
  split at hf
  · next hname => rw [if_pos hname]; exact hf
  · next hname => rw [if_neg hname]; exact h.paramsOf f found hf

theorem loopBody (h : v.Within v') : v.loopBody.Within v'.loopBody :=
  ⟨h.paramsOf, rfl⟩

theorem functionBody (h : v.Within v') : v.functionBody.Within v'.functionBody :=
  ⟨h.paramsOf, rfl⟩

theorem after (h : v.Within v') (s : Stmt) : (v.after s).Within (v'.after s) := by
  unfold View.after
  split
  · exact h.define _ _
  · exact h

end View.Within

/-- What the first result gives, the second gives as well. -/
def Kept {α : Type} (r r' : Except Error α) : Prop :=
  ∀ a, r = .ok a → r' = .ok a

namespace Kept

variable {α β γ : Type} {r r' : Except Error α} {f f' : α → Except Error β}

theorem refl (r : Except Error α) : Kept r r := fun _ h => h

theorem error (e : Error) : Kept (.error e) r := by
  rintro _ ⟨⟩

theorem bind (h : Kept r r') (hf : ∀ a, Kept (f a) (f' a)) : Kept (r >>= f) (r' >>= f') := by
  intro b hb
  obtain ⟨a, ha, hfa⟩ := bind_eq_ok hb
  exact bind_eq_ok_iff.mpr ⟨a, h a ha, hf a b hfa⟩

theorem bind_left (h : Kept r r') (f : α → Except Error β) : Kept (r >>= f) (r' >>= f) :=
  h.bind fun a => refl (f a)

theorem mapM {g g' : γ → Except Error α} {cs : List γ} (h : ∀ c ∈ cs, Kept (g c) (g' c)) :
    Kept (cs.mapM g) (cs.mapM g') := by
  induction cs with
  | nil => exact refl _
  | cons c cs ih =>
      obtain ⟨hc, hcs⟩ := List.forall_mem_cons.mp h
      rw [List.mapM_cons, List.mapM_cons]
      exact hc.bind fun _ => (ih hcs).bind_left _

end Kept

theorem kept_application {i : Indent} {order : List Nat} {args : List Arg}
    {f f' : Arg → Except Error String} {write : String → String}
    (h : ∀ a ∈ args, Kept (f a) (f' a)) (direct : Bool) :
    Kept (application i direct order (args.map f) write)
      (application i direct order (args.map f') write) := by
  cases direct with
  | true =>
      refine Kept.bind_left (Kept.mapM fun place _ => ?_) _
      simp only [List.getD_eq_getElem?_getD, List.getElem?_map]
      cases ha : args[place]? with
      | none => exact .refl _
      | some a => exact h a (List.mem_of_getElem? ha)
  | false =>
      refine Kept.bind_left ?_ _
      rw [List.mapM_map, List.mapM_map]
      exact .mapM h

theorem reads_of_kept {α : Type} {key : α → String} {f f' : α → Except Error String}
    {as : List α} {names texts : List String} (has : (as.map key).Nodup)
    (h : ∀ a ∈ as, Kept (f a) (f' a)) (hreads : Reads (as.map fun a => (key a, f a)) names texts) :
    Reads (as.map fun a => (key a, f' a)) names texts := by
  refine hreads.imp fun name text hget => ?_
  obtain ⟨a, ha, hname, hok⟩ := (get?_entries_iff has).mp hget
  exact (get?_entries_iff has).mpr ⟨a, ha, hname, h a ha text hok⟩

end Lowering

open Lowering

/-! ## The two lowerings side by side

The same tree under two descriptors, by its own recursion. Where the smaller descriptor
gives no text there is nothing to show. -/

variable {d d' : Descriptor} {i : Indent}

mutual

theorem Ty.kept_lower (hd : d.Within d') (t : Ty) : Kept (t.lower d) (t.lower d') := by
  match t with
  | .named name =>
      rw [Ty.lower, Ty.lower]
      exact .refl _
  | .generic name args =>
      intro out hout
      obtain ⟨declared, hdeclared, hnodup, texts, hreads, rfl⟩ :=
        Ty.lower_generic_eq_ok_iff.mp hout
      refine Ty.lower_generic_eq_ok_iff.mpr ⟨declared, ?_, hnodup, texts, ?_, rfl⟩
      · exact hd.typeParams name declared hdeclared
      · exact reads_of_kept hnodup (TypeArg.kept_lowerAll hd args) hreads

theorem TypeArg.kept_lowerAll (hd : d.Within d') (as : List TypeArg) :
    ∀ a ∈ as, Kept (a.ty.lower d) (a.ty.lower d') := by
  match as with
  | [] => exact fun _ ha => absurd ha List.not_mem_nil
  | ⟨_, t⟩ :: as =>
      exact List.forall_mem_cons.mpr ⟨Ty.kept_lower hd t, TypeArg.kept_lowerAll hd as⟩

end

theorem Param.kept_lower (hd : d.Within d') (p : Param) : Kept (p.lower d) (p.lower d') :=
  (Ty.kept_lower hd p.ty).bind_left _

theorem kept_signature (hd : d.Within d') (params : List Param) (result : Ty) :
    Kept (lowerSignature d params result) (lowerSignature d' params result) :=
  (Kept.mapM fun p _ => p.kept_lower hd).bind fun _ => (Ty.kept_lower hd result).bind_left _

mutual

theorem Expr.kept_lowerIn (hd : d.Within d') (e : Expr) {v v' : View} (hv : v.Within v') :
    Kept (e.lowerIn d i v) (e.lowerIn d' i v') := by
  match e with
  | .num .. | .str _ | .ident _ =>
      simp only [Expr.lowerIn]
      exact .refl _
  | .func params result body =>
      simp only [Expr.lowerIn]
      refine (kept_signature hd params result).bind fun signature => ?_
      exact (Stmt.kept_lowerIn hd body hv.functionBody).bind_left _
  | .create ty args =>
      simp only [Expr.lowerIn, Arg.lowerAllIn_eq_map]
      cases hdeclared : d.initParamsOf ty.name with
      | none => exact .error _
      | some declared =>
          have hdeclared' : d'.initParamsOf ty.name = some declared :=
            hd.initParams ty.name declared hdeclared
          simp only [hdeclared']
          refine Kept.bind (.refl _) fun order => ?_
          refine (Ty.kept_lower hd ty).bind fun head => ?_
          exact kept_application (Arg.kept_lowerAllIn hd args hv) _
  | .call callee args =>
      simp only [Expr.lowerIn, Arg.lowerAllIn_eq_map]
      cases hdeclared : v.paramsOf callee with
      | none => exact .error _
      | some declared =>
          simp only [hv.paramsOf callee declared hdeclared]
          refine Kept.bind (.refl _) fun order => ?_
          exact kept_application (Arg.kept_lowerAllIn hd args hv) _

theorem Arg.kept_lowerAllIn (hd : d.Within d') (as : List Arg) {v v' : View}
    (hv : v.Within v') :
    ∀ a ∈ as, Kept (a.value.lowerIn d i v) (a.value.lowerIn d' i v') := by
  match as with
  | [] => exact fun _ ha => absurd ha List.not_mem_nil
  | ⟨_, value⟩ :: as =>
      exact List.forall_mem_cons.mpr
        ⟨Expr.kept_lowerIn hd value hv, Arg.kept_lowerAllIn hd as hv⟩

theorem Stmt.kept_lowerIn (hd : d.Within d') (s : Stmt) {v v' : View} (hv : v.Within v') :
    Kept (s.lowerIn d i v) (s.lowerIn d' i v') := by
  match s with
  | .assign target true (.func params result body) =>
      simp only [Stmt.lowerIn]
      refine (kept_signature hd params result).bind fun signature => ?_
      exact (Stmt.kept_lowerIn hd body (hv.define target _).functionBody).bind_left _
  | .assign target true (.num ..) | .assign target true (.str _)
  | .assign target true (.ident _) | .assign target true (.create ..)
  | .assign target true (.call ..) | .assign target false _ | .eval _ =>
      simp only [Stmt.lowerIn]
      exact (Expr.kept_lowerIn hd _ hv).bind_left _
  | .forEach _ value body | .whileDo value body =>
      simp only [Stmt.lowerIn]
      refine (Expr.kept_lowerIn hd value hv).bind fun text => ?_
      exact (Stmt.kept_lowerIn hd body hv.loopBody).bind_left _
  | .branch cases none =>
      simp only [Stmt.lowerIn]
      exact (Case.kept_lowerAllIn hd cases hv).bind_left _
  | .branch cases (some body) =>
      simp only [Stmt.lowerIn]
      refine (Case.kept_lowerAllIn hd cases hv).bind fun text => ?_
      exact (Stmt.kept_lowerIn hd body hv).bind_left _
  | .ret none | .brk | .cont =>
      simp only [Stmt.lowerIn, hv.inLoop]
      exact .refl _
  | .ret (some value) =>
      simp only [Stmt.lowerIn, hv.inLoop]
      cases v'.inLoop with
      | true => exact .refl _
      | false => exact (Expr.kept_lowerIn hd value hv).bind_left _
  | .suite body =>
      simp only [Stmt.lowerIn]
      exact Stmt.kept_lowerAllIn hd body hv

theorem Case.kept_lowerAllIn (hd : d.Within d') (cs : List Case) {v v' : View}
    (hv : v.Within v') :
    Kept (Case.lowerAllIn d i v cs) (Case.lowerAllIn d' i v' cs) := by
  match cs with
  | [] =>
      simp only [Case.lowerAllIn]
      exact .refl _
  | ⟨cond, body⟩ :: cs =>
      simp only [Case.lowerAllIn]
      refine (Expr.kept_lowerIn hd cond hv).bind fun text => ?_
      refine (Stmt.kept_lowerIn hd body hv).bind fun text => ?_
      exact (Case.kept_lowerAllIn hd cs hv).bind_left _

theorem Stmt.kept_lowerAllIn (hd : d.Within d') (ss : List Stmt) {v v' : View}
    (hv : v.Within v') :
    Kept (Stmt.lowerAllIn d i v ss) (Stmt.lowerAllIn d' i v' ss) := by
  match ss with
  | [] =>
      simp only [Stmt.lowerAllIn]
      exact .refl _
  | s :: ss =>
      simp only [Stmt.lowerAllIn]
      refine (Stmt.kept_lowerIn hd s hv).bind fun text => ?_
      exact (Stmt.kept_lowerAllIn hd ss (hv.after s)).bind_left _

end

theorem Node.kept_lowerIn (hd : d.Within d') (n : Node) {v v' : View} (hv : v.Within v') :
    Kept (n.lowerIn d i v) (n.lowerIn d' i v') := by
  cases n with
  | ty t => exact t.kept_lower hd
  | typeArg a => exact a.ty.kept_lower hd
  | param p => exact p.kept_lower hd
  | expr e => exact e.kept_lowerIn hd hv
  | arg a => exact a.value.kept_lowerIn hd hv
  | stmt s => exact s.kept_lowerIn hd hv
  | case c => exact Case.kept_lowerAllIn hd [c] hv
  | fallback body => exact (body.kept_lowerIn hd hv).bind_left _

/-- A tree that has a text under a descriptor has the same text under every
descriptor that declares all the first one does, whatever else it declares, be
it under the name of a function that the tree defines itself. -/
theorem lower_of_descriptor_within (d d' : Descriptor) (hd : d.Within d') (l : Layout) (n : Node)
    (text : String) (h : lower d l n = .ok text) : lower d' l n = .ok text := by
  rw [lower, Node.lower_start] at h ⊢
  exact n.kept_lowerIn hd (.start hd) text h

/-- The larger descriptor has a type and a function more, and the function is one
that the program defines with other parameters and calls, inside and outside. -/
theorem lower_of_descriptor_within_shadowed :
    let d := Descriptor.empty.withFuncParams "f" ["a", "b"]
    let d' := (d.withFuncParams "g" ["z"]).withInitParams "T" []
    let inner : Expr := .call "f" [⟨"b", .ident "u"⟩, ⟨"a", .ident "u"⟩]
    let call : Expr := .call "g" [⟨"y", .str "s"⟩, ⟨"x", inner⟩]
    let g : Expr := .func [⟨"x", .named "T"⟩, ⟨"y", .named "T"⟩] (.named "T") (.ret (some call))
    let n : Node := .stmt (.suite [.assign "g" true g, .eval call])
    d.Within d' ∧ d'.funcParamsOf "g" = some ["z"] ∧
      ∃ text, lower d {} n = .ok text ∧ lower d' {} n = .ok text := by
  intro d d' inner call g n
  have hfuncs : Table.Within d.funcParams (Table.insert "g" ["z"] d.funcParams) :=
    Table.within_insert rfl _
  have hd : d.Within d' := ⟨fun _ _ h => h, Table.within_insert rfl _, hfuncs⟩
  exact ⟨hd, rfl, _, rfl, lower_of_descriptor_within d d' hd {} n _ rfl⟩

end TreeIR
