import TreeIR.Proofs.Legibility
import TreeIR.Tree.Kind

/-!
# The diagnostic text tells trees apart

Legible trees with the same diagnostic text differ in nothing but the nesting of
suites, which `Node.flatten` takes away.

With the parts of a form read off in `Legibility.lean`, what is left is to tell
one form from another. That is done once for expressions and once for statements,
by a function that reads the kind off the first few characters, and a third time
for the places in a tree, since a type and an expression, or a case and a
statement, are never in each other's place but can both be named by an error.
-/

namespace TreeIR

section Expressions

variable {params : List Param} {result t : Ty} {body : Stmt} {args args' : List Arg}
  {name callee text value : String} {isFloat : Bool}

theorem Expr.toList_num (r : List Char) :
    (Expr.num text isFloat).render.toList ++ r
      = (if isFloat then 'f' else 'i') :: (text.toList ++ r) := by
  cases isFloat <;> simp [Expr.render]

theorem Expr.toList_str (r : List Char) :
    (Expr.str value).render.toList ++ r = '"' :: (value.toList ++ '"' :: r) := by
  simp [Expr.render]

theorem Expr.toList_ident (r : List Char) :
    (Expr.ident name).render.toList ++ r = '$' :: (name.toList ++ r) := by
  simp [Expr.render]

theorem Expr.toList_func (r : List Char) :
    (Expr.func params result body).render.toList ++ r
      = '(' :: (commas Param.render params ++ ')' :: '-' :: '>' ::
        (result.render.toList ++ ((Form.block body.render).toList ++ r))) := by
  simp [Expr.render, commas]

theorem Expr.toList_create (r : List Char) :
    (Expr.create t args).render.toList ++ r
      = '(' :: (t.render.toList ++ '(' :: (commas Arg.render args ++ ')' :: ')' :: r)) := by
  simp [Expr.render, commas, Arg.renderAll_eq_map]

theorem Expr.toList_call (r : List Char) :
    (Expr.call callee args).render.toList ++ r
      = '(' :: '$' :: (callee.toList ++ '(' :: (commas Arg.render args ++ ')' :: ')' :: r)) := by
  simp [Expr.render, commas, Arg.renderAll_eq_map]

theorem Arg.toList_render (a : Arg) (r : List Char) :
    a.render.toList ++ r = '$' :: (a.name.toList ++ '=' :: (a.value.render.toList ++ r)) := by
  simp [Arg.render, Form.arg]

theorem Param.head?_render (p : Param) :
    p.render.toList.head? ≠ none ∧ p.render.toList.head? ≠ some ')' := by
  rw [← List.append_nil p.render.toList, Param.toList_render]
  exact ⟨by simp, by simp⟩

theorem Arg.head?_render (a : Arg) :
    a.render.toList.head? ≠ none ∧ a.render.toList.head? ≠ some ')' := by
  rw [← List.append_nil a.render.toList, Arg.toList_render]
  exact ⟨by simp, by simp⟩

theorem Ty.exists_toList_render (t : Ty) (r : List Char) :
    ∃ rest, t.render.toList ++ r = '#' :: rest := by
  cases t with
  | named name => exact ⟨_, Ty.toList_named name r⟩
  | generic name args => exact ⟨_, Ty.toList_generic name args r⟩

/-- A list of parameters is empty or starts with a name and a colon. -/
theorem Param.commas_cases (params : List Param) (r : List Char) :
    commas Param.render params ++ ')' :: r = ')' :: r ∨
      ∃ p ∈ params, ∃ rest,
        commas Param.render params ++ ')' :: r = '$' :: (p.name.toList ++ ':' :: rest) := by
  cases params with
  | nil => exact .inl rfl
  | cons p params =>
      refine .inr ⟨p, List.mem_cons_self,
        p.ty.render.toList ++ (commasBefore Param.render params ++ ')' :: r), ?_⟩
      rw [commas_cons, List.append_assoc, Param.toList_render]

/-- The kind of expression that a text begins with. -/
def Expr.kindOf : List Char → Kind
  | '"' :: _ => .str
  | '$' :: _ => .ident
  | '(' :: '#' :: _ => .create
  | '(' :: '$' :: cs => if (cs.dropWhile isNumeralChar).head? = some '(' then .call else .func
  | '(' :: _ => .func
  | _ => .num

theorem Expr.kindOf_render {e : Expr} (h : (Node.expr e).Legible) (r : List Char) :
    Expr.kindOf (e.render.toList ++ r) = e.kind := by
  cases e with
  | num text isFloat =>
      rw [Expr.toList_num]
      cases isFloat <;> rfl
  | str value =>
      rw [Expr.toList_str]
      rfl
  | ident name =>
      rw [Expr.toList_ident]
      rfl
  | func params result body =>
      -- without parameters it starts with both brackets, which no other form does; with them it
      -- starts with a name as a call does, but the name has a colon behind it
      rw [Expr.toList_func]
      rcases Param.commas_cases params ('-' :: '>' ::
          (result.render.toList ++ ((Form.block body.render).toList ++ r))) with
        hnone | ⟨p, hp, _, hsome⟩
      · rw [hnone]
        rfl
      · have hname : Word p.name :=
          (h.child (List.mem_append_left _ (List.mem_map_of_mem hp))).spelled
        rw [hsome, Expr.kindOf, dropWhile_run hname.numeral (endsWord_cons (by decide) _)]
        rfl
  | create t args =>
      rw [Expr.toList_create]
      obtain ⟨rest, hty⟩ :=
        t.exists_toList_render ('(' :: (commas Arg.render args ++ ')' :: ')' :: r))
      rw [hty]
      rfl
  | call callee args =>
      have hcallee : Word callee := h.spelled
      rw [Expr.toList_call, Expr.kindOf,
        dropWhile_run hcallee.numeral (endsWord_cons (by decide) _)]
      rfl

theorem Expr.kind_eq {e e' : Expr} {r r' : List Char} (he : (Node.expr e).Legible)
    (he' : (Node.expr e').Legible) (h : e.render.toList ++ r = e'.render.toList ++ r') :
    e.kind = e'.kind := by
  rw [← Expr.kindOf_render he r, h, Expr.kindOf_render he' r']

theorem Expr.isApart_num (hlegible : (Node.expr (.num text isFloat)).Legible) :
    (Expr.num text isFloat).IsApart := by
  intro e' r r' hlegible' hr hr' h
  have hkind := Expr.kind_eq hlegible hlegible' h
  cases e' with
  | num text' isFloat' =>
      have htext : Numeral text := hlegible.spelled
      rw [Expr.toList_num, Expr.toList_num] at h
      obtain ⟨hmark, h⟩ := List.cons.inj h
      obtain ⟨rfl, hrest⟩ := htext.append_inj hlegible'.spelled hr.1 hr'.1 h
      have hfloat : isFloat = isFloat' := by
        cases isFloat <;> cases isFloat' <;> simp_all
      exact ⟨by rw [hfloat], hrest⟩
  | _ => cases hkind

theorem Expr.isApart_str (hlegible : (Node.expr (.str value)).Legible) :
    (Expr.str value).IsApart := by
  intro e' r r' hlegible' hr hr' h
  have hkind := Expr.kind_eq hlegible hlegible' h
  cases e' with
  | str value' =>
      have hrun : ∀ {s : String}, '"' ∉ s.toList → ∀ c ∈ s.toList, (c != '"') = true := by
        intro s hs c hc
        rw [bne_iff_ne]
        rintro rfl
        exact hs hc
      rw [Expr.toList_str, Expr.toList_str] at h
      obtain ⟨hchars, hrest⟩ := append_inj_of_run (hrun hlegible.spelled) (hrun hlegible'.spelled)
        (by rintro _ ⟨⟩; rfl) (by rintro _ ⟨⟩; rfl) (List.cons.inj h).2
      exact ⟨congrArg Expr.str (String.toList_inj.mp hchars), (List.cons.inj hrest).2⟩
  | _ => cases hkind

theorem Expr.isApart_ident (hlegible : (Node.expr (.ident name)).Legible) :
    (Expr.ident name).IsApart := by
  intro e' r r' hlegible' hr hr' h
  have hkind := Expr.kind_eq hlegible hlegible' h
  cases e' with
  | ident name' =>
      have hname : Word name := hlegible.spelled
      have hname' : Word name' := hlegible'.spelled
      rw [Expr.toList_ident, Expr.toList_ident] at h
      obtain ⟨rfl, hrest⟩ := hname.numeral.append_inj hname'.numeral hr.1 hr'.1 (List.cons.inj h).2
      exact ⟨rfl, hrest⟩
  | _ => cases hkind

theorem Form.stops_block (text : String) (r : List Char) :
    Stops ((Form.block text).toList ++ r) := by
  rw [Form.toList_block]
  exact stops_cons (by decide) (by decide) _

theorem Node.Legible.func (h : (Node.expr (.func params result body)).Legible) :
    (∀ p ∈ params, (Node.param p).Legible) ∧ (Node.ty result).Legible ∧
      (Node.stmt body).Legible :=
  ⟨fun _ hp => h.child (List.mem_append_left _ (List.mem_map_of_mem hp)),
    h.child (by simp [Node.children]), h.child (by simp [Node.children])⟩

theorem Expr.isApart_func (hlegible : (Node.expr (.func params result body)).Legible)
    (hparams : ∀ p ∈ params, p.IsApart) (hresult : result.IsApart) (hbody : body.AllApart) :
    (Expr.func params result body).IsApart := by
  intro e' r r' hlegible' hr hr' h
  have hkind := Expr.kind_eq hlegible hlegible' h
  cases e' with
  | func params' result' body' =>
      obtain ⟨hparams', hresult', hbody'⟩ := hlegible'.func
      rw [Expr.toList_func, Expr.toList_func] at h
      obtain ⟨hmap, h⟩ := commas_append_inj (by decide) (by decide) (by decide)
        (fun p _ => p.head?_render) hlegible.func.1 hparams' hparams (List.cons.inj h).2
      rw [List.map_id, List.map_id] at hmap
      obtain ⟨hty, h⟩ := hresult result' _ _ hresult' (Form.stops_block _ r) (Form.stops_block _ r')
        (List.cons.inj (List.cons.inj h).2).2
      obtain ⟨hflat, hrest⟩ := hbody.block_append_inj hbody' h
      exact ⟨by rw [Expr.flatten, Expr.flatten, hmap, hflat, show result = result' from hty], hrest⟩
  | _ => cases hkind

/-- The arguments of an application, with the brackets behind them. -/
theorem Arg.flattenAll_append_inj {r r' : List Char} (hlegible : ∀ a ∈ args, (Node.arg a).Legible)
    (hlegible' : ∀ a ∈ args', (Node.arg a).Legible) (hargs : ∀ a ∈ args, a.IsApart)
    (h : commas Arg.render args ++ ')' :: ')' :: r = commas Arg.render args' ++ ')' :: ')' :: r') :
    Arg.flattenAll args = Arg.flattenAll args' ∧ r = r' := by
  obtain ⟨hmap, hrest⟩ := commas_append_inj (by decide) (by decide) (by decide)
    (fun a _ => a.head?_render) hlegible hlegible' hargs h
  rw [Arg.flattenAll_eq_map, Arg.flattenAll_eq_map]
  exact ⟨hmap, (List.cons.inj hrest).2⟩

theorem Node.Legible.create (h : (Node.expr (.create t args)).Legible) :
    (Node.ty t).Legible ∧ ∀ a ∈ args, (Node.arg a).Legible :=
  ⟨h.child List.mem_cons_self,
    fun _ ha => h.child (List.mem_cons_of_mem _ (List.mem_map_of_mem ha))⟩

theorem Expr.isApart_create (hlegible : (Node.expr (.create t args)).Legible) (ht : t.IsApart)
    (hargs : ∀ a ∈ args, a.IsApart) : (Expr.create t args).IsApart := by
  intro e' r r' hlegible' hr hr' h
  have hkind := Expr.kind_eq hlegible hlegible' h
  cases e' with
  | create t' args' =>
      obtain ⟨ht', hargs'⟩ := hlegible'.create
      rw [Expr.toList_create, Expr.toList_create] at h
      obtain ⟨hty, h⟩ := ht t' _ _ ht' (stops_cons (by decide) (by decide) _)
        (stops_cons (by decide) (by decide) _) (List.cons.inj h).2
      obtain ⟨hflat, hrest⟩ := Arg.flattenAll_append_inj hlegible.create.2 hargs' hargs
        (List.cons.inj h).2
      exact ⟨by rw [Expr.flatten, Expr.flatten, hflat, show t = t' from hty], hrest⟩
  | _ => cases hkind

theorem Node.Legible.call (h : (Node.expr (.call callee args)).Legible) :
    Word callee ∧ ∀ a ∈ args, (Node.arg a).Legible :=
  ⟨h.spelled, fun _ ha => h.child (List.mem_map_of_mem ha)⟩

theorem Expr.isApart_call (hlegible : (Node.expr (.call callee args)).Legible)
    (hargs : ∀ a ∈ args, a.IsApart) : (Expr.call callee args).IsApart := by
  intro e' r r' hlegible' hr hr' h
  have hkind := Expr.kind_eq hlegible hlegible' h
  cases e' with
  | call callee' args' =>
      obtain ⟨hcallee', hargs'⟩ := hlegible'.call
      rw [Expr.toList_call, Expr.toList_call] at h
      obtain ⟨rfl, -, h⟩ := hlegible.call.1.append_cons_inj hcallee' (by decide) (by decide)
        (List.cons.inj (List.cons.inj h).2).2
      obtain ⟨hflat, hrest⟩ := Arg.flattenAll_append_inj hlegible.call.2 hargs' hargs h
      exact ⟨by rw [Expr.flatten, Expr.flatten, hflat], hrest⟩
  | _ => cases hkind

theorem Arg.isApart {e : Expr} (hname : Word name) (he : e.IsApart) : (Arg.mk name e).IsApart := by
  rintro ⟨name', e'⟩ r r' hlegible' hr hr' h
  rw [Arg.toList_render, Arg.toList_render] at h
  obtain ⟨rfl, -, h⟩ := hname.append_cons_inj hlegible'.spelled (by decide) (by decide)
    (List.cons.inj h).2
  obtain ⟨hview, hrest⟩ := he e' r r' (hlegible'.child List.mem_cons_self) hr hr' h
  exact ⟨congrArg (Arg.mk name) hview, hrest⟩

end Expressions

/-! ## Statements

A statement shows what it is by its first words. Where bodies follow, their lines are set
off by a margin, and what comes behind them is not. -/

section Statements

variable {target item : String} {defines : Bool} {e : Expr} {body : Stmt} {cs cs' : List Case}
  {last last' : Option Stmt} {r r' : List Char}

theorem Stmt.toList_assign :
    (Stmt.assign target defines e).render.toList ++ r
      = '$' :: (target.toList ++ (if defines then ':' else '<') :: (if defines then '=' else '-') ::
        (e.render.toList ++ '\n' :: r)) := by
  cases defines <;> simp [Stmt.render]

theorem Stmt.toList_eval :
    (Stmt.eval e).render.toList ++ r = "do(".toList ++ (e.render.toList ++ ')' :: '\n' :: r) := by
  simp [Stmt.render]

theorem Stmt.toList_forEach :
    (Stmt.forEach item e body).render.toList ++ r
      = "foreach($".toList ++ (item.toList ++ '<' :: '-' :: (e.render.toList ++ ')' ::
        ((Form.block body.render).toList ++ '\n' :: r))) := by
  simp [Stmt.render]

theorem Stmt.toList_whileDo :
    (Stmt.whileDo e body).render.toList ++ r
      = "while(".toList ++ (e.render.toList ++ ')' ::
        ((Form.block body.render).toList ++ '\n' :: r)) := by
  simp [Stmt.render]

theorem Stmt.toList_ret_some :
    (Stmt.ret (some e)).render.toList ++ r
      = "return(".toList ++ (e.render.toList ++ ')' :: '\n' :: r) := by
  simp [Stmt.render]

theorem Case.toList_render (c : Case) (r : List Char) :
    c.render.toList ++ r
      = "case(".toList ++ (c.cond.render.toList ++ ')' :: ':' :: '\n' ::
        ((Form.body c.body.render).toList ++ '\n' :: r)) := by
  simp [Case.render, Form.case]

theorem Form.toList_fallback (text : String) (r : List Char) :
    (Form.fallback text).toList ++ r
      = "default:\n".toList ++ ((Form.body text).toList ++ '\n' :: r) := by
  simp [Form.fallback]

/-- The last case of a branch, if it has one. -/
def Form.lastText (last : Option Stmt) : List Char :=
  last.elim [] fun body => (Form.fallback body.render).toList

theorem Stmt.toList_branch :
    (Stmt.branch cs last).render.toList ++ r
      = "branch\x7b\n".toList ++ ((Case.renderAll cs).toList
        ++ (Form.lastText last ++ '\x7d' :: '\n' :: r)) := by
  cases last <;> simp [Stmt.render, Form.lastText]

theorem Case.toList_renderAll_cons (c : Case) (cs : List Case) (r : List Char) :
    (Case.renderAll (c :: cs)).toList ++ r
      = c.render.toList ++ ((Case.renderAll cs).toList ++ r) := by
  obtain ⟨cond, body⟩ := c
  rw [Case.renderAll, String.toList_append, List.append_assoc]
  rfl

/-- The kind of statement that a text begins with. -/
def Stmt.kindOf : List Char → Kind
  | '$' :: _ => .assign
  | 'd' :: _ => .eval
  | 'f' :: _ => .forEach
  | 'w' :: _ => .whileDo
  | 'r' :: _ => .ret
  | 'c' :: _ => .cont
  | 'b' :: 'r' :: 'a' :: _ => .branch
  | _ => .brk

theorem Stmt.kindOf_render {s : Stmt} (h : s.isSuite = false) (r : List Char) :
    Stmt.kindOf (s.render.toList ++ r) = s.kind := by
  cases s with
  | assign target defines e =>
      rw [Stmt.toList_assign]
      rfl
  | eval e =>
      rw [Stmt.toList_eval]
      rfl
  | forEach item e body =>
      rw [Stmt.toList_forEach]
      rfl
  | whileDo e body =>
      rw [Stmt.toList_whileDo]
      rfl
  | branch cs last =>
      rw [Stmt.toList_branch]
      rfl
  | ret value =>
      cases value with
      | none => rfl
      | some e =>
          rw [Stmt.toList_ret_some]
          rfl
  | brk => rfl
  | cont => rfl
  | suite body => cases h

theorem Stmt.kind_eq {s s' : Stmt} (hs : s.isSuite = false) (hs' : s'.isSuite = false)
    (h : s.render.toList ++ r = s'.render.toList ++ r') : s.kind = s'.kind := by
  rw [← Stmt.kindOf_render hs r, h, Stmt.kindOf_render hs' r']

/-- An expression in brackets. -/
theorem Expr.IsApart.bracket_append_inj {e e' : Expr} (he : e.IsApart)
    (he' : (Node.expr e').Legible)
    (h : e.render.toList ++ ')' :: r = e'.render.toList ++ ')' :: r') :
    e.flatten = e'.flatten ∧ r = r' := by
  obtain ⟨hview, hrest⟩ := he e' _ _ he' (stops_cons (by decide) (by decide) r)
    (stops_cons (by decide) (by decide) r') h
  exact ⟨hview, (List.cons.inj hrest).2⟩

theorem Stmt.isApart_assign (htarget : Word target) (he : e.IsApart) :
    (Stmt.assign target defines e).IsApart := by
  rintro s' r r' ⟨hs', hlegible'⟩ - - h
  have hkind := Stmt.kind_eq rfl hs' h
  cases s' with
  | assign target' defines' e' =>
      rw [Stmt.toList_assign, Stmt.toList_assign] at h
      obtain ⟨rfl, hmark, h⟩ := htarget.append_cons_inj hlegible'.spelled
        (by cases defines <;> decide) (by cases defines' <;> decide) (List.cons.inj h).2
      have hdefines : defines = defines' := by
        cases defines <;> cases defines' <;> simp_all
      obtain ⟨hview, hrest⟩ := he e' _ _ (hlegible'.child List.mem_cons_self)
        (stops_cons (by decide) (by decide) r) (stops_cons (by decide) (by decide) r')
        (List.cons.inj h).2
      exact ⟨by rw [Stmt.flat, Stmt.flat, hdefines, hview], (List.cons.inj hrest).2⟩
  | _ => cases hkind

theorem Stmt.isApart_eval (he : e.IsApart) : (Stmt.eval e).IsApart := by
  rintro s' r r' ⟨hs', hlegible'⟩ - - h
  have hkind := Stmt.kind_eq rfl hs' h
  cases s' with
  | eval e' =>
      rw [Stmt.toList_eval, Stmt.toList_eval] at h
      obtain ⟨hview, hrest⟩ := he.bracket_append_inj (hlegible'.child List.mem_cons_self)
        (List.append_cancel_left h)
      exact ⟨by rw [Stmt.flat, Stmt.flat, hview], (List.cons.inj hrest).2⟩
  | _ => cases hkind

theorem Stmt.isApart_forEach (hitem : Word item) (he : e.IsApart) (hbody : body.AllApart) :
    (Stmt.forEach item e body).IsApart := by
  rintro s' r r' ⟨hs', hlegible'⟩ - - h
  have hkind := Stmt.kind_eq rfl hs' h
  cases s' with
  | forEach item' e' body' =>
      have he' : (Node.expr e').Legible := hlegible'.child List.mem_cons_self
      have hbody' : (Node.stmt body').Legible := hlegible'.child (by simp [Node.children])
      rw [Stmt.toList_forEach, Stmt.toList_forEach] at h
      obtain ⟨rfl, -, h⟩ := hitem.append_cons_inj hlegible'.spelled (by decide) (by decide)
        (List.append_cancel_left h)
      obtain ⟨hview, h⟩ := he.bracket_append_inj he' (List.cons.inj h).2
      obtain ⟨hflat, hrest⟩ := hbody.block_append_inj hbody' h
      exact ⟨by rw [Stmt.flat, Stmt.flat, hview, hflat], (List.cons.inj hrest).2⟩
  | _ => cases hkind

theorem Stmt.isApart_whileDo (he : e.IsApart) (hbody : body.AllApart) :
    (Stmt.whileDo e body).IsApart := by
  rintro s' r r' ⟨hs', hlegible'⟩ - - h
  have hkind := Stmt.kind_eq rfl hs' h
  cases s' with
  | whileDo e' body' =>
      have he' : (Node.expr e').Legible := hlegible'.child List.mem_cons_self
      have hbody' : (Node.stmt body').Legible := hlegible'.child (by simp [Node.children])
      rw [Stmt.toList_whileDo, Stmt.toList_whileDo] at h
      obtain ⟨hview, h⟩ := he.bracket_append_inj he' (List.append_cancel_left h)
      obtain ⟨hflat, hrest⟩ := hbody.block_append_inj hbody' h
      exact ⟨by rw [Stmt.flat, Stmt.flat, hview, hflat], (List.cons.inj hrest).2⟩
  | _ => cases hkind

theorem Stmt.isApart_ret_none : (Stmt.ret none).IsApart := by
  rintro s' r r' ⟨hs', hlegible'⟩ - - h
  have hkind := Stmt.kind_eq rfl hs' h
  cases s' with
  | ret value' =>
      cases value' with
      | none => exact ⟨rfl, List.append_cancel_left h⟩
      | some e' => simp [Stmt.render] at h
  | _ => cases hkind

theorem Stmt.isApart_ret_some (he : e.IsApart) : (Stmt.ret (some e)).IsApart := by
  rintro s' r r' ⟨hs', hlegible'⟩ - - h
  have hkind := Stmt.kind_eq rfl hs' h
  cases s' with
  | ret value' =>
      cases value' with
      | none => simp [Stmt.render] at h
      | some e' =>
          rw [Stmt.toList_ret_some, Stmt.toList_ret_some] at h
          obtain ⟨hview, hrest⟩ := he.bracket_append_inj (hlegible'.child List.mem_cons_self)
            (List.append_cancel_left h)
          exact ⟨by rw [Stmt.flat, Stmt.flat, hview], (List.cons.inj hrest).2⟩
  | _ => cases hkind

theorem Stmt.isApart_brk : Stmt.brk.IsApart := by
  rintro s' r r' ⟨hs', -⟩ - - h
  have hkind := Stmt.kind_eq rfl hs' h
  cases s' with
  | brk => exact ⟨rfl, List.append_cancel_left h⟩
  | _ => cases hkind

theorem Stmt.isApart_cont : Stmt.cont.IsApart := by
  rintro s' r r' ⟨hs', -⟩ - - h
  have hkind := Stmt.kind_eq rfl hs' h
  cases s' with
  | cont => exact ⟨rfl, List.append_cancel_left h⟩
  | _ => cases hkind

theorem Case.isApart (he : e.IsApart) (hbody : body.AllApart) : (Case.mk e body).IsApart := by
  rintro ⟨e', body'⟩ r r' hlegible' hr hr' h
  have he' : (Node.expr e').Legible := hlegible'.child List.mem_cons_self
  have hbody' : (Node.stmt body').Legible := hlegible'.child (by simp [Node.children])
  rw [Case.toList_render, Case.toList_render] at h
  obtain ⟨hview, h⟩ := he.bracket_append_inj he' (List.append_cancel_left h)
  obtain ⟨hflat, hrest⟩ := hbody.body_append_inj hbody' hr hr'
    (List.cons.inj (List.cons.inj h).2).2
  exact ⟨by rw [Case.flatten, Case.flatten, hview, hflat], hrest⟩

/-- The rest of a text does not go on with a case. -/
def EndsCases (r : List Char) : Prop :=
  Flush r ∧ r.head? ≠ some 'c'

theorem Case.head?_renderAll_cons (c : Case) (cs : List Case) (r : List Char) :
    ((Case.renderAll (c :: cs)).toList ++ r).head? = some 'c' := by
  rw [Case.toList_renderAll_cons, Case.toList_render]
  rfl

theorem Case.flush_renderAll (cs : List Case) (hr : Flush r) :
    Flush ((Case.renderAll cs).toList ++ r) := by
  cases cs with
  | nil => exact hr
  | cons c cs =>
      rw [Flush, Case.head?_renderAll_cons]
      decide

/-- Cases are told apart as long as what is behind them is no further case. -/
theorem Case.renderAll_append_inj (hapart : ∀ c ∈ cs, c.IsApart)
    (hcs' : ∀ c ∈ cs', (Node.case c).Legible) (hr : EndsCases r) (hr' : EndsCases r')
    (h : (Case.renderAll cs).toList ++ r = (Case.renderAll cs').toList ++ r') :
    Case.flattenAll cs = Case.flattenAll cs' ∧ r = r' := by
  rw [Case.flattenAll_eq_map, Case.flattenAll_eq_map]
  induction cs generalizing cs' with
  | nil =>
      cases cs' with
      | nil => exact ⟨rfl, h⟩
      | cons c' cs' =>
          rw [Case.renderAll] at h
          exact absurd ((congrArg List.head? h).trans (Case.head?_renderAll_cons c' cs' r')) hr.2
  | cons c cs ih =>
      cases cs' with
      | nil =>
          rw [Case.renderAll.eq_1] at h
          exact absurd ((congrArg List.head? h.symm).trans (Case.head?_renderAll_cons c cs r)) hr'.2
      | cons c' cs' =>
          obtain ⟨hc, hcs⟩ := List.forall_mem_cons.mp hapart
          obtain ⟨hc', hcs'⟩ := List.forall_mem_cons.mp hcs'
          rw [Case.toList_renderAll_cons, Case.toList_renderAll_cons] at h
          obtain ⟨hview, h⟩ := hc c' _ _ hc' (Case.flush_renderAll cs hr.1)
            (Case.flush_renderAll cs' hr'.1) h
          obtain ⟨hviews, hrest⟩ := ih hcs hcs' h
          exact ⟨by rw [List.map_cons, List.map_cons, hview, hviews], hrest⟩

/-- The text of the last case with a rest behind it shows its body and the rest. -/
theorem Stmt.AllApart.fallback_append_inj {s s' : Stmt} (h : s.AllApart)
    (hs' : (Node.stmt s').Legible) (hr : Flush r) (hr' : Flush r')
    (heq : (Form.fallback s.render).toList ++ r = (Form.fallback s'.render).toList ++ r') :
    s.flat = s'.flat ∧ r = r' := by
  rw [Form.toList_fallback, Form.toList_fallback] at heq
  exact h.body_append_inj hs' hr hr' (List.append_cancel_left heq)

theorem Form.endsCases_lastText (last : Option Stmt) (r : List Char) :
    EndsCases (Form.lastText last ++ '\x7d' :: r) := by
  cases last with
  | none => exact ⟨by simp [Flush, Form.lastText], by simp [Form.lastText]⟩
  | some body =>
      rw [Form.lastText, Option.elim, Form.toList_fallback]
      exact ⟨by simp [Flush], by simp⟩

/-- The last case as it is seen in a flat tree. -/
def Stmt.flatLast (last : Option Stmt) : Option Stmt :=
  last.map fun body => .suite body.flat

theorem Stmt.flat_branch (cs : List Case) (last : Option Stmt) :
    (Stmt.branch cs last).flat = [.branch (Case.flattenAll cs) (Stmt.flatLast last)] := by
  cases last <;> rfl

theorem Form.lastText_append_inj (hlast : ∀ body ∈ last, body.AllApart)
    (hlast' : ∀ body ∈ last', (Node.stmt body).Legible)
    (h : Form.lastText last ++ '\x7d' :: r = Form.lastText last' ++ '\x7d' :: r') :
    Stmt.flatLast last = Stmt.flatLast last' ∧ r = r' := by
  cases last with
  | none =>
      cases last' with
      | none => exact ⟨rfl, (List.cons.inj h).2⟩
      | some body' =>
          rw [Form.lastText, Form.lastText, Option.elim, Option.elim, Form.toList_fallback] at h
          cases h
  | some body =>
      cases last' with
      | none =>
          rw [Form.lastText, Form.lastText, Option.elim, Option.elim, Form.toList_fallback] at h
          cases h
      | some body' =>
          obtain ⟨hflat, hrest⟩ := (hlast body rfl).fallback_append_inj (hlast' body' rfl)
            (by simp [Flush]) (by simp [Flush]) h
          exact ⟨by rw [Stmt.flatLast, Stmt.flatLast, Option.map_some, Option.map_some, hflat],
            (List.cons.inj hrest).2⟩

theorem Stmt.isApart_branch (hcs : ∀ c ∈ cs, c.IsApart) (hlast : ∀ body ∈ last, body.AllApart) :
    (Stmt.branch cs last).IsApart := by
  rintro s' r r' ⟨hs', hlegible'⟩ - - h
  have hkind := Stmt.kind_eq rfl hs' h
  cases s' with
  | branch cs' last' =>
      have hcs' : ∀ c ∈ cs', (Node.case c).Legible := fun c hc =>
        hlegible'.child (List.mem_append_left _ (List.mem_map_of_mem hc))
      have hlast' : ∀ body ∈ last', (Node.stmt body).Legible := by
        rintro body ⟨⟩
        exact (hlegible'.child (List.mem_append_right _ List.mem_cons_self)).child
          List.mem_cons_self
      rw [Stmt.toList_branch, Stmt.toList_branch] at h
      obtain ⟨hcases, h⟩ := Case.renderAll_append_inj hcs hcs' (Form.endsCases_lastText last _)
        (Form.endsCases_lastText last' _) (List.append_cancel_left h)
      obtain ⟨hflat, hrest⟩ := Form.lastText_append_inj hlast hlast' h
      exact ⟨by rw [Stmt.flat_branch, Stmt.flat_branch, hcases, hflat], (List.cons.inj hrest).2⟩
  | _ => cases hkind

end Statements

/-- Any node can be told from what follows it, up to the nesting of suites in it. -/
def Node.IsApart : Node → Prop
  | .ty t => t.IsApart
  | .typeArg a => a.IsApart
  | .param p => p.IsApart
  | .expr e => e.IsApart
  | .arg a => a.IsApart
  | .stmt s => s.AllApart
  | .case c => c.IsApart
  | .fallback body => body.AllApart

theorem Ty.isApart_of_children {t : Ty} (h : (Node.ty t).Legible)
    (hchild : ∀ c ∈ (Node.ty t).children, c.IsApart) : t.IsApart := by
  cases t with
  | named name => exact Ty.isApart_named h.spelled
  | generic name args =>
      exact Ty.isApart_generic h.spelled (fun a ha => h.child (List.mem_map_of_mem ha))
        fun a ha => hchild _ (List.mem_map_of_mem ha)

theorem Expr.isApart_of_children {e : Expr} (h : (Node.expr e).Legible)
    (hchild : ∀ c ∈ (Node.expr e).children, c.IsApart) : e.IsApart := by
  cases e with
  | num text isFloat => exact Expr.isApart_num h
  | str value => exact Expr.isApart_str h
  | ident name => exact Expr.isApart_ident h
  | func params result body =>
      obtain ⟨hparams, hrest⟩ := List.forall_mem_append.mp hchild
      exact Expr.isApart_func h (fun p hp => hparams _ (List.mem_map_of_mem hp))
        (hrest _ List.mem_cons_self) (hrest (.stmt body) (by simp))
  | create t args =>
      obtain ⟨ht, hargs⟩ := List.forall_mem_cons.mp hchild
      exact Expr.isApart_create h ht fun a ha => hargs _ (List.mem_map_of_mem ha)
  | call callee args =>
      exact Expr.isApart_call h fun a ha => hchild _ (List.mem_map_of_mem ha)

theorem Stmt.IsApart.all {s : Stmt} (h : s.IsApart) (hs : s.isSuite = false) : s.AllApart := by
  intro t ht
  rw [Stmt.dissolved_of_not_isSuite hs] at ht
  exact List.mem_singleton.mp ht ▸ h

theorem Stmt.allApart_of_children {s : Stmt} (h : (Node.stmt s).Legible)
    (hchild : ∀ c ∈ (Node.stmt s).children, c.IsApart) : s.AllApart := by
  cases s with
  | assign target defines e =>
      exact (Stmt.isApart_assign h.spelled (hchild _ List.mem_cons_self)).all rfl
  | eval e => exact (Stmt.isApart_eval (hchild _ List.mem_cons_self)).all rfl
  | forEach item e body =>
      obtain ⟨he, hbody⟩ := List.forall_mem_cons.mp hchild
      exact (Stmt.isApart_forEach h.spelled he (hbody _ List.mem_cons_self)).all rfl
  | whileDo e body =>
      obtain ⟨he, hbody⟩ := List.forall_mem_cons.mp hchild
      exact (Stmt.isApart_whileDo he (hbody _ List.mem_cons_self)).all rfl
  | branch cs last =>
      obtain ⟨hcs, hlast⟩ := List.forall_mem_append.mp hchild
      refine (Stmt.isApart_branch (fun c hc => hcs _ (List.mem_map_of_mem hc)) ?_).all rfl
      rintro body ⟨⟩
      exact hlast _ List.mem_cons_self
  | ret value =>
      cases value with
      | none => exact Stmt.isApart_ret_none.all rfl
      | some e => exact (Stmt.isApart_ret_some (hchild _ List.mem_cons_self)).all rfl
  | brk => exact Stmt.isApart_brk.all rfl
  | cont => exact Stmt.isApart_cont.all rfl
  | suite ss =>
      intro t ht
      rw [Stmt.dissolved_suite] at ht
      obtain ⟨s, hs, ht⟩ := List.mem_flatMap.mp ht
      exact List.forall_mem_map.mp hchild s hs t ht

theorem Node.isApart {n : Node} (h : n.Legible) : n.IsApart := by
  induction n using Node.childInduction with
  | step n ih =>
      have hchild : ∀ c ∈ n.children, c.IsApart := fun c hc => ih c hc (h.child hc)
      cases n with
      | ty t => exact Ty.isApart_of_children h hchild
      | typeArg a =>
          obtain ⟨name, ty⟩ := a
          exact TypeArg.isApart h.spelled (hchild _ List.mem_cons_self)
      | param p => exact Param.isApart h.spelled (hchild _ List.mem_cons_self)
      | expr e => exact Expr.isApart_of_children h hchild
      | arg a =>
          obtain ⟨name, value⟩ := a
          exact Arg.isApart h.spelled (hchild _ List.mem_cons_self)
      | stmt s => exact Stmt.allApart_of_children h hchild
      | case c =>
          obtain ⟨cond, body⟩ := c
          obtain ⟨he, hbody⟩ := List.forall_mem_cons.mp hchild
          exact Case.isApart he (hbody _ List.mem_cons_self)
      | fallback body => exact hchild (.stmt body) List.mem_cons_self

/-! ## Places

Nodes that stand in different places have different texts. The first mark behind
the first name shows the place, up to what a statement and a case begin with. -/

namespace Node

/-- The place that a node can take in a tree. -/
def place : Node → Demand
  | .ty _ => .category .type
  | .typeArg _ => .kind .typeArg
  | .param _ => .kind .param
  | .expr _ => .category .expr
  | .arg _ => .kind .arg
  | .stmt _ => .category .stmt
  | .case _ => .kind .case
  | .fallback _ => .kind .fallback

/-- The place shown by what stands behind the name of a variable. -/
def placeAfterName : List Char → Demand
  | [] => .category .expr
  | '=' :: _ => .kind .arg
  | ':' :: '#' :: _ => .kind .param
  | _ => .category .stmt

/-- The place of a text that starts with a keyword or a bracket. -/
def placeOfForm : List Char → Demand
  | '(' :: _ => .category .expr
  | 'c' :: 'a' :: _ => .kind .case
  | _ => .category .stmt

/-- The place of a node, read off its text. -/
def placeOf (text : List Char) : Demand :=
  match text.dropWhile isNumeralChar with
  | [] => if text.isEmpty then .category .stmt else .category .expr
  | '#' :: _ => .category .type
  | '"' :: _ => .category .expr
  | '=' :: _ => .kind .typeArg
  | ':' :: _ => .kind .fallback
  | '$' :: cs => placeAfterName (cs.dropWhile isNumeralChar)
  | _ => placeOfForm text

theorem placeOf_var {name : String} {r : List Char} (hname : Word name) (hr : EndsWord r) :
    placeOf ('$' :: (name.toList ++ r)) = placeAfterName r := by
  show placeAfterName ((name.toList ++ r).dropWhile isNumeralChar) = _
  rw [dropWhile_run hname.numeral hr]

end Node

theorem Expr.placeOf_render {e : Expr} (h : (Node.expr e).Legible) :
    Node.placeOf e.render.toList = .category .expr := by
  rw [← List.append_nil e.render.toList]
  cases e with
  | num text isFloat =>
      have htext : Numeral text := h.spelled
      have hmark : isNumeralChar (if isFloat then 'f' else 'i') = true := by
        cases isFloat <;> decide
      rw [Expr.toList_num, Node.placeOf, List.dropWhile_cons_of_pos hmark,
        dropWhile_run htext stops_nil.1]
      rfl
  | str value =>
      rw [Expr.toList_str]
      rfl
  | ident name =>
      rw [Expr.toList_ident, Node.placeOf_var h.spelled stops_nil.1]
      rfl
  | func params result body =>
      rw [Expr.toList_func]
      rfl
  | create t args =>
      rw [Expr.toList_create]
      rfl
  | call callee args =>
      rw [Expr.toList_call]
      rfl

theorem Stmt.placeOf_render_append {s : Stmt} (hs : s.isSuite = false) (h : (Node.stmt s).Legible)
    (r : List Char) : Node.placeOf (s.render.toList ++ r) = .category .stmt := by
  cases s with
  | assign target defines e =>
      rw [Stmt.toList_assign, Node.placeOf_var h.spelled
        (endsWord_cons (by cases defines <;> decide) _)]
      cases defines <;> rfl
  | eval e =>
      rw [Stmt.toList_eval]
      rfl
  | forEach item e body =>
      rw [Stmt.toList_forEach]
      rfl
  | whileDo e body =>
      rw [Stmt.toList_whileDo]
      rfl
  | branch cs last =>
      rw [Stmt.toList_branch]
      rfl
  | ret value =>
      cases value with
      | none => rfl
      | some e =>
          rw [Stmt.toList_ret_some]
          rfl
  | brk => rfl
  | cont => rfl
  | suite body => cases hs

theorem Stmt.placeOf_render {s : Stmt} (h : (Node.stmt s).Legible) :
    Node.placeOf s.render.toList = .category .stmt := by
  rw [← s.renderAll_dissolved]
  cases hparts : s.dissolved with
  | nil => rfl
  | cons t ts =>
      -- the first statement that is no suite starts the text, with the others behind it
      have ht : t ∈ s.dissolved := by rw [hparts]; exact List.mem_cons_self
      rw [Stmt.renderAll, String.toList_append]
      exact Stmt.placeOf_render_append (Stmt.isSuite_of_mem_dissolved ht) (h.dissolved ht) _

namespace Node

theorem placeOf_render {n : Node} (h : n.Legible) : placeOf n.render.toList = n.place := by
  rw [← List.append_nil n.render.toList]
  cases n with
  | ty t =>
      obtain ⟨rest, hrest⟩ := t.exists_toList_render []
      rw [Node.render, hrest]
      rfl
  | typeArg a =>
      have hname : Word a.name := h.spelled
      rw [Node.render, TypeArg.toList_render, placeOf,
        dropWhile_run hname.numeral (endsWord_cons (by decide) _)]
      rfl
  | param p =>
      obtain ⟨rest, hrest⟩ := p.ty.exists_toList_render []
      rw [Node.render, Param.toList_render, placeOf_var h.spelled (endsWord_cons (by decide) _),
        hrest]
      rfl
  | expr e =>
      rw [List.append_nil]
      exact Expr.placeOf_render h
  | arg a =>
      rw [Node.render, Arg.toList_render, placeOf_var h.spelled (endsWord_cons (by decide) _)]
      rfl
  | stmt s =>
      rw [List.append_nil]
      exact Stmt.placeOf_render h
  | case c =>
      rw [Node.render, Case.toList_render]
      rfl
  | fallback body =>
      rw [Node.render, Form.toList_fallback]
      rfl

theorem flatten_eq_of_place_eq {n n' : Node} (h : n.Legible) (h' : n'.Legible)
    (hplace : n.place = n'.place) (heq : n.render = n'.render) : n.flatten = n'.flatten := by
  have hapart := isApart h
  have htext : n.render.toList ++ [] = n'.render.toList ++ [] := by rw [heq]
  cases n with
  | ty t =>
      cases n' with
      | ty t' => exact congrArg Node.ty (hapart t' [] [] h' stops_nil stops_nil htext).1
      | _ => cases hplace
  | typeArg a =>
      cases n' with
      | typeArg a' => exact congrArg Node.typeArg (hapart a' [] [] h' stops_nil stops_nil htext).1
      | _ => cases hplace
  | param p =>
      cases n' with
      | param p' => exact congrArg Node.param (hapart p' [] [] h' stops_nil stops_nil htext).1
      | _ => cases hplace
  | expr e =>
      cases n' with
      | expr e' => exact congrArg Node.expr (hapart e' [] [] h' stops_nil stops_nil htext).1
      | _ => cases hplace
  | arg a =>
      cases n' with
      | arg a' => exact congrArg Node.arg (hapart a' [] [] h' stops_nil stops_nil htext).1
      | _ => cases hplace
  | stmt s =>
      cases n' with
      | stmt s' => rw [Node.flatten, Node.flatten, hapart.flat_eq h' heq]
      | _ => cases hplace
  | case c =>
      cases n' with
      | case c' =>
          exact congrArg Node.case
            (hapart c' [] [] h' (by simp [Flush]) (by simp [Flush]) htext).1
      | _ => cases hplace
  | fallback body =>
      cases n' with
      | fallback body' =>
          have hbody' : (Node.stmt body').Legible := h'.child List.mem_cons_self
          rw [Node.flatten, Node.flatten, (hapart.fallback_append_inj hbody' (by simp [Flush])
            (by simp [Flush]) htext).1]
      | _ => cases hplace

/-- Legible trees have the same diagnostic text just if they differ in nothing but
the nesting of suites. -/
theorem render_eq_iff_flatten_eq {n n' : Node} (hn : n.Legible) (hn' : n'.Legible) :
    n.render = n'.render ↔ n.flatten = n'.flatten := by
  constructor
  · intro heq
    refine flatten_eq_of_place_eq hn hn' ?_ heq
    rw [← placeOf_render hn, heq, placeOf_render hn']
  · intro heq
    rw [← n.render_flatten, heq, n'.render_flatten]

/-- Suites in suites, an empty one, and a body with and without a suite around it. -/
theorem render_eq_iff_flatten_eq_nested :
    let n : Node := .stmt (.suite [.suite [], .whileDo (.ident "go") .brk])
    let n' : Node := .stmt (.whileDo (.ident "go") (.suite [.suite [.brk], .suite []]))
    n.Legible ∧ n'.Legible ∧ n.render = n'.render ∧ n.flatten = n'.flatten := by
  intro n n'
  have hgo : (Node.expr (.ident "go")).Legible :=
    .of_children (show Word "go" by decide) (by simp [Node.children])
  have hbrk : (Node.stmt .brk).Legible := .of_children trivial (by simp [Node.children])
  have hempty : (Node.stmt (.suite [])).Legible := .of_children trivial (by simp [Node.children])
  have hinner : (Node.stmt (.suite [.brk])).Legible :=
    .of_children trivial (by simpa [Node.children] using hbrk)
  have hbody : (Node.stmt (.suite [.suite [.brk], .suite []])).Legible :=
    .of_children trivial (by simpa [Node.children] using ⟨hinner, hempty⟩)
  have hloop : (Node.stmt (.whileDo (.ident "go") .brk)).Legible :=
    .of_children trivial (by simpa [Node.children] using ⟨hgo, hbrk⟩)
  have hn : n.Legible := .of_children trivial (by simpa [n, Node.children] using ⟨hempty, hloop⟩)
  have hn' : n'.Legible := .of_children trivial (by simpa [n', Node.children] using ⟨hgo, hbody⟩)
  have htext : n.render = n'.render := by decide
  exact ⟨hn, hn', htext, (render_eq_iff_flatten_eq hn hn').mp htext⟩

-- A quote in a string can imitate the next argument.
example :
    (Expr.call "f" [⟨"a", .str "x"⟩, ⟨"b", .str "y"⟩]).render
      = (Expr.call "f" [⟨"a", .str "x\",$b=\"y"⟩]).render := by
  decide

end Node

end TreeIR
