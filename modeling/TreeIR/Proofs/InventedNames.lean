import TreeIR.Proofs.ArgumentValues

/-!
# Names that the lowering invents

The lowering makes up names of its own: the references that arguments are bound to,
and for a function that is given a name, the name of the closure that takes itself
as a parameter. They are fixed by the place of an argument and the name of the
function, and nobody looks whether the program has the same names. So an argument
may find a reference where it names a variable, and then another value is passed.

What an application needs for that not to happen is `Callee.Uncaptured`: a reference
is in scope from its own initialiser on, so it must not stand in its own argument, in
a later one, or in the callee. Nothing is asked of the rest of the program, nor of
applications inside the arguments. What is passed is then what the code of each
argument is worth outside the closure. What the names outside stand for is not asked
either: a parameter that has the name of its own function is hidden by it, but no
invented name has a part in that.

The proof compares two ways to go through the arguments, `Arg.inside` with the
references bound so far and `Arg.outside` without them. A closure takes the first way,
whatever its names are. The two agree argument by argument, since code only sees the
names that stand in its expression (`Expr.eval_term_congr`): the references of a
closure inside an argument are bound there before they are read.
-/

namespace TreeIR

open Lowering

variable {σ V : Type}

namespace Scope

variable {ρ ρ' : Scope V} {name x : String} {a : V} {names : List String} {values : List V}

/-- Binds values to references, from a place on. -/
def bindFrom (place : Nat) (ρ : Scope V) : Table V → Scope V
  | [] => ρ
  | (_, a) :: values => (ρ.bind (Target.reference place) a).bindFrom (place + 1) values

/-- Binds values to parameters. -/
def enter (ρ : Scope V) : List String → List V → Scope V
  | name :: names, a :: values => (ρ.bind name a).enter names values
  | _, _ => ρ

theorem bindFrom_of_ne (values : Table V) (place : Nat)
    (h : ∀ p < values.length, x ≠ Target.reference (place + p)) :
    ρ.bindFrom place values x = ρ x := by
  induction values generalizing place ρ with
  | nil => rfl
  | cons entry values ih =>
      obtain ⟨name, a⟩ := entry
      rw [List.length_cons] at h
      have hrest : ∀ p < values.length, x ≠ Target.reference (place + 1 + p) := by
        intro p hp
        rw [Nat.add_right_comm, Nat.add_assoc]
        exact h (p + 1) (by omega)
      rw [bindFrom, ih (place + 1) hrest]
      exact bind_of_ne (h 0 (by omega))

/-- The reference at a place stands for the value that was given there. -/
theorem bindFrom_reference (values : Table V) (place : Nat) {p : Nat} {entry : String × V}
    (h : values[p]? = some entry) :
    ρ.bindFrom place values (Target.reference (place + p)) = entry.2 := by
  induction values generalizing place p ρ with
  | nil => cases h
  | cons first values ih =>
      obtain ⟨name, a⟩ := first
      cases p with
      | zero =>
          have hlater : ∀ q < values.length,
              Target.reference place ≠ Target.reference (place + 1 + q) := by
            intro q _ heq
            have := reference_injective heq
            omega
          obtain rfl := Option.some.inj h
          rw [Nat.add_zero, bindFrom, bindFrom_of_ne values (place + 1) hlater, bind_self]
      | succ p =>
          rw [bindFrom, ← ih (place + 1) h, Nat.add_right_comm, Nat.add_assoc]

theorem Agree.bind_bind (h : Agree names ρ ρ') : Agree names (ρ.bind name a) (ρ'.bind name a) := by
  intro x hx
  by_cases hname : x = name
  · rw [hname, bind_self, bind_self]
  · rw [bind_of_ne hname, bind_of_ne hname, h x hx]

theorem Agree.bindFrom (h : Agree names ρ ρ') (values : Table V) (place : Nat) :
    Agree names (ρ.bindFrom place values) (ρ'.bindFrom place values) := by
  induction values generalizing place ρ ρ' with
  | nil => exact h
  | cons entry values ih => exact ih h.bind_bind (place + 1)

/-- Binding references changes the meaning of some names exactly if one of them is
among the names. -/
theorem agree_bindFrom_iff {n : Nat} :
    (∀ (V : Type) (ρ : Scope V) (values : Table V), values.length = n →
      Agree names (ρ.bindFrom 0 values) ρ) ↔ ∀ p < n, Target.reference p ∉ names := by
  constructor
  · intro h p hp hname
    have hagree := h Bool (fun _ => true) (List.replicate n ("", false)) List.length_replicate
      _ hname
    have hbound : (List.replicate n ("", false))[p]? = some ("", false) := by
      rw [List.getElem?_replicate, if_pos hp]
    rw [← Nat.zero_add p, bindFrom_reference _ 0 hbound] at hagree
    cases hagree
  · intro h V ρ values hlength x hx
    refine bindFrom_of_ne values 0 fun p hp heq => h p (hlength ▸ hp) ?_
    rw [← Nat.zero_add p, ← heq]
    exact hx

theorem enter_of_not_mem (h : x ∉ names) : ρ.enter names values x = ρ x := by
  induction names generalizing ρ values with
  | nil => rfl
  | cons name names ih =>
      obtain ⟨hname, hrest⟩ := not_or.mp (mt List.mem_cons.mpr h)
      cases values with
      | nil => rfl
      | cons a values => rw [enter, ih hrest, bind_of_ne hname]

theorem enter_replicate (h : x ∈ names) :
    ρ.enter names (List.replicate names.length a) x = a := by
  induction names generalizing ρ with
  | nil => exact absurd h List.not_mem_nil
  | cons name names ih =>
      rw [List.length_cons, List.replicate_succ, enter]
      by_cases hrest : x ∈ names
      · exact ih hrest
      · obtain rfl : x = name := (List.mem_cons.mp h).resolve_right hrest
        rw [enter_of_not_mem hrest, bind_self]

theorem enter_append (h : values.length = names.length) :
    ρ.enter (names ++ [name]) (values ++ [a]) = (ρ.enter names values).bind name a := by
  induction names generalizing ρ values with
  | nil =>
      obtain rfl := List.length_eq_zero_iff.mp h
      rfl
  | cons n names ih =>
      cases values with
      | nil => cases h
      | cons b values => exact ih (Nat.succ.inj h)

/-- What a call of the public closure of a definition comes to, given what it is to call
a value: the closure that its scope has under the fixed name is called and handed to
itself. -/
def forward (call : V → List V → StateM σ V) (f : String) (names : List String) (ρ : Scope V)
    (values : List V) : StateM σ V :=
  let inner := ρ.enter names values
  call (inner (Target.fixed f)) ((names ++ [Target.fixed f]).map inner)

/-- The scope of the body of a definition: its parameters with the closure itself as the
last of them, and the public closure under the name of the function. -/
def ofBody (f : String) (names : List String) (ρ : Scope V) (values : List V) (self own : V) :
    Scope V :=
  (ρ.enter (names ++ [Target.fixed f]) (values ++ [self])).bind f own

/-- The public closure calls the closure that was made for it exactly if no parameter
has the name of that one. -/
theorem forward_eq_iff {f : String} :
    (∀ (σ V : Type) (call : V → List V → StateM σ V) (ρ : Scope V) (values : List V),
      values.length = names.length →
      ρ.forward call f names values = call (ρ (Target.fixed f))
        (names.map (ρ.enter names values) ++ [ρ (Target.fixed f)])) ↔
    Target.fixed f ∉ names := by
  constructor
  · intro h hfixed
    have heq := h Unit Bool (fun a _ => pure a) (fun _ => true)
      (List.replicate names.length false) List.length_replicate
    have hfalse : pure false = (pure true : StateM Unit Bool) := by
      rw [forward, enter_replicate hfixed] at heq
      exact heq
    cases congrArg Prod.fst (congrFun hfalse ())
  · intro h σ V call ρ values _
    rw [forward, List.map_append, List.map_singleton, enter_of_not_mem h]

theorem fixed_ne (f : String) : Target.fixed f ≠ f := by
  intro h
  have hlength := congrArg String.length h
  rw [Target.fixed, String.length_append] at hlength
  have hone : "_".length = 1 := rfl
  omega

/-- Names keep the meaning that they have without the fixed name exactly if it is not
among them. -/
theorem agree_ofBody_iff {f : String} {params : List String} :
    (∀ (V : Type) (ρ : Scope V) (values : List V) (self own : V),
      values.length = params.length →
      Agree names (ρ.ofBody f params values self own) ((ρ.enter params values).bind f own)) ↔
    Target.fixed f ∉ names := by
  constructor
  · intro h hfixed
    have heq := h Bool (fun _ => true) (List.replicate params.length true) false true
      List.length_replicate _ hfixed
    rw [ofBody, enter_append List.length_replicate, bind_of_ne (fixed_ne f), bind_self,
      bind_of_ne (fixed_ne f)] at heq
    by_cases hparam : Target.fixed f ∈ params
    · rw [enter_replicate hparam] at heq
      cases heq
    · rw [enter_of_not_mem hparam] at heq
      cases heq
  · intro h V ρ values self own hlength
    rw [ofBody, enter_append hlength]
    exact (Agree.bind (fun _ _ => rfl) h).bind_bind

end Scope

section Closures

variable {d : Descriptor} {i : Indent} {v : View} {callee : Callee} {args : List Arg}
  {declared : List String} {o : Host σ V} {ρ ρ' : Scope V}

/-- The values of the code of arguments by name, all of it in the scope outside. -/
def Arg.outside (d : Descriptor) (v : View) (o : Host σ V) (ρ : Scope V) :
    List Arg → StateM σ (Table V)
  | [] => pure []
  | ⟨name, value⟩ :: as => do
    let a ← (value.term d v).eval o ρ
    return (name, a) :: (← Arg.outside d v o ρ as)

/-- The values of the code of arguments by name, each in the scope that it has inside a
closure: references before it have been bound, and its own is not set yet. -/
def Arg.inside (d : Descriptor) (v : View) (o : Host σ V) (place : Nat) (ρ : Scope V) :
    List Arg → StateM σ (Table V)
  | [] => pure []
  | ⟨name, value⟩ :: as => do
    let a ← (value.term d v).eval o (ρ.bind (Target.reference place) o.unset)
    return (name, a) :: (← Arg.inside d v o (place + 1) (ρ.bind (Target.reference place) a) as)

theorem Arg.keys_inside (place : Nat) (s : σ) :
    (Arg.inside d v o place ρ args s).1.keys = args.map Arg.name := by
  induction args generalizing place ρ s with
  | nil => rfl
  | cons a args ih =>
      obtain ⟨name, value⟩ := a
      exact congrArg (name :: ·) (ih (place + 1) _)

theorem Arg.length_inside (place : Nat) (s : σ) :
    (Arg.inside d v o place ρ args s).1.length = args.length := by
  have hkeys : (Arg.inside d v o place ρ args s).1.keys = args.map Arg.name :=
    Arg.keys_inside place s
  rw [← List.length_map Arg.name, ← hkeys, Table.keys, List.length_map]

theorem Local.enter_references (place : Nat) :
    Local.enter o ρ (Local.references place (Arg.terms d v args)) = (do
      let values ← Arg.inside d v o place ρ args
      return ρ.bindFrom place values) := by
  induction args generalizing place ρ with
  | nil => rfl
  | cons a args ih =>
      obtain ⟨name, value⟩ := a
      rw [Arg.terms, Local.references, Local.enter, Arg.inside, bind_assoc]
      refine bind_congr fun a => ?_
      rw [ih (place + 1), bind_assoc]
      rfl

/-- To pass references is to pass what has been given by name. -/
theorem Host.received_references {values : Table V}
    (hlisted : ∀ name ∈ declared, name ∈ values.keys) :
    (declared.map fun name => Target.reference (values.keys.idxOf name)).map (ρ.bindFrom 0 values)
      = o.received (some declared) values := by
  rw [Host.received, Option.getD_some, List.map_map]
  refine List.map_congr_left fun name hname => ?_
  obtain ⟨a, hget, hplace⟩ := get?_eq_getElem?_idxOf values (hlisted name hname)
  have hreference := Scope.bindFrom_reference values 0 hplace (ρ := ρ)
  rw [Nat.zero_add] at hreference
  rw [hget]
  exact hreference

theorem bind_congr_of_result {α β : Type} {m : StateM σ α} {f g : α → StateM σ β}
    (h : ∀ s, f (m s).1 = g (m s).1) : m >>= f = m >>= g :=
  funext fun s => congrFun (h s) (m s).2

/-- What a closure passes is what its arguments are worth inside it. -/
theorem Term.eval_closure (hlisted : ∀ name ∈ declared, name ∈ args.map Arg.name) :
    (Term.closure callee (Local.references 0 (Arg.terms d v args))
        (declared.map fun name => Target.reference ((args.map Arg.name).idxOf name))).eval o ρ
      = (do
        let values ← Arg.inside d v o 0 ρ args
        o.apply callee (ρ.bindFrom 0 values) (o.received (some declared) values)) := by
  rw [Term.eval, Local.enter_references, bind_assoc]
  refine bind_congr_of_result fun s => ?_
  have hkeys : (Arg.inside d v o 0 ρ args s).1.keys = args.map Arg.name := Arg.keys_inside 0 s
  rw [pure_bind, ← hkeys]
  rw [← hkeys] at hlisted
  rw [Host.received_references hlisted]

/-! ## Code sees the names of its expression

So it does not matter to code which references are bound around it, as long as none of
them is such a name. -/

theorem Term.evalAll_congr {terms : List Term}
    (h : ∀ t ∈ terms, t.eval o ρ = t.eval o ρ') :
    Term.evalAll o ρ terms = Term.evalAll o ρ' terms := by
  induction terms with
  | nil => rfl
  | cons t terms ih =>
      obtain ⟨ht, hrest⟩ := List.forall_mem_cons.mp h
      rw [Term.evalAll, Term.evalAll, ht, ih hrest]

theorem Arg.inside_congr (hcongr : ∀ a ∈ args, ∀ ρ ρ' : Scope V,
      Scope.Agree (Node.expr a.value).names ρ ρ' →
      (a.value.term d v).eval o ρ = (a.value.term d v).eval o ρ') (place : Nat)
    (hagree : ∀ a ∈ args, Scope.Agree (Node.expr a.value).names ρ ρ') :
    Arg.inside d v o place ρ args = Arg.inside d v o place ρ' args := by
  induction args generalizing place ρ ρ' with
  | nil => rfl
  | cons a args ih =>
      obtain ⟨name, value⟩ := a
      obtain ⟨hvalue, hcongr⟩ := List.forall_mem_cons.mp hcongr
      obtain ⟨hhere, hagree⟩ := List.forall_mem_cons.mp hagree
      rw [Arg.inside, Arg.inside, hvalue _ _ hhere.bind_bind]
      refine bind_congr fun a => ?_
      rw [ih hcongr (place + 1) fun a ha => (hagree a ha).bind_bind]

theorem Lowering.exists_text_of_passed {node : String} {write : String → String} {out : String}
    (hplain : PassesPlainly args declared)
    (happ : applied i node declared args (fun a => a.value.lowerIn d i v) write = .ok out)
    {a : Arg} (ha : a ∈ args) (hname : a.name ∈ declared) :
    ∃ text, a.value.lowerIn d i v = .ok text := by
  obtain ⟨hnodup, texts, hreads, -⟩ := (applied_plainly_eq_ok_iff hplain).mp happ
  exact ((exists_reads_entries_iff hnodup).mp ⟨texts, hreads⟩).2 a ha hname

theorem Lowering.exists_arg_of_passed {t : Term}
    (ht : t ∈ declared.filterMap (Table.get? · (Arg.terms d v args))) :
    ∃ a ∈ args, a.name ∈ declared ∧ a.value.term d v = t := by
  obtain ⟨name, hname, hget⟩ := List.mem_filterMap.mp ht
  rw [Arg.terms_eq_map] at hget
  obtain ⟨a, ha, hentry⟩ := List.mem_map.mp (Table.mem_of_get? hget)
  obtain ⟨rfl, rfl⟩ := Prod.mk.inj hentry
  exact ⟨a, ha, hname, rfl⟩

theorem Expr.eval_term_congr (o : Host σ V) (e : Expr) :
    ∀ out, e.lowerIn d i v = .ok out → ∀ ρ ρ' : Scope V,
      Scope.Agree (Node.expr e).names ρ ρ' → (e.term d v).eval o ρ = (e.term d v).eval o ρ' := by
  induction e using Expr.argInduction with
  | inert e hinert =>
      intro out _ ρ ρ' hagree
      rw [Expr.term_of_inert hinert, Term.eval, Term.eval, Host.inert_congr hagree]
  | apply callee args ih =>
      intro out h ρ ρ' hagree
      have hargs : ∀ a ∈ args, Scope.Agree (Node.expr a.value).names ρ ρ' :=
        fun a ha => hagree.mono (Callee.names_value_subset ha)
      have hcallee : Scope.Agree callee.names ρ ρ' := hagree.mono Callee.names_subset
      obtain ⟨declared, write, hdeclared, -, happ⟩ := Callee.lowerIn_on_eq_ok_iff.mp h
      rw [Callee.term_on, hdeclared, Callee.code, Option.getD_some]
      by_cases hplain : PassesPlainly args declared
      · rw [if_pos hplain, Term.eval, Term.eval, o.apply_congr callee ρ ρ' hcallee]
        refine congrArg (· >>= _) (Term.evalAll_congr fun t ht => ?_)
        obtain ⟨a, ha, hname, rfl⟩ := exists_arg_of_passed ht
        obtain ⟨text, htext⟩ := exists_text_of_passed hplain happ ha hname
        exact ih a ha text htext ρ ρ' (hargs a ha)
      · obtain ⟨-, hlisted, htexts⟩ := (exists_applied_bound_iff hplain).mp ⟨out, happ⟩
        have hcongr : ∀ a ∈ args, ∀ ρ ρ' : Scope V, Scope.Agree (Node.expr a.value).names ρ ρ' →
            (a.value.term d v).eval o ρ = (a.value.term d v).eval o ρ' := by
          intro a ha
          obtain ⟨text, htext⟩ := htexts a ha
          exact ih a ha text htext
        rw [if_neg hplain, Term.eval_closure hlisted, Term.eval_closure hlisted,
          Arg.inside_congr hcongr 0 hargs]
        refine bind_congr fun values => ?_
        rw [o.apply_congr callee _ _ (hcallee.bindFrom values 0)]

/-! ## Captured names

A name is captured where it meets a reference that is bound. Whether that happens is settled
by places: of the reference, and of the arguments that the name stands in. -/

/-- No reference of a closure stands in the callee, in its own argument or in a later
one. In an earlier argument it may stand: there it is not bound yet. -/
def Lowering.Callee.Uncaptured (callee : Callee) (args : List Arg) : Prop :=
  ∀ p < args.length, Target.reference p ∉ callee.names ∧
    ∀ a ∈ args.drop p, Target.reference p ∉ (Node.expr a.value).names

/-- Whatever references are bound to, the names of each argument and of the callee stand
for what they stand for outside. Where an argument is evaluated, the references up to its
own are bound. -/
def Lowering.Callee.KeepsMeanings (callee : Callee) (args : List Arg) : Prop :=
  (∀ (p : Nat) (hp : p < args.length) (V : Type) (ρ : Scope V) (values : Table V),
    values.length = p + 1 →
    Scope.Agree (Node.expr args[p].value).names (ρ.bindFrom 0 values) ρ) ∧
  ∀ (V : Type) (ρ : Scope V) (values : Table V), values.length = args.length →
    Scope.Agree callee.names (ρ.bindFrom 0 values) ρ

theorem Lowering.Callee.keepsMeanings_iff : callee.KeepsMeanings args ↔ callee.Uncaptured args := by
  rw [KeepsMeanings]
  simp only [Scope.agree_bindFrom_iff]
  constructor
  · rintro ⟨hargs, hcallee⟩ p hp
    refine ⟨hcallee p hp, fun a ha => ?_⟩
    obtain ⟨k, hk, rfl⟩ := List.mem_drop_iff_getElem.mp ha
    exact hargs (p + k) (by omega) p (by omega)
  · intro h
    refine ⟨fun q hq p hp => (h p (by omega)).2 _ ?_, fun p hp => (h p hp).1⟩
    refine List.mem_drop_iff_getElem.mpr ⟨q - p, by omega, ?_⟩
    congr 1
    omega

/-- A closure has nothing to capture if none of its references is a name of the
application. -/
theorem Lowering.Callee.uncaptured_of_names
    (h : ∀ p < args.length, Target.reference p ∉ (Node.expr (callee.on args)).names) :
    callee.Uncaptured args :=
  fun p hp => ⟨fun hname => h p hp (names_subset hname),
    fun _ ha hname => h p hp (names_value_subset (List.mem_of_mem_drop ha) hname)⟩

theorem Arg.inside_eq_outside (hcongr : ∀ a ∈ args, ∀ ρ ρ' : Scope V,
      Scope.Agree (Node.expr a.value).names ρ ρ' →
      (a.value.term d v).eval o ρ = (a.value.term d v).eval o ρ') (place : Nat)
    (hfree : ∀ p < args.length, ∀ a ∈ args.drop p,
      Target.reference (place + p) ∉ (Node.expr a.value).names)
    (hagree : ∀ a ∈ args, Scope.Agree (Node.expr a.value).names ρ' ρ) :
    Arg.inside d v o place ρ' args = Arg.outside d v o ρ args := by
  induction args generalizing place ρ' with
  | nil => rfl
  | cons a args ih =>
      obtain ⟨name, value⟩ := a
      have hown : ∀ a ∈ (⟨name, value⟩ : Arg) :: args,
          Target.reference place ∉ (Node.expr a.value).names := hfree 0 (Nat.succ_pos _)
      have hlater : ∀ p < args.length, ∀ a ∈ args.drop p,
          Target.reference (place + 1 + p) ∉ (Node.expr a.value).names := by
        intro p hp a ha
        rw [Nat.add_right_comm, Nat.add_assoc]
        exact hfree (p + 1) (Nat.succ_lt_succ hp) a ha
      obtain ⟨hvalue, hcongr⟩ := List.forall_mem_cons.mp hcongr
      obtain ⟨hhere, hagree⟩ := List.forall_mem_cons.mp hagree
      obtain ⟨howns, howna⟩ := List.forall_mem_cons.mp hown
      rw [Arg.inside, Arg.outside, hvalue _ ρ (hhere.bind howns)]
      refine bind_congr fun a => ?_
      rw [ih hcongr (place + 1) hlater fun a ha => (hagree a ha).bind (howna a ha)]

namespace Lowering.Callee

variable {out : String}

theorem term_of_bound (hdeclared : callee.declared? d v = some declared)
    (hbound : ¬ PassesPlainly args declared) :
    (callee.on args).term d v = .closure callee (Local.references 0 (Arg.terms d v args))
      (declared.map fun name => Target.reference ((args.map Arg.name).idxOf name)) := by
  rw [Callee.term_on, hdeclared, Callee.code, Option.getD_some, if_neg hbound]

theorem applied_of_lowerIn (h : (callee.on args).lowerIn d i v = .ok out)
    (hdeclared : callee.declared? d v = some declared) :
    ∃ write, applied i (callee.on args).render declared args (fun a => a.value.lowerIn d i v) write
      = .ok out := by
  obtain ⟨found, write, hfound, -, happ⟩ := lowerIn_on_eq_ok_iff.mp h
  obtain rfl : found = declared := Option.some.inj (hfound.symm.trans hdeclared)
  exact ⟨write, happ⟩

theorem eval_of_bound (h : (callee.on args).lowerIn d i v = .ok out)
    (hdeclared : callee.declared? d v = some declared) (hbound : ¬ PassesPlainly args declared) :
    ((callee.on args).term d v).eval o ρ = (do
      let values ← Arg.inside d v o 0 ρ args
      o.apply callee (ρ.bindFrom 0 values) (o.received (some declared) values)) := by
  obtain ⟨write, happ⟩ := applied_of_lowerIn h hdeclared
  rw [term_of_bound hdeclared hbound, Term.eval_closure (mem_listed_of_applied happ)]

/-- Where nothing is captured, what is passed is what the code of the arguments is worth
outside. -/
theorem eval_of_uncaptured (h : (callee.on args).lowerIn d i v = .ok out)
    (hdeclared : callee.declared? d v = some declared) (hbound : ¬ PassesPlainly args declared)
    (huncaptured : callee.Uncaptured args) :
    ((callee.on args).term d v).eval o ρ = (do
      let values ← Arg.outside d v o ρ args
      o.apply callee ρ (o.received (some declared) values)) := by
  obtain ⟨write, happ⟩ := applied_of_lowerIn h hdeclared
  obtain ⟨-, -, htexts⟩ := (exists_applied_bound_iff hbound).mp ⟨out, happ⟩
  have hinside : Arg.inside d v o 0 ρ args = Arg.outside d v o ρ args := by
    refine Arg.inside_eq_outside (fun a ha => ?_) 0 (fun p hp => ?_) fun _ _ _ _ => rfl
    · obtain ⟨text, htext⟩ := htexts a ha
      exact Expr.eval_term_congr o a.value text htext
    · rw [Nat.zero_add]
      exact (huncaptured p hp).2
  rw [eval_of_bound h hdeclared hbound, ← hinside]
  refine bind_congr_of_result fun s => ?_
  have hcallee := (keepsMeanings_iff.mpr huncaptured).2 V ρ
  exact congrFun (o.apply_congr callee _ ρ (hcallee _ (Arg.length_inside 0 s))) _

end Lowering.Callee

/-- Inside a closure, an argument that is a name stands for what the name stands for
after the bindings before it. -/
theorem Arg.inside_ident {q : Nat} {name x : String} (place : Nat) (s : σ)
    (h : args[q]? = some ⟨name, .ident x⟩) :
    let values := (Arg.inside d v o place ρ args s).1
    values[q]? = some (name, ((ρ.bindFrom place (values.take q)).bind
      (Target.reference (place + q)) o.unset) x) := by
  induction args generalizing place ρ q s with
  | nil => cases h
  | cons a args ih =>
      obtain ⟨first, value⟩ := a
      cases q with
      | zero =>
          cases h
          rfl
      | succ q =>
          have hplace : place + (q + 1) = place + 1 + q := by omega
          rw [hplace]
          exact ih (place + 1) _ h

/-- An argument that has the name of an earlier reference is worth what that one is. -/
theorem Arg.inside_captured {p q : Nat} (hpq : p < q) {name : String} (s : σ)
    (h : args[q]? = some ⟨name, .ident (Target.reference p)⟩) :
    let values := (Arg.inside d v o 0 ρ args s).1
    values[q]?.map Prod.snd = values[p]?.map Prod.snd := by
  intro values
  have hq := Arg.inside_ident (d := d) (v := v) (o := o) (ρ := ρ) 0 s h
  obtain ⟨entry, hentry⟩ : ∃ entry, values[p]? = some entry := by
    have hlength : q < values.length := (List.getElem?_eq_some_iff.mp hq).1
    exact ⟨values[p], List.getElem?_eq_getElem (by omega)⟩
  have htake : (values.take q)[p]? = some entry := by
    rw [List.getElem?_take, if_pos hpq, hentry]
  have hne : Target.reference p ≠ Target.reference (0 + q) := by
    intro heq
    have := reference_injective heq
    omega
  rw [hq, hentry, Scope.bind_of_ne hne, ← Nat.zero_add p, Scope.bindFrom_reference _ 0 htake]
  rfl

/-! ## Values of whole expressions

An argument may be an application with a closure of its own, and so on. What is passed
plainly is not bound, and is received by name as it is. -/

/-- The second expression is evaluated for the value of the first: it is the first, or
is evaluated for one of its arguments. -/
inductive Expr.Evaluates : Expr → Expr → Prop
  | self (e : Expr) : Evaluates e e
  | arg {callee : Callee} {args : List Arg} {a : Arg} {e : Expr} (ha : a ∈ args)
      (h : Evaluates a.value e) : Evaluates (callee.on args) e

/-- No closure that is called for the value of an expression captures a name. -/
def Expr.Uncaptured (d : Descriptor) (v : View) (e : Expr) : Prop :=
  ∀ (callee : Callee) (args : List Arg) (declared : List String),
    e.Evaluates (callee.on args) → callee.declared? d v = some declared →
    ¬ PassesPlainly args declared → callee.Uncaptured args

theorem Arg.values_of_inert (h : ∀ a ∈ args, a.value.isApplication = false) :
    Arg.values d v o ρ args = pure (args.map fun a => (a.name, o.inert ρ a.value)) := by
  induction args with
  | nil => rfl
  | cons a args ih =>
      obtain ⟨name, value⟩ := a
      obtain ⟨hvalue, hrest⟩ := List.forall_mem_cons.mp h
      rw [Arg.values, ih hrest, Expr.value_of_inert hvalue]
      rfl

theorem Term.evalAll_of_inert (hinert : ∀ a ∈ args, a.value.isApplication = false)
    (hlisted : ∀ name ∈ declared, name ∈ args.map Arg.name) :
    Term.evalAll o ρ (declared.filterMap (Table.get? · (Arg.terms d v args)))
      = pure (o.received (some declared) (args.map fun a => (a.name, o.inert ρ a.value))) := by
  induction declared with
  | nil => rfl
  | cons name declared ih =>
      obtain ⟨hname, hrest⟩ := List.forall_mem_cons.mp hlisted
      obtain ⟨b, hb, hbname⟩ := List.mem_map.mp hname
      obtain ⟨a, hfind⟩ : ∃ a, args.find? (fun a => a.name = name) = some a :=
        Option.isSome_iff_exists.mp (List.find?_isSome.mpr ⟨b, hb, decide_eq_true hbname⟩)
      have hterm : Table.get? name (Arg.terms d v args) = some (.inert a.value) := by
        rw [Arg.terms_eq_map, get?_entries, hfind, Option.map_some,
          Expr.term_of_inert (hinert a (List.mem_of_find?_eq_some hfind))]
      rw [List.filterMap_cons, hterm, Term.evalAll, Term.eval, ih hrest, Host.received,
        Host.received, Option.getD_some, Option.getD_some, List.map_cons, get?_entries, hfind]
      rfl

theorem Term.evalAll_of_passesPlainly (hplain : PassesPlainly args declared)
    (hlisted : ∀ name ∈ declared, name ∈ args.map Arg.name)
    (hterm : ∀ a ∈ args, a.name ∈ declared →
      (a.value.term d v).eval o ρ = a.value.value d v o ρ) :
    Term.evalAll o ρ (declared.filterMap (Table.get? · (Arg.terms d v args))) = (do
      let values ← Arg.values d v o ρ args
      return o.received (some declared) values) := by
  rcases hplain with hinert | ⟨hargs, hdeclared⟩
  · rw [Term.evalAll_of_inert hinert hlisted, Arg.values_of_inert hinert, pure_bind]
  · obtain ⟨a, rfl⟩ := List.length_eq_one_iff.mp hargs
    obtain ⟨name, rfl⟩ := List.length_eq_one_iff.mp hdeclared
    obtain ⟨key, value⟩ := a
    obtain rfl : name = key := List.mem_singleton.mp (hlisted name List.mem_cons_self)
    have hvalue := hterm _ List.mem_cons_self List.mem_cons_self
    simp only [Arg.terms, Arg.values, List.filterMap_cons, List.filterMap_nil, Table.get?_cons,
      if_true, Term.evalAll, hvalue, bind_assoc, pure_bind, Host.received, Option.getD_some,
      List.map_cons, List.map_nil]

theorem Arg.outside_eq_values
    (h : ∀ a ∈ args, (a.value.term d v).eval o ρ = a.value.value d v o ρ) :
    Arg.outside d v o ρ args = Arg.values d v o ρ args := by
  induction args with
  | nil => rfl
  | cons a args ih =>
      obtain ⟨name, value⟩ := a
      obtain ⟨hvalue, hrest⟩ := List.forall_mem_cons.mp h
      rw [Arg.outside, Arg.values, ih hrest]
      exact congrArg (· >>= _) hvalue

/-- Where nothing is captured, the code of an expression has its value. -/
theorem Expr.eval_term (o : Host σ V) (e : Expr) :
    ∀ out, e.lowerIn d i v = .ok out → e.Uncaptured d v →
      ∀ ρ, (e.term d v).eval o ρ = e.value d v o ρ := by
  induction e using Expr.argInduction with
  | inert e hinert =>
      intro out _ _ ρ
      rw [Expr.term_of_inert hinert, Expr.value_of_inert hinert, Term.eval]
  | apply callee args ih =>
      intro out h huncaptured ρ
      have hargs : ∀ a ∈ args, a.value.Uncaptured d v := fun a ha callee args declared heval =>
        huncaptured callee args declared (.arg ha heval)
      obtain ⟨declared, write, hdeclared, -, happ⟩ := Callee.lowerIn_on_eq_ok_iff.mp h
      rw [Callee.value_on, hdeclared]
      by_cases hplain : PassesPlainly args declared
      · -- an argument that is not passed need not have a text, but then it is inert
        have hterm : ∀ a ∈ args, a.name ∈ declared →
            (a.value.term d v).eval o ρ = a.value.value d v o ρ := by
          intro a ha hname
          obtain ⟨text, htext⟩ := exists_text_of_passed hplain happ ha hname
          exact ih a ha text htext (hargs a ha) ρ
        rw [Callee.term_on, hdeclared, Callee.code, Option.getD_some, if_pos hplain, Term.eval,
          Term.evalAll_of_passesPlainly hplain (mem_listed_of_applied happ) hterm, bind_assoc]
        rfl
      · obtain ⟨-, -, htexts⟩ := (exists_applied_bound_iff hplain).mp ⟨out, happ⟩
        have hterm : ∀ a ∈ args, (a.value.term d v).eval o ρ = a.value.value d v o ρ := by
          intro a ha
          obtain ⟨text, htext⟩ := htexts a ha
          exact ih a ha text htext (hargs a ha) ρ
        have hhere := huncaptured callee args declared (.self _) hdeclared hplain
        rw [Callee.eval_of_uncaptured h hdeclared hplain hhere, Arg.outside_eq_values hterm]

end Closures

section Hygiene

variable {d : Descriptor} {i : Indent} {v : View} {callee : Callee} {args : List Arg}
  {declared : List String} {e : Expr}

theorem Expr.Evaluates.names_subset {e' : Expr} (h : e.Evaluates e') :
    (Node.expr e').names ⊆ (Node.expr e).names := by
  induction h with
  | self => exact List.Subset.refl _
  | arg ha _ ih => exact List.Subset.trans ih (Callee.names_value_subset ha)

theorem Lowering.head?_reference (place : Nat) :
    (Target.reference place).toList.head? = some '_' := by
  rw [Target.reference, String.toList_append]
  rfl

/-- An expression in which no name begins with an underscore has nothing that could be
captured. -/
theorem Expr.uncaptured_of_head? (h : ∀ x ∈ (Node.expr e).names, x.toList.head? ≠ some '_') :
    e.Uncaptured d v := by
  intro callee args declared heval _ _
  refine Callee.uncaptured_of_names fun p _ hname => ?_
  exact h _ (heval.names_subset hname) (head?_reference p)

/-- The names that code binds around its own application. -/
def Term.localNames : Term → List String
  | .closure _ locals _ => locals.map Local.name
  | .inert _ | .direct .. => []

theorem Local.map_name_references (place : Nat) (terms : Table Term) :
    (Local.references place terms).map Local.name
      = (List.range' place terms.length).map Target.reference := by
  induction terms generalizing place with
  | nil => rfl
  | cons t terms ih =>
      rw [Local.references, List.map_cons, ih, List.length_cons, List.range'_succ, List.map_cons]

theorem Lowering.Callee.localNames_of_bound (hdeclared : callee.declared? d v = some declared)
    (hbound : ¬ PassesPlainly args declared) :
    ((callee.on args).term d v).localNames = (List.range args.length).map Target.reference := by
  rw [term_of_bound hdeclared hbound, Term.localNames, Local.map_name_references,
    Arg.terms_eq_map, List.length_map, List.range_eq_range']

/-- To be apart from the callee and from each argument is to be no name of the
application. -/
theorem Lowering.Callee.references_apart_iff :
    (∀ x ∈ (List.range args.length).map Target.reference,
      x ∉ callee.names ∧ ∀ a ∈ args, x ∉ (Node.expr a.value).names) ↔
    ∀ p < args.length, Target.reference p ∉ (Node.expr (callee.on args)).names := by
  simp only [List.forall_mem_map, List.mem_range, mem_names_on, not_or, not_exists, not_and]

variable {f text : String} {params : List Param} {result : Ty} {body : Stmt}

theorem Stmt.exists_define_of_lowerIn
    (h : (Stmt.assign f true (.func params result body)).lowerIn d i v = .ok text) :
    ∃ header head inner,
      text = Target.define i f (params.map Param.name) header head inner := by
  rw [Stmt.lowerIn] at h
  obtain ⟨⟨header, head⟩, -, h⟩ := bind_eq_ok h
  obtain ⟨inner, -, rfl⟩ := bind_pure_eq_ok_iff.mp h
  exact ⟨header, head, inner, rfl⟩

end Hygiene

/-- What invented names do to the names of a program, wherever it is lowered.

An application whose arguments are bound first binds a reference for each of them. The
references are apart from the callee and the arguments if they are no names of the
application, and then nothing is captured. They change the meaning of no name where it
stands exactly if nothing is captured, and then the arguments that are passed are worth
what their code is worth outside the closure. In any case they are worth what it is worth
inside, so that an argument that is an earlier reference is worth what that one is.

The public closure of a definition calls the closure that was made for it, and hands it
to itself, exactly if no parameter has its name; the body has its own names exactly if
that name is not among them.

An expression for which nothing is captured is worth what its code is worth, in any
scope. -/
theorem lower_hygienic_iff (i : Indent) (env : Env) (hs : env.scopes ≠ []) :
    let d := env.descriptor
    let v := env.view
    (∀ (callee : Callee) (args : List Arg) (declared : List String) (text : String),
      callee.declared? d v = some declared → ¬ PassesPlainly args declared →
      ((callee.on args).lower i env).1 = .ok text →
      let code := (callee.on args).term d v
      code.print d i v = .ok text ∧
      code.localNames = (List.range args.length).map Target.reference ∧
      ((∀ x ∈ code.localNames, x ∉ callee.names ∧ ∀ a ∈ args, x ∉ (Node.expr a.value).names) ↔
        ∀ p < args.length, Target.reference p ∉ (Node.expr (callee.on args)).names) ∧
      ((∀ p < args.length, Target.reference p ∉ (Node.expr (callee.on args)).names) →
        callee.Uncaptured args) ∧
      (callee.KeepsMeanings args ↔ callee.Uncaptured args) ∧
      (callee.Uncaptured args → ∀ (σ V : Type) (o : Host σ V) (ρ : Scope V),
        code.eval o ρ = (do
          let values ← Arg.outside d v o ρ args
          o.apply callee ρ (o.received (some declared) values))) ∧
      (∀ (σ V : Type) (o : Host σ V) (ρ : Scope V),
        code.eval o ρ = (do
          let values ← Arg.inside d v o 0 ρ args
          o.apply callee (ρ.bindFrom 0 values) (o.received (some declared) values))) ∧
      ∀ (p q : Nat) (name : String), p < q →
        args[q]? = some ⟨name, .ident (Target.reference p)⟩ →
        ∀ (σ V : Type) (o : Host σ V) (ρ : Scope V) (s : σ),
          let values := (Arg.inside d v o 0 ρ args s).1
          values[q]?.map Prod.snd = values[p]?.map Prod.snd) ∧
    (∀ (f : String) (params : List Param) (result : Ty) (body : Stmt) (text : String),
      ((Stmt.assign f true (.func params result body)).lower i env).1 = .ok text →
      let names := params.map Param.name
      (∃ header head inner, text = Target.define i f names header head inner) ∧
      ((∀ (σ V : Type) (call : V → List V → StateM σ V) (ρ : Scope V) (values : List V),
          values.length = names.length →
          ρ.forward call f names values = call (ρ (Target.fixed f))
            (names.map (ρ.enter names values) ++ [ρ (Target.fixed f)])) ↔
        Target.fixed f ∉ names) ∧
      ((∀ (V : Type) (ρ : Scope V) (values : List V) (self own : V),
          values.length = names.length →
          Scope.Agree (Node.stmt body).names (ρ.ofBody f names values self own)
            ((ρ.enter names values).bind f own)) ↔
        Target.fixed f ∉ (Node.stmt body).names)) ∧
    ∀ (e : Expr) (text : String), (e.lower i env).1 = .ok text → e.Uncaptured d v →
      (e.term d v).print d i v = .ok text ∧
      ∀ (σ V : Type) (o : Host σ V) (ρ : Scope V), (e.term d v).eval o ρ = e.value d v o ρ := by
  intro d v
  refine ⟨?_, ?_, ?_⟩
  · intro callee args declared text hdeclared hbound htext code
    rw [Expr.lower_run i _ hs] at htext
    have hnames := Callee.localNames_of_bound hdeclared hbound
    refine ⟨Expr.print_term _ text htext, hnames, ?_, Callee.uncaptured_of_names,
      Callee.keepsMeanings_iff, ?_, ?_, ?_⟩
    · rw [hnames]
      exact Callee.references_apart_iff
    · intro huncaptured σ V o ρ
      exact Callee.eval_of_uncaptured htext hdeclared hbound huncaptured
    · intro σ V o ρ
      exact Callee.eval_of_bound htext hdeclared hbound
    · intro p q name hpq hq σ V o ρ s
      exact Arg.inside_captured hpq s hq
  · intro f params result body text htext names
    rw [Stmt.lower_run i _ hs] at htext
    exact ⟨Stmt.exists_define_of_lowerIn htext, Scope.forward_eq_iff, Scope.agree_ofBody_iff⟩
  · intro e text htext huncaptured
    rw [Expr.lower_run i _ hs] at htext
    exact ⟨Expr.print_term e text htext,
      fun σ V o ρ => Expr.eval_term o e text htext huncaptured ρ⟩

/-- Every name stands for itself, and values are written out. -/
def Host.symbolic : Host Unit String where
  literal e _ := e.render
  apply callee ρ values :=
    match callee with
    | .function name => pure (ρ name ++ "(" ++ ", ".intercalate values ++ ")")
    | .type ty => pure (ρ ty.name ++ "\x7b" ++ ", ".intercalate values ++ "\x7d")
  unset := "?"
  literal_congr _ _ _ _ := rfl
  apply_congr callee ρ ρ' h := by
    cases callee with
    | function name => simp only [h name List.mem_cons_self]
    | type ty => simp only [h ty.name (Node.ownNames_subset (.ty ty) List.mem_cons_self)]

/-- A reference that stands in the argument before its own, where it is not bound yet,
and in the other argument a closure with the same references. -/
theorem lower_hygienic_iff_nested :
    let d := (Descriptor.empty.withFuncParams "f" ["x", "y"]).withFuncParams "g" []
    let env := Env.start d
    let inner : Expr := .call "f" [⟨"y", .call "g" []⟩, ⟨"x", .ident "p"⟩]
    let args : List Arg := [⟨"y", .ident "_a1"⟩, ⟨"x", inner⟩]
    let outer : Expr := (Callee.function "f").on args
    let s : Stmt := .assign "k" true (.func [⟨"p", .named "T"⟩] (.named "T") (.ret (some inner)))
    env.scopes ≠ [] ∧ ¬ PassesPlainly args ["x", "y"] ∧ (Callee.function "f").Uncaptured args ∧
    (∃ text, (outer.lower .tabs env).1 = .ok text ∧
      (outer.term d env.view).print d .tabs env.view = .ok text) ∧
    ((outer.term d env.view).eval Host.symbolic id ()).1 = "f(f(p, g()), _a1)" ∧
    inner.Uncaptured d env.view ∧
    ((inner.term d env.view).eval Host.symbolic id ()).1 = "f(p, g())" ∧
    (∃ text, (s.lower .tabs env).1 = .ok text ∧ ∃ header head body,
      text = Target.define .tabs "k" ["p"] header head body) ∧
    ∀ (call : String → List String → StateM Unit String) (ρ : Scope String) (a : String),
      ρ.forward call "k" ["p"] [a] = call (ρ "_k") [a, ρ "_k"] := by
  intro d env inner args outer s
  have hs : env.scopes ≠ [] := List.cons_ne_nil _ _
  have hbound : ¬ PassesPlainly args ["x", "y"] := by decide
  have hnames : (Node.expr inner).names = ["f", "g", "p"] := by
    simp [inner, Node.names_eq, Node.children, Node.ownNames]
  have hident : (Node.expr (.ident "_a1")).names = ["_a1"] := by
    simp [Node.names_eq, Node.children, Node.ownNames]
  have huncaptured : (Callee.function "f").Uncaptured args := by
    intro p hp
    have hplace : p = 0 ∨ p = 1 := by
      have hlength : args.length = 2 := rfl
      omega
    rcases hplace with rfl | rfl
    · refine ⟨by decide, List.forall_mem_cons.mpr ⟨?_, List.forall_mem_singleton.mpr ?_⟩⟩
      · rw [hident]
        decide
      · rw [hnames]
        decide
    · refine ⟨by decide, List.forall_mem_singleton.mpr ?_⟩
      rw [hnames]
      decide
  have hinner : inner.Uncaptured d env.view := by
    refine Expr.uncaptured_of_head? ?_
    rw [hnames]
    decide
  obtain ⟨happlications, hdefinitions, hvalues⟩ := lower_hygienic_iff .tabs env hs
  obtain ⟨hprint, -, -, -, -, heval, -⟩ := happlications (.function "f") args _ _ rfl hbound rfl
  obtain ⟨-, hvalue⟩ := hvalues inner _ rfl hinner
  obtain ⟨hdefine, hforward, -⟩ :=
    hdefinitions "k" [⟨"p", .named "T"⟩] (.named "T") (.ret (some inner)) _ rfl
  refine ⟨hs, hbound, huncaptured, ⟨_, rfl, hprint⟩, ?_, hinner, ?_, ⟨_, rfl, hdefine⟩, ?_⟩
  · exact congrArg Prod.fst (congrFun (heval huncaptured Unit String Host.symbolic id) ())
  · exact congrArg Prod.fst (congrFun (hvalue Unit String Host.symbolic id) ())
  · intro call ρ a
    exact hforward.mpr (by decide) Unit String call ρ [a] rfl

/-- An argument that has the name of a reference, and a parameter that has the name of
the closure. Both have a text. The argument is not what is passed, and the parameter is
what is called. -/
theorem lower_captures :
    let d := (Descriptor.empty.withFuncParams "f" ["x", "y"]).withFuncParams "g" []
    let e : Expr := .call "f" [⟨"x", .call "g" []⟩, ⟨"y", .ident "_a0"⟩]
    let s : Stmt := .assign "h" true
      (.func [⟨"_h", .named "T"⟩] (.named "T") (.ret (some (.ident "_h"))))
    lower d {} (.expr e) = .ok ("([&]() -> decltype(auto) \x7b\n  auto &&_a0 = (g());\n" ++
      "  auto &&_a1 = _a0;\n  return f(_a0, _a1);\n\x7d())") ∧
    (e.term d (View.start d)).localNames = ["_a0", "_a1"] ∧
    "_a0" ∈ (Node.expr (.ident "_a0")).names ∧
    ((e.term d (View.start d)).eval Host.symbolic id ()).1 = "f(g(), g())" ∧
    (e.value d (View.start d) Host.symbolic id ()).1 = "f(g(), _a0)" ∧
    lower d {} (.stmt s) = .ok ("auto _h = [&](T &_h, auto _h) -> T \x7b\n" ++
      "  auto h = [&](T &_h) -> T \x7b\n    return _h(_h, _h);\n  \x7d;\n  return _h;\n\x7d;\n" ++
      "auto h = [&](T &_h) -> T \x7b\n  return _h(_h, _h);\n\x7d;\n") ∧
    ∀ (call : String → List String → StateM Unit String) (ρ : Scope String) (a : String),
      ρ.forward call "h" ["_h"] [a] = call a [a, a] := by
  intro d e s
  have hname : "_a0" ∈ (Node.expr (.ident "_a0")).names :=
    Node.ownNames_subset (.expr (.ident "_a0")) List.mem_cons_self
  exact ⟨rfl, rfl, hname, rfl, rfl, rfl, fun _ _ _ => rfl⟩

end TreeIR
