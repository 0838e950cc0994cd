import TreeIR.Proofs.LexicalScope

/-!
# Scopes as a stack of whole views

The surroundings keep one small table per open scope and search them from the
inside out, the descriptor last. The plain way to have scopes is another: each
scope is a complete account of which function takes what, opening one copies
it, and closing one goes back to the copy. Nothing is searched there, and that
what a scope defines ends with it needs no argument.

This file shows that nobody can tell the two apart, whatever is done to the
surroundings and in whatever order: scopes may be closed that were never
opened, functions defined again, and a function left with any count of loops.
A step keeps the tables and the accounts together (`Represents.apply`), so a
run does, and what a run leaves can be read off the accounts.
-/

namespace TreeIR.Lowering

/-- One change of the surroundings. -/
inductive Change where
  | openScope
  | closeScope
  | define (name : String) (params : List String)
  | openLoop
  | closeLoop
  | openFunction
  /-- The count that is handed back need not be one that was handed out. -/
  | closeFunction (openLoops : Nat)
  deriving DecidableEq

namespace Change

/-- Is this change about scopes? -/
def isScope : Change → Bool
  | openScope | closeScope | define .. => true
  | openLoop | closeLoop | openFunction | closeFunction _ => false

/-- All other changes are about loops. -/
def isLoop (c : Change) : Bool :=
  !c.isScope

/-- What a change does to the surroundings. -/
def apply (env : Env) : Change → Env
  | openScope => env.openScope
  | closeScope => env.closeScope
  | define name params => env.define name params
  | openLoop => env.openLoop
  | closeLoop => env.closeLoop
  | openFunction => env.openFunction.2
  | closeFunction openLoops => env.closeFunction openLoops

end Change

/-- The surroundings after some changes, first to last. -/
def Env.run (env : Env) (cs : List Change) : Env :=
  cs.foldl Change.apply env

theorem Env.run_cons (env : Env) (c : Change) (cs : List Change) :
    env.run (c :: cs) = (c.apply env).run cs := rfl

/-- Changes in which every scope that is opened is closed, and no other. -/
inductive Nested : List Change → Prop
  | nil : Nested []
  | other {c : Change} {cs : List Change} (hopen : c ≠ .openScope) (hclose : c ≠ .closeScope)
      (h : Nested cs) : Nested (c :: cs)
  | scope {inner rest : List Change} (hinner : Nested inner) (hrest : Nested rest) :
      Nested (.openScope :: (inner ++ .closeScope :: rest))

/-- The parameters of every function that can be called. -/
abbrev Functions := String → Option (List String)

/-- An account of all functions for the innermost scope, and one for each scope
around it. There is always an innermost one. -/
structure Accounts where
  top : Functions
  below : List Functions

namespace Accounts

/-- Only the descriptor says anything. -/
def start (d : Descriptor) : Accounts :=
  ⟨fun f => d.funcParamsOf f, []⟩

/-- Opens an account that begins as the one before it stands. -/
def push (as : Accounts) : Accounts :=
  ⟨as.top, as.top :: as.below⟩

/-- Drops the innermost account unless it is the only one. -/
def pop (as : Accounts) : Accounts :=
  match as.below with
  | [] => as
  | outer :: rest => ⟨outer, rest⟩

/-- Another account of one function. -/
def override (name : String) (params : List String) (as : Accounts) : Accounts :=
  { as with top := fun f => if f = name then some params else as.top f }

/-- What a change does to the accounts. Loops are kept elsewhere. -/
def apply (as : Accounts) : Change → Accounts
  | .openScope => as.push
  | .closeScope => as.pop
  | .define name params => as.override name params
  | .openLoop | .closeLoop | .openFunction | .closeFunction _ => as

/-- What changes do to the accounts, from the first to the last. -/
def run (as : Accounts) (cs : List Change) : Accounts :=
  cs.foldl apply as

theorem run_cons (as : Accounts) (c : Change) (cs : List Change) :
    as.run (c :: cs) = (as.apply c).run cs := rfl

theorem run_append (as : Accounts) (cs cs' : List Change) :
    as.run (cs ++ cs') = (as.run cs).run cs' :=
  List.foldl_append

theorem apply_of_not_isScope (as : Accounts) {c : Change} (h : c.isScope = false) :
    as.apply c = as := by
  cases c with
  | openLoop | closeLoop | openFunction | closeFunction _ => rfl
  | openScope | closeScope | define _ _ => cases h

theorem run_filter_isScope (as : Accounts) (cs : List Change) :
    as.run (cs.filter Change.isScope) = as.run cs := by
  induction cs generalizing as with
  | nil => rfl
  | cons c cs ih =>
      cases hc : c.isScope with
      | true => rw [List.filter_cons_of_pos hc, run_cons, run_cons, ih]
      | false =>
          rw [List.filter_cons_of_neg (Bool.eq_false_iff.mp hc), run_cons,
            as.apply_of_not_isScope hc, ih]

theorem below_apply (as : Accounts) {c : Change} (hopen : c ≠ .openScope)
    (hclose : c ≠ .closeScope) : (as.apply c).below = as.below := by
  cases c with
  | openScope => exact absurd rfl hopen
  | closeScope => exact absurd rfl hclose
  | define _ _ | openLoop | closeLoop | openFunction | closeFunction _ => rfl

theorem pop_of_below {as as' : Accounts} (h : as.below = as'.top :: as'.below) :
    as.pop = as' := by
  rw [pop, h]

/-- What happens in scopes of its own is gone when they are closed: all it can
change is the innermost account. -/
theorem below_run_of_nested {cs : List Change} (h : Nested cs) :
    ∀ as : Accounts, (as.run cs).below = as.below := by
  induction h with
  | nil =>
      intro as
      rfl
  | other hopen hclose _ ih =>
      intro as
      rw [run_cons, ih, below_apply as hopen hclose]
  | @scope inner rest _ _ ihinner ihrest =>
      intro as
      have hclosed : ((as.apply .openScope).run inner).pop = as :=
        pop_of_below (ihinner as.push)
      rw [run_cons, run_append, run_cons]
      show ((((as.apply .openScope).run inner).pop).run rest).below = as.below
      rw [hclosed, ihrest]

theorem run_scope_of_nested {inner : List Change} (h : Nested inner) (as : Accounts) :
    as.run (.openScope :: (inner ++ [.closeScope])) = as := by
  rw [run_cons, run_append]
  exact pop_of_below (below_run_of_nested h as.push)

end Accounts

/-! ## Tables against accounts

The account of a scope is what the search finds that starts at its table. Two
cases of a step need a word. A new scope has an empty table, so the search
passes it and finds what it found before, which is the copy. Closing the only
scope changes neither side. -/

/-- The accounts that stand for some tables, innermost first. -/
def accountsOf (d : Descriptor) : List NameTable → List Functions
  | [] => []
  | scope :: outer =>
    (fun f => (Env.mk d (scope :: outer) 0).paramsOf f) :: accountsOf d outer

/-- The tables of the surroundings stand for these accounts. -/
def Represents (env : Env) (as : Accounts) : Prop :=
  accountsOf env.descriptor env.scopes = as.top :: as.below

namespace Represents

variable {env : Env} {as : Accounts}

theorem start (d : Descriptor) : Represents (Env.start d) (Accounts.start d) := rfl

theorem exists_cons (h : Represents env as) :
    ∃ scope outer, env.scopes = scope :: outer ∧ as.top = (fun f => env.paramsOf f) ∧
      as.below = accountsOf env.descriptor outer := by
  obtain ⟨d, scopes, loops⟩ := env
  cases scopes with
  | nil => cases h
  | cons scope outer =>
      obtain ⟨htop, hbelow⟩ := List.cons.inj h
      exact ⟨scope, outer, rfl, htop.symm, hbelow.symm⟩

theorem scopes_ne_nil (h : Represents env as) : env.scopes ≠ [] := by
  obtain ⟨scope, outer, hscopes, -⟩ := h.exists_cons
  rw [hscopes]
  exact List.cons_ne_nil _ _

theorem paramsOf_eq (h : Represents env as) (f : String) : env.paramsOf f = as.top f := by
  obtain ⟨_, _, -, htop, -⟩ := h.exists_cons
  rw [htop]

theorem openScope (h : Represents env as) : Represents env.openScope as.push := by
  obtain ⟨_, _, -, htop, -⟩ := h.exists_cons
  show (fun f => env.openScope.paramsOf f) :: accountsOf env.descriptor env.scopes
    = as.top :: as.top :: as.below
  rw [h, htop]
  rfl

theorem closeScope (h : Represents env as) : Represents env.closeScope as.pop := by
  obtain ⟨scope, outer, hscopes, -, hbelow⟩ := h.exists_cons
  cases outer with
  | nil =>
      have hsame : env.closeScope = env := by rw [Env.closeScope, hscopes]
      have hpop : as.pop = as := by rw [Accounts.pop, hbelow]; rfl
      rw [hsame, hpop]
      exact h
  | cons next rest =>
      have henv : env.closeScope = { env with scopes := next :: rest } := by
        rw [Env.closeScope, hscopes]
      rw [henv, Accounts.pop, hbelow]
      rfl

theorem define (name : String) (params : List String) (h : Represents env as) :
    Represents (env.define name params) (as.override name params) := by
  obtain ⟨scope, outer, hscopes, htop, hbelow⟩ := h.exists_cons
  have hview : (env.define name params).view = env.view.define name params :=
    Env.view_define h.scopes_ne_nil
  have hfunctions := congrArg View.paramsOf hview
  -- The tables below are untouched, so only the account on top is another.
  have henv : env.define name params
      = { env with scopes := Table.insert name params scope :: outer } := by
    rw [Env.define, hscopes]
  rw [henv] at hfunctions ⊢
  show _ :: accountsOf env.descriptor outer = (as.override name params).top :: as.below
  rw [Accounts.override, htop, hbelow]
  exact congrArg (· :: accountsOf env.descriptor outer) hfunctions

/-- Every change keeps tables and accounts together. -/
theorem apply (h : Represents env as) (c : Change) : Represents (c.apply env) (as.apply c) := by
  cases c with
  | openScope => exact h.openScope
  | closeScope => exact h.closeScope
  | define name params => exact h.define name params
  | openLoop | closeLoop | openFunction | closeFunction _ => exact h

theorem run (h : Represents env as) (cs : List Change) : Represents (env.run cs) (as.run cs) := by
  induction cs generalizing env as with
  | nil => exact h
  | cons c cs ih => exact ih (h.apply c)

end Represents

namespace Env

theorem openLoops_apply_of_isScope (env : Env) {c : Change} (h : c.isScope = true) :
    (c.apply env).openLoops = env.openLoops := by
  cases c with
  | openScope => rfl
  | closeScope =>
      show env.closeScope.openLoops = env.openLoops
      unfold closeScope
      split
      · rfl
      · rfl
  | define name params =>
      show (env.define name params).openLoops = env.openLoops
      unfold define
      split
      · rfl
      · rfl
  | openLoop | closeLoop | openFunction | closeFunction _ => cases h

theorem openLoops_apply_congr {env env' : Env} (h : env.openLoops = env'.openLoops)
    {c : Change} (hc : c.isScope = false) :
    (c.apply env).openLoops = (c.apply env').openLoops := by
  cases c with
  | openLoop => exact congrArg (· + 1) h
  | closeLoop => exact congrArg (· - 1) h
  | openFunction | closeFunction _ => rfl
  | openScope | closeScope | define _ _ => cases hc

/-- The count of loops takes no notice of changes that are about scopes. -/
theorem openLoops_run_filter (cs : List Change) {env env' : Env}
    (h : env.openLoops = env'.openLoops) :
    (env.run (cs.filter Change.isLoop)).openLoops = (env'.run cs).openLoops := by
  induction cs generalizing env env' with
  | nil => exact h
  | cons c cs ih =>
      cases hc : c.isScope with
      | true =>
          have hdrop : ¬ c.isLoop = true := by simp [Change.isLoop, hc]
          rw [List.filter_cons_of_neg hdrop, run_cons]
          exact ih (h.trans (env'.openLoops_apply_of_isScope hc).symm)
      | false =>
          have hkeep : c.isLoop = true := by simp [Change.isLoop, hc]
          rw [List.filter_cons_of_pos hkeep, run_cons, run_cons]
          exact ih (openLoops_apply_congr h hc)

/-- Whatever is done to the surroundings, there is a scope left to define
functions in, and a function takes what the innermost account says. Changes that
are about loops could as well be left out as far as functions are concerned, and
those about scopes as far as loops are. And once a scope is closed again, every
function is what it was when the scope was opened, whatever was defined in it
and in the scopes inside. -/
theorem run_matches_accounts (d : Descriptor) (cs : List Change) :
    ((start d).run cs).scopes ≠ [] ∧
    (∀ f, ((start d).run cs).paramsOf f = ((Accounts.start d).run cs).top f) ∧
    (∀ f, ((start d).run (cs.filter Change.isScope)).paramsOf f
      = ((start d).run cs).paramsOf f) ∧
    ((start d).run (cs.filter Change.isLoop)).insideLoop = ((start d).run cs).insideLoop ∧
    ∀ inner, Nested inner → ∀ f,
      ((start d).run (cs ++ .openScope :: (inner ++ [.closeScope]))).paramsOf f
        = ((start d).run cs).paramsOf f := by
  have hrun := (Represents.start d).run
  refine ⟨(hrun cs).scopes_ne_nil, (hrun cs).paramsOf_eq, ?_, ?_, ?_⟩
  · intro f
    rw [(hrun _).paramsOf_eq, (hrun cs).paramsOf_eq, Accounts.run_filter_isScope]
  · rw [insideLoop, insideLoop, openLoops_run_filter cs rfl]
  · intro inner hinner f
    rw [(hrun _).paramsOf_eq, (hrun cs).paramsOf_eq, Accounts.run_append,
      Accounts.run_scope_of_nested hinner]

/-- A scope is closed that was never opened, and after that a declared function
is hidden twice over in scopes inside one another, in a loop. -/
theorem run_matches_accounts_hidden :
    let d : Descriptor := { funcParams := [("f", ["a", "b"])] }
    let cs : List Change := [.closeScope, .define "g" ["x"], .openLoop]
    let inner : List Change := [.define "f" [], .define "f" ["n"], .openScope, .define "g" [],
      .openFunction, .closeScope, .closeFunction 1, .define "h" ["y"]]
    Nested inner ∧
    ((start d).run (cs ++ .openScope :: inner)).paramsOf "f" = some ["n"] ∧
    ∀ f, ((start d).run (cs ++ .openScope :: (inner ++ [.closeScope]))).paramsOf f
      = ((start d).run cs).paramsOf f := by
  intro d cs inner
  have hdefine : ∀ {name params cs}, Nested cs → Nested (.define name params :: cs) :=
    .other nofun nofun
  have hinner : Nested inner := by
    refine hdefine (hdefine (@Nested.scope [.define "g" [], .openFunction] _ ?_ ?_))
    · exact hdefine (.other nofun nofun .nil)
    · exact .other nofun nofun (hdefine .nil)
  obtain ⟨-, -, -, -, hclosed⟩ := run_matches_accounts d cs
  exact ⟨hinner, rfl, hclosed inner hinner⟩

end Env

end TreeIR.Lowering
