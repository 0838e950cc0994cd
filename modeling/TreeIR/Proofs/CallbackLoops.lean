import TreeIR.Proofs.LexicalScope
import TreeIR.Proofs.LoopSemantics

/-!
# Loops as callbacks

A loop body is lowered to a callback, so a `break` or a `continue` in it becomes
a return, and so does the end of the body. Three ways to end a round are thereby
told in two answers, and the returns go through any number of branches, but not
out of the callback that they stand in. This file shows that nothing is lost by
it: the text of a statement is that of code which takes the same steps, whatever
the steps do.

The proof has three parts, each an induction over the statement. The lowering
writes what `Stmt.code` says, a fact about texts. The code runs as the statement
does, up to `Flow.signal`, which renames the ways to end; inside a callback the
names for going on and for the end of the body become one. And a statement whose
jumps are all inside its loops ends at its end or not at all, so at the outside
there is nothing to rename.

Returns are left out, since a lowering refuses them in a loop, and so are
definitions of functions, which change what the statements after them mean.
-/

namespace TreeIR

open Lowering

mutual

/-- The code of a statement. A return has none, as `Structured` leaves it out. -/
def Stmt.code : Stmt → List Code
  | .assign target defines value => [.atom (.assign target defines value)]
  | .eval value => [.atom (.eval value)]
  | .forEach item source body => [.forEach item source (body.code ++ [.answer false])]
  | .whileDo cond body => [.loopWhile cond (body.code ++ [.answer false])]
  | .branch cases none => [.chain (Case.clauses cases) none]
  | .branch cases (some body) => [.chain (Case.clauses cases) (some body.code)]
  | .ret _ => []
  | .brk => [.answer true]
  | .cont => [.answer false]
  | .suite body => Stmt.codeAll body

/-- The clauses that cases are lowered to, one for each. -/
def Case.clauses : List Case → List Clause
  | [] => []
  | ⟨cond, body⟩ :: cs => ⟨cond, body.code⟩ :: Case.clauses cs

/-- The code of statements that follow each other. -/
def Stmt.codeAll : List Stmt → List Code
  | [] => []
  | s :: ss => s.code ++ Stmt.codeAll ss

end

/-- Statements without returns and definitions of functions, whose jumps are in
a loop body or, if `inLoop`, belong to a loop around them. -/
inductive Stmt.Structured : Bool → Stmt → Prop
  | assign {inLoop target defines value} (h : value.paramNames? = none) :
      Structured inLoop (.assign target defines value)
  | eval {inLoop value} : Structured inLoop (.eval value)
  | forEach {inLoop item source body} (h : Structured true body) :
      Structured inLoop (.forEach item source body)
  | whileDo {inLoop cond body} (h : Structured true body) :
      Structured inLoop (.whileDo cond body)
  | branch {inLoop cases fallback} (hcases : ∀ c ∈ cases, Structured inLoop c.body)
      (hfallback : ∀ body ∈ fallback, Structured inLoop body) :
      Structured inLoop (.branch cases fallback)
  | brk : Structured true .brk
  | cont : Structured true .cont
  | suite {inLoop body} (h : ∀ s ∈ body, Structured inLoop s) :
      Structured inLoop (.suite body)

/-! ## The text

A jump is written as a return only inside a callback, and that is the only thing
in which a statement depends on whether it is in a loop. Its expressions do not,
so they are written alike in and outside of one. -/

section Text

variable {d : Descriptor} {i : Indent} {v v₀ : View}

mutual

theorem Expr.lowerIn_of_paramsOf (h : v.paramsOf = v₀.paramsOf) :
    (e : Expr) → e.lowerIn d i v = e.lowerIn d i v₀
  | .num _ _ | .str _ | .ident _ => by rw [Expr.lowerIn, Expr.lowerIn]
  | .func params result body => by
      have hbody : v.functionBody = v₀.functionBody := by rw [View.functionBody, h]; rfl
      rw [Expr.lowerIn, Expr.lowerIn, hbody]
  | .create t args => by
      rw [Expr.lowerIn, Expr.lowerIn, Arg.lowerAllIn_of_paramsOf h args]
  | .call callee args => by
      rw [Expr.lowerIn, Expr.lowerIn, Arg.lowerAllIn_of_paramsOf h args, h]

theorem Arg.lowerAllIn_of_paramsOf (h : v.paramsOf = v₀.paramsOf) :
    (args : List Arg) → Arg.lowerAllIn d i v args = Arg.lowerAllIn d i v₀ args
  | [] => by rw [Arg.lowerAllIn, Arg.lowerAllIn]
  | ⟨_, value⟩ :: args => by
      rw [Arg.lowerAllIn, Arg.lowerAllIn, Expr.lowerIn_of_paramsOf h value,
        Arg.lowerAllIn_of_paramsOf h args]

end

theorem Code.printAll_append (write : Node → Except Error String) (cs cs' : List Code) :
    Code.printAll i write (cs ++ cs')
      = (do return (← Code.printAll i write cs) ++ (← Code.printAll i write cs')) := by
  induction cs with
  | nil =>
      rw [List.nil_append, Code.printAll]
      change _ = (do return "" ++ (← Code.printAll i write cs'))
      simp only [String.empty_append, bind_pure]
  | cons c cs ih =>
      rw [List.cons_append, Code.printAll, ih, Code.printAll]
      simp only [bind_assoc, pure_bind, String.append_assoc]

theorem Code.printAll_singleton (write : Node → Except Error String) (c : Code) :
    Code.printAll i write [c] = c.print i write := by
  rw [Code.printAll, Code.printAll]
  change (do return (← c.print i write) ++ "") = _
  simp only [String.append_empty, bind_pure]

/-- The text of a callback is that of the body and the answer at its end. -/
theorem Code.printAll_callback (write : Node → Except Error String) (cs : List Code) :
    Code.printAll i write (cs ++ [.answer false])
      = (do return Target.loopBody (← Code.printAll i write cs)) := by
  rw [Code.printAll_append, Code.printAll_singleton, Code.print]
  rfl

theorem Stmt.Structured.after_eq {l : Bool} {s : Stmt} (h : s.Structured l) :
    v.after s = v := by
  cases h with
  | assign h =>
      unfold View.after
      split
      · next heq =>
          cases heq
          cases h
      · rfl
  | _ => rfl

theorem Case.lowerAllIn_eq_print {write : Node → Except Error String} {cases : List Case}
    (hwrite : ∀ e : Expr, e.lowerIn d i v = write (.expr e))
    (hbody : ∀ c ∈ cases, c.body.lowerIn d i v = Code.printAll i write c.body.code) :
    Case.lowerAllIn d i v cases = Clause.printAll i write (Case.clauses cases) := by
  induction cases with
  | nil => rfl
  | cons c cs ih =>
      obtain ⟨hc, hcs⟩ := List.forall_mem_cons.mp hbody
      obtain ⟨cond, body⟩ := c
      rw [Case.lowerAllIn, Case.clauses, Clause.printAll, hwrite, hc, ih hcs]
      rfl

theorem Stmt.lowerAllIn_eq_print {write : Node → Except Error String} {body : List Stmt}
    (hafter : ∀ s ∈ body, v.after s = v)
    (hbody : ∀ s ∈ body, s.lowerIn d i v = Code.printAll i write s.code) :
    Stmt.lowerAllIn d i v body = Code.printAll i write (Stmt.codeAll body) := by
  induction body with
  | nil => rfl
  | cons s ss ih =>
      obtain ⟨hs, hss⟩ := List.forall_mem_cons.mp hbody
      obtain ⟨hafter_s, hafter_ss⟩ := List.forall_mem_cons.mp hafter
      rw [Stmt.lowerAllIn, Stmt.codeAll, Code.printAll_append, hafter_s, hs, ih hafter_ss hss]

theorem Stmt.Structured.lowerIn_eq_print {l : Bool} {s : Stmt} (h : s.Structured l)
    (hl : l = true → v.inLoop = true) (hv : v.paramsOf = v₀.paramsOf) :
    s.lowerIn d i v = Code.printAll i (Node.lowerIn d i v₀) s.code := by
  have hwrite {v : View} (hv : v.paramsOf = v₀.paramsOf) (e : Expr) :
      e.lowerIn d i v = Node.lowerIn d i v₀ (.expr e) := Expr.lowerIn_of_paramsOf hv e
  -- `v₀` is what the whole statement sees; further in, only `inLoop` may differ from it
  induction h generalizing v with
  | @assign _ target defines value h =>
      rw [Stmt.code, Code.printAll_singleton, Code.print, Node.lowerIn]
      cases defines with
      | true => rw [Stmt.lowerIn_declare h, Stmt.lowerIn_declare h, hwrite hv]; rfl
      | false => rw [Stmt.lowerIn, Stmt.lowerIn, hwrite hv]; rfl
  | eval =>
      rw [Stmt.code, Code.printAll_singleton, Code.print, Node.lowerIn, Stmt.lowerIn,
        Stmt.lowerIn, hwrite hv]
      rfl
  | forEach h ih =>
      rw [Stmt.code, Code.printAll_singleton, Code.print, Code.printAll_callback, Stmt.lowerIn,
        hwrite hv, ih (v := v.loopBody) (fun _ => rfl) hv]
      simp only [bind_assoc, pure_bind]
      rfl
  | whileDo h ih =>
      rw [Stmt.code, Code.printAll_singleton, Code.print, Code.printAll_callback, Stmt.lowerIn,
        hwrite hv, ih (v := v.loopBody) (fun _ => rfl) hv]
      simp only [bind_assoc, pure_bind]
      rfl
  | @branch _ cases fallback hcases hfallback ihcases ihfallback =>
      have hclauses := Case.lowerAllIn_eq_print (hwrite hv) fun c hc => ihcases c hc hl hv
      cases fallback with
      | none =>
          rw [Stmt.code, Code.printAll_singleton, Code.print, Stmt.lowerIn, hclauses]
          rfl
      | some body =>
          rw [Stmt.code, Code.printAll_singleton, Code.print, Stmt.lowerIn, hclauses,
            ihfallback body rfl hl hv]
          simp only [Target.fallback, Target.branchHead, String.append_assoc]
  | brk =>
      rw [Stmt.code, Code.printAll_singleton, Code.print, Stmt.lowerIn, hl rfl]
      rfl
  | cont =>
      rw [Stmt.code, Code.printAll_singleton, Code.print, Stmt.lowerIn, hl rfl]
      rfl
  | suite h ih =>
      rw [Stmt.code, Stmt.lowerIn]
      exact Stmt.lowerAllIn_eq_print (fun s hs => (h s hs).after_eq)
        fun s hs => ih s hs hl hv

end Text

/-! ## The run

Both runs ask the oracle in the same order, so the two are equal as computations
and no state is ever looked at. The inductions over elements and rounds are in
`callEach_eq_each` and `callWhile_eq_whileHolds`. -/

section Simulation

variable {σ ε : Type} {o : Oracle σ ε} {fuel : Nat}

namespace Flow

/-- How code ends where the statement ends like this. -/
def signal : Flow → Signal
  | .next => .fell
  | .leave => .answered true
  | .goOn => .answered false

/-- Is this the end of the innermost loop? -/
def stops : Flow → Bool
  | .leave => true
  | .next | .goOn => false

end Flow

theorem Code.runAll_append (cs cs' : List Code) :
    Code.runAll o fuel (cs ++ cs')
      = (do (← Code.runAll o fuel cs).andThen (Code.runAll o fuel cs')) := by
  induction cs with
  | nil =>
      rw [List.nil_append, Code.runAll, pure_bind]
      rfl
  | cons c cs ih =>
      rw [List.cons_append, Code.runAll, ih, Code.runAll, bind_assoc]
      refine bind_congr fun signal => ?_
      cases signal with
      | fell => rfl
      | answered stop => exact (pure_bind _ _).symm

theorem Code.runAll_singleton (c : Code) : Code.runAll o fuel [c] = c.run o fuel := by
  rw [Code.runAll, Code.runAll]
  refine (bind_congr fun signal => ?_).trans (bind_pure _)
  cases signal <;> rfl

/-- Falling off the end of a body and going on with the loop are one answer of
its callback, and leaving the loop is the other. -/
theorem Code.runAll_callback {cs : List Code} {body : Run σ ε Flow}
    (h : Code.runAll o fuel cs = (do return (← body).signal)) :
    (do (← Code.runAll o fuel (cs ++ [.answer false])).answer) = (do return (← body).stops) := by
  rw [Code.runAll_append, Code.runAll_singleton, h]
  simp only [bind_assoc, pure_bind]
  refine bind_congr fun flow => ?_
  cases flow <;> rfl

theorem Signal.callEach_eq_each {round : ε → Run σ ε Flow} {callback : ε → Run σ ε Bool}
    (h : ∀ x, callback x = (do return (← round x).stops)) (xs : List ε) :
    Signal.callEach callback xs = Flow.each round xs := by
  induction xs with
  | nil => rfl
  | cons x xs ih =>
      rw [Signal.callEach, Flow.each, h, bind_assoc]
      refine bind_congr fun flow => ?_
      rw [pure_bind]
      cases flow with
      | leave => rfl
      | next => exact ih
      | goOn => exact ih

theorem Signal.callWhile_eq_whileHolds {cond : Run σ ε Bool} {round : Run σ ε Flow}
    {callback : Run σ ε Bool} (h : callback = (do return (← round).stops)) (rounds : Nat) :
    Signal.callWhile cond callback rounds = Flow.whileHolds cond round rounds := by
  induction rounds with
  | zero => rfl
  | succ rounds ih =>
      rw [Signal.callWhile, Flow.whileHolds]
      refine bind_congr fun holds => ?_
      cases holds with
      | false => rfl
      | true =>
          rw [if_pos rfl, if_pos rfl, h, bind_assoc]
          refine bind_congr fun flow => ?_
          rw [pure_bind, ← h]
          cases flow with
          | leave => rfl
          | next => exact ih
          | goOn => exact ih

theorem Clause.runFirst_clauses {otherwise : Run σ ε Flow} {otherwise' : Run σ ε Signal}
    {cases : List Case} (hlast : otherwise' = (do return (← otherwise).signal))
    (hbody : ∀ c ∈ cases,
      Code.runAll o fuel c.body.code = (do return (← c.body.run o fuel).signal)) :
    Clause.runFirst o fuel otherwise' (Case.clauses cases)
      = (do return (← Case.runFirst o fuel otherwise cases).signal) := by
  induction cases with
  | nil => exact hlast
  | cons c cs ih =>
      obtain ⟨hc, hcs⟩ := List.forall_mem_cons.mp hbody
      obtain ⟨cond, body⟩ := c
      rw [Case.clauses, Clause.runFirst, Case.runFirst, bind_assoc]
      refine bind_congr fun holds => ?_
      cases holds with
      | true => exact hc
      | false => exact ih hcs

theorem Code.runAll_codeAll {body : List Stmt}
    (h : ∀ s ∈ body, Code.runAll o fuel s.code = (do return (← s.run o fuel).signal)) :
    Code.runAll o fuel (Stmt.codeAll body)
      = (do return (← Stmt.runAll o fuel body).signal) := by
  induction body with
  | nil =>
      rw [Stmt.codeAll, Code.runAll, Stmt.runAll, pure_bind]
      rfl
  | cons s ss ih =>
      obtain ⟨hs, hss⟩ := List.forall_mem_cons.mp h
      rw [Stmt.codeAll, Code.runAll_append, hs, ih hss, Stmt.runAll]
      simp only [bind_assoc, pure_bind]
      refine bind_congr fun flow => ?_
      cases flow with
      | next => rfl
      | leave => exact (pure_bind _ _).symm
      | goOn => exact (pure_bind _ _).symm

theorem Stmt.Structured.runAll_code {l : Bool} {s : Stmt} (h : s.Structured l) :
    Code.runAll o fuel s.code = (do return (← s.run o fuel).signal) := by
  induction h with
  | assign h =>
      rw [Stmt.code, Code.runAll_singleton, Code.run, Stmt.run, bind_assoc]
      rfl
  | eval =>
      rw [Stmt.code, Code.runAll_singleton, Code.run, Stmt.run, bind_assoc]
      rfl
  | @forEach _ item source body h ih =>
      have hcallback (x : ε) :
          (do Run.enter o item x
              (← Code.runAll o fuel (body.code ++ [.answer false])).answer)
            = (do return (← (do Run.enter o item x; body.run o fuel)).stops) := by
        rw [Code.runAll_callback ih, bind_assoc]
      rw [Stmt.code, Code.runAll_singleton, Code.run, Stmt.run, bind_assoc]
      refine bind_congr fun elements => ?_
      rw [Signal.callEach_eq_each hcallback, bind_assoc]
      rfl
  | @whileDo _ cond body h ih =>
      have hcallback :
          (do Run.again cond
              (← Code.runAll o fuel (body.code ++ [.answer false])).answer)
            = (do return (← (do Run.again cond; body.run o fuel)).stops) := by
        rw [Code.runAll_callback ih, bind_assoc]
      rw [Stmt.code, Code.runAll_singleton, Code.run, Stmt.run, bind_assoc,
        Signal.callWhile_eq_whileHolds hcallback]
      rfl
  | @branch _ cases fallback hcases hfallback ihcases ihfallback =>
      cases fallback with
      | none =>
          rw [Stmt.code, Code.runAll_singleton, Code.run, Stmt.run]
          exact Clause.runFirst_clauses (pure_bind _ _).symm ihcases
      | some body =>
          rw [Stmt.code, Code.runAll_singleton, Code.run, Stmt.run]
          exact Clause.runFirst_clauses (ihfallback body rfl) ihcases
  | brk =>
      rw [Stmt.code, Code.runAll_singleton, Code.run, Stmt.run, pure_bind]
      rfl
  | cont =>
      rw [Stmt.code, Code.runAll_singleton, Code.run, Stmt.run, pure_bind]
      rfl
  | suite h ih =>
      rw [Stmt.code, Stmt.run]
      exact Code.runAll_codeAll ih

end Simulation

/-! ## The end

What is left is that a run of a whole statement cannot end in any other way than
at its end: there is no jump out of it, and no callback without an answer. -/

section Endings

variable {σ ε α β : Type} {o : Oracle σ ε} {fuel : Nat}

/-- The run is out of fuel, or ends with a result like this. -/
def Run.Ends (P : α → Prop) (m : Run σ ε α) : Prop :=
  ∀ w, ∃ w', (∃ a, P a ∧ m w = (.ok a, w')) ∨ m w = (.error .outOfFuel, w')

namespace Run

variable {P : α → Prop} {Q : β → Prop}

theorem Ends.pure {a : α} (h : P a) : Ends P (pure a : Run σ ε α) :=
  fun w => ⟨w, .inl ⟨a, h, rfl⟩⟩

theorem Ends.bind {m : Run σ ε α} {f : α → Run σ ε β} (hm : Ends P m)
    (hf : ∀ a, P a → Ends Q (f a)) : Ends Q (m >>= f) := by
  intro w
  obtain ⟨w', ⟨a, ha, hw⟩ | hw⟩ := hm w
  · rw [bind_of_ok hw]
    exact hf a ha w'
  · exact ⟨w', .inr (bind_of_error hw)⟩

theorem ends_outOfFuel : Ends P (throw .outOfFuel : Run σ ε α) :=
  fun w => ⟨w, .inr rfl⟩

theorem ends_ask (question : σ → α × σ) (event : α → Event ε) :
    Ends (fun _ => True) (ask question event) :=
  fun _ => ⟨_, .inl ⟨_, trivial, rfl⟩⟩

end Run

open Run

theorem Flow.ends_each {P : Flow → Prop} {round : ε → Run σ ε Flow}
    (h : ∀ x, Ends P (round x)) (xs : List ε) :
    Ends (fun _ => True) (Flow.each round xs) := by
  induction xs with
  | nil => exact .pure trivial
  | cons x xs ih =>
      rw [Flow.each]
      refine (h x).bind fun flow _ => ?_
      cases flow with
      | leave => exact .pure trivial
      | next => exact ih
      | goOn => exact ih

theorem Flow.ends_whileHolds {P : Flow → Prop} {cond : Run σ ε Bool} {round : Run σ ε Flow}
    (hcond : Ends (fun _ => True) cond) (h : Ends P round) (rounds : Nat) :
    Ends (fun _ => True) (Flow.whileHolds cond round rounds) := by
  induction rounds with
  | zero => exact ends_outOfFuel
  | succ rounds ih =>
      rw [Flow.whileHolds]
      refine hcond.bind fun holds _ => ?_
      cases holds with
      | false => exact .pure trivial
      | true =>
          refine h.bind fun flow _ => ?_
          cases flow with
          | leave => exact .pure trivial
          | next => exact ih
          | goOn => exact ih

theorem Case.ends_runFirst {P : Flow → Prop} {otherwise : Run σ ε Flow} {cases : List Case}
    (hlast : Ends P otherwise) (hbody : ∀ c ∈ cases, Ends P (c.body.run o fuel)) :
    Ends P (Case.runFirst o fuel otherwise cases) := by
  induction cases with
  | nil => exact hlast
  | cons c cs ih =>
      obtain ⟨hc, hcs⟩ := List.forall_mem_cons.mp hbody
      obtain ⟨cond, body⟩ := c
      rw [Case.runFirst]
      refine (ends_ask _ _).bind fun holds _ => ?_
      cases holds with
      | true => exact hc
      | false => exact ih hcs

theorem Stmt.ends_runAll {P : Flow → Prop} {body : List Stmt} (hnext : P .next)
    (h : ∀ s ∈ body, Ends P (s.run o fuel)) : Ends P (Stmt.runAll o fuel body) := by
  induction body with
  | nil => exact .pure hnext
  | cons s ss ih =>
      obtain ⟨hs, hss⟩ := List.forall_mem_cons.mp h
      rw [Stmt.runAll]
      refine hs.bind fun flow hflow => ?_
      cases flow with
      | next => exact ih hss
      | leave => exact .pure hflow
      | goOn => exact .pure hflow

theorem Stmt.Structured.run_ends {l : Bool} {s : Stmt} (h : s.Structured l) :
    Ends (fun flow => l = false → flow = .next) (s.run o fuel) := by
  induction h with
  | assign h =>
      rw [Stmt.run]
      exact (ends_ask _ _).bind fun _ _ => .pure fun _ => rfl
  | eval =>
      rw [Stmt.run]
      exact (ends_ask _ _).bind fun _ _ => .pure fun _ => rfl
  | @forEach _ item source body h ih =>
      have hround (x : ε) : Ends _ (do enter o item x; body.run o fuel) :=
        (ends_ask _ _).bind fun _ _ => ih
      rw [Stmt.run]
      refine (ends_ask _ _).bind fun elements _ => ?_
      exact (Flow.ends_each hround elements).bind fun _ _ => .pure fun _ => rfl
  | @whileDo _ cond body h ih =>
      have hround : Ends _ (do again cond; body.run o fuel) :=
        (ends_ask _ _).bind fun _ _ => ih
      rw [Stmt.run]
      exact (Flow.ends_whileHolds (ends_ask _ _) hround fuel).bind fun _ _ => .pure fun _ => rfl
  | @branch _ cases fallback hcases hfallback ihcases ihfallback =>
      cases fallback with
      | none =>
          rw [Stmt.run]
          exact Case.ends_runFirst (.pure fun _ => rfl) ihcases
      | some body =>
          rw [Stmt.run]
          exact Case.ends_runFirst (ihfallback body rfl) ihcases
  | brk =>
      rw [Stmt.run]
      exact .pure fun h => absurd h.symm Bool.false_ne_true
  | cont =>
      rw [Stmt.run]
      exact .pure fun h => absurd h.symm Bool.false_ne_true
  | suite h ih =>
      rw [Stmt.run]
      exact Stmt.ends_runAll (fun _ => rfl) ih

end Endings

/-- A statement is lowered to the text of code that does what it does: for every
oracle, the statement and the code take the same steps with the same answers, to
the end of both or until both are out of fuel. -/
theorem Stmt.lower_simulates_loops (i : Indent) (env : Env) (s : Stmt)
    (hs : env.scopes ≠ []) (h : s.Structured false) :
    (s.lower i env).1 = Code.printAll i (fun n => (n.lower i env).1) s.code ∧
    ∀ (σ ε : Type) (o : Oracle σ ε) (fuel : Nat) (w : World σ ε), ∃ w' : World σ ε,
      (s.run o fuel w = (.ok .next, w') ∧ Code.runAll o fuel s.code w = (.ok .fell, w')) ∨
      (s.run o fuel w = (.error .outOfFuel, w') ∧
        Code.runAll o fuel s.code w = (.error .outOfFuel, w')) := by
  constructor
  · have hwrite : (fun n : Node => (n.lower i env).1) = Node.lowerIn env.descriptor i env.view :=
      funext fun n => by rw [Node.lower_run i n hs]
    rw [Stmt.lower_run i s hs, hwrite]
    exact h.lowerIn_eq_print (fun hl => absurd hl Bool.false_ne_true) rfl
  · intro σ ε o fuel w
    have hends : Run.Ends _ (s.run o fuel) := h.run_ends
    rw [h.runAll_code]
    obtain ⟨w', ⟨flow, hflow, hw⟩ | hw⟩ := hends w
    · obtain rfl := hflow rfl
      exact ⟨w', .inl ⟨hw, bind_of_ok hw⟩⟩
    · exact ⟨w', .inr ⟨hw, bind_of_error hw⟩⟩

/-- A loop on a condition in a loop over two elements, with jumps out of and in
both. The oracle has a list of answers to conditions: the first inner loop goes
on once and is then left, the second one does not begin. -/
theorem Stmt.lower_simulates_loops_nested :
    let inner : Stmt := .whileDo (.ident "c") (.suite
      [.branch [⟨.ident "b", .brk⟩] none, .eval (.ident "f"), .cont])
    let s : Stmt := .forEach "x" (.ident "xs") (.suite [inner, .eval (.ident "g"), .cont])
    let env := Env.start Descriptor.empty
    let o : Oracle (List Bool) Nat := ⟨fun _ answers => answers,
      fun _ answers => (answers.headD false, answers.tail),
      fun _ answers => ([7, 8], answers), fun _ _ answers => answers⟩
    let answers := [true, false, true, true, false]
    let w : World (List Bool) Nat := ⟨[],
      [.listed (.ident "xs") [7, 8],
        .entered "x" 7,
        .tested (.ident "c") true, .repeated (.ident "c"), .tested (.ident "b") false,
        .ran (.eval (.ident "f")),
        .tested (.ident "c") true, .repeated (.ident "c"), .tested (.ident "b") true,
        .ran (.eval (.ident "g")),
        .entered "x" 8,
        .tested (.ident "c") false,
        .ran (.eval (.ident "g"))]⟩
    env.scopes ≠ [] ∧ s.Structured false ∧
      (∃ out, (s.lower .tabs env).1 = .ok out ∧
        Code.printAll .tabs (fun n => (n.lower .tabs env).1) s.code = .ok out) ∧
      Code.runAll o 2 s.code ⟨answers, []⟩ = (.ok .fell, w) := by
  intro inner s env o answers w
  have hs : env.scopes ≠ [] := List.cons_ne_nil _ _
  have hinner : inner.Structured true := by
    refine .whileDo (.suite ?_)
    simp only [List.forall_mem_cons]
    refine ⟨.branch ?_ ?_, .eval, .cont, List.forall_mem_nil _⟩
    · simp only [List.forall_mem_singleton]
      exact .brk
    · exact fun _ h => nomatch h
  have h : s.Structured false := by
    refine .forEach (.suite ?_)
    simp only [List.forall_mem_cons]
    exact ⟨hinner, .eval, .cont, List.forall_mem_nil _⟩
  obtain ⟨htext, hrun⟩ := Stmt.lower_simulates_loops .tabs env s hs h
  obtain ⟨out, hout⟩ : ∃ out, (s.lower .tabs env).1 = .ok out := ⟨_, rfl⟩
  refine ⟨hs, h, ⟨out, hout, htext.symm.trans hout⟩, ?_⟩
  have hw : s.run o 2 ⟨answers, []⟩ = (.ok .next, w) := by
    dsimp only [s, inner, Stmt.run, Stmt.runAll, Case.runFirst]
    rfl
  obtain ⟨w', ⟨hstmt, hcode⟩ | ⟨hstmt, -⟩⟩ := hrun _ _ o 2 ⟨answers, []⟩
  · rw [hw] at hstmt
    cases hstmt
    exact hcode
  · rw [hw] at hstmt
    cases hstmt

end TreeIR
