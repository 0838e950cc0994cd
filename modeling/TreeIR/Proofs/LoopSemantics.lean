import TreeIR.Lowering.Error
import TreeIR.Layout
import TreeIR.Tree.Basic

/-!
# Runs of programs with loops

Two languages are run here. One is that of the statements of a tree, whose
loops are left and gone on with by `break` and `continue`. The other is the
fragment of the target that such statements are lowered to: it has chains of
tests, returns of a truth value, and loops that are calls of a library function
with the body as a callback. It has no jumps.

Both are run against one `Oracle`, which answers for everything that is not a
loop, a chain or a jump: what an assignment or a call does, how a condition comes
out, what a collection holds. None of this is looked into, but all of it may
depend on a state that earlier steps have changed, and each question is written
to a trace, so that two runs can be compared step by step.

A loop on a condition need not end. Each such loop gets `fuel` rounds and halts
the run after them, with the trace up to there.
-/

namespace TreeIR

open Lowering (Error)

/-- One step of a run, with what the oracle answered. -/
inductive Event (ε : Type) where
  | ran (atom : Stmt)
  | tested (cond : Expr) (holds : Bool)
  | listed (source : Expr) (elements : List ε)
  /-- A round on a collection begins. -/
  | entered (item : String) (element : ε)
  /-- A round on a condition begins. -/
  | repeated (cond : Expr)

/-- The meaning of everything that is not control flow. -/
structure Oracle (σ ε : Type) where
  effect : Stmt → σ → σ
  holds : Expr → σ → Bool × σ
  elements : Expr → σ → List ε × σ
  /-- Gives a name to an element. -/
  bind : String → ε → σ → σ

/-- Where a run stands: the state that the oracle acts on, and the steps taken so far.
-/
structure World (σ ε : Type) where
  state : σ
  trace : List (Event ε)

/-- Why a run stops before its end. -/
inductive Halt where
  | outOfFuel
  | returned
  /-- A callback has ended and not said whether to stop. -/
  | unanswered

/-- A run. Its steps are kept even if it is halted. -/
abbrev Run (σ ε α : Type) := ExceptT Halt (StateM (World σ ε)) α

variable {σ ε : Type}

namespace Run

/-- Asks the oracle, and writes down the question with the answer. -/
def ask {α : Type} (question : σ → α × σ) (event : α → Event ε) : Run σ ε α :=
  fun w =>
    let (answer, state) := question w.state
    (.ok answer, ⟨state, w.trace ++ [event answer]⟩)

/-- Runs a statement that holds no other. -/
def act (o : Oracle σ ε) (atom : Stmt) : Run σ ε Unit :=
  ask (fun s => ((), o.effect atom s)) fun _ => .ran atom

/-- Tests a condition. -/
def test (o : Oracle σ ε) (cond : Expr) : Run σ ε Bool :=
  ask (o.holds cond) (.tested cond)

/-- Asks what a collection holds, once, before the first round on it. -/
def list (o : Oracle σ ε) (source : Expr) : Run σ ε (List ε) :=
  ask (o.elements source) (.listed source)

/-- Begins a round on a collection. -/
def enter (o : Oracle σ ε) (item : String) (element : ε) : Run σ ε Unit :=
  ask (fun s => ((), o.bind item element s)) fun _ => .entered item element

/-- Begins a round on a condition. -/
def again (cond : Expr) : Run σ ε Unit :=
  ask (fun s => ((), s)) fun _ => .repeated cond

end Run

/-- How a statement ends: at its end, or at a jump out of it. -/
inductive Flow where
  | next
  | leave
  | goOn

namespace Flow

/-- A statement and what follows it. -/
def andThen (rest : Run σ ε Flow) : Flow → Run σ ε Flow
  | .next => rest
  | jump => pure jump

/-- A loop over elements; only a `break` ends it early. -/
def each (round : ε → Run σ ε Flow) : List ε → Run σ ε Unit
  | [] => pure ()
  | x :: xs => do
    match ← round x with
    | .leave => pure ()
    | .next | .goOn => each round xs

/-- A loop on a condition, of so many rounds at most. -/
def whileHolds (cond : Run σ ε Bool) (round : Run σ ε Flow) : Nat → Run σ ε Unit
  | 0 => throw .outOfFuel
  | fuel + 1 => do
    if ← cond then
      match ← round with
      | .leave => pure ()
      | .next | .goOn => whileHolds cond round fuel
    else pure ()

end Flow

mutual

/-- Runs a statement of the tree, each loop on a condition for so many rounds at most.
-/
def Stmt.run (o : Oracle σ ε) (fuel : Nat) : Stmt → Run σ ε Flow
  | .assign target defines value => do
    Run.act o (.assign target defines value)
    return .next
  | .eval value => do
    Run.act o (.eval value)
    return .next
  | .forEach item source body => do
    let elements ← Run.list o source
    Flow.each (fun x => do Run.enter o item x; body.run o fuel) elements
    return .next
  | .whileDo cond body => do
    Flow.whileHolds (Run.test o cond) (do Run.again cond; body.run o fuel) fuel
    return .next
  | .branch cases none => Case.runFirst o fuel (pure .next) cases
  | .branch cases (some body) => Case.runFirst o fuel (body.run o fuel) cases
  | .ret value => do
    Run.act o (.ret value)
    throw .returned
  | .brk => pure .leave
  | .cont => pure .goOn
  | .suite body => Stmt.runAll o fuel body

/-- The first case whose condition holds, and no condition after it. -/
def Case.runFirst (o : Oracle σ ε) (fuel : Nat) (otherwise : Run σ ε Flow) :
    List Case → Run σ ε Flow
  | [] => otherwise
  | ⟨cond, body⟩ :: cs => do
    if ← Run.test o cond then body.run o fuel else Case.runFirst o fuel otherwise cs

/-- Runs statements one after the other, up to a jump. -/
def Stmt.runAll (o : Oracle σ ε) (fuel : Nat) : List Stmt → Run σ ε Flow
  | [] => pure .next
  | s :: ss => do (← s.run o fuel).andThen (Stmt.runAll o fuel ss)

end

/-! ## Callbacks

The target. A callback takes an element or nothing, and answers whether its loop
is to stop. The library functions are what is written here as `callEach` and
`callWhile`: they call back once for each element, or as long as the condition
holds, and no more after an answer to stop. -/

mutual

/-- The code that statements are lowered to. A loop is a call of a library function,
with its body as a callback. -/
inductive Code where
  /-- A statement that holds no other. -/
  | atom (stmt : Stmt)
  | chain (clauses : List Clause) (last : Option (List Code))
  /-- The return of a truth value. -/
  | answer (stop : Bool)
  | forEach (item : String) (source : Expr) (callback : List Code)
  | loopWhile (cond : Expr) (callback : List Code)

/-- A test in a chain, with the code that it guards. -/
structure Clause where
  cond : Expr
  body : List Code

end

/-- How code ends: at its end, or at a return. -/
inductive Signal where
  | fell
  | answered (stop : Bool)

namespace Signal

/-- Code and what follows it, which is not reached behind a return. -/
def andThen (rest : Run σ ε Signal) : Signal → Run σ ε Signal
  | .fell => rest
  | .answered stop => pure (.answered stop)

/-- What a call of a callback gives, which must have returned. -/
def answer : Signal → Run σ ε Bool
  | .fell => throw .unanswered
  | .answered stop => pure stop

/-- The library function for a loop over elements. It calls back once for each of
them, until it is told to stop. -/
def callEach (callback : ε → Run σ ε Bool) : List ε → Run σ ε Unit
  | [] => pure ()
  | x :: xs => do
    if ← callback x then pure () else callEach callback xs

/-- The library function for a loop on a condition. It calls back as long as the
condition holds and it is not told to stop, so many times at most. -/
def callWhile (cond callback : Run σ ε Bool) : Nat → Run σ ε Unit
  | 0 => throw .outOfFuel
  | fuel + 1 => do
    if ← cond then
      if ← callback then pure () else callWhile cond callback fuel
    else pure ()

end Signal

mutual

/-- Runs code. -/
def Code.run (o : Oracle σ ε) (fuel : Nat) : Code → Run σ ε Signal
  | .atom stmt => do
    Run.act o stmt
    return .fell
  | .chain clauses none => Clause.runFirst o fuel (pure .fell) clauses
  | .chain clauses (some last) => Clause.runFirst o fuel (Code.runAll o fuel last) clauses
  | .answer stop => pure (.answered stop)
  | .forEach item source callback => do
    let elements ← Run.list o source
    Signal.callEach (fun x => do
      Run.enter o item x
      (← Code.runAll o fuel callback).answer) elements
    return .fell
  | .loopWhile cond callback => do
    Signal.callWhile (Run.test o cond) (do
      Run.again cond
      (← Code.runAll o fuel callback).answer) fuel
    return .fell

/-- Runs the first clause whose test holds, and makes no test after it. -/
def Clause.runFirst (o : Oracle σ ε) (fuel : Nat) (otherwise : Run σ ε Signal) :
    List Clause → Run σ ε Signal
  | [] => otherwise
  | ⟨cond, body⟩ :: cs => do
    if ← Run.test o cond then Code.runAll o fuel body
    else Clause.runFirst o fuel otherwise cs

/-- Runs code piece by piece, up to a return. -/
def Code.runAll (o : Oracle σ ε) (fuel : Nat) : List Code → Run σ ε Signal
  | [] => pure .fell
  | c :: cs => do (← c.run o fuel).andThen (Code.runAll o fuel cs)

end

/-! ## The text of code

Code is written out given a way to write statements without others in them and
expressions. A writer may fail, and then there is no text. -/

mutual

/-- The text of code. -/
def Code.print (i : Indent) (write : Node → Except Error String) : Code → Except Error String
  | .atom stmt => write (.stmt stmt)
  | .chain clauses none => do
    return "if (false) \x7b\x7d\n" ++ (← Clause.printAll i write clauses)
  | .chain clauses (some last) => do
    let clauses ← Clause.printAll i write clauses
    let last ← Code.printAll i write last
    return "if (false) \x7b\x7d\n" ++ clauses ++ i.block "else" last ++ "\n"
  | .answer true => .ok "return true;\n"
  | .answer false => .ok "return false;\n"
  | .forEach item source callback => do
    let source ← write (.expr source)
    let callback ← Code.printAll i write callback
    return "foreach(" ++ source ++ ", " ++
      i.block ("[&](auto &" ++ item ++ ") -> bool") callback ++ ");\n"
  | .loopWhile cond callback => do
    let cond ← write (.expr cond)
    let callback ← Code.printAll i write callback
    return "loop_while([&]() \x7b return " ++ cond ++ "; \x7d, " ++
      i.block "[&]() -> bool" callback ++ ");\n"

/-- The text of the clauses of a chain. -/
def Clause.printAll (i : Indent) (write : Node → Except Error String) :
    List Clause → Except Error String
  | [] => .ok ""
  | ⟨cond, body⟩ :: cs => do
    let cond ← write (.expr cond)
    let body ← Code.printAll i write body
    return i.block ("else if (" ++ cond ++ ")") body ++ "\n" ++ (← Clause.printAll i write cs)

/-- The texts of pieces of code, one after the other. -/
def Code.printAll (i : Indent) (write : Node → Except Error String) :
    List Code → Except Error String
  | [] => .ok ""
  | c :: cs => do return (← c.print i write) ++ (← Code.printAll i write cs)

end

end TreeIR
