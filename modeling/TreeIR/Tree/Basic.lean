/-!
# Program trees

The trees are those of a small language with types, expressions and statements. A function takes
its arguments by name; a type with parameters takes those by name too. Names stand in the tree as
plain text, so the nodes that only wrap a name have no type of their own here: what the wire form
writes as a nested node is a field.

`Node` is the union of all nodes, which is what can be written, read, rendered and lowered by
itself. Three of its members are the categories that children are declared with; the other five
are the nodes that only occur inside a list or as the last case of a branch.
-/

namespace TreeIR

mutual

/-- A type, by its name; a generic one with arguments by name. -/
inductive Ty where
  | named (name : String)
  | generic (name : String) (args : List TypeArg)

/-- A type bound to a type parameter. -/
structure TypeArg where
  name : String
  ty : Ty

end

/-- A parameter of a function. -/
structure Param where
  name : String
  ty : Ty

mutual

inductive Expr where
  /-- A number, as text. -/
  | num (text : String) (isFloat : Bool)
  | str (value : String)
  | ident (name : String)
  | func (params : List Param) (result : Ty) (body : Stmt)
  /-- A new value of a type. -/
  | create (ty : Ty) (args : List Arg)
  | call (callee : String) (args : List Arg)

/-- A value bound to a parameter. -/
structure Arg where
  name : String
  value : Expr

inductive Stmt where
  /-- Gives a value to a variable, a new one if `defines`. -/
  | assign (target : String) (defines : Bool) (value : Expr)
  | eval (value : Expr)
  | forEach (item : String) (source : Expr) (body : Stmt)
  | whileDo (cond : Expr) (body : Stmt)
  | branch (cases : List Case) (fallback : Option Stmt)
  | ret (value : Option Expr)
  | brk
  | cont
  | suite (body : List Stmt)

/-- A case of a branch. -/
structure Case where
  cond : Expr
  body : Stmt

end

/-- Any node. -/
inductive Node where
  | ty (ty : Ty)
  | typeArg (arg : TypeArg)
  | param (param : Param)
  | expr (expr : Expr)
  | arg (arg : Arg)
  | stmt (stmt : Stmt)
  | case (case : Case)
  /-- The last case of a branch, which has no condition. -/
  | fallback (body : Stmt)

instance : Inhabited Ty := ⟨.named ""⟩
instance : Inhabited Expr := ⟨.ident ""⟩
instance : Inhabited Stmt := ⟨.brk⟩

namespace Ty

/-- The name at the head of a type. -/
def name : Ty → String
  | .named n => n
  | .generic n _ => n

def isGeneric : Ty → Bool
  | .named _ => false
  | .generic _ _ => true

/-- The arguments of a type, none if it takes none. -/
def args : Ty → List TypeArg
  | .named _ => []
  | .generic _ as => as

end Ty

/-- The first name that stands in `seen` or earlier in the list. -/
def repeatAfter (seen : List String) : List String → Option String
  | [] => none
  | n :: ns => if n ∈ seen then some n else repeatAfter (n :: seen) ns

/-- The first name that has stood before. -/
def firstRepeat (names : List String) : Option String :=
  repeatAfter [] names

theorem repeatAfter_eq_none_iff {names seen : List String} :
    repeatAfter seen names = none ↔ names.Nodup ∧ ∀ n ∈ names, n ∉ seen := by
  induction names generalizing seen with
  | nil => simp [repeatAfter]
  | cons n ns ih =>
      rw [repeatAfter]
      by_cases hn : n ∈ seen
      · simp [hn]
      · rw [if_neg hn, ih, List.nodup_cons]
        constructor
        · rintro ⟨hnodup, hnew⟩
          refine ⟨⟨fun hmem => hnew n hmem List.mem_cons_self, hnodup⟩, ?_⟩
          refine List.forall_mem_cons.mpr ⟨hn, fun m hm hseen => ?_⟩
          exact hnew m hm (List.mem_cons_of_mem n hseen)
        · rintro ⟨⟨hnot, hnodup⟩, hnew⟩
          refine ⟨hnodup, fun m hm hseen => ?_⟩
          rcases List.mem_cons.mp hseen with rfl | hseen
          · exact hnot hm
          · exact hnew m (List.mem_cons_of_mem n hm) hseen

theorem firstRepeat_eq_none_iff {names : List String} :
    firstRepeat names = none ↔ names.Nodup := by
  rw [firstRepeat, repeatAfter_eq_none_iff]
  exact and_iff_left fun _ _ => List.not_mem_nil

/-- The argument for a type parameter. -/
def TypeArg.find? (name : String) (args : List TypeArg) : Option TypeArg :=
  args.find? (·.name == name)

namespace Expr

/-- Can nobody tell whether and when this expression is evaluated? -/
def isInert : Expr → Bool
  | .num _ _ | .str _ | .ident _ | .func _ _ _ => true
  | .create _ _ | .call _ _ => false

/-- The names of the parameters, if this is a function. -/
def paramNames? : Expr → Option (List String)
  | .func params _ _ => some (params.map Param.name)
  | _ => none

end Expr

end TreeIR
