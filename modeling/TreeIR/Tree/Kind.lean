import TreeIR.Tree.Basic

/-!
# Kinds and categories

Every node has a kind, whose tag names it in the wire form and in messages. Some kinds belong to
one of three categories, and a place in a tree asks either for a category or for one kind.
`Slot` is such a place: what it asks for, together with the part of a fitting node that it keeps.
-/

namespace TreeIR

/-- The kinds of nodes. -/
inductive Kind where
  | namedType
  | typeArg
  | genericType
  | num
  | str
  | ident
  | param
  | func
  | arg
  | create
  | call
  | assign
  | eval
  | forEach
  | whileDo
  | branch
  | case
  | fallback
  | ret
  | brk
  | cont
  | suite
  deriving DecidableEq, Repr

namespace Kind

/-- The name of a kind in a document. -/
def tag : Kind → String
  | namedType => "TypeIdentifier"
  | typeArg => "TypeArgument"
  | genericType => "PolymorphicType"
  | num => "Num"
  | str => "Str"
  | ident => "Identifier"
  | param => "Declaration"
  | func => "Func"
  | arg => "Argument"
  | create => "Create"
  | call => "Call"
  | assign => "Assign"
  | eval => "Do"
  | forEach => "Foreach"
  | whileDo => "While"
  | branch => "Branch"
  | case => "Case"
  | fallback => "Default"
  | ret => "Return"
  | brk => "Break"
  | cont => "Continue"
  | suite => "Suite"

def all : List Kind :=
  [namedType, typeArg, genericType, num, str, ident, param, func, arg, create, call, assign, eval,
    forEach, whileDo, branch, case, fallback, ret, brk, cont, suite]

/-- The kind of a name. -/
def ofTag? (tag : String) : Option Kind :=
  all.find? (·.tag == tag)

theorem ofTag?_tag (k : Kind) : ofTag? k.tag = some k := by
  cases k <;> decide

end Kind

/-- What nodes of several kinds can stand for. -/
inductive Category where
  | type
  | expr
  | stmt
  deriving DecidableEq, Repr

def Category.label : Category → String
  | .type => "Type"
  | .expr => "Expression"
  | .stmt => "Statement"

/-- The category of a kind; five kinds have none. -/
def Kind.category? : Kind → Option Category
  | .namedType | .genericType => some .type
  | .num | .str | .ident | .func | .create | .call => some .expr
  | .assign | .eval | .forEach | .whileDo | .branch | .ret | .brk | .cont | .suite => some .stmt
  | .typeArg | .param | .arg | .case | .fallback => none

/-- What a place in a tree asks for. -/
inductive Demand where
  | category (c : Category)
  | kind (k : Kind)
  deriving DecidableEq, Repr

namespace Demand

/-- How a message names what is demanded. -/
def label : Demand → String
  | category c => c.label
  | kind k => k.tag

/-- Is a node of this kind what is demanded? -/
def admits : Demand → Kind → Bool
  | category c, k => k.category? == some c
  | kind k, l => k == l

end Demand

/-- A node stands where another sort of node was asked for. -/
structure Mismatch where
  expected : Demand
  found : Kind
  deriving DecidableEq, Repr

/-- What was demanded, and what was found. -/
def Mismatch.message (m : Mismatch) : String :=
  "expected " ++ m.expected.label ++ ", found " ++ m.found.tag

def Ty.kind : Ty → Kind
  | .named _ => .namedType
  | .generic _ _ => .genericType

def Expr.kind : Expr → Kind
  | .num _ _ => .num
  | .str _ => .str
  | .ident _ => .ident
  | .func _ _ _ => .func
  | .create _ _ => .create
  | .call _ _ => .call

def Stmt.kind : Stmt → Kind
  | .assign _ _ _ => .assign
  | .eval _ => .eval
  | .forEach _ _ _ => .forEach
  | .whileDo _ _ => .whileDo
  | .branch _ _ => .branch
  | .ret _ => .ret
  | .brk => .brk
  | .cont => .cont
  | .suite _ => .suite

namespace Node

def kind : Node → Kind
  | .ty t => t.kind
  | .typeArg _ => .typeArg
  | .param _ => .param
  | .expr e => e.kind
  | .arg _ => .arg
  | .stmt s => s.kind
  | .case _ => .case
  | .fallback _ => .fallback

def category? (n : Node) : Option Category :=
  n.kind.category?

end Node

/-- A place in a tree: what it asks for and what it keeps of a node that fits. -/
structure Slot (α : Type) where
  demand : Demand
  pick : Node → Option α

namespace Slot

variable {α : Type}

/-- Fits a node into the place. -/
def fit (s : Slot α) (n : Node) : Except Mismatch α :=
  match s.pick n with
  | some a => .ok a
  | none => .error ⟨s.demand, n.kind⟩

def ty : Slot Ty where
  demand := .category .type
  pick
    | .ty t => some t
    | _ => none

def expr : Slot Expr where
  demand := .category .expr
  pick
    | .expr e => some e
    | _ => none

def stmt : Slot Stmt where
  demand := .category .stmt
  pick
    | .stmt s => some s
    | _ => none

/-- The name of a variable or function. -/
def ident : Slot String where
  demand := .kind .ident
  pick
    | .expr (.ident name) => some name
    | _ => none

/-- The name of a type. -/
def typeName : Slot String where
  demand := .kind .namedType
  pick
    | .ty (.named name) => some name
    | _ => none

def typeArg : Slot TypeArg where
  demand := .kind .typeArg
  pick
    | .typeArg a => some a
    | _ => none

def param : Slot Param where
  demand := .kind .param
  pick
    | .param p => some p
    | _ => none

def arg : Slot Arg where
  demand := .kind .arg
  pick
    | .arg a => some a
    | _ => none

def case : Slot Case where
  demand := .kind .case
  pick
    | .case c => some c
    | _ => none

/-- The body of the last case of a branch. -/
def fallback : Slot Stmt where
  demand := .kind .fallback
  pick
    | .fallback s => some s
    | _ => none

/-- A place that keeps the whole node. -/
def whole (d : Demand) : Slot Node where
  demand := d
  pick n := if d.admits n.kind then some n else none

end Slot

end TreeIR
