import TreeIR.Layout

/-!
# Forms of the target text

How each construct is written, given the texts of its parts. Most of it is C++ as it stands; three
constructs have no direct counterpart.

A function that gets a name may call itself, which a closure cannot do by itself. It is written as
a pair: the first closure takes itself as a last parameter, the second one hands the first to
itself; the body sees a closure of the second sort under the function's own name.

A loop is a call of a library function with the body as a callback, which answers whether to stop.
So leaving the loop and going on with it are returns from the callback.

Arguments whose order of evaluation matters are bound to references in a closure that is called
where it stands.
-/

namespace TreeIR.Target

def commas (texts : List String) : String :=
  ", ".intercalate texts

/-- The header of a closure. -/
def closure (params : List String) (result : String) : String :=
  "[&](" ++ commas params ++ ") -> " ++ result

/-- A new value of a type. -/
def initialise (ty args : String) : String :=
  ty ++ "\x7b" ++ args ++ "\x7d"

def apply (callee args : String) : String :=
  callee ++ "(" ++ args ++ ")"

/-- An application whose arguments are passed directly. -/
def direct (application : String) : String :=
  "(" ++ application ++ ")"

/-- The reference that the argument at a place is bound to. -/
def reference (place : Nat) : String :=
  "_a" ++ toString place

/-- Binds the argument at a place. -/
def binding (place : Nat) (value : String) : String :=
  "auto &&" ++ reference place ++ " = " ++ value ++ ";\n"

/-- An application whose arguments are bound first. -/
def bound (i : Indent) (bindings application : String) : String :=
  "(" ++ i.block "[&]() -> decltype(auto)" (bindings ++ "return " ++ application ++ ";\n") ++ "())"

def declare (name value : String) : String :=
  "auto " ++ name ++ " = " ++ value ++ ";\n"

def update (name value : String) : String :=
  name ++ " = " ++ value ++ ";\n"

/-- The name of the closure that takes itself as a parameter. -/
def fixed (name : String) : String :=
  "_" ++ name

/-- The closure that hands the fixed one to itself. -/
def wrapper (i : Indent) (name : String) (names params : List String) (result : String) : String :=
  i.block (closure params result) ("return " ++ apply (fixed name) (commas (names ++ [fixed name]))
    ++ ";")

/-- Defines a function; `names` are the names of its parameters. -/
def define (i : Indent) (name : String) (names params : List String) (result body : String) :
    String :=
  let wrapped := wrapper i name names params result
  declare (fixed name)
      (i.block (closure (params ++ ["auto " ++ fixed name]) result) (declare name wrapped ++ body))
    ++ declare name wrapped

/-- An expression for its effect. -/
def eval (value : String) : String :=
  value ++ ";\n"

/-- A loop body, which goes on with the loop at its end. -/
def loopBody (body : String) : String :=
  body ++ "return false;\n"

def forEach (i : Indent) (item source body : String) : String :=
  "foreach(" ++ source ++ ", " ++ i.block ("[&](auto &" ++ item ++ ") -> bool") (loopBody body)
    ++ ");\n"

/-- A loop on a condition, which is tested in a closure of its own. -/
def whileDo (i : Indent) (cond body : String) : String :=
  "loop_while([&]() \x7b return " ++ cond ++ "; \x7d, " ++
    i.block "[&]() -> bool" (loopBody body) ++ ");\n"

/-- A test that fails in front of a branch, so that all cases are written alike. -/
def branchHead : String := "if (false) \x7b\x7d\n"

/-- A case, behind others. -/
def case (i : Indent) (cond body : String) : String :=
  i.block ("else if (" ++ cond ++ ")") body ++ "\n"

/-- What is done if no case applies. -/
def fallback (i : Indent) (body : String) : String :=
  i.block "else" body ++ "\n"

def ret (value : String) : String :=
  "return " ++ value ++ ";\n"

def retNothing : String := "return;\n"

/-- Leaves the innermost loop; inside a callback, by asking it to stop. -/
def brk (insideLoop : Bool) : String :=
  if insideLoop then "return true;\n" else "break;\n"

/-- Goes on with the innermost loop; inside a callback, by not asking it to stop. -/
def cont (insideLoop : Bool) : String :=
  if insideLoop then "return false;\n" else "continue;\n"

def includeHeader (header : String) : String :=
  "#include <" ++ header ++ ">\n"

/-- Ends a text with a newline, unless it is empty. -/
def endLine (s : String) : String :=
  if s.isEmpty || s.toList.getLast? == some '\n' then s else s ++ "\n"

end TreeIR.Target
