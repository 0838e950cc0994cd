import TreeIR.Text.Lines
import TreeIR.Tree.Basic

/-!
# The diagnostic text of a tree

One form per kind, meant to be read by people and quoted in messages: names of types are marked
with `#`, names of variables with `$`, applications stand in parentheses. Statements end with a
newline, and a body is shifted by two blanks, its last newline left to the brace after it. The
text of a string is written as it is, so the form cannot always be read back.

The forms that also occur alone, as a node of their own, are written once in `Form`.
-/

namespace TreeIR

namespace Form

/-- Two blanks before every line of a body. -/
def body (text : String) : String :=
  Text.shift "  " text

/-- A body between braces. -/
def block (text : String) : String :=
  "\x7b\n" ++ body text ++ "\n\x7d"

def typeArg (name ty : String) : String :=
  name ++ "=" ++ ty

def arg (name value : String) : String :=
  "$" ++ name ++ "=" ++ value

/-- A case, with its body indented under it. -/
def case (cond text : String) : String :=
  "case(" ++ cond ++ "):\n" ++ body text ++ "\n"

/-- What is done if no case applies, indented under it. -/
def fallback (text : String) : String :=
  "default:\n" ++ body text ++ "\n"

end Form

mutual

def Ty.render : Ty → String
  | .named name => "#" ++ name
  | .generic name args => "#" ++ name ++ "<" ++ ",".intercalate (TypeArg.renderAll args) ++ ">"

def TypeArg.renderAll : List TypeArg → List String
  | [] => []
  | ⟨name, ty⟩ :: as => Form.typeArg name ty.render :: TypeArg.renderAll as

end

def TypeArg.render (a : TypeArg) : String :=
  Form.typeArg a.name a.ty.render

def Param.render (p : Param) : String :=
  "$" ++ p.name ++ ":" ++ p.ty.render

mutual

def Expr.render : Expr → String
  | .num text isFloat => (if isFloat then "f" else "i") ++ text
  | .str value => "\"" ++ value ++ "\""
  | .ident name => "$" ++ name
  | .func params result body =>
    "(" ++ ",".intercalate (params.map Param.render) ++ ")->" ++ result.render ++
      Form.block body.render
  | .create ty args => "(" ++ ty.render ++ "(" ++ ",".intercalate (Arg.renderAll args) ++ "))"
  | .call callee args => "($" ++ callee ++ "(" ++ ",".intercalate (Arg.renderAll args) ++ "))"

def Arg.renderAll : List Arg → List String
  | [] => []
  | ⟨name, value⟩ :: as => Form.arg name value.render :: Arg.renderAll as

def Stmt.render : Stmt → String
  | .assign target defines value =>
    "$" ++ target ++ (if defines then ":=" else "<-") ++ value.render ++ "\n"
  | .eval value => "do(" ++ value.render ++ ")\n"
  | .forEach item source body =>
    "foreach($" ++ item ++ "<-" ++ source.render ++ ")" ++ Form.block body.render ++ "\n"
  | .whileDo cond body => "while(" ++ cond.render ++ ")" ++ Form.block body.render ++ "\n"
  | .branch cases none => "branch\x7b\n" ++ Case.renderAll cases ++ "\x7d\n"
  | .branch cases (some body) =>
    "branch\x7b\n" ++ Case.renderAll cases ++ Form.fallback body.render ++ "\x7d\n"
  | .ret none => "return\n"
  | .ret (some value) => "return(" ++ value.render ++ ")\n"
  | .brk => "break\n"
  | .cont => "continue\n"
  | .suite body => Stmt.renderAll body

/-- The cases of a branch, one after the other. -/
def Case.renderAll : List Case → String
  | [] => ""
  | ⟨cond, body⟩ :: cs => Form.case cond.render body.render ++ Case.renderAll cs

def Stmt.renderAll : List Stmt → String
  | [] => ""
  | s :: ss => s.render ++ Stmt.renderAll ss

end

def Arg.render (a : Arg) : String :=
  Form.arg a.name a.value.render

def Case.render (c : Case) : String :=
  Form.case c.cond.render c.body.render

def Node.render : Node → String
  | .ty t => t.render
  | .typeArg a => a.render
  | .param p => p.render
  | .expr e => e.render
  | .arg a => a.render
  | .stmt s => s.render
  | .case c => c.render
  | .fallback body => Form.fallback body.render

end TreeIR
