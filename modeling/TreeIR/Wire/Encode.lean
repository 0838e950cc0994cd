import TreeIR.Json.Basic
import TreeIR.Tree.Kind

/-!
# The wire form of a tree

A node is an object whose first member gives its kind; the fields of the kind follow in a fixed
order. Lists are arrays, so that their order does not hang on an object's, and a child that may be
missing is written as null when it is.
-/

namespace TreeIR

namespace Wire

/-- The key of the member that gives the kind. -/
def tagKey : String := "_type"

/-- An object of this kind. -/
def object (k : Kind) (fields : List (String × Json)) : Json :=
  .obj ((tagKey, .str k.tag) :: fields)

/-- A name as a node: an identifier. -/
def ident (name : String) : Json :=
  object .ident [("id", .str name)]

def typeName (name : String) : Json :=
  object .namedType [("id", .str name)]

def typeArg (name : String) (ty : Json) : Json :=
  object .typeArg [("name", .str name), ("type", ty)]

def arg (name : String) (value : Json) : Json :=
  object .arg [("name", ident name), ("value", value)]

def case (cond body : Json) : Json :=
  object .case [("cond", cond), ("body", body)]

def fallback (body : Json) : Json :=
  object .fallback [("body", body)]

end Wire

mutual

def Ty.encode : Ty → Json
  | .named name => Wire.typeName name
  | .generic name args =>
    Wire.object .genericType
      [("id", Wire.typeName name), ("typevars", .arr (TypeArg.encodeAll args))]

def TypeArg.encodeAll : List TypeArg → List Json
  | [] => []
  | ⟨name, ty⟩ :: as => Wire.typeArg name ty.encode :: TypeArg.encodeAll as

end

def TypeArg.encode (a : TypeArg) : Json :=
  Wire.typeArg a.name a.ty.encode

def Param.encode (p : Param) : Json :=
  Wire.object .param [("arg", Wire.ident p.name), ("type", p.ty.encode)]

mutual

def Expr.encode : Expr → Json
  | .num text isFloat => Wire.object .num [("value", .str text), ("isFloat", .bool isFloat)]
  | .str value => Wire.object .str [("value", .str value)]
  | .ident name => Wire.ident name
  | .func params result body =>
    Wire.object .func
      [("decls", .arr (params.map Param.encode)), ("returnType", result.encode),
        ("body", body.encode)]
  | .create ty args =>
    Wire.object .create [("type", ty.encode), ("args", .arr (Arg.encodeAll args))]
  | .call callee args =>
    Wire.object .call [("func", Wire.ident callee), ("args", .arr (Arg.encodeAll args))]

def Arg.encodeAll : List Arg → List Json
  | [] => []
  | ⟨name, value⟩ :: as => Wire.arg name value.encode :: Arg.encodeAll as

def Stmt.encode : Stmt → Json
  | .assign target defines value =>
    Wire.object .assign
      [("lhs", Wire.ident target), ("isDefine", .bool defines), ("rhs", value.encode)]
  | .eval value => Wire.object .eval [("expr", value.encode)]
  | .forEach item source body =>
    Wire.object .forEach
      [("id", Wire.ident item), ("iterable", source.encode), ("body", body.encode)]
  | .whileDo cond body => Wire.object .whileDo [("cond", cond.encode), ("body", body.encode)]
  | .branch cases none =>
    Wire.object .branch [("cases", .arr (Case.encodeAll cases)), ("default", .null)]
  | .branch cases (some body) =>
    Wire.object .branch
      [("cases", .arr (Case.encodeAll cases)), ("default", Wire.fallback body.encode)]
  | .ret none => Wire.object .ret [("value", .null)]
  | .ret (some value) => Wire.object .ret [("value", value.encode)]
  | .brk => Wire.object .brk []
  | .cont => Wire.object .cont []
  | .suite body => Wire.object .suite [("stmts", .arr (Stmt.encodeAll body))]

def Case.encodeAll : List Case → List Json
  | [] => []
  | ⟨cond, body⟩ :: cs => Wire.case cond.encode body.encode :: Case.encodeAll cs

def Stmt.encodeAll : List Stmt → List Json
  | [] => []
  | s :: ss => s.encode :: Stmt.encodeAll ss

end

def Arg.encode (a : Arg) : Json :=
  Wire.arg a.name a.value.encode

def Case.encode (c : Case) : Json :=
  Wire.case c.cond.encode c.body.encode

/-- The wire form of a node. -/
def Node.encode : Node → Json
  | .ty t => t.encode
  | .typeArg a => a.encode
  | .param p => p.encode
  | .expr e => e.encode
  | .arg a => a.encode
  | .stmt s => s.encode
  | .case c => c.encode
  | .fallback body => Wire.fallback body.encode

/-- The wire form of a tree that may be missing. -/
def Node.encode? : Option Node → Json
  | none => .null
  | some n => n.encode

end TreeIR
