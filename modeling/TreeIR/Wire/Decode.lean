import TreeIR.Json.Parser
import TreeIR.Wire.Encode
import TreeIR.Wire.Error

/-!
# Reading the wire form

Reading is strict: every field of the kind must be there and of its shape, a null counts as
absent, and members that the kind does not have are passed over. Fields are looked at in the order
in which they are written, so the first fault in that order is the one reported. Two older forms
are still taken: the tag `Loop`, and lists of arguments written as an object keyed by name, whose
members are taken in document order.

A document is read from the leaves up. The `Reading` of a value holds what the value is as a node
and what its items or members are as nodes, which is all that an enclosing object can ask for; so
the recursion follows the document and needs no measure.
-/

namespace TreeIR.Wire

/-- A value and what it is as a node. -/
structure Item where
  raw : Json
  node : Except Error Node

/-- A value, what it is as a node, and what the values directly inside it are. -/
structure Reading extends Item where
  items : List Item
  members : List (String × Item)

namespace Item

variable {α : Type}

/-- The part of the node that the place keeps. -/
def fit (slot : Slot α) (i : Item) : Except Error α :=
  i.node.bind fun n =>
    match slot.fit n with
    | .ok a => .ok a
    | .error m => .error ⟨.wrongSort m, i.raw⟩

end Item

/-- An object of a known kind and its members as they were read. -/
structure Fields where
  kind : Kind
  raw : Json
  members : List (String × Reading)

namespace Fields

variable {α β : Type}

/-- Ends with an error about the object. -/
def fail (fs : Fields) (fault : Fault) : Except Error α :=
  .error ⟨fault, fs.raw⟩

/-- A member, unless it is absent or null. -/
def find? (fs : Fields) (field : String) : Option Reading :=
  match Table.get? field fs.members with
  | some r => if r.raw.isNull then none else some r
  | none => none

/-- A field that must be there. -/
def require (fs : Fields) (field : String) : Except Error Reading :=
  match fs.find? field with
  | some r => .ok r
  | none => fs.fail (.absentField fs.kind field)

def string (fs : Fields) (field : String) : Except Error String :=
  (fs.require field).bind fun r =>
    match r.raw with
    | .str s => .ok s
    | _ => fs.fail (.illShaped fs.kind field .string)

def bool (fs : Fields) (field : String) : Except Error Bool :=
  (fs.require field).bind fun r =>
    match r.raw with
    | .bool b => .ok b
    | _ => fs.fail (.illShaped fs.kind field .bool)

/-- A flag that is off when it is absent. -/
def flag (fs : Fields) (field : String) : Except Error Bool :=
  if (fs.find? field).isSome then fs.bool field else .ok false

def child (fs : Fields) (slot : Slot α) (field : String) : Except Error α :=
  (fs.require field).bind fun r => r.toItem.fit slot

/-- A field that holds a node, or is not there. -/
def child? (fs : Fields) (slot : Slot α) (field : String) : Except Error (Option α) :=
  match fs.find? field with
  | some r => (r.toItem.fit slot).map some
  | none => .ok none

/-- The nodes in a list. -/
def itemsOf (fs : Fields) (slot : Slot α) (field : String) (r : Reading) :
    Except Error (List α) :=
  match r.raw with
  | .arr _ => r.items.mapM (Item.fit slot)
  | _ => fs.fail (.illShaped fs.kind field .array)

def list (fs : Fields) (slot : Slot α) (field : String) : Except Error (List α) :=
  (fs.require field).bind fun r => fs.itemsOf slot field r

/-- A list of named things: an array of nodes, or an object from the names to what they name. -/
def named (fs : Fields) (slot : Slot α) (valueSlot : Slot β) (make : String → β → α)
    (field : String) : Except Error (List α) :=
  (fs.require field).bind fun r =>
    match r.raw with
    | .obj _ => r.members.mapM fun (name, i) => (i.fit valueSlot).map (make name)
    | _ => fs.itemsOf slot field r

/-- A field that holds arguments, in either form. -/
def args (fs : Fields) (field : String) : Except Error (List Arg) :=
  fs.named .arg .expr .mk field

/-- The arguments of a type, each parameter bound once. -/
def genericType (fs : Fields) : Except Error Ty := do
  let name ← fs.child .typeName "id"
  let args ← fs.named .typeArg .ty .mk "typevars"
  match firstRepeat (args.map TypeArg.name) with
  | some twice => fs.fail (.nameTwice fs.kind twice)
  | none => return .generic name args

/-- The node that an object stands for, by its kind. -/
def node (fs : Fields) : Except Error Node :=
  match fs.kind with
  | .namedType => do return .ty (.named (← fs.string "id"))
  | .typeArg => do
    let name ← fs.string "name"
    return .typeArg ⟨name, ← fs.child .ty "type"⟩
  | .genericType => do return .ty (← fs.genericType)
  | .num => do
    let text ← fs.string "value"
    return .expr (.num text (← fs.flag "isFloat"))
  | .str => do return .expr (.str (← fs.string "value"))
  | .ident => do return .expr (.ident (← fs.string "id"))
  | .param => do
    let name ← fs.child .ident "arg"
    return .param ⟨name, ← fs.child .ty "type"⟩
  | .func => do
    let params ← fs.list .param "decls"
    let result ← fs.child .ty "returnType"
    return .expr (.func params result (← fs.child .stmt "body"))
  | .arg => do
    let name ← fs.child .ident "name"
    return .arg ⟨name, ← fs.child .expr "value"⟩
  | .create => do
    let ty ← fs.child .ty "type"
    return .expr (.create ty (← fs.args "args"))
  | .call => do
    let callee ← fs.child .ident "func"
    return .expr (.call callee (← fs.args "args"))
  | .assign => do
    let target ← fs.child .ident "lhs"
    let defines ← fs.bool "isDefine"
    return .stmt (.assign target defines (← fs.child .expr "rhs"))
  | .eval => do return .stmt (.eval (← fs.child .expr "expr"))
  | .forEach => do
    let item ← fs.child .ident "id"
    let source ← fs.child .expr "iterable"
    return .stmt (.forEach item source (← fs.child .stmt "body"))
  | .whileDo => do
    let cond ← fs.child .expr "cond"
    return .stmt (.whileDo cond (← fs.child .stmt "body"))
  | .branch => do
    let cases ← fs.list .case "cases"
    return .stmt (.branch cases (← fs.child? .fallback "default"))
  | .case => do
    let cond ← fs.child .expr "cond"
    return .case ⟨cond, ← fs.child .stmt "body"⟩
  | .fallback => do return .fallback (← fs.child .stmt "body")
  | .ret => do return .stmt (.ret (← fs.child? .expr "value"))
  | .brk => return .stmt .brk
  | .cont => return .stmt .cont
  | .suite => do return .stmt (.suite (← fs.list .stmt "stmts"))

end Fields

/-- The tag that older documents have for a loop over items. -/
def oldForEachTag : String := "Loop"

/-- The kind that a tag stands for in a document. -/
def kindOfTag? (tag : String) : Option Kind :=
  if tag = oldForEachTag then some .forEach else Kind.ofTag? tag

/-- The kind that an object gives itself. -/
def kind? (v : Json) : Option Kind :=
  ((v.get? tagKey).bind Json.str?).bind kindOfTag?

/-- What a value is as a node, once its members have been read. -/
def assemble (raw : Json) (members : List (String × Reading)) : Except Error Node :=
  match kind? raw with
  | some kind => (Fields.mk kind raw members).node
  | none => .error ⟨.notNode, raw⟩

mutual

/-- Reads a value as whatever it can stand for. The error of a value that is no node is kept until
a node is asked for. -/
def read : Json → Reading
  | .arr vs => ⟨⟨.arr vs, assemble (.arr vs) []⟩, readItems vs, []⟩
  | .obj ms =>
    let rs := readMembers ms
    ⟨⟨.obj ms, assemble (.obj ms) rs⟩, [], rs.map fun (k, r) => (k, r.toItem)⟩
  | .null => ⟨⟨.null, assemble .null []⟩, [], []⟩
  | .bool b => ⟨⟨.bool b, assemble (.bool b) []⟩, [], []⟩
  | .num n => ⟨⟨.num n, assemble (.num n) []⟩, [], []⟩
  | .str s => ⟨⟨.str s, assemble (.str s) []⟩, [], []⟩

def readItems : List Json → List Item
  | [] => []
  | v :: vs => (read v).toItem :: readItems vs

def readMembers : List (String × Json) → List (String × Reading)
  | [] => []
  | (k, v) :: ms => (k, read v) :: readMembers ms

end

@[simp] theorem raw_read (v : Json) : (read v).raw = v := by
  cases v <;> simp [read]

theorem readItems_eq_map : ∀ vs : List Json, readItems vs = vs.map fun v => (read v).toItem
  | [] => by simp [readItems]
  | v :: vs => by simp [readItems, readItems_eq_map vs]

theorem readMembers_eq_map :
    ∀ ms : List (String × Json), readMembers ms = ms.map fun m => (m.1, read m.2)
  | [] => by simp [readMembers]
  | (k, v) :: ms => by simp [readMembers, readMembers_eq_map ms]

/-- The node that a value is. -/
def decodeNode (v : Json) : Except Error Node :=
  (read v).node

/-- The tree that a value stands for; null stands for none. -/
def decode : Json → Except Error (Option Node)
  | .null => .ok none
  | v => (decodeNode v).map some

/-- The tree that a value stands for, where there must be one. -/
def decodePresent (v : Json) : Except NodeError Node :=
  match decode v with
  | .ok (some n) => .ok n
  | .ok none => .error .absent
  | .error e => .error (.invalid e)

/-- The tree that a text holds. -/
def decodeText (text : String) : Except TextError (Option Node) :=
  match Json.parse? text with
  | some v => (decode v).mapError .invalid
  | none => .error .notJson

end TreeIR.Wire
