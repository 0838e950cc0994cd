import TreeIR.Json.Number
import TreeIR.Table

/-!
# JSON values

Objects keep their members in document order. A repeated key keeps its first place and takes its
last value, which is what `Table.insert` does, so objects that were read have distinct keys.
-/

namespace TreeIR

/-- A JSON value, with the members of an object in document order. -/
inductive Json where
  | null
  | bool (value : Bool)
  | num (value : Number)
  | str (value : String)
  | arr (items : List Json)
  | obj (members : List (String × Json))

namespace Json

instance : Inhabited Json := ⟨.null⟩

def isNull : Json → Bool
  | .null => true
  | _ => false

/-- The member of an object with this key. -/
def get? (key : String) : Json → Option Json
  | .obj members => Table.get? key members
  | _ => none

/-- The member of an object with this key; a null member counts as absent. -/
def getFilled? (key : String) (v : Json) : Option Json :=
  match v.get? key with
  | some w => if w.isNull then none else some w
  | none => none

def str? : Json → Option String
  | .str s => some s
  | _ => none

end Json

end TreeIR
