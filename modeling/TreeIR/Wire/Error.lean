import TreeIR.Json.Printer
import TreeIR.Tree.Kind

/-!
# Faults of a wire form

A fault is found at one value of the document, and the error carries that value: the object whose
field is missing or has the wrong shape, the child that is of the wrong sort, the value that is no
node at all.
-/

namespace TreeIR.Wire

/-- The shape that a plain field must have. -/
inductive Shape where
  | string
  | bool
  | array
  deriving DecidableEq, Repr

/-- How a message names what a field must hold. -/
def Shape.label : Shape → String
  | .string => "a string"
  | .bool => "a boolean"
  | .array => "an array"

/-- What is wrong with a value. -/
inductive Fault where
  /-- No object, or no known kind. -/
  | notNode
  | absentField (kind : Kind) (field : String)
  | illShaped (kind : Kind) (field : String) (expected : Shape)
  | wrongSort (mismatch : Mismatch)
  /-- A type binds a parameter twice. -/
  | nameTwice (kind : Kind) (name : String)
  deriving DecidableEq, Repr

/-- Why a value is no node, and the value that is at fault. -/
structure Error where
  fault : Fault
  value : Json

/-- What is reported of a fault. -/
def Fault.text : Fault → String
  | .notNode => "unknown node kind"
  | .absentField kind field => kind.tag ++ " is missing field `" ++ field ++ "`"
  | .illShaped kind field expected =>
    kind.tag ++ "." ++ field ++ " must be " ++ expected.label
  | .wrongSort mismatch => mismatch.message
  | .nameTwice kind name => kind.tag ++ " repeats name `" ++ name ++ "`"

/-- What is reported of an error, with the value in it. -/
def Error.message (e : Error) : String :=
  "Invalid JSON: " ++ e.fault.text ++ " in " ++ e.value.compact

/-- Why a text holds no tree. -/
inductive TextError where
  | notJson
  | invalid (error : Error)

/-- Why a value is not a node where one is needed. -/
inductive NodeError where
  /-- Null, which stands for a missing tree. -/
  | absent
  | invalid (error : Error)

/-- What is reported where there is no node. -/
def NodeError.message : NodeError → String
  | .absent => "Invalid JSON: expected a node, found null"
  | .invalid error => error.message

end TreeIR.Wire
