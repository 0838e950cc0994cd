import TreeIR.Descriptor.Wire
import TreeIR.Lowering.Program
import TreeIR.Wire.Decode

/-!
# From JSON to target text

The whole way in one step: a tree and a descriptor come in as JSON, values or texts, and target
text comes out. The inputs are checked in the order tree, descriptor, lowering, and of two texts
both must be JSON before either is looked into. An error says which step failed, and keeps the
error of that step.
-/

namespace TreeIR.Compile

/-- Why no target text comes out, by the step that failed. -/
inductive Error where
  | treeNotJson
  | descriptorNotJson
  | invalidTree (error : Wire.Error)
  /-- The tree is null, which stands for none. -/
  | noTree
  | invalidDescriptor (error : Descriptor.Error)
  | notLowered (kind : Kind) (error : Lowering.Error)
  | notBundled (kind : Kind) (error : Lowering.Error)

/-- The step that failed. -/
def Error.message : Error → String
  | .treeNotJson => "IR tree is not valid JSON"
  | .descriptorNotJson => "Binding descriptor is not valid JSON"
  | .invalidTree _ => "Failed to decode IR tree"
  | .noTree => "IR tree is null"
  | .invalidDescriptor _ => "Failed to read binding descriptor"
  | .notLowered kind _ => "Failed to transpile " ++ kind.tag
  | .notBundled kind _ => "Failed to bundle " ++ kind.tag

/-- The step that failed and, if it has an error of its own, the message of that error. Where a
text is not JSON, what the parser has to say about it is left out: parsing gives a value or none. -/
def Error.chain (e : Error) : List String :=
  match e with
  | .treeNotJson | .descriptorNotJson | .noTree => [e.message]
  | .invalidTree error => [e.message, error.message]
  | .invalidDescriptor error => [e.message, error.message]
  | .notLowered _ error | .notBundled _ error => [e.message, error.message]

/-- Reads the tree, in which null stands for none. -/
def readTree (v : Json) : Except Error Node :=
  match Wire.decodePresent v with
  | .ok n => .ok n
  | .error .absent => .error .noTree
  | .error (.invalid e) => .error (.invalidTree e)

def readDescriptor (v : Json) : Except Error Descriptor :=
  (Descriptor.ofJson v).mapError .invalidDescriptor

/-- Lowers a tree without anything around it. -/
def lowerJson (tree descriptor : Json) : Except Error String := do
  let n ← readTree tree
  let d ← readDescriptor descriptor
  (lower d {} n).mapError (.notLowered n.kind)

/-- Makes a whole program of a tree. -/
def bundleJson (l : Layout) (tree descriptor : Json) : Except Error String := do
  let n ← readTree tree
  let d ← readDescriptor descriptor
  (bundle d l n).mapError (.notBundled n.kind)

/-- Makes a whole program of two texts. -/
def bundleText (tree descriptor : String) : Except Error String :=
  match Json.parse? tree, Json.parse? descriptor with
  | none, _ => .error .treeNotJson
  | some _, none => .error .descriptorNotJson
  | some t, some d => bundleJson {} t d

end TreeIR.Compile
