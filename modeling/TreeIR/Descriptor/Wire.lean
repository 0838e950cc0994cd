import TreeIR.Descriptor.Basic
import TreeIR.Json.Parser
import TreeIR.Text.Quoted

/-!
# Reading and writing descriptors

A descriptor is an object with five members, all of which must be there; null counts as absent,
other members are passed over. They are read in a fixed order, each one to its first fault: a
container is looked at before what is in it, and its items in document order.
-/

namespace TreeIR.Descriptor

/-- The members of a descriptor, in the order in which they are read and written. -/
inductive Field where
  | typeParams
  | initParams
  | funcParams
  | headers
  | preamble
  deriving DecidableEq, Repr

/-- The name of a member in a document. -/
def Field.key : Field → String
  | .typeParams => "typevarNames"
  | .initParams => "createArgNames"
  | .funcParams => "argNames"
  | .headers => "includes"
  | .preamble => "lib"

/-- What a member is made of. -/
inductive Shape where
  | table
  | list
  | text
  deriving DecidableEq, Repr

/-- How a message names what is wanted. -/
def Shape.label : Shape → String
  | .table => "a map"
  | .list => "a sequence"
  | .text => "a string"

/-- A value that is not of the shape that its place asks for. -/
structure Unexpected where
  found : Json
  wanted : Shape

/-- How a message names a value. -/
def describe : Json → String
  | .null => "null"
  | .bool b => "boolean `" ++ (if b then "true" else "false") ++ "`"
  | .num (.int n) => "integer `" ++ (Number.int n).text ++ "`"
  | .num (.float s x) => "floating point `" ++ (Number.float s x).text ++ "`"
  | .str s => "string " ++ Text.quoted s
  | .arr _ => "sequence"
  | .obj _ => "map"

/-- What was found and what was wanted in its place. -/
def Unexpected.message (u : Unexpected) : String :=
  "invalid type: " ++ describe u.found ++ ", expected " ++ u.wanted.label

/-- Why a value is no descriptor. -/
inductive Error where
  | notObject
  | missing (field : Field)
  | malformed (field : Field) (unexpected : Unexpected)

/-- The member at fault, or the whole descriptor. -/
def Error.place : Error → String
  | .notObject => "descriptor"
  | .missing field => field.key
  | .malformed field _ => field.key

/-- What is reported: the member at fault, and if it is there, what is wrong with it. -/
def Error.message : Error → String
  | .notObject => "Malformed descriptor argument: expected an object"
  | .missing field => "No " ++ field.key ++ " argument"
  | .malformed field u => "Malformed " ++ field.key ++ " argument: " ++ u.message

/-- Why a text holds no descriptor. -/
inductive TextError where
  | notJson
  | invalid (error : Error)

def readText : Json → Except Unexpected String
  | .str s => .ok s
  | v => .error ⟨v, .text⟩

/-- Reads a list of texts, to the first item that is none. -/
def readList : Json → Except Unexpected (List String)
  | .arr items => items.mapM readText
  | v => .error ⟨v, .list⟩

/-- Reads a table of lists, to the first list at fault. Of two lists under one name the later one
counts. -/
def readTable : Json → Except Unexpected NameTable
  | .obj members => do
    let settings ← members.mapM fun (name, v) => (readList v).map (name, ·)
    return Table.ofList settings
  | v => .error ⟨v, .table⟩

/-- Reads a member of a descriptor. -/
def readField {α : Type} (v : Json) (field : Field) (read : Json → Except Unexpected α) :
    Except Error α :=
  match v.getFilled? field.key with
  | none => .error (.missing field)
  | some w => (read w).mapError (.malformed field)

/-- Reads a descriptor, to the first member at fault. -/
def ofJson (v : Json) : Except Error Descriptor :=
  match v with
  | .obj _ => do
    let typeParams ← readField v .typeParams readTable
    let initParams ← readField v .initParams readTable
    let funcParams ← readField v .funcParams readTable
    let headers ← readField v .headers readList
    let preamble ← readField v .preamble readText
    return ⟨typeParams, initParams, funcParams, onceEach headers, preamble⟩
  | _ => .error .notObject

/-- Reads a descriptor from the text of a document. -/
def ofText (text : String) : Except TextError Descriptor :=
  match Json.parse? text with
  | some v => (ofJson v).mapError .invalid
  | none => .error .notJson

def listJson (names : List String) : Json :=
  .arr (names.map .str)

def tableJson (t : NameTable) : Json :=
  .obj (t.map fun (name, names) => (name, listJson names))

def toJson (d : Descriptor) : Json :=
  .obj
    [(Field.typeParams.key, tableJson d.typeParams),
      (Field.initParams.key, tableJson d.initParams),
      (Field.funcParams.key, tableJson d.funcParams),
      (Field.headers.key, listJson d.headers),
      (Field.preamble.key, .str d.preamble)]

end TreeIR.Descriptor
