import TreeIR.Json.Basic

/-!
# Binding descriptors

A descriptor says what the target side offers to a program: the parameters of each generic type,
what it takes to make a value of each type, the parameters of each function, all in declared
order; then the headers to include and a text that stands in front of the program.

The tables keep the order in which names were first set. Headers form a set in that same order.
-/

namespace TreeIR

/-- Lists of names, by name. -/
abbrev NameTable := Table (List String)

/-- What is known of the target before a program is looked at: the parameters that it declares
under each name, and what is put in front of a program. -/
structure Descriptor where
  /-- The parameters of each generic type. -/
  typeParams : NameTable := []
  /-- The parameters that make a value of each type. -/
  initParams : NameTable := []
  /-- The parameters of each function. -/
  funcParams : NameTable := []
  headers : List String := []
  /-- The text in front of a program. -/
  preamble : String := ""
  deriving DecidableEq, Repr

namespace Descriptor

def empty : Descriptor := {}

/-- Declares the parameters of a generic type, in place of any that it had. -/
def withTypeParams (name : String) (params : List String) (d : Descriptor) : Descriptor :=
  { d with typeParams := Table.insert name params d.typeParams }

/-- Declares the parameters that make a value of a type, in place of any that it had. -/
def withInitParams (name : String) (params : List String) (d : Descriptor) : Descriptor :=
  { d with initParams := Table.insert name params d.initParams }

/-- Declares the parameters of a function, in place of any that it had. -/
def withFuncParams (name : String) (params : List String) (d : Descriptor) : Descriptor :=
  { d with funcParams := Table.insert name params d.funcParams }

/-- Adds to a list in which each text stands once. -/
def addOnce (s : String) (ss : List String) : List String :=
  if s ∈ ss then ss else ss ++ [s]

/-- Keeps the first of equal texts. -/
def onceEach (ss : List String) : List String :=
  ss.foldl (fun seen s => addOnce s seen) []

/-- Adds a header, unless it is there already. -/
def withHeader (header : String) (d : Descriptor) : Descriptor :=
  { d with headers := addOnce header d.headers }

/-- Puts a text in front of a program, in place of the one before. -/
def withPreamble (text : String) (d : Descriptor) : Descriptor :=
  { d with preamble := text }

def typeParamsOf (name : String) (d : Descriptor) : Option (List String) :=
  Table.get? name d.typeParams

def initParamsOf (name : String) (d : Descriptor) : Option (List String) :=
  Table.get? name d.initParams

def funcParamsOf (name : String) (d : Descriptor) : Option (List String) :=
  Table.get? name d.funcParams

/-- No table has a name twice and no header stands twice. -/
structure WellFormed (d : Descriptor) : Prop where
  typeParams : Table.Distinct d.typeParams
  initParams : Table.Distinct d.initParams
  funcParams : Table.Distinct d.funcParams
  headers : d.headers.Nodup

end Descriptor

end TreeIR
