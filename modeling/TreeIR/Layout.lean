import TreeIR.Json.Basic
import TreeIR.Text.Lines

/-!
# Layout of the lowered text

What a caller may choose about the text is how far a body is shifted and what stands in front of
the outermost body. Neither has any effect on the lines themselves.
-/

namespace TreeIR

/-- One step of indentation. -/
inductive Indent where
  | spaces (width : Nat)
  | tabs
  deriving DecidableEq, Repr

namespace Indent

/-- What stands before a line that is shifted once. -/
def unit : Indent → String
  | .spaces width => String.ofList (List.replicate width ' ')
  | .tabs => "\t"

/-- Shifts a body by one step; empty lines stay empty. -/
def shift (i : Indent) (text : String) : String :=
  Text.shiftFilled i.unit text

/-- A body between braces, after a header. -/
def block (i : Indent) (header body : String) : String :=
  header ++ " \x7b\n" ++ i.shift body ++ "\n\x7d"

end Indent

/-- How a program is laid out. -/
structure Layout where
  indent : Indent := .spaces 2
  /-- The header of the outermost body. -/
  entryPoint : String := "int main()"
  deriving DecidableEq, Repr

namespace Layout

/-- The largest width of a step. -/
def maxWidth : Nat := Nat.pow 2 64 - 1

/-- The width of an indentation, which must be in range. -/
def width? : Json → Option Nat
  | .num (.int n) => if 0 ≤ n ∧ n ≤ maxWidth then some n.toNat else none
  | _ => none

/-- A step by name, or an object whose only member is the name with its width. -/
def indent? : Json → Option Indent
  | .str s => if s = "Tabs" then some .tabs else none
  | .obj [(name, v)] =>
    if name = "Tabs" then if v.isNull then some .tabs else none
    else if name = "Spaces" then (width? v).map .spaces
    else none
  | _ => none

/-- A choice that has the given value when it is left out. -/
def choice? {α : Type} (default : α) (read : Json → Option α) : Option Json → Option α
  | none => some default
  | some v => read v

/-- The two choices, each of which may be left out. -/
def ofChoices? (indent entryPoint : Option Json) : Option Layout :=
  let default : Layout := {}
  (choice? default.indent indent? indent).bind fun i =>
    (choice? default.entryPoint Json.str? entryPoint).map fun e => ⟨i, e⟩

/-- Reads the choices from an object by name, or from a list by position. -/
def ofJson? : Json → Option Layout
  | .obj members => ofChoices? (Table.get? "indent" members) (Table.get? "entry_point" members)
  | .arr [] => ofChoices? none none
  | .arr [indent] => ofChoices? (some indent) none
  | .arr [indent, entryPoint] => ofChoices? (some indent) (some entryPoint)
  | _ => none

def indentJson : Indent → Json
  | .spaces width => .obj [("Spaces", .num (.int width))]
  | .tabs => .str "Tabs"

def toJson (l : Layout) : Json :=
  .obj [("indent", indentJson l.indent), ("entry_point", .str l.entryPoint)]

end Layout

end TreeIR
