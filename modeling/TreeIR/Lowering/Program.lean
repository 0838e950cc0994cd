import TreeIR.Lowering.Basic

/-!
# Target programs

A tree can be lowered by itself or made a whole program. Either way the lowering starts from the
descriptor alone: nothing is kept between two of them.
-/

namespace TreeIR

open Lowering (Error Env)

/-- The target text of a tree. -/
def lower (d : Descriptor) (l : Layout) (n : Node) : Except Error String :=
  (n.lower l.indent (Env.start d)).1

/-- A whole program: the headers, the preamble, and the tree inside the entry point. -/
def bundle (d : Descriptor) (l : Layout) (n : Node) : Except Error String := do
  let body ← lower d l n
  return String.join (d.headers.map Target.includeHeader) ++ Target.endLine d.preamble ++
    l.indent.block l.entryPoint body ++ "\n"

end TreeIR
