/-!
# Lines

Both texts this library writes, the diagnostic one and the lowered one, are nested by shifting
the lines of a body to the right. A text is cut at every newline, so a text with `n` newlines has
`n + 1` lines and the last one may be empty; one final newline ends a body without opening a line
of its own and is dropped before the cut.

The two shifts differ only on empty lines: the diagnostic text moves every line, the lowered text
leaves empty lines empty.
-/

namespace TreeIR.Text

/-- The pieces between newlines. -/
def lines : List Char → List (List Char)
  | [] => [[]]
  | c :: cs =>
    if c = '\n' then [] :: lines cs
    else
      match lines cs with
      | l :: ls => (c :: l) :: ls
      | [] => [[c]]

/-- Puts the pieces back together, with a newline between each two. -/
def unlines : List (List Char) → List Char
  | [] => []
  | [l] => l
  | l :: ls => l ++ '\n' :: unlines ls

/-- Drops one newline at the very end, if there is one. -/
def dropFinalNewline : List Char → List Char
  | [] => []
  | [c] => if c = '\n' then [] else [c]
  | c :: cs => c :: dropFinalNewline cs

/-- Changes each line of a text, and drops a final newline. -/
def mapLines (f : List Char → List Char) (text : String) : String :=
  String.ofList (unlines ((lines (dropFinalNewline text.toList)).map f))

/-- Shifts every line of a body by `unit`. -/
def shift (unit text : String) : String :=
  mapLines (unit.toList ++ ·) text

/-- Shifts the lines of a body that hold something by `unit`. -/
def shiftFilled (unit text : String) : String :=
  mapLines (fun l => if l.isEmpty then [] else unit.toList ++ l) text

theorem lines_ne_nil : ∀ cs : List Char, lines cs ≠ []
  | [] => by simp [lines]
  | c :: cs => by
    unfold lines
    split
    · simp
    · split <;> simp

theorem unlines_lines : ∀ cs : List Char, unlines (lines cs) = cs
  | [] => rfl
  | c :: cs => by
    have ih := unlines_lines cs
    have hne := lines_ne_nil cs
    unfold lines
    split
    · next h =>
      cases hl : lines cs with
      | nil => exact absurd hl hne
      | cons l ls =>
        rw [hl] at ih
        simp [unlines, h, ih]
    · cases hl : lines cs with
      | nil => exact absurd hl hne
      | cons l ls =>
        rw [hl] at ih
        cases ls with
        | nil => simp_all [unlines]
        | cons l' ls' => simp_all [unlines]

end TreeIR.Text
