import TreeIR.Proofs.LineLayout
import TreeIR.Target.Literal

/-!
# String literals say what was meant

A string of a program ends up between two quotes in the target text, and what
it means there is for the target language to say. `readLiteral` is that
language's side: a backslash starts an escape, an octal escape takes digits
greedily but no more than three, and the first quote that is not escaped ends
the literal. Reading a literal of the lowering gives the string back and stops
right behind it, whatever the string holds and whatever text follows.

Escapes stand next to characters that they must not take for their own, which
is where such an encoding goes wrong: a digit behind an octal escape, a letter
behind a backslash, a backslash in front of the closing quote. The proof needs
none of these cases, because `readBody_escapeChar` holds with anything behind
the escape. For the octal one that is so only because it always has all three
digits.

A literal is then carried through the shifts of the bodies around it. These
cut texts at newlines, and an escaped string has none.
-/

namespace TreeIR

namespace Target

/-- The character that an escape of one letter stands for. -/
def simpleEscape? (c : Char) : Option Char :=
  if c = '\\' then some '\\'
  else if c = '"' then some '"'
  else if c = 'n' then some '\n'
  else if c = 'r' then some '\r'
  else if c = 't' then some '\t'
  else none

/-- Is the character a digit of an octal escape? -/
def isOctalDigit (c : Char) : Bool :=
  '0'.toNat ≤ c.toNat && c.toNat ≤ '7'.toNat

/-- The digits of an octal escape: all that are there, up to three. -/
def octalDigits (cs : List Char) : List Char :=
  (cs.take 3).takeWhile isOctalDigit

/-- The number that octal digits stand for. -/
def octalValue (digits : List Char) : Nat :=
  digits.foldl (fun value d => 8 * value + (d.toNat - '0'.toNat)) 0

/-- Reads what stands behind a backslash. An octal escape from 128 on is a byte
and no character by itself, so none is read. -/
def readEscape (cs : List Char) : Option (Char × List Char) :=
  match cs.head?.bind simpleEscape? with
  | some c => some (c, cs.tail)
  | none =>
    let digits := octalDigits cs
    if digits = [] ∨ 128 ≤ octalValue digits then none
    else some (Char.ofNat (octalValue digits), cs.drop digits.length)

theorem length_readEscape_lt {cs rest : List Char} {c : Char}
    (h : readEscape cs = some (c, rest)) : rest.length < cs.length := by
  unfold readEscape at h
  split at h
  · next hc =>
      cases cs with
      | nil => cases hc
      | cons d cs =>
          cases h
          exact Nat.lt_succ_self cs.length
  · dsimp only at h
    split at h
    · cases h
    · next hdigits =>
        have hpos := List.length_pos_iff.mpr (not_or.mp hdigits).1
        have hle : (octalDigits cs).length ≤ cs.length :=
          Nat.le_trans (List.takeWhile_sublist _).length_le (List.length_take_le' 3 cs)
        cases h
        rw [List.length_drop]
        omega

/-- Reads a literal from behind its first quote on: the characters it stands
for and the text behind it. -/
def readBody (cs : List Char) : Option (List Char × List Char) :=
  match cs with
  | [] => none
  | c :: cs =>
    if c = '"' then some ([], cs)
    else if c = '\n' then none
    else if c = '\\' then
      match _h : readEscape cs with
      | none => none
      | some (c, rest) => (readBody rest).map fun r => (c :: r.1, r.2)
    else (readBody cs).map fun r => (c :: r.1, r.2)
termination_by cs.length
decreasing_by
  · have := length_readEscape_lt _h
    exact Nat.lt_succ_of_lt this
  · exact Nat.lt_succ_self _

/-- Reads a string literal at the front of a text. -/
def readLiteral (text : String) : Option (String × String) :=
  match text.toList with
  | [] => none
  | c :: cs =>
    if c = '"' then (readBody cs).map fun r => (String.ofList r.1, String.ofList r.2) else none

/-- A text between quotes. -/
def quote (value : String) : String :=
  "\"" ++ escape value ++ "\""

/-- Not a control character of ASCII. -/
def Visible (c : Char) : Prop :=
  0x20 ≤ c.toNat ∧ c.toNat ≠ 0x7f

instance (c : Char) : Decidable (Visible c) :=
  inferInstanceAs (Decidable (_ ∧ _))

theorem visible_iff {c : Char} : Visible c ↔ isAsciiControl c = false := by
  simp only [Visible, isAsciiControl, Bool.or_eq_false_iff, decide_eq_false_iff_not,
    beq_eq_false_iff_ne, Nat.not_lt]

/-- A character is written by a letter of its own, by three octal digits or as
it is. -/
theorem escapeChar_cases (c : Char) :
    (∃ letter, simpleEscape? letter = some c ∧ Visible letter ∧ escapeChar c = ['\\', letter]) ∨
    (c.toNat < 128 ∧ escapeChar c
      = ['\\', octalDigit (c.toNat / 64), octalDigit (c.toNat / 8), octalDigit c.toNat]) ∨
    (c ≠ '"' ∧ c ≠ '\\' ∧ Visible c ∧ escapeChar c = [c]) := by
  unfold escapeChar
  split
  · next h => exact .inl ⟨'\\', by rw [h]; rfl, by decide, rfl⟩
  split
  · next h => exact .inl ⟨'"', by rw [h]; rfl, by decide, rfl⟩
  split
  · next h => exact .inl ⟨'n', by rw [h]; rfl, by decide, rfl⟩
  split
  · next h => exact .inl ⟨'r', by rw [h]; rfl, by decide, rfl⟩
  split
  · next h => exact .inl ⟨'t', by rw [h]; rfl, by decide, rfl⟩
  split
  · next hcontrol =>
      refine .inr (.inl ⟨?_, rfl⟩)
      simp only [isAsciiControl, Bool.or_eq_true, decide_eq_true_eq, beq_iff_eq] at hcontrol
      omega
  · next hbackslash hquote _ _ _ hcontrol =>
      exact .inr (.inr ⟨hquote, hbackslash, visible_iff.mpr (Bool.eq_false_iff.mpr hcontrol), rfl⟩)

theorem octalDigit_facts (n : Nat) :
    isOctalDigit (octalDigit n) = true ∧ simpleEscape? (octalDigit n) = none ∧
      Visible (octalDigit n) ∧ (octalDigit n).toNat - '0'.toNat = n % 8 := by
  have hdigits : ∀ k < 8, isOctalDigit k.digitChar = true ∧ simpleEscape? k.digitChar = none ∧
      Visible k.digitChar ∧ k.digitChar.toNat - '0'.toNat = k := by decide
  exact hdigits (n % 8) (Nat.mod_lt n (by decide))

theorem visible_of_mem_escapeChar {c d : Char} (h : d ∈ escapeChar c) : Visible d := by
  have hbackslash : Visible '\\' := by decide
  rcases escapeChar_cases c with ⟨letter, -, hletter, hc⟩ | ⟨-, hc⟩ | ⟨-, -, hvisible, hc⟩
  · rw [hc] at h
    rcases List.mem_cons.mp h with rfl | h
    · exact hbackslash
    · exact List.mem_singleton.mp h ▸ hletter
  · have hdigit : ∀ n, Visible (octalDigit n) := fun n => (octalDigit_facts n).2.2.1
    rw [hc] at h
    simp only [List.mem_cons, List.not_mem_nil, or_false] at h
    rcases h with rfl | rfl | rfl | rfl
    · exact hbackslash
    · exact hdigit _
    · exact hdigit _
    · exact hdigit _
  · rw [hc] at h
    exact List.mem_singleton.mp h ▸ hvisible

theorem visible_of_mem_escape {s : String} {c : Char} (h : c ∈ (escape s).toList) :
    Visible c := by
  rw [escape, String.toList_ofList] at h
  obtain ⟨d, -, hd⟩ := List.mem_flatMap.mp h
  exact visible_of_mem_escapeChar hd

/-! ## Escapes are read back

One character at a time, with any text behind it: an escape must end by itself, whatever
digits or letters follow. -/

/-- Three digits are a whole escape, also in front of a fourth. -/
theorem readEscape_octal {n : Nat} (h : n < 128) (cs : List Char) :
    readEscape (octalDigit (n / 64) :: octalDigit (n / 8) :: octalDigit n :: cs)
      = some (Char.ofNat n, cs) := by
  obtain ⟨hfirst, hnone, -, hfirstValue⟩ := octalDigit_facts (n / 64)
  obtain ⟨hsecond, -, -, hsecondValue⟩ := octalDigit_facts (n / 8)
  obtain ⟨hthird, -, -, hthirdValue⟩ := octalDigit_facts n
  have hdigits : octalDigits (octalDigit (n / 64) :: octalDigit (n / 8) :: octalDigit n :: cs)
      = [octalDigit (n / 64), octalDigit (n / 8), octalDigit n] := by
    simp [octalDigits, hfirst, hsecond, hthird]
  have hvalue : octalValue [octalDigit (n / 64), octalDigit (n / 8), octalDigit n] = n := by
    simp only [octalValue, List.foldl_cons, List.foldl_nil, hfirstValue, hsecondValue,
      hthirdValue]
    omega
  have hsmall : ¬ ([octalDigit (n / 64), octalDigit (n / 8), octalDigit n] = [] ∨ 128 ≤ n) := by
    rintro (hnil | hle)
    · cases hnil
    · omega
  simp only [readEscape, List.head?_cons, Option.bind_some, hnone, hdigits, hvalue,
    if_neg hsmall]
  rfl

theorem readBody_backslash {cs rest : List Char} {c : Char}
    (h : readEscape cs = some (c, rest)) :
    readBody ('\\' :: cs) = (readBody rest).map fun r => (c :: r.1, r.2) := by
  rw [readBody, if_neg (by decide), if_neg (by decide), if_pos rfl]
  split
  · next hnone => cases h.symm.trans hnone
  · next hsome =>
      cases h.symm.trans hsome
      rfl

/-- An escaped character is read as that character, whatever stands behind it. -/
theorem readBody_escapeChar (c : Char) (cs : List Char) :
    readBody (escapeChar c ++ cs) = (readBody cs).map fun r => (c :: r.1, r.2) := by
  rcases escapeChar_cases c with ⟨letter, hletter, -, hc⟩ | ⟨hsmall, hc⟩ |
    ⟨hquote, hbackslash, hvisible, hc⟩
  · rw [hc]
    refine readBody_backslash ?_
    simp [readEscape, hletter]
  · have hoctal := readBody_backslash (readEscape_octal hsmall cs)
    rw [Char.ofNat_toNat] at hoctal
    rw [hc]
    exact hoctal
  · have hnewline : c ≠ '\n' := by
      rintro rfl
      exact absurd hvisible (by decide)
    rw [hc, List.singleton_append, readBody, if_neg hquote, if_neg hnewline, if_neg hbackslash]

theorem readBody_flatMap_escapeChar (value rest : List Char) :
    readBody (value.flatMap escapeChar ++ '"' :: rest) = some (value, rest) := by
  induction value with
  | nil => simp [readBody]
  | cons c value ih =>
      rw [List.flatMap_cons, List.append_assoc, readBody_escapeChar, ih]
      rfl

theorem readLiteral_quote (s t : String) : readLiteral (quote s ++ t) = some (s, t) := by
  have htext : (quote s ++ t).toList = '"' :: (s.toList.flatMap escapeChar ++ '"' :: t.toList) := by
    simp [quote, escape]
  rw [readLiteral, htext]
  simp only [if_pos, readBody_flatMap_escapeChar, Option.map_some, String.ofList_toList]

end Target

/-! ## Literals in bodies

A shift puts margins in front of lines. A piece of text without a newline lies
within one line, and the line is not empty for its sake, so what the shift does
on the left and on the right of it is the same for all such pieces. -/

namespace Text

theorem unlines_append_append_cons (ls ls' : List (List Char)) (l l' : List Char) :
    unlines (ls ++ (l ++ l') :: ls') = unlines (ls ++ [l]) ++ unlines (l' :: ls') := by
  induction ls with
  | nil => exact unlines_append_cons l l' ls'
  | cons m ls ih =>
      rw [List.cons_append, List.cons_append, unlines_cons m (by simp), unlines_cons m (by simp),
        ih, List.append_assoc]
      rfl

theorem dropFinalNewline_append_cons {c : Char} (hc : c ≠ '\n') (cs cs' : List Char) :
    dropFinalNewline (cs ++ c :: cs') = cs ++ c :: dropFinalNewline cs' := by
  induction cs with
  | nil =>
      cases cs' with
      | nil => exact if_neg hc
      | cons d cs' => rfl
  | cons d cs ih =>
      rw [List.cons_append, dropFinalNewline, ih]
      · rfl
      · simp

theorem dropFinalNewline_append_piece {piece : List Char} (hne : piece ≠ [])
    (hline : '\n' ∉ piece) (cs cs' : List Char) :
    dropFinalNewline (cs ++ piece ++ cs') = cs ++ piece ++ dropFinalNewline cs' := by
  obtain ⟨init, last, rfl⟩ := (List.eq_nil_or_concat piece).resolve_left hne
  have hlast : last ≠ '\n' := fun h => hline (by simp [h])
  have hsplit : ∀ rest : List Char, cs ++ init.concat last ++ rest
      = cs ++ init ++ last :: rest := by simp
  rw [hsplit, hsplit, dropFinalNewline_append_cons hlast]

theorem exists_shiftFilled_around (unit before after : String) :
    ∃ before' after' : String, ∀ piece : String, piece.toList ≠ [] → '\n' ∉ piece.toList →
      shiftFilled unit (before ++ piece ++ after) = before' ++ piece ++ after' := by
  obtain ⟨first, rest, hafter⟩ :=
    List.exists_cons_of_ne_nil (lines_ne_nil (dropFinalNewline after.toList))
  let margin := fun l : List Char => if l.isEmpty then [] else unit.toList ++ l
  let init := (lines before.toList).dropLast
  let last := (lines before.toList).getLastD []
  refine ⟨.ofList (unlines (init.map margin ++ [unit.toList ++ last])),
    .ofList (unlines (first :: rest.map margin)), fun piece hne hline => ?_⟩
  -- the piece lies between what is left of its line before it and behind it
  have hlines : lines (before.toList ++ piece.toList ++ dropFinalNewline after.toList)
      = init ++ (last ++ piece.toList ++ first) :: rest := by
    rw [List.append_assoc, lines_append before.toList, lines_append piece.toList,
      lines_of_not_mem hline, hafter]
    simp [init, last]
  have hmargin : margin (last ++ piece.toList ++ first)
      = unit.toList ++ last ++ (piece.toList ++ first) := by
    simp [margin, hne]
  rw [shiftFilled, mapLines, String.toList_append, String.toList_append,
    dropFinalNewline_append_piece hne hline, hlines]
  show String.ofList (unlines ((init ++ _ :: rest).map margin)) = _
  rw [List.map_append, List.map_cons, hmargin, unlines_append_append_cons, unlines_append_cons]
  simp [String.ofList_append, String.append_assoc]

end Text

namespace Target

theorem newline_not_mem_quote (s : String) : '\n' ∉ (quote s).toList := by
  have hescape : '\n' ∉ (escape s).toList := fun h =>
    absurd (visible_of_mem_escape h) (by decide)
  simp [quote, hescape]

/-- A literal comes through any number of shifts. -/
theorem exists_shifts_around_quote (i : Indent) (depth : Nat) (before after : String) :
    ∃ before' after' : String, ∀ s,
      Nat.repeat i.shift depth (before ++ quote s ++ after) = before' ++ quote s ++ after' := by
  induction depth with
  | zero => exact ⟨before, after, fun _ => rfl⟩
  | succ depth ih =>
      obtain ⟨before', after', h⟩ := ih
      obtain ⟨before'', after'', h'⟩ := Text.exists_shiftFilled_around i.unit before' after'
      refine ⟨before'', after'', fun s => ?_⟩
      rw [Nat.repeat, h]
      exact h' (quote s) (by simp [quote]) (newline_not_mem_quote s)

/-- A string literal is read back as the string it was made of, up to the text
behind it and no further. It holds no control character, and so the shifts of
the bodies it stands in leave it as it is and do not depend on what it says. -/
theorem quote_reads_back :
    (∀ s t : String, readLiteral ("\"" ++ escape s ++ "\"" ++ t) = some (s, t)) ∧
    (∀ s : String, ∀ c ∈ (escape s).toList, 0x20 ≤ c.toNat ∧ c.toNat ≠ 0x7f) ∧
    ∀ (i : Indent) (depth : Nat) (before after : String), ∃ before' after' : String, ∀ s,
      Nat.repeat i.shift depth (before ++ ("\"" ++ escape s ++ "\"") ++ after)
        = before' ++ ("\"" ++ escape s ++ "\"") ++ after' :=
  ⟨readLiteral_quote, fun _ _ => visible_of_mem_escape, exists_shifts_around_quote⟩

/-- A digit behind an octal escape, a letter behind a backslash, and a backslash
in front of the closing quote, with a quote to follow. -/
theorem quote_reads_back_adjacent :
    let s := "\x017\\n\"\\"
    escape s = "\\0017\\\\n\\\"\\\\" ∧
      readLiteral ("\"" ++ escape s ++ "\"" ++ "\"7") = some (s, "\"7") ∧
      '7' ∈ (escape s).toList ∧ 0x20 ≤ '7'.toNat ∧ '7'.toNat ≠ 0x7f := by
  intro s
  have hescape : escape s = "\\0017\\\\n\\\"\\\\" := by decide
  have hmem : '7' ∈ (escape s).toList := by
    rw [hescape]
    decide
  exact ⟨hescape, quote_reads_back.1 s "\"7", hmem, quote_reads_back.2.1 s '7' hmem⟩

-- A greedy reader takes the digit behind a shorter escape for a part of it.
example : readLiteral "\"\\17\"" = some ("\x0f", "") := by cbv

end Target

end TreeIR
