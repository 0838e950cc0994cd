import TreeIR.Proofs.ByName
import TreeIR.Proofs.LineLayout
import TreeIR.Proofs.Subtree

/-!
# Every bracket is closed

The lowered text is put together from some twenty templates, and most of them
open a bracket in front of a part and close it behind. A template that forgets
one, or closes them in the wrong order, spoils every program it occurs in, and
so does a string that is not kept inside its quotes. `Scan` reads a text the
way a compiler would before it knows anything else about it: outside of string
literals brackets nest, inside of them only the backslash and the quote count.
This file proves that the text of a tree passes, whatever its strings hold.

A part is written with brackets already open around it, so the fact that is
carried through the lowering is `Neutral`: whichever brackets are open, a text
leaves just these open. The shift of a body is the one step that is not
concatenation, since it inserts margins into a text that is already written.
It is harmless for a reason of its own: a margin follows a newline, and after
a newline no backslash is pending, so blanks there change nothing, not even
inside a literal.
-/

namespace TreeIR

/-- What a scan is in the middle of. -/
inductive Scan.Mode where
  | code
  | literal
  /-- Behind a backslash in a literal. -/
  | escape
  deriving DecidableEq, Repr

/-- A place in a text that is scanned from left to right. -/
structure Scan where
  mode : Scan.Mode
  /-- The closing brackets that are to come, innermost first. -/
  awaited : List Char
  deriving DecidableEq, Repr

namespace Scan

/-- The bracket that closes this one. -/
def closing? (c : Char) : Option Char :=
  if c = '(' then some ')'
  else if c = '[' then some ']'
  else if c = '\x7b' then some '\x7d'
  else none

/-- Does the character close a bracket? -/
def isClosing (c : Char) : Bool :=
  c = ')' || c = ']' || c = '\x7d'

/-- A bracket that closes must be the one that is awaited. -/
def close (c : Char) : List Char → Option Scan
  | [] => none
  | a :: rest => if c = a then some ⟨.code, rest⟩ else none

/-- Reads one more character. There is no scan behind a bracket that closes what is
not open. -/
def step (s : Scan) (c : Char) : Option Scan :=
  match s.mode with
  | .code =>
    if c = '"' then some { s with mode := .literal }
    else
      match closing? c with
      | some c' => some { s with awaited := c' :: s.awaited }
      | none => if isClosing c then close c s.awaited else some s
  | .literal =>
    if c = '"' then some { s with mode := .code }
    else if c = '\\' then some { s with mode := .escape }
    else some s
  | .escape => some { s with mode := .literal }

/-- Reads characters, from the first to the last. -/
def run (s : Scan) (cs : List Char) : Option Scan :=
  cs.foldlM step s

/-- Outside of literals, with no bracket open. -/
def start : Scan := ⟨.code, []⟩

end Scan

/-- All literals and all brackets are closed, and brackets nest. -/
def Balanced (text : String) : Prop :=
  Scan.start.run text.toList = some Scan.start

instance (text : String) : Decidable (Balanced text) :=
  inferInstanceAs (Decidable (_ = _))

namespace Scan

variable {s s' : Scan} {c : Char} {cs awaited : List Char}

theorem run_cons : s.run (c :: cs) = (s.step c).bind (·.run cs) := rfl

theorem run_append (cs' : List Char) : s.run (cs ++ cs') = (s.run cs).bind (·.run cs') :=
  List.foldlM_append

/-! ## Margins

A blank is skipped unless a backslash is in front of it, and a newline leaves
no backslash pending. -/

theorem step_blank (hs : s.mode ≠ .escape) (hc : c = ' ' ∨ c = '\t') : s.step c = some s := by
  obtain ⟨mode, awaited⟩ := s
  cases mode with
  | code => rcases hc with rfl | rfl <;> rfl
  | literal => rcases hc with rfl | rfl <;> rfl
  | escape => exact absurd rfl hs

theorem run_blanks (hs : s.mode ≠ .escape) (h : ∀ c ∈ cs, c = ' ' ∨ c = '\t') :
    s.run cs = some s := by
  induction cs with
  | nil => rfl
  | cons c cs ih =>
      obtain ⟨hc, hcs⟩ := List.forall_mem_cons.mp h
      rw [run_cons, step_blank hs hc]
      exact ih hcs

theorem mode_of_newline (h : s.step '\n' = some s') : s'.mode ≠ .escape := by
  obtain ⟨mode, awaited⟩ := s
  cases mode with
  | code => cases h; simp
  | literal => cases h; simp
  | escape => cases h; simp

theorem eq_of_newline (h : s.step '\n' = some ⟨.code, awaited⟩) : s = ⟨.code, awaited⟩ := by
  obtain ⟨mode, _⟩ := s
  cases mode with
  | code => cases h; rfl
  | literal => cases h
  | escape => cases h

theorem run_dropFinalNewline (h : s.run cs = some ⟨.code, awaited⟩) :
    s.run (Text.dropFinalNewline cs) = some ⟨.code, awaited⟩ := by
  fun_induction Text.dropFinalNewline cs generalizing s with
  | case1 => exact h
  | case2 =>
      rw [run_cons, Option.bind_eq_some_iff] at h
      obtain ⟨s', hstep, hend⟩ := h
      cases hend
      rw [eq_of_newline hstep]
      rfl
  | case3 c hc => exact h
  | case4 c cs hcs ih =>
      rw [run_cons, Option.bind_eq_some_iff] at h
      obtain ⟨s', hstep, hrest⟩ := h
      rw [run_cons, hstep]
      exact ih hrest

/-- Margins are not seen by a scan. -/
theorem run_unlines_shift {margin : List Char} (hmargin : ∀ c ∈ margin, c = ' ' ∨ c = '\t')
    (ls : List (List Char)) (hs : s.mode ≠ .escape) :
    s.run (Text.unlines (ls.map fun l => if l.isEmpty then [] else margin ++ l))
      = s.run (Text.unlines ls) := by
  have hline : ∀ (l : List Char) {s : Scan}, s.mode ≠ .escape →
      s.run (if l.isEmpty then [] else margin ++ l) = s.run l := by
    intro l s hs
    cases l with
    | nil => rfl
    | cons c l =>
        show s.run (margin ++ c :: l) = s.run (c :: l)
        rw [run_append, run_blanks hs hmargin]
        rfl
  induction ls generalizing s with
  | nil => rfl
  | cons l ls ih =>
      cases ls with
      | nil => exact hline l hs
      | cons m ms =>
          have hne := List.cons_ne_nil m ms
          rw [Text.unlines_map_cons _ l hne, Text.unlines_cons l hne, run_append, run_append,
            hline l hs]
          cases s.run l with
          | none => rfl
          | some s₁ =>
              show s₁.run ('\n' :: _) = s₁.run ('\n' :: _)
              rw [run_cons, run_cons]
              cases hnewline : s₁.step '\n' with
              | none => rfl
              | some s₂ => exact ih (mode_of_newline hnewline)

theorem step_literal (hquote : c ≠ '"') (hbackslash : c ≠ '\\') :
    step ⟨.literal, awaited⟩ c = some ⟨.literal, awaited⟩ := by
  simp only [step, if_neg hquote, if_neg hbackslash]

theorem octalDigit_ne (n : Nat) :
    Target.octalDigit n ≠ '"' ∧ Target.octalDigit n ≠ '\\' := by
  have hdigits : ∀ k < 8, k.digitChar ≠ '"' ∧ k.digitChar ≠ '\\' := by decide
  exact hdigits (n % 8) (Nat.mod_lt n (by decide))

/-- An escaped character does not end the literal it stands in. -/
theorem run_escapeChar (c : Char) :
    run ⟨.literal, awaited⟩ (Target.escapeChar c) = some ⟨.literal, awaited⟩ := by
  have hdigit : ∀ n, step ⟨.literal, awaited⟩ (Target.octalDigit n)
      = some ⟨.literal, awaited⟩ := fun n =>
    step_literal (octalDigit_ne n).1 (octalDigit_ne n).2
  unfold Target.escapeChar
  split_ifs with hbackslash hquote hnewline hreturn htab hcontrol
  · rfl
  · rfl
  · rfl
  · rfl
  · rfl
  · -- the backslash takes the first digit with it, the other two stand in the literal
    show (step ⟨.literal, awaited⟩ _).bind _ = _
    rw [hdigit]
    show (step ⟨.literal, awaited⟩ _).bind _ = _
    rw [hdigit]
    rfl
  · rw [run_cons, step_literal hquote hbackslash]
    rfl

theorem run_escape (value : String) :
    run ⟨.literal, awaited⟩ (Target.escape value).toList = some ⟨.literal, awaited⟩ := by
  rw [Target.escape, String.toList_ofList]
  induction value.toList with
  | nil => rfl
  | cons c cs ih =>
      rw [List.flatMap_cons, run_append, run_escapeChar]
      exact ih

end Scan

/-! ## Neutral texts

What a construct does to the open brackets is said for any brackets around it, so that
texts can be put together. Almost all of them leave the brackets as they are. -/

/-- Wherever the brackets `before` are the innermost ones awaited, `text` has
`after` awaited in their place. -/
def Moves (text : String) (before after : List Char) : Prop :=
  ∀ outer, Scan.run ⟨.code, before ++ outer⟩ text.toList = some ⟨.code, after ++ outer⟩

/-- The text leaves the open brackets as they are. -/
def Neutral (text : String) : Prop :=
  Moves text [] []

/-- A name or number that says nothing to a scan. -/
def Unmarked (word : String) : Prop :=
  ∀ c ∈ word.toList, c ∉ ['(', ')', '[', ']', '\x7b', '\x7d', '"', '\\']

theorem Moves.append {text text' : String} {a b c : List Char} (h : Moves text a b)
    (h' : Moves text' b c) : Moves (text ++ text') a c := by
  intro outer
  rw [String.toList_append, Scan.run_append, h outer]
  exact h' outer

namespace Neutral

variable {text text' : String}

theorem balanced (h : Neutral text) : Balanced text :=
  h []

theorem append (h : Neutral text) (h' : Neutral text') : Neutral (text ++ text') :=
  Moves.append h h'

/-- A neutral text may stand inside of brackets. -/
theorem inside (h : Neutral text) (awaited : List Char) : Moves text awaited awaited :=
  fun outer => h (awaited ++ outer)

/-- A neutral text between two that open and close the same brackets. -/
theorem between {before after : String} (awaited : List Char) (hbefore : Moves before [] awaited)
    (h : Neutral text) (hafter : Moves after awaited []) : Neutral (before ++ text ++ after) :=
  (hbefore.append (h.inside awaited)).append hafter

theorem append_between {before after : String} (awaited : List Char) (h : Neutral text)
    (hbefore : Moves before [] awaited) (h' : Neutral text') (hafter : Moves after awaited []) :
    Neutral (text ++ before ++ text' ++ after) :=
  ((Moves.append h hbefore).append (h'.inside awaited)).append hafter

theorem of_unmarked (h : Unmarked text) : Neutral text := by
  intro outer
  have hstep : ∀ c ∈ text.toList, Scan.step ⟨.code, outer⟩ c = some ⟨.code, outer⟩ := by
    intro c hc
    have hmarks := h c hc
    simp only [List.mem_cons, List.not_mem_nil, or_false, not_or] at hmarks
    simp [Scan.step, Scan.closing?, Scan.isClosing, hmarks]
  generalize text.toList = cs at hstep
  induction cs with
  | nil => rfl
  | cons c cs ih =>
      obtain ⟨hc, hcs⟩ := List.forall_mem_cons.mp hstep
      show (Scan.step ⟨.code, outer⟩ c).bind _ = _
      rw [hc]
      exact ih hcs

theorem stringLiteral (value : String) : Neutral (Target.stringLiteral value) := by
  intro outer
  have hopen : Scan.run ⟨.code, [] ++ outer⟩ "String(\"".toList
      = some ⟨.literal, ')' :: outer⟩ := rfl
  have hclose : Scan.run ⟨.literal, ')' :: outer⟩ "\")".toList = some ⟨.code, outer⟩ := rfl
  rw [Target.stringLiteral, String.toList_append, String.toList_append, Scan.run_append,
    Scan.run_append, hopen, Option.bind_some, Scan.run_escape, Option.bind_some]
  exact hclose

theorem shift (i : Indent) (h : Neutral text) : Neutral (i.shift text) := by
  intro outer
  have hmargin : ∀ c ∈ i.unit.toList, c = ' ' ∨ c = '\t' := by
    cases i with
    | spaces width =>
        intro c hc
        rw [Indent.unit, String.toList_ofList] at hc
        exact .inl (List.eq_of_mem_replicate hc)
    | tabs => exact List.forall_mem_singleton.mpr (.inr rfl)
  rw [Indent.shift, Text.shiftFilled, Text.mapLines, String.toList_ofList,
    Scan.run_unlines_shift hmargin _ (by simp), Text.unlines_lines]
  exact Scan.run_dropFinalNewline (h outer)

theorem block (i : Indent) {header body : String} (hheader : Neutral header)
    (hbody : Neutral body) : Neutral (i.block header body) :=
  hheader.append_between ['\x7d'] (fun _ => rfl) (hbody.shift i) fun _ => rfl

theorem join {texts : List String} (h : ∀ t ∈ texts, Neutral t) : Neutral (String.join texts) := by
  induction texts with
  | nil => exact fun _ => rfl
  | cons t ts ih =>
      obtain ⟨ht, hts⟩ := List.forall_mem_cons.mp h
      rw [String.join_cons]
      exact ht.append (ih hts)

theorem commas {texts : List String} (h : ∀ t ∈ texts, Neutral t) :
    Neutral (Target.commas texts) := by
  have hcomma : Neutral ", " := fun _ => rfl
  induction texts with
  | nil => exact fun _ => rfl
  | cons t ts ih =>
      obtain ⟨ht, hts⟩ := List.forall_mem_cons.mp h
      cases ts with
      | nil => exact ht
      | cons u us =>
          have hrest := ih hts
          rw [Target.commas, String.intercalate_cons_cons]
          exact (ht.append hcomma).append hrest

/-! ## Forms

What a form opens in front of a part it closes behind it. -/

variable {name value body result : String} {names params : List String}

theorem numLiteral (h : Neutral text) (isFloat : Bool) :
    Neutral (Target.numLiteral text isFloat) := by
  cases isFloat with
  | true => exact between [')'] (fun _ => rfl) h fun _ => rfl
  | false => exact between [')'] (fun _ => rfl) h fun _ => rfl

theorem closure (hparams : ∀ p ∈ params, Neutral p) (hresult : Neutral result) :
    Neutral (Target.closure params result) := by
  have hclosed : Neutral ("[&](" ++ Target.commas params ++ ") -> ") :=
    between [')'] (fun _ => rfl) (commas hparams) fun _ => rfl
  exact hclosed.append hresult

theorem initialise (hhead : Neutral text) (hargs : Neutral value) :
    Neutral (Target.initialise text value) :=
  hhead.append_between ['\x7d'] (fun _ => rfl) hargs fun _ => rfl

theorem apply (hcallee : Neutral name) (hargs : Neutral value) :
    Neutral (Target.apply name value) :=
  hcallee.append_between [')'] (fun _ => rfl) hargs fun _ => rfl

theorem direct (h : Neutral text) : Neutral (Target.direct text) :=
  between [')'] (fun _ => rfl) h fun _ => rfl

theorem reference (place : Nat) : Neutral (Target.reference place) := by
  have hdigits : Unmarked (toString place) := by
    intro c hc
    have hdigit : c.isDigit = true := by
      rw [Nat.toString_eq_repr, Nat.toList_repr] at hc
      exact Nat.isDigit_of_mem_toDigits (by decide) (by decide) hc
    simp only [List.mem_cons, List.not_mem_nil, or_false, not_or]
    refine ⟨?_, ?_, ?_, ?_, ?_, ?_, ?_, ?_⟩ <;> rintro rfl <;> simp at hdigit
  exact append (fun _ => rfl) (of_unmarked hdigits)

theorem binding (place : Nat) (h : Neutral value) : Neutral (Target.binding place value) := by
  have hname : Neutral ("auto &&" ++ Target.reference place ++ " = ") :=
    between [] (fun _ => rfl) (reference place) fun _ => rfl
  exact (hname.append h).append fun _ => rfl

theorem bound (i : Indent) (hbindings : Neutral text) (happlication : Neutral value) :
    Neutral (Target.bound i text value) := by
  have hbody : Neutral (text ++ "return " ++ value ++ ";\n") :=
    hbindings.append_between [] (fun _ => rfl) happlication fun _ => rfl
  exact between [')'] (fun _ => rfl) (block i (fun _ => rfl) hbody) fun _ => rfl

theorem declare (hname : Neutral name) (hvalue : Neutral value) :
    Neutral (Target.declare name value) := by
  have hhead : Neutral ("auto " ++ name ++ " = ") :=
    between [] (fun _ => rfl) hname fun _ => rfl
  exact (hhead.append hvalue).append fun _ => rfl

theorem update (hname : Neutral name) (hvalue : Neutral value) :
    Neutral (Target.update name value) :=
  hname.append_between [] (fun _ => rfl) hvalue fun _ => rfl

theorem fixed (hname : Neutral name) : Neutral (Target.fixed name) :=
  append (fun _ => rfl) hname

theorem wrapper (i : Indent) (hname : Neutral name) (hnames : ∀ n ∈ names, Neutral n)
    (hparams : ∀ p ∈ params, Neutral p) (hresult : Neutral result) :
    Neutral (Target.wrapper i name names params result) := by
  have hpassed : ∀ n ∈ names ++ [Target.fixed name], Neutral n :=
    List.forall_mem_append.mpr ⟨hnames, List.forall_mem_singleton.mpr hname.fixed⟩
  refine block i (closure hparams hresult) ?_
  exact between [] (fun _ => rfl) (hname.fixed.apply (commas hpassed)) fun _ => rfl

theorem define (i : Indent) (hname : Neutral name) (hnames : ∀ n ∈ names, Neutral n)
    (hparams : ∀ p ∈ params, Neutral p) (hresult : Neutral result) (hbody : Neutral body) :
    Neutral (Target.define i name names params result body) := by
  have hself : Neutral ("auto " ++ Target.fixed name) := append (fun _ => rfl) hname.fixed
  have hheader : Neutral (Target.closure (params ++ ["auto " ++ Target.fixed name]) result) :=
    closure (List.forall_mem_append.mpr ⟨hparams, List.forall_mem_singleton.mpr hself⟩) hresult
  have hwrapper := hname.declare (wrapper i hname hnames hparams hresult)
  exact (hname.fixed.declare (block i hheader (hwrapper.append hbody))).append hwrapper

theorem eval (h : Neutral value) : Neutral (Target.eval value) :=
  h.append fun _ => rfl

theorem loopBody (h : Neutral body) : Neutral (Target.loopBody body) :=
  h.append fun _ => rfl

theorem forEach (i : Indent) (hitem : Neutral name) (hsource : Neutral value)
    (hbody : Neutral body) : Neutral (Target.forEach i name value body) := by
  have hopen : Moves "foreach(" [] [')'] := fun _ => rfl
  have hcomma : Neutral ", " := fun _ => rfl
  have hclose : Moves ");\n" [')'] [] := fun _ => rfl
  have hheader : Neutral ("[&](auto &" ++ name ++ ") -> bool") :=
    between [')'] (fun _ => rfl) hitem fun _ => rfl
  have hcallback := block i hheader hbody.loopBody
  exact (((hopen.append (hsource.inside _)).append (hcomma.inside _)).append
    (hcallback.inside _)).append hclose

theorem whileDo (i : Indent) (hcond : Neutral value) (hbody : Neutral body) :
    Neutral (Target.whileDo i value body) := by
  have hopen : Moves "loop_while([&]() \x7b return " [] ['\x7d', ')'] := fun _ => rfl
  have hmiddle : Moves "; \x7d, " ['\x7d', ')'] [')'] := fun _ => rfl
  have hclose : Moves ");\n" [')'] [] := fun _ => rfl
  have hcallback : Neutral (i.block "[&]() -> bool" (Target.loopBody body)) :=
    block i (fun _ => rfl) hbody.loopBody
  exact (((hopen.append (hcond.inside _)).append hmiddle).append (hcallback.inside _)).append
    hclose

theorem case (i : Indent) (hcond : Neutral value) (hbody : Neutral body) :
    Neutral (Target.case i value body) := by
  have hheader : Neutral ("else if (" ++ value ++ ")") :=
    between [')'] (fun _ => rfl) hcond fun _ => rfl
  exact (block i hheader hbody).append fun _ => rfl

theorem fallback (i : Indent) (hbody : Neutral body) : Neutral (Target.fallback i body) :=
  (block i (fun _ => rfl) hbody).append fun _ => rfl

theorem ret (h : Neutral value) : Neutral (Target.ret value) :=
  between [] (fun _ => rfl) h fun _ => rfl

theorem brk (insideLoop : Bool) : Neutral (Target.brk insideLoop) := by
  cases insideLoop <;> exact fun _ => rfl

theorem cont (insideLoop : Bool) : Neutral (Target.cont insideLoop) := by
  cases insideLoop <;> exact fun _ => rfl

end Neutral

namespace Node

/-- The names and digits of a node that are written as they are. The names of
arguments only decide what is passed and are not written. -/
def words : Node → List String
  | .ty t => [t.name]
  | .param p => [p.name]
  | .expr (.num text _) => [text]
  | .expr (.ident name) => [name]
  | .expr (.call callee _) => [callee]
  | .stmt (.assign target _ _) => [target]
  | .stmt (.forEach item _ _) => [item]
  | _ => []

/-- No name and no number inside holds a bracket, a quote or a backslash. -/
def Unbracketed (n : Node) : Prop :=
  ∀ m : Node, m.Within n → ∀ word ∈ m.words, Unmarked word

theorem Unbracketed.child {c n : Node} (h : n.Unbracketed) (hc : c ∈ n.children) :
    c.Unbracketed :=
  fun m hm => h m (hm.child hc)

theorem Unbracketed.of_children {n : Node} (hwords : ∀ word ∈ n.words, Unmarked word)
    (h : ∀ c ∈ n.children, c.Unbracketed) : n.Unbracketed := by
  intro m hm
  rcases within_iff.mp hm with rfl | ⟨c, hc, hm⟩
  · exact hwords
  · exact h c hc m hm

theorem Unbracketed.word {n : Node} {word : String} (h : n.Unbracketed)
    (hword : word ∈ n.words) : Neutral word :=
  .of_unmarked (h n (.refl n) word hword)

theorem Unbracketed.func {params : List Param} {result : Ty} {body : Stmt}
    (h : (Node.expr (.func params result body)).Unbracketed) :
    (∀ p ∈ params, (Node.param p).Unbracketed) ∧ (Node.ty result).Unbracketed ∧
      (Node.stmt body).Unbracketed := by
  refine ⟨fun p hp => ?_, h.child (by simp [children]), h.child (by simp [children])⟩
  exact h.child (List.mem_append_left _ (List.mem_map_of_mem hp))

theorem Unbracketed.cases {cs : List Case} {last : Option Stmt}
    (h : (Node.stmt (.branch cs last)).Unbracketed) : ∀ c ∈ cs, (Node.case c).Unbracketed :=
  fun _ hc => h.child (List.mem_append_left _ (List.mem_map_of_mem hc))

end Node

namespace Lowering

variable {α β γ : Type} {P : α → Prop} {Q : β → Prop}

/-- What comes out, if anything does, is as `P` says. -/
def Yields (P : α → Prop) (r : Except Error α) : Prop :=
  ∀ a, r = .ok a → P a

namespace Yields

theorem ok {a : α} (h : P a) : Yields P (.ok a) := by
  rintro _ ⟨⟩
  exact h

theorem error (e : Error) : Yields P (.error e) := by
  rintro _ ⟨⟩

theorem bind {r : Except Error α} {f : α → Except Error β} (h : Yields P r)
    (hf : ∀ a, P a → Yields Q (f a)) : Yields Q (r >>= f) := by
  intro b hb
  obtain ⟨a, ha, hfa⟩ := bind_eq_ok hb
  exact hf a (h a ha) b hfa

/-- A step of which nothing needs to be known. -/
theorem bind_any {r : Except Error α} {f : α → Except Error β} (hf : ∀ a, Yields Q (f a)) :
    Yields Q (r >>= f) :=
  bind (P := fun _ => True) (fun _ _ => trivial) fun a _ => hf a

theorem mapM {f : γ → Except Error α} {cs : List γ} (h : ∀ c ∈ cs, Yields P (f c)) :
    Yields (fun as => ∀ a ∈ as, P a) (cs.mapM f) := by
  induction cs with
  | nil => exact ok (List.forall_mem_nil P)
  | cons c cs ih =>
      obtain ⟨hc, hcs⟩ := List.forall_mem_cons.mp h
      rw [List.mapM_cons]
      refine hc.bind fun a ha => (ih hcs).bind fun as has => ?_
      exact ok (List.forall_mem_cons.mpr ⟨ha, has⟩)

end Yields

theorem neutral_bindings {texts : List String} (h : ∀ t ∈ texts, Neutral t) :
    Neutral (String.join (texts.mapIdx Target.binding)) := by
  refine .join fun binding hbinding => ?_
  obtain ⟨place, hplace, rfl⟩ := List.mem_mapIdx.mp hbinding
  exact (h _ (List.getElem_mem hplace)).binding place

/-- An application is neutral if its arguments are, passed directly or not. -/
theorem yields_application {i : Indent} {order : List Nat} {args : List Arg}
    {f : Arg → Except Error String} {write : String → String}
    (h : ∀ a ∈ args, Yields Neutral (f a)) (hwrite : ∀ t, Neutral t → Neutral (write t))
    (direct : Bool) : Yields Neutral (application i direct order (args.map f) write) := by
  cases direct with
  | true =>
      have hpassed : Yields (fun ts => ∀ t ∈ ts, Neutral t)
          (order.mapM fun place => (args.map f).getD place (.ok "")) := by
        refine .mapM fun place _ => ?_
        rw [List.getD_eq_getElem?_getD, List.getElem?_map]
        cases ha : args[place]? with
        | none => exact .ok fun _ => rfl
        | some a => exact h a (List.mem_of_getElem? ha)
      exact hpassed.bind fun ts hts => .ok (hwrite _ (.commas hts)).direct
  | false =>
      have htexts : Yields (fun ts => ∀ t ∈ ts, Neutral t) ((args.map f).mapM id) :=
        .mapM (List.forall_mem_map.mpr h)
      have hreferences : Neutral (Target.commas (order.map Target.reference)) :=
        .commas (List.forall_mem_map.mpr fun place _ => .reference place)
      exact htexts.bind fun ts hts => .ok ((neutral_bindings hts).bound i (hwrite _ hreferences))

end Lowering

/-! ## Lowering

By the recursion of the lowering, one construct at a time. What is shown of a result says
nothing where there is none, so errors need no cases of their own. -/

open Lowering

variable {d : Descriptor} {i : Indent}

mutual

theorem Ty.yields_lower (t : Ty) (h : (Node.ty t).Unbracketed) : Yields Neutral (t.lower d) := by
  match t with
  | .named name =>
      rw [Ty.lower]
      exact .ok (h.word List.mem_cons_self)
  | .generic name args =>
      intro out hout
      obtain ⟨declared, -, -, texts, hreads, rfl⟩ := Ty.lower_generic_eq_ok_iff.mp hout
      have hargs := TypeArg.yields_lowerAll args fun a ha => h.child (List.mem_map_of_mem ha)
      have htexts : ∀ text ∈ texts, Neutral text := by
        intro text htext
        obtain ⟨a, ha, hok⟩ := exists_mem_of_reads hreads text htext
        exact hargs a ha text hok
      have hname : Neutral name := h.word List.mem_cons_self
      exact hname.append_between [] (fun _ => rfl) (.commas htexts) fun _ => rfl

theorem TypeArg.yields_lowerAll (as : List TypeArg) (h : ∀ a ∈ as, (Node.typeArg a).Unbracketed) :
    ∀ a ∈ as, Yields Neutral (a.ty.lower d) := by
  match as with
  | [] => exact fun _ ha => absurd ha List.not_mem_nil
  | ⟨_, t⟩ :: as =>
      obtain ⟨ha, has⟩ := List.forall_mem_cons.mp h
      refine List.forall_mem_cons.mpr ⟨Ty.yields_lower t ?_, TypeArg.yields_lowerAll as has⟩
      exact ha.child List.mem_cons_self

end

theorem Param.yields_lower (p : Param) (h : (Node.param p).Unbracketed) :
    Yields Neutral (p.lower d) := by
  refine (Ty.yields_lower p.ty (h.child List.mem_cons_self)).bind fun text htext => ?_
  exact .ok ((htext.append fun _ => rfl).append (h.word List.mem_cons_self))

theorem yields_signature {params : List Param} {result : Ty}
    (hparams : ∀ p ∈ params, (Node.param p).Unbracketed)
    (hresult : (Node.ty result).Unbracketed) :
    Yields (fun s => (∀ p ∈ s.1, Neutral p) ∧ Neutral s.2) (lowerSignature d params result) := by
  refine (Yields.mapM fun p hp => p.yields_lower (hparams p hp)).bind fun ps hps => ?_
  exact (Ty.yields_lower result hresult).bind fun r hr => .ok ⟨hps, hr⟩

mutual

theorem Expr.yields_lowerIn (v : View) (e : Expr) (h : (Node.expr e).Unbracketed) :
    Yields Neutral (e.lowerIn d i v) := by
  match e with
  | .num text isFloat =>
      rw [Expr.lowerIn]
      exact .ok (.numLiteral (h.word List.mem_cons_self) isFloat)
  | .str value =>
      rw [Expr.lowerIn]
      exact .ok (.stringLiteral value)
  | .ident name =>
      rw [Expr.lowerIn]
      exact .ok (h.word List.mem_cons_self)
  | .func params result body =>
      obtain ⟨hparams, hresult, hbody⟩ := h.func
      rw [Expr.lowerIn]
      refine (yields_signature hparams hresult).bind fun s hs => ?_
      refine (body.yields_lowerIn _ hbody).bind fun b hb => ?_
      exact .ok (.block i (.closure hs.1 hs.2) hb)
  | .create ty args =>
      have hargs := Arg.yields_lowerAllIn v args fun a ha =>
        h.child (List.mem_cons_of_mem _ (List.mem_map_of_mem ha))
      rw [Expr.lowerIn, Arg.lowerAllIn_eq_map]
      cases d.initParamsOf ty.name with
      | none => exact .error _
      | some declared =>
          refine .bind_any fun order => ?_
          refine (ty.yields_lower (h.child List.mem_cons_self)).bind fun head hhead => ?_
          exact yields_application hargs (fun t ht => hhead.initialise ht) _
  | .call callee args =>
      have hargs := Arg.yields_lowerAllIn v args fun a ha => h.child (List.mem_map_of_mem ha)
      have hcallee : Neutral callee := h.word List.mem_cons_self
      rw [Expr.lowerIn, Arg.lowerAllIn_eq_map]
      cases v.paramsOf callee with
      | none => exact .error _
      | some declared =>
          refine .bind_any fun order => ?_
          exact yields_application hargs (fun t ht => hcallee.apply ht) _

theorem Arg.yields_lowerAllIn (v : View) (as : List Arg)
    (h : ∀ a ∈ as, (Node.arg a).Unbracketed) :
    ∀ a ∈ as, Yields Neutral (a.value.lowerIn d i v) := by
  match as with
  | [] => exact fun _ ha => absurd ha List.not_mem_nil
  | ⟨_, value⟩ :: as =>
      obtain ⟨ha, has⟩ := List.forall_mem_cons.mp h
      refine List.forall_mem_cons.mpr ⟨value.yields_lowerIn v ?_, Arg.yields_lowerAllIn v as has⟩
      exact ha.child List.mem_cons_self

theorem Stmt.yields_lowerIn (v : View) (s : Stmt) (h : (Node.stmt s).Unbracketed) :
    Yields Neutral (s.lowerIn d i v) := by
  match s with
  | .assign target true (.func params result body) =>
      obtain ⟨hparams, hresult, hbody⟩ := Node.Unbracketed.func (h.child List.mem_cons_self)
      have hnames : ∀ n ∈ params.map Param.name, Neutral n :=
        List.forall_mem_map.mpr fun p hp => (hparams p hp).word List.mem_cons_self
      rw [Stmt.lowerIn]
      refine (yields_signature hparams hresult).bind fun s hs => ?_
      refine (body.yields_lowerIn _ hbody).bind fun b hb => ?_
      exact .ok (.define i (h.word List.mem_cons_self) hnames hs.1 hs.2 hb)
  | .assign target true (.num ..) | .assign target true (.str _)
  | .assign target true (.ident _) | .assign target true (.create ..)
  | .assign target true (.call ..) =>
      simp only [Stmt.lowerIn]
      refine (Expr.yields_lowerIn v _ (h.child List.mem_cons_self)).bind fun text htext => ?_
      exact .ok (.declare (h.word List.mem_cons_self) htext)
  | .assign target false value =>
      simp only [Stmt.lowerIn]
      refine (value.yields_lowerIn v (h.child List.mem_cons_self)).bind fun text htext => ?_
      exact .ok (.update (h.word List.mem_cons_self) htext)
  | .eval value =>
      rw [Stmt.lowerIn]
      exact (value.yields_lowerIn v (h.child List.mem_cons_self)).bind fun _ ht => .ok ht.eval
  | .forEach item source body =>
      have hbody : (Node.stmt body).Unbracketed := h.child (by simp [Node.children])
      rw [Stmt.lowerIn]
      refine (source.yields_lowerIn v (h.child List.mem_cons_self)).bind fun text htext => ?_
      refine (body.yields_lowerIn v.loopBody hbody).bind fun b hb => ?_
      exact .ok (.forEach i (h.word List.mem_cons_self) htext hb)
  | .whileDo cond body =>
      have hbody : (Node.stmt body).Unbracketed := h.child (by simp [Node.children])
      rw [Stmt.lowerIn]
      refine (cond.yields_lowerIn v (h.child List.mem_cons_self)).bind fun text htext => ?_
      exact (body.yields_lowerIn v.loopBody hbody).bind fun b hb => .ok (htext.whileDo i hb)
  | .branch cases none =>
      rw [Stmt.lowerIn]
      refine (Case.yields_lowerAllIn v cases h.cases).bind fun cs hcs => ?_
      exact .ok (.append (fun _ => rfl) hcs)
  | .branch cases (some body) =>
      have hlast : (Node.fallback body).Unbracketed := h.child (by simp [Node.children])
      rw [Stmt.lowerIn]
      refine (Case.yields_lowerAllIn v cases h.cases).bind fun cs hcs => ?_
      refine (body.yields_lowerIn v (hlast.child List.mem_cons_self)).bind fun b hb => ?_
      exact .ok (.append (.append (fun _ => rfl) hcs) (hb.fallback i))
  | .ret none =>
      rw [Stmt.lowerIn]
      cases v.inLoop with
      | true => exact .error _
      | false => exact .ok fun _ => rfl
  | .ret (some value) =>
      rw [Stmt.lowerIn]
      cases v.inLoop with
      | true => exact .error _
      | false =>
          exact (value.yields_lowerIn v (h.child List.mem_cons_self)).bind fun _ ht => .ok ht.ret
  | .brk =>
      rw [Stmt.lowerIn]
      exact .ok (.brk _)
  | .cont =>
      rw [Stmt.lowerIn]
      exact .ok (.cont _)
  | .suite body =>
      rw [Stmt.lowerIn]
      exact Stmt.yields_lowerAllIn v body fun s hs => h.child (List.mem_map_of_mem hs)

theorem Case.yields_lowerAllIn (v : View) (cs : List Case)
    (h : ∀ c ∈ cs, (Node.case c).Unbracketed) : Yields Neutral (Case.lowerAllIn d i v cs) := by
  match cs with
  | [] =>
      rw [Case.lowerAllIn]
      exact .ok fun _ => rfl
  | ⟨cond, body⟩ :: cs =>
      obtain ⟨hc, hcs⟩ := List.forall_mem_cons.mp h
      have hbody : (Node.stmt body).Unbracketed := hc.child (by simp [Node.children])
      rw [Case.lowerAllIn]
      refine (cond.yields_lowerIn v (hc.child List.mem_cons_self)).bind fun text htext => ?_
      refine (body.yields_lowerIn v hbody).bind fun b hb => ?_
      refine (Case.yields_lowerAllIn v cs hcs).bind fun rest hrest => ?_
      exact .ok ((htext.case i hb).append hrest)

theorem Stmt.yields_lowerAllIn (v : View) (ss : List Stmt)
    (h : ∀ s ∈ ss, (Node.stmt s).Unbracketed) : Yields Neutral (Stmt.lowerAllIn d i v ss) := by
  match ss with
  | [] =>
      rw [Stmt.lowerAllIn]
      exact .ok fun _ => rfl
  | s :: ss =>
      obtain ⟨hs, hss⟩ := List.forall_mem_cons.mp h
      rw [Stmt.lowerAllIn]
      refine (s.yields_lowerIn v hs).bind fun text htext => ?_
      refine (Stmt.yields_lowerAllIn (v.after s) ss hss).bind fun rest hrest => ?_
      exact .ok (htext.append hrest)

end

theorem Node.yields_lowerIn (v : View) (n : Node) (h : n.Unbracketed) :
    Yields Neutral (n.lowerIn d i v) := by
  cases n with
  | ty t => exact t.yields_lower h
  | typeArg a => exact a.ty.yields_lower (h.child List.mem_cons_self)
  | param p => exact p.yields_lower h
  | expr e => exact e.yields_lowerIn v h
  | arg a => exact a.value.yields_lowerIn v (h.child List.mem_cons_self)
  | stmt s => exact s.yields_lowerIn v h
  | case c => exact Case.yields_lowerAllIn v [c] (List.forall_mem_singleton.mpr h)
  | fallback body =>
      refine (body.yields_lowerIn v (h.child List.mem_cons_self)).bind fun b hb => ?_
      exact .ok (hb.fallback i)

/-- In the text of a tree every string literal ends and all brackets are closed
in the order in which they were opened, under every descriptor and layout. Of the
tree nothing is asked but that its names and numbers have no brackets, quotes or
backslashes of their own; its strings may hold anything. -/
theorem lower_balanced (d : Descriptor) (l : Layout) (n : Node) (hn : n.Unbracketed)
    (text : String) (h : lower d l n = .ok text) : Balanced text := by
  rw [lower, Node.lower_start] at h
  exact (n.yields_lowerIn _ hn text h).balanced

/-- A loop whose condition binds its arguments in a closure, with a string that
would close everything around it and swallow the rest. -/
theorem lower_balanced_while :
    let d := (Descriptor.empty.withFuncParams "p" ["y", "x"]).withFuncParams "g" []
    let cond : Expr := .call "p" [⟨"x", .call "g" []⟩, ⟨"y", .str "\")\x7d]\\\n\""⟩]
    let n : Node := .stmt (.whileDo cond (.eval (.ident "z")))
    n.Unbracketed ∧ ∃ text, lower d {} n = .ok text ∧ Balanced text := by
  intro d cond n
  have hleaf : ∀ {e : Expr}, (Node.expr e).children = [] →
      (∀ word ∈ (Node.expr e).words, Unmarked word) → (Node.expr e).Unbracketed := by
    intro e hchildren hwords
    refine .of_children hwords fun c hc => ?_
    rw [hchildren] at hc
    cases hc
  have hcond : (Node.expr cond).Unbracketed := by
    refine .of_children (by simp [cond, Node.words, Unmarked]) ?_
    refine List.forall_mem_cons.mpr ⟨.of_children nofun ?_, List.forall_mem_singleton.mpr ?_⟩
    · exact List.forall_mem_singleton.mpr (hleaf rfl (by simp [Node.words, Unmarked]))
    · exact .of_children nofun (List.forall_mem_singleton.mpr (hleaf rfl nofun))
  have hbody : (Node.stmt (.eval (.ident "z"))).Unbracketed := by
    refine .of_children nofun (List.forall_mem_singleton.mpr (hleaf rfl ?_))
    simp [Node.words, Unmarked]
  have hn : n.Unbracketed := by
    refine .of_children nofun (List.forall_mem_cons.mpr ⟨hcond, ?_⟩)
    exact List.forall_mem_singleton.mpr hbody
  exact ⟨hn, _, rfl, lower_balanced d {} n hn _ rfl⟩

end TreeIR
