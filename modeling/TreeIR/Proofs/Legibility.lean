import TreeIR.Proofs.Flattening
import TreeIR.Proofs.LineLayout
import TreeIR.Proofs.SuiteNesting

/-!
# Reading the diagnostic text part by part

Errors name a node by its diagnostic text, so two nodes with the same text would
be mistaken for one another. The text is not meant to be read back, and no reader
is built here, but it shows where its parts end, as long as the tree is *legible*:
no name, number or string in it imitates the marks around it.

What is carried through the trees is `Apart`: the text of a node, with anything
behind it that cannot be taken for a part of it, begins no other node's text. The
node is determined then, and so is the place where it ends, and the parts of a
form are read off one after the other.

Two things are not concatenation. Items in a list are separated by commas, and
the bracket behind the last one has to differ from a comma and from the start of
an item. And a body is shifted, which is undone by its margin: every line of the
body starts with a blank and the line behind it does not. A newline in a string is
no trouble for that, since the line after it is shifted with the others.

This file has the parts, types and bodies; expressions and statements are put
together from them in `Unambiguity.lean`.
-/

namespace TreeIR

section Runs

variable {α : Type} {p : α → Bool} {w w' r r' : List α}

theorem dropWhile_run (hw : ∀ a ∈ w, p a = true) (hr : ∀ a ∈ r.head?, p a = false) :
    (w ++ r).dropWhile p = r := by
  rw [List.dropWhile_append_of_pos hw]
  cases r with
  | nil => rfl
  | cons a r => exact List.dropWhile_cons_of_neg (by simp [hr a rfl])

theorem takeWhile_run (hw : ∀ a ∈ w, p a = true) (hr : ∀ a ∈ r.head?, p a = false) :
    (w ++ r).takeWhile p = w := by
  have hcut := List.takeWhile_append_dropWhile (p := p) (l := w ++ r)
  rw [dropWhile_run hw hr] at hcut
  exact List.append_cancel_right hcut

theorem append_inj_of_run (hw : ∀ a ∈ w, p a = true) (hw' : ∀ a ∈ w', p a = true)
    (hr : ∀ a ∈ r.head?, p a = false) (hr' : ∀ a ∈ r'.head?, p a = false)
    (h : w ++ r = w' ++ r') : w = w' ∧ r = r' := by
  constructor
  · rw [← takeWhile_run hw hr, h, takeWhile_run hw' hr']
  · rw [← dropWhile_run hw hr, h, dropWhile_run hw' hr']

end Runs

/-- A letter, a digit or an underscore, of ASCII. -/
def isWordChar (c : Char) : Bool :=
  c.isAlphanum || c == '_'

/-- A character of a word or a point. -/
def isNumeralChar (c : Char) : Bool :=
  isWordChar c || c == '.'

/-- A name whose end can be seen, since nothing but word characters stands in it. -/
def Word (s : String) : Prop :=
  ∀ c ∈ s.toList, isWordChar c = true

/-- A number as it is written, without a sign. -/
def Numeral (s : String) : Prop :=
  ∀ c ∈ s.toList, isNumeralChar c = true

instance (s : String) : Decidable (Word s) :=
  decidable_of_iff (s.toList.all isWordChar = true) List.all_eq_true

theorem Word.numeral {s : String} (h : Word s) : Numeral s := by
  intro c hc
  rw [isNumeralChar, h c hc, Bool.true_or]

/-- The rest of a text does not go on with a word or a number. -/
def EndsWord (r : List Char) : Prop :=
  ∀ c ∈ r.head?, isNumeralChar c = false

/-- The rest of a text does not go on with a type either. -/
def Stops (r : List Char) : Prop :=
  EndsWord r ∧ r.head? ≠ some '<'

theorem endsWord_cons {c : Char} (h : isNumeralChar c = false) (r : List Char) :
    EndsWord (c :: r) := by
  rintro _ ⟨⟩
  exact h

theorem stops_nil : Stops [] :=
  ⟨by rintro _ ⟨⟩, by simp⟩

theorem stops_cons {c : Char} (h : isNumeralChar c = false) (hc : c ≠ '<') (r : List Char) :
    Stops (c :: r) :=
  ⟨endsWord_cons h r, by simpa using hc⟩

theorem Numeral.append_inj {w w' : String} {r r' : List Char} (hw : Numeral w)
    (hw' : Numeral w') (hr : EndsWord r) (hr' : EndsWord r')
    (h : w.toList ++ r = w'.toList ++ r') : w = w' ∧ r = r' := by
  obtain ⟨hword, hrest⟩ := append_inj_of_run hw hw' hr hr' h
  exact ⟨String.toList_inj.mp hword, hrest⟩

namespace Text

theorem head?_lines_blank {r : List Char} (hr : r.head? ≠ some ' ') :
    ∀ l ∈ (lines r).head?, (l.head? == some ' ') = false := by
  cases r with
  | nil =>
      rintro _ ⟨⟩
      rfl
  | cons c cs =>
      obtain ⟨l, ls, hl⟩ := List.exists_cons_of_ne_nil (lines_ne_nil cs)
      rw [lines_cons, hl]
      split
      · rintro _ ⟨⟩
        rfl
      · rintro _ ⟨⟩
        simpa using hr

theorem dropFinalNewline_concat (cs : List Char) : dropFinalNewline (cs ++ ['\n']) = cs := by
  induction cs with
  | nil => rfl
  | cons c cs ih =>
      rw [List.cons_append, dropFinalNewline, ih]
      simp

end Text

theorem Form.lines_body (text : String) :
    Text.lines (Form.body text).toList
      = (Text.lines (Text.dropFinalNewline text.toList)).map ([' ', ' '] ++ ·) := by
  rw [Form.body, Text.shift, Text.mapLines, String.toList_ofList]
  refine Text.lines_unlines ?_ (List.forall_mem_map.mpr fun l hl => ?_)
  · rw [ne_eq, List.map_eq_nil_iff]
    exact Text.lines_ne_nil _
  · have hnewline := Text.newline_not_mem_of_mem_lines hl
    simp [hnewline]

/-- A shifted body shows its lines and where it ends. -/
theorem Form.body_append_inj {text text' : String} {r r' : List Char} (hr : r.head? ≠ some ' ')
    (hr' : r'.head? ≠ some ' ')
    (h : (Form.body text).toList ++ '\n' :: r = (Form.body text').toList ++ '\n' :: r') :
    Text.dropFinalNewline text.toList = Text.dropFinalNewline text'.toList ∧ r = r' := by
  have hmargin : ∀ ls : List (List Char),
      ∀ l ∈ ls.map ([' ', ' '] ++ ·), (l.head? == some ' ') = true :=
    fun ls => List.forall_mem_map.mpr fun _ _ => rfl
  -- among the lines of both, those of the body are the ones before the first without a margin
  have hcut := congrArg Text.lines h
  rw [Text.lines_append_newline, Text.lines_append_newline, Form.lines_body, Form.lines_body]
    at hcut
  obtain ⟨hbody, hrest⟩ := append_inj_of_run (hmargin _) (hmargin _)
    (Text.head?_lines_blank hr) (Text.head?_lines_blank hr') hcut
  have hlines := List.map_injective_iff.mpr (List.append_right_injective [' ', ' ']) hbody
  constructor
  · rw [← Text.unlines_lines (Text.dropFinalNewline text.toList), hlines, Text.unlines_lines]
  · rw [← Text.unlines_lines r, hrest, Text.unlines_lines]

/-- The text ends with a newline and has more than that. -/
def EndsLine (text : String) : Prop :=
  ∃ c cs, text.toList = c :: (cs ++ ['\n'])

/-- Among texts that end their lines or are empty, nothing is lost with the newline
that a body leaves out. -/
theorem eq_of_dropFinalNewline_eq {text text' : String} (ht : text = "" ∨ EndsLine text)
    (ht' : text' = "" ∨ EndsLine text')
    (h : Text.dropFinalNewline text.toList = Text.dropFinalNewline text'.toList) :
    text = text' := by
  have hdrop : ∀ {text : String} {c : Char} {cs : List Char},
      text.toList = c :: (cs ++ ['\n']) → Text.dropFinalNewline text.toList = c :: cs := by
    intro text c cs htext
    rw [htext]
    exact Text.dropFinalNewline_concat (c :: cs)
  rcases ht with rfl | ⟨c, cs, ht⟩
  · rcases ht' with rfl | ⟨c', cs', ht'⟩
    · rfl
    · rw [hdrop ht'] at h
      cases h
  · rcases ht' with rfl | ⟨c', cs', ht'⟩
    · rw [hdrop ht] at h
      cases h
    · rw [hdrop ht, hdrop ht'] at h
      obtain ⟨rfl, rfl⟩ := List.cons.inj h
      exact String.toList_inj.mp (ht.trans ht'.symm)

theorem Stmt.endsLine_render {s : Stmt} (h : s.isSuite = false) : EndsLine s.render := by
  cases s with
  | assign target defines value =>
      exact ⟨'$', (target ++ (if defines then ":=" else "<-") ++ value.render).toList,
        by simp [Stmt.render]⟩
  | eval value => exact ⟨'d', ("o(" ++ value.render ++ ")").toList, by simp [Stmt.render]⟩
  | forEach item source body =>
      exact ⟨'f', ("oreach($" ++ item ++ "<-" ++ source.render ++ ")"
        ++ Form.block body.render).toList, by simp [Stmt.render]⟩
  | whileDo cond body =>
      exact ⟨'w', ("hile(" ++ cond.render ++ ")" ++ Form.block body.render).toList,
        by simp [Stmt.render]⟩
  | branch cases last =>
      cases last with
      | none =>
          exact ⟨'b', ("ranch\x7b\n" ++ Case.renderAll cases ++ "\x7d").toList,
            by simp [Stmt.render]⟩
      | some body =>
          exact ⟨'b', ("ranch\x7b\n" ++ Case.renderAll cases ++ Form.fallback body.render
            ++ "\x7d").toList, by simp [Stmt.render]⟩
  | ret value =>
      cases value with
      | none => exact ⟨'r', "eturn".toList, rfl⟩
      | some value =>
          exact ⟨'r', ("eturn(" ++ value.render ++ ")").toList, by simp [Stmt.render]⟩
  | brk => exact ⟨'b', "reak".toList, rfl⟩
  | cont => exact ⟨'c', "ontinue".toList, rfl⟩
  | suite body => cases h

theorem Stmt.endsLine_renderAll {ss : List Stmt} (h : ∀ s ∈ ss, s.isSuite = false) :
    Stmt.renderAll ss = "" ∨ EndsLine (Stmt.renderAll ss) := by
  induction ss with
  | nil => exact .inl rfl
  | cons s ss ih =>
      obtain ⟨hs, hss⟩ := List.forall_mem_cons.mp h
      obtain ⟨c, cs, htext⟩ := Stmt.endsLine_render hs
      refine .inr ?_
      rcases ih hss with hempty | ⟨c', cs', hrest⟩
      · exact ⟨c, cs, by rw [Stmt.renderAll, hempty, String.append_empty, htext]⟩
      · exact ⟨c, cs ++ '\n' :: c' :: cs', by simp [Stmt.renderAll, htext, hrest]⟩

theorem Stmt.render_eq_or_endsLine (s : Stmt) : s.render = "" ∨ EndsLine s.render := by
  rw [← s.renderAll_dissolved]
  exact Stmt.endsLine_renderAll fun _ => Stmt.isSuite_of_mem_dissolved

theorem Stmt.render_eq_of_dropFinalNewline_eq {s s' : Stmt}
    (h : Text.dropFinalNewline s.render.toList = Text.dropFinalNewline s'.render.toList) :
    s.render = s'.render :=
  eq_of_dropFinalNewline_eq s.render_eq_or_endsLine s'.render_eq_or_endsLine h

namespace Node

/-- The names of a node are words, its digits a numeral, and its text has no quote. -/
def Spelled : Node → Prop
  | .ty t => Word t.name
  | .typeArg a => Word a.name
  | .param p => Word p.name
  | .expr (.num text _) => Numeral text
  | .expr (.str value) => '"' ∉ value.toList
  | .expr (.ident name) => Word name
  | .expr (.call callee _) => Word callee
  | .arg a => Word a.name
  | .stmt (.assign target _ _) => Word target
  | .stmt (.forEach item _ _) => Word item
  | _ => True

/-- All nodes inside are spelled like that. -/
def Legible (n : Node) : Prop :=
  ∀ m : Node, m.Within n → m.Spelled

theorem Legible.spelled {n : Node} (h : n.Legible) : n.Spelled :=
  h n (.refl n)

theorem Legible.child {c n : Node} (h : n.Legible) (hc : c ∈ n.children) : c.Legible :=
  fun m hm => h m (hm.child hc)

theorem Legible.of_children {n : Node} (hspelled : n.Spelled)
    (h : ∀ c ∈ n.children, c.Legible) : n.Legible := by
  intro m hm
  rcases within_iff.mp hm with rfl | ⟨c, hc, hm⟩
  · exact hspelled
  · exact h c hc m hm

theorem Legible.dissolved {s t : Stmt} (h : (Node.stmt s).Legible) (ht : t ∈ s.dissolved) :
    (Node.stmt t).Legible := by
  induction s using Stmt.suiteInduction with
  | single s hs =>
      rw [Stmt.dissolved_of_not_isSuite hs] at ht
      exact List.mem_singleton.mp ht ▸ h
  | suite ss ih =>
      rw [Stmt.dissolved_suite] at ht
      obtain ⟨s, hs, ht⟩ := List.mem_flatMap.mp ht
      exact ih s hs (h.child (List.mem_map_of_mem hs)) ht

end Node

/-! ## Apart

To read a text back one must see where each part ends. A text is told apart together with
what comes behind it, of which no more is known than that it does not go on with the part. -/

/-- The text of `a` with a rest behind it is the text of no other thing with a rest
behind it: what is seen of the thing is determined, and so is the rest. -/
def Apart {α β : Type} (good : α → Prop) (text : α → String) (view : α → β)
    (stop : List Char → Prop) (a : α) : Prop :=
  ∀ a' r r', good a' → stop r → stop r' → (text a).toList ++ r = (text a').toList ++ r' →
    view a = view a' ∧ r = r'

/-- The rest of a text does not go on with a body. -/
def Flush (r : List Char) : Prop :=
  r.head? ≠ some ' '

/-- A type can be told from what follows it. -/
def Ty.IsApart : Ty → Prop :=
  Apart (fun t => (Node.ty t).Legible) Ty.render id Stops

/-- A type argument can be told from what follows it. -/
def TypeArg.IsApart : TypeArg → Prop :=
  Apart (fun a => (Node.typeArg a).Legible) TypeArg.render id Stops

/-- A parameter can be told from what follows it. -/
def Param.IsApart : Param → Prop :=
  Apart (fun p => (Node.param p).Legible) Param.render id Stops

/-- An expression can be told from what follows it, up to the nesting of suites in it.
-/
def Expr.IsApart : Expr → Prop :=
  Apart (fun e => (Node.expr e).Legible) Expr.render Expr.flatten Stops

/-- An argument can be told from what follows it, up to the nesting of suites in it.
-/
def Arg.IsApart : Arg → Prop :=
  Apart (fun a => (Node.arg a).Legible) Arg.render Arg.flatten Stops

/-- A statement that is no suite ends its last line, so anything may follow. -/
def Stmt.IsApart : Stmt → Prop :=
  Apart (fun s => s.isSuite = false ∧ (Node.stmt s).Legible) Stmt.render Stmt.flat fun _ => True

/-- A case can be told from the lines that follow it, up to the nesting of suites in
it. -/
def Case.IsApart : Case → Prop :=
  Apart (fun c => (Node.case c).Legible) Case.render Case.flatten Flush

/-- The texts of a list, with commas between them. -/
def commas {α : Type} (text : α → String) (as : List α) : List Char :=
  (",".intercalate (as.map text)).toList

/-- The texts of a list, with a comma before each. -/
def commasBefore {α : Type} (text : α → String) (as : List α) : List Char :=
  as.flatMap fun a => ',' :: (text a).toList

section Lists

variable {α β : Type} {text : α → String} {view : α → β} {good : α → Prop}

theorem commas_cons (a : α) (as : List α) :
    commas text (a :: as) = (text a).toList ++ commasBefore text as := by
  induction as generalizing a with
  | nil => simp [commas, commasBefore]
  | cons b as ih =>
      have hrest := ih b
      rw [commas, List.map_cons] at hrest
      rw [commas, List.map_cons, List.map_cons, String.intercalate_cons_cons, String.toList_append,
        String.toList_append, hrest]
      simp [commasBefore]

theorem stops_commasBefore {close : Char} (hclose : isNumeralChar close = false)
    (hangle : close ≠ '<') (as : List α) (r : List Char) :
    Stops (commasBefore text as ++ close :: r) := by
  cases as with
  | nil => exact stops_cons hclose hangle r
  | cons a as => exact stops_cons (by decide) (by decide) _

theorem commasBefore_append_inj {close : Char} (hclose : isNumeralChar close = false)
    (hangle : close ≠ '<') (hcomma : close ≠ ',') {as as' : List α} {r r' : List Char}
    (hapart : ∀ a ∈ as, Apart good text view Stops a) (hgood : ∀ a ∈ as', good a)
    (h : commasBefore text as ++ close :: r = commasBefore text as' ++ close :: r') :
    as.map view = as'.map view ∧ r = r' := by
  induction as generalizing as' with
  | nil =>
      cases as' with
      | nil => exact ⟨rfl, (List.cons.inj h).2⟩
      | cons a' as' => exact absurd (List.cons.inj h).1 hcomma
  | cons a as ih =>
      cases as' with
      | nil => exact absurd (List.cons.inj h).1.symm hcomma
      | cons a' as' =>
          obtain ⟨ha, has⟩ := List.forall_mem_cons.mp hapart
          obtain ⟨ha', has'⟩ := List.forall_mem_cons.mp hgood
          have hitems : (text a).toList ++ (commasBefore text as ++ close :: r)
              = (text a').toList ++ (commasBefore text as' ++ close :: r') := by
            simpa [commasBefore] using h
          obtain ⟨hview, hrest⟩ := ha a' _ _ ha' (stops_commasBefore hclose hangle as r)
            (stops_commasBefore hclose hangle as' r') hitems
          obtain ⟨hviews, hrest⟩ := ih has has' hrest
          exact ⟨by rw [List.map_cons, List.map_cons, hview, hviews], hrest⟩

/-- Items are told apart in a list if none starts with the bracket behind the last. -/
theorem commas_append_inj {close : Char} (hclose : isNumeralChar close = false)
    (hangle : close ≠ '<') (hcomma : close ≠ ',') {as as' : List α} {r r' : List Char}
    (hlead : ∀ a, good a → (text a).toList.head? ≠ none ∧ (text a).toList.head? ≠ some close)
    (has : ∀ a ∈ as, good a) (has' : ∀ a ∈ as', good a)
    (hapart : ∀ a ∈ as, Apart good text view Stops a)
    (h : commas text as ++ close :: r = commas text as' ++ close :: r') :
    as.map view = as'.map view ∧ r = r' := by
  -- the bracket alone tells an empty list, so both are empty or none is
  have hstart : ∀ a, good a → ∀ as r r', commas text (a :: as) ++ r ≠ close :: r' := by
    intro a ha as r r' heq
    obtain ⟨hne, hhead⟩ := hlead a ha
    rw [commas_cons] at heq
    cases htext : (text a).toList with
    | nil => exact hne (by rw [htext]; rfl)
    | cons c cs =>
        rw [htext] at heq hhead
        exact hhead (congrArg some (List.cons.inj heq).1)
  cases as with
  | nil =>
      cases as' with
      | nil => exact ⟨rfl, (List.cons.inj h).2⟩
      | cons a' as' => exact absurd h.symm (hstart a' (has' a' List.mem_cons_self) as' _ _)
  | cons a as =>
      cases as' with
      | nil => exact absurd h (hstart a (has a List.mem_cons_self) as _ _)
      | cons a' as' =>
          refine commasBefore_append_inj hclose hangle hcomma hapart has' ?_
          rw [commas_cons, commas_cons] at h
          exact congrArg (',' :: ·) h

end Lists

theorem TypeArg.renderAll_eq_map (as : List TypeArg) :
    TypeArg.renderAll as = as.map TypeArg.render := by
  induction as with
  | nil => rfl
  | cons a as ih =>
      obtain ⟨name, ty⟩ := a
      rw [TypeArg.renderAll, ih]
      rfl

theorem Ty.toList_generic (name : String) (args : List TypeArg) (r : List Char) :
    (Ty.generic name args).render.toList ++ r
      = '#' :: (name.toList ++ '<' :: (commas TypeArg.render args ++ '>' :: r)) := by
  simp [Ty.render, TypeArg.renderAll_eq_map, commas]

theorem Ty.toList_named (name : String) (r : List Char) :
    (Ty.named name).render.toList ++ r = '#' :: (name.toList ++ r) := by
  simp [Ty.render]

theorem TypeArg.toList_render (a : TypeArg) (r : List Char) :
    a.render.toList ++ r = a.name.toList ++ '=' :: (a.ty.render.toList ++ r) := by
  simp [TypeArg.render, Form.typeArg]

theorem Param.toList_render (p : Param) (r : List Char) :
    p.render.toList ++ r = '$' :: (p.name.toList ++ ':' :: (p.ty.render.toList ++ r)) := by
  simp [Param.render]

/-- A name at the front of two texts, with a mark behind it that no name holds. -/
theorem Word.append_cons_inj {w w' : String} {c c' : Char} {r r' : List Char} (hw : Word w)
    (hw' : Word w') (hc : isNumeralChar c = false) (hc' : isNumeralChar c' = false)
    (h : w.toList ++ c :: r = w'.toList ++ c' :: r') : w = w' ∧ c = c' ∧ r = r' := by
  obtain ⟨hword, hrest⟩ := hw.numeral.append_inj hw'.numeral (endsWord_cons hc r)
    (endsWord_cons hc' r') h
  exact ⟨hword, List.cons.inj hrest⟩

theorem Ty.isApart_named {name : String} (hname : Word name) : (Ty.named name).IsApart := by
  intro t' r r' hlegible hr hr' h
  have hname' : Word t'.name := hlegible.spelled
  cases t' with
  | named name' =>
      rw [Ty.toList_named, Ty.toList_named] at h
      obtain ⟨rfl, hrest⟩ := hname.numeral.append_inj hname'.numeral hr.1 hr'.1 (List.cons.inj h).2
      exact ⟨rfl, hrest⟩
  | generic name' args' =>
      rw [Ty.toList_named, Ty.toList_generic] at h
      obtain ⟨-, rfl⟩ := hname.numeral.append_inj hname'.numeral hr.1
        (endsWord_cons (by decide) _) (List.cons.inj h).2
      exact absurd rfl hr.2

theorem TypeArg.head?_render {a : TypeArg} (h : (Node.typeArg a).Legible) :
    a.render.toList.head? ≠ none ∧ a.render.toList.head? ≠ some '>' := by
  have hname : Word a.name := h.spelled
  rw [← List.append_nil a.render.toList, TypeArg.toList_render]
  cases hchars : a.name.toList with
  | nil => exact ⟨by simp, by simp⟩
  | cons c cs =>
      have hc : isWordChar c = true := hname c (by rw [hchars]; exact List.mem_cons_self)
      refine ⟨by simp, ?_⟩
      rintro ⟨⟩
      cases hc

theorem Ty.isApart_generic {name : String} {args : List TypeArg} (hname : Word name)
    (hlegible : ∀ a ∈ args, (Node.typeArg a).Legible) (hargs : ∀ a ∈ args, a.IsApart) :
    (Ty.generic name args).IsApart := by
  intro t' r r' hlegible' hr hr' h
  have hname' : Word t'.name := hlegible'.spelled
  cases t' with
  | named name' =>
      rw [Ty.toList_named, Ty.toList_generic] at h
      obtain ⟨-, rfl⟩ := hname.numeral.append_inj hname'.numeral (endsWord_cons (by decide) _)
        hr'.1 (List.cons.inj h).2
      exact absurd rfl hr'.2
  | generic name' args' =>
      rw [Ty.toList_generic, Ty.toList_generic] at h
      obtain ⟨rfl, -, hrest⟩ := hname.append_cons_inj hname' (by decide) (by decide)
        (List.cons.inj h).2
      have hargs' : ∀ a ∈ args', (Node.typeArg a).Legible := fun a ha =>
        hlegible'.child (List.mem_map_of_mem ha)
      obtain ⟨hmap, hrest⟩ := commas_append_inj (by decide) (by decide) (by decide)
        (fun a => TypeArg.head?_render) hlegible hargs' hargs hrest
      rw [List.map_id, List.map_id] at hmap
      exact ⟨by rw [hmap], hrest⟩

theorem TypeArg.isApart {name : String} {ty : Ty} (hname : Word name) (hty : ty.IsApart) :
    (TypeArg.mk name ty).IsApart := by
  rintro ⟨name', ty'⟩ r r' hlegible' hr hr' h
  rw [TypeArg.toList_render, TypeArg.toList_render] at h
  obtain ⟨rfl, -, h⟩ := hname.append_cons_inj hlegible'.spelled (by decide) (by decide) h
  obtain ⟨hview, hrest⟩ := hty ty' r r' (hlegible'.child List.mem_cons_self) hr hr' h
  exact ⟨congrArg (TypeArg.mk name) hview, hrest⟩

theorem Param.isApart {name : String} {ty : Ty} (hname : Word name) (hty : ty.IsApart) :
    (Param.mk name ty).IsApart := by
  rintro ⟨name', ty'⟩ r r' hlegible' hr hr' h
  rw [Param.toList_render, Param.toList_render] at h
  obtain ⟨rfl, -, h⟩ := hname.append_cons_inj hlegible'.spelled (by decide) (by decide)
    (List.cons.inj h).2
  obtain ⟨hview, hrest⟩ := hty ty' r r' (hlegible'.child List.mem_cons_self) hr hr' h
  exact ⟨congrArg (Param.mk name) hview, hrest⟩

/-- The statements of a statement are apart. -/
def Stmt.AllApart (s : Stmt) : Prop :=
  ∀ t ∈ s.dissolved, t.IsApart

theorem Stmt.flatMap_flat_eq {ts ts' : List Stmt} (hts : ∀ t ∈ ts, t.isSuite = false)
    (hapart : ∀ t ∈ ts, t.IsApart)
    (hts' : ∀ t ∈ ts', t.isSuite = false ∧ (Node.stmt t).Legible)
    (h : (Stmt.renderAll ts).toList = (Stmt.renderAll ts').toList) :
    ts.flatMap Stmt.flat = ts'.flatMap Stmt.flat := by
  -- a suite could be empty; another statement is at least a line
  have hfilled : ∀ t ts, t.isSuite = false → (Stmt.renderAll (t :: ts)).toList ≠ [] := by
    intro t ts ht
    obtain ⟨c, cs, htext⟩ := Stmt.endsLine_render ht
    simp [Stmt.renderAll, htext]
  induction ts generalizing ts' with
  | nil =>
      cases ts' with
      | nil => rfl
      | cons t' ts' => exact absurd h.symm (hfilled t' ts' (hts' t' List.mem_cons_self).1)
  | cons t ts ih =>
      cases ts' with
      | nil => exact absurd h (hfilled t ts (hts t List.mem_cons_self))
      | cons t' ts' =>
          obtain ⟨ht, hts⟩ := List.forall_mem_cons.mp hts
          obtain ⟨hapart, haparts⟩ := List.forall_mem_cons.mp hapart
          obtain ⟨ht', hts'⟩ := List.forall_mem_cons.mp hts'
          rw [Stmt.renderAll, Stmt.renderAll, String.toList_append, String.toList_append] at h
          obtain ⟨hview, hrest⟩ := hapart t' _ _ ht' trivial trivial h
          rw [List.flatMap_cons, List.flatMap_cons, hview, ih hts haparts hts' hrest]

theorem Stmt.AllApart.flat_eq {s s' : Stmt} (h : s.AllApart) (hs' : (Node.stmt s').Legible)
    (heq : s.render = s'.render) : s.flat = s'.flat := by
  rw [s.flat_eq_flatMap, s'.flat_eq_flatMap]
  refine Stmt.flatMap_flat_eq (fun _ => Stmt.isSuite_of_mem_dissolved) h
    (fun t ht => ⟨Stmt.isSuite_of_mem_dissolved ht, hs'.dissolved ht⟩) ?_
  rw [s.renderAll_dissolved, s'.renderAll_dissolved, heq]

theorem Stmt.AllApart.body_append_inj {s s' : Stmt} {r r' : List Char} (h : s.AllApart)
    (hs' : (Node.stmt s').Legible) (hr : Flush r) (hr' : Flush r')
    (heq : (Form.body s.render).toList ++ '\n' :: r = (Form.body s'.render).toList ++ '\n' :: r') :
    s.flat = s'.flat ∧ r = r' := by
  obtain ⟨hlines, hrest⟩ := Form.body_append_inj hr hr' heq
  exact ⟨h.flat_eq hs' (Stmt.render_eq_of_dropFinalNewline_eq hlines), hrest⟩

theorem Form.toList_block (text : String) (r : List Char) :
    (Form.block text).toList ++ r
      = '\x7b' :: '\n' :: ((Form.body text).toList ++ '\n' :: '\x7d' :: r) := by
  simp [Form.block]

theorem Stmt.AllApart.block_append_inj {s s' : Stmt} {r r' : List Char} (h : s.AllApart)
    (hs' : (Node.stmt s').Legible)
    (heq : (Form.block s.render).toList ++ r = (Form.block s'.render).toList ++ r') :
    s.flat = s'.flat ∧ r = r' := by
  rw [Form.toList_block, Form.toList_block] at heq
  obtain ⟨hflat, hrest⟩ := h.body_append_inj hs' (by simp [Flush]) (by simp [Flush])
    (List.cons.inj (List.cons.inj heq).2).2
  exact ⟨hflat, (List.cons.inj hrest).2⟩

end TreeIR
