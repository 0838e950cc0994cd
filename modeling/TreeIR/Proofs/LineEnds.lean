import TreeIR.Proofs.Legibility

/-!
# Statements end their lines

Both texts of a tree are put together on an understanding: a statement ends the
line it is on. A suite is its statements and nothing between them, a loop body gets
a last line behind it, and a body is shifted after one newline at its end is left
out. None of this is checked where it is relied on, so it is shown here for every
form of a statement and both texts.

Only suites need an argument, since all other forms end in something of their own.
A suite may be empty, or made of suites that are, and then it has no text at all;
`Hollow` is that. Otherwise its text ends as the last statement does that has one,
because an end stays an end whatever stands before it. That is one lemma,
`TextOf.join`, for both texts.
-/

namespace TreeIR

/-- A suite of nothing but suites of that sort. -/
inductive Stmt.Hollow : Stmt → Prop
  | suite {ss : List Stmt} (h : ∀ s ∈ ss, Hollow s) : Hollow (.suite ss)

/-- The text ends as a statement of the target does. -/
def EndsStatement (text : String) : Prop :=
  ∃ init, text = init ++ ";\n" ∨ text = init ++ "\x7d\n"

/-- The text is one of a lowered statement, whatever the surroundings were. -/
def Stmt.LowersTo (i : Indent) (s : Stmt) (text : String) : Prop :=
  ∃ env env', s.lower i env = (.ok text, env')

/-- The lines of a text that are ended in it. -/
def Text.endedLines (text : String) : List (List Char) :=
  (lines text.toList).dropLast

theorem EndsLine.append {text : String} (before : String) (h : EndsLine text) :
    EndsLine (before ++ text) := by
  obtain ⟨c, cs, htext⟩ := h
  cases hbefore : before.toList with
  | nil => exact ⟨c, cs, by rw [String.toList_append, hbefore, htext]; rfl⟩
  | cons b bs => exact ⟨b, bs ++ c :: cs, by simp [hbefore, htext]⟩

theorem EndsStatement.append {text : String} (before : String) (h : EndsStatement text) :
    EndsStatement (before ++ text) := by
  obtain ⟨init, rfl | rfl⟩ := h
  · exact ⟨before ++ init, .inl (String.append_assoc ..).symm⟩
  · exact ⟨before ++ init, .inr (String.append_assoc ..).symm⟩

theorem EndsStatement.endsLine {text : String} (h : EndsStatement text) : EndsLine text := by
  obtain ⟨init, rfl | rfl⟩ := h
  · exact .append init ⟨';', [], rfl⟩
  · exact .append init ⟨'\x7d', [], rfl⟩

theorem endsStatement_block (i : Indent) (header body : String) :
    EndsStatement (i.block header body ++ "\n") := by
  rw [Indent.block, String.append_assoc]
  exact .append _ ⟨"\n", .inr rfl⟩

theorem EndsLine.ne_empty {text : String} (h : EndsLine text) : text ≠ "" := by
  rintro rfl
  obtain ⟨c, cs, htext⟩ := h
  cases htext

namespace Stmt

theorem hollow_suite_iff {ss : List Stmt} : (Stmt.suite ss).Hollow ↔ ∀ s ∈ ss, s.Hollow :=
  ⟨fun h => by cases h with | suite h => exact h, .suite⟩

theorem not_hollow_of_not_isSuite {s : Stmt} (h : s.isSuite = false) : ¬ s.Hollow := by
  rintro ⟨⟩
  cases h

end Stmt

/-- A text that is empty if a statement is hollow, and otherwise ends as it should. -/
def TextOf (Ends : String → Prop) (s : Stmt) (text : String) : Prop :=
  s.Hollow ∧ text = "" ∨ ¬ s.Hollow ∧ Ends text

theorem TextOf.join {Ends : String → Prop}
    (happend : ∀ before {text}, Ends text → Ends (before ++ text)) {ss : List Stmt}
    {texts : List String} (h : List.Forall₂ (TextOf Ends) ss texts) :
    TextOf Ends (.suite ss) (String.join texts) := by
  induction h with
  | nil => exact .inl ⟨.suite (List.forall_mem_nil _), rfl⟩
  | @cons s text ss texts hs _ ih =>
      simp only [TextOf, Stmt.hollow_suite_iff, List.forall_mem_cons, String.join_cons] at ih ⊢
      rcases ih with ⟨hhollow, hrest⟩ | ⟨hfull, hrest⟩
      · rcases hs with ⟨hs, htext⟩ | ⟨hs, htext⟩
        · exact .inl ⟨⟨hs, hhollow⟩, by rw [htext, hrest]; rfl⟩
        · refine .inr ⟨fun h => hs h.1, ?_⟩
          rw [hrest, String.append_empty]
          exact htext
      · exact .inr ⟨fun h => hfull h.2, happend text hrest⟩

theorem TextOf.iff {Ends : String → Prop} (hne : ∀ {text}, Ends text → text ≠ "") {s : Stmt}
    {text : String} (h : TextOf Ends s text) :
    (text = "" ↔ s.Hollow) ∧ (¬ s.Hollow → Ends text) := by
  rcases h with ⟨hhollow, htext⟩ | ⟨hfull, hends⟩
  · exact ⟨iff_of_true htext hhollow, fun hfull => absurd hhollow hfull⟩
  · exact ⟨iff_of_false (hne hends) hfull, fun _ => hends⟩

theorem Stmt.textOf_render (s : Stmt) : TextOf EndsLine s s.render := by
  induction s using Stmt.suiteInduction with
  | single s hs => exact .inr ⟨Stmt.not_hollow_of_not_isSuite hs, Stmt.endsLine_render hs⟩
  | suite ss ih =>
      rw [Stmt.render_suite]
      refine .join (fun before _ h => h.append before) ?_
      rw [List.forall₂_map_right_iff, List.forall₂_same]
      exact ih

/-! ## The lowered text

What is said of a result holds whatever the surroundings are, so they are only
passed along. -/

namespace Lower

variable {α β : Type} {P : α → Prop} {Q : β → Prop}

/-- Whatever the surroundings, a result is as `P` says. -/
def Gives (P : α → Prop) (m : Lower α) : Prop :=
  ∀ env a env', m env = (.ok a, env') → P a

namespace Gives

theorem pure {a : α} (h : P a) : Gives P (Pure.pure a) := by
  rintro env _ env' ⟨⟩
  exact h

theorem fail (node : String) (cause : Lowering.Cause) : Gives P (Lower.fail node cause) := by
  rintro env a env' ⟨⟩

theorem bind {m : Lower α} {f : α → Lower β} (h : Gives P m) (hf : ∀ a, P a → Gives Q (f a)) :
    Gives Q (m >>= f) := by
  intro env b env' hrun
  cases hm : m env with
  | mk r env₁ =>
      cases r with
      | error e => rw [bind_of_error hm] at hrun; cases hrun
      | ok a =>
          rw [bind_of_ok hm] at hrun
          exact hf a (h env a env₁ hm) env₁ b env' hrun

theorem bind_any {m : Lower α} {f : α → Lower β} (hf : ∀ a, Gives Q (f a)) :
    Gives Q (m >>= f) :=
  bind (P := fun _ => True) (fun _ _ _ _ => trivial) fun a _ => hf a

theorem withScope {body : Lower α} (h : Gives P body) : Gives P (Lower.withScope body) := by
  intro env a env' hrun
  have hresult : (body env.openScope).1 = .ok a := congrArg Prod.fst hrun
  exact h env.openScope a (body env.openScope).2 (Prod.ext hresult rfl)

end Gives

end Lower

section Lowered

open Lower

variable {i : Indent}

theorem Case.gives_lowerAll (cs : List Case) :
    Gives (fun text => text = "" ∨ EndsStatement text) (Case.lowerAll i cs) := by
  induction cs with
  | nil =>
      rw [Case.lowerAll]
      exact .pure (.inl rfl)
  | cons c cs ih =>
      obtain ⟨cond, body⟩ := c
      rw [Case.lowerAll]
      refine .bind_any fun cond => .bind_any fun body => ih.bind fun rest hrest => .pure (.inr ?_)
      rcases hrest with rfl | hrest
      · rw [String.append_empty]
        exact endsStatement_block ..
      · exact hrest.append _

/-- Each form but a suite has an end of its own. -/
theorem Stmt.gives_lower {s : Stmt} (h : s.isSuite = false) :
    Gives EndsStatement (s.lower i) := by
  match s with
  | .assign target true (.func params result body) =>
      rw [Stmt.lower]
      refine .bind_any fun _ => .bind_any fun header => ?_
      obtain ⟨ps, r⟩ := header
      refine .bind_any fun body => .pure ?_
      exact .append _ ⟨_, .inl rfl⟩
  | .assign target true (.num ..) | .assign target true (.str _)
  | .assign target true (.ident _) | .assign target true (.create ..)
  | .assign target true (.call ..) | .assign target false _ | .eval _ =>
      simp only [Stmt.lower]
      exact .bind_any fun _ => .pure ⟨_, .inl rfl⟩
  | .ret none =>
      rw [Stmt.lower]
      refine .bind_any fun env => ?_
      cases env.insideLoop with
      | true => exact Gives.fail "return" .returnInLoop
      | false => exact .pure ⟨"return", .inl rfl⟩
  | .ret (some value) =>
      rw [Stmt.lower]
      refine .bind_any fun env => ?_
      cases env.insideLoop with
      | true => exact Gives.fail _ .returnInLoop
      | false => exact .bind_any fun _ => .pure ⟨_, .inl rfl⟩
  | .brk =>
      rw [Stmt.lower]
      refine .bind_any fun env => .pure ?_
      cases env.insideLoop with
      | true => exact ⟨"return true", .inl rfl⟩
      | false => exact ⟨"break", .inl rfl⟩
  | .cont =>
      rw [Stmt.lower]
      refine .bind_any fun env => .pure ?_
      cases env.insideLoop with
      | true => exact ⟨"return false", .inl rfl⟩
      | false => exact ⟨"continue", .inl rfl⟩
  | .forEach item source body =>
      rw [Stmt.lower]
      refine .bind_any fun source => .bind_any fun body => .pure ?_
      exact .append _ ⟨")", .inl rfl⟩
  | .whileDo cond body =>
      rw [Stmt.lower]
      refine .bind_any fun source => .bind_any fun body => .pure ?_
      exact .append _ ⟨")", .inl rfl⟩
  | .branch cases none =>
      rw [Stmt.lower]
      refine (Case.gives_lowerAll cases).bind fun text htext => .pure ?_
      rcases htext with rfl | htext
      · exact ⟨"if (false) \x7b", .inr rfl⟩
      · exact htext.append _
  | .branch cases (some body) =>
      rw [Stmt.lower]
      refine .bind_any fun cases => .bind_any fun body => .pure ?_
      exact .append _ (endsStatement_block ..)
  | .suite _ => cases h

theorem Stmt.gives_lowersTo (s : Stmt) : Gives (s.LowersTo i) (s.lower i) :=
  fun env _ env' h => ⟨env, env', h⟩

theorem Stmt.gives_lowerAll (ss : List Stmt) :
    Gives (fun text => ∃ texts, List.Forall₂ (Stmt.LowersTo i) ss texts ∧
      text = String.join texts) (Stmt.lowerAll i ss) := by
  induction ss with
  | nil =>
      rw [Stmt.lowerAll]
      exact .pure ⟨[], .nil, rfl⟩
  | cons s ss ih =>
      rw [Stmt.lowerAll]
      refine s.gives_lowersTo.bind fun text htext => ih.bind fun rest hrest => .pure ?_
      obtain ⟨texts, htexts, rfl⟩ := hrest
      exact ⟨text :: texts, .cons htext htexts, String.join_cons.symm⟩

/-- A lowered suite is its statements lowered, one after the other. -/
theorem Stmt.LowersTo.exists_texts {ss : List Stmt} {text : String}
    (h : (Stmt.suite ss).LowersTo i text) :
    ∃ texts, List.Forall₂ (Stmt.LowersTo i) ss texts ∧ text = String.join texts := by
  obtain ⟨env, env', hrun⟩ := h
  rw [Stmt.lower] at hrun
  exact (Stmt.gives_lowerAll ss).withScope env text env' hrun

theorem Stmt.textOf_of_lowersTo (s : Stmt) :
    ∀ text, s.LowersTo i text → TextOf EndsStatement s text := by
  induction s using Stmt.suiteInduction with
  | single s hs =>
      rintro text ⟨env, env', hrun⟩
      exact .inr ⟨Stmt.not_hollow_of_not_isSuite hs, Stmt.gives_lower hs env text env' hrun⟩
  | suite ss ih =>
      intro text h
      obtain ⟨texts, htexts, rfl⟩ := h.exists_texts
      have hall := (List.forall₂_and_left ss texts).mpr ⟨ih, htexts⟩
      refine .join (fun before _ hends => hends.append before) ?_
      exact hall.imp fun s text h => h.1 text h.2

end Lowered

/-! ## Lines

A text that ends its last line leaves nothing for the text after it to go on with. -/

namespace Text

theorem getLastD_lines {text : String} (h : text = "" ∨ EndsLine text) :
    (lines text.toList).getLastD [] = [] := by
  rcases h with rfl | ⟨c, cs, htext⟩
  · rfl
  · rw [htext, ← List.cons_append, lines_append_newline (c :: cs) []]
    simp [lines]

theorem lines_append_of_endsLine {text : String} (h : text = "" ∨ EndsLine text)
    (rest : String) :
    lines (text ++ rest).toList = endedLines text ++ lines rest.toList := by
  obtain ⟨l, ls, hl⟩ := List.exists_cons_of_ne_nil (lines_ne_nil rest.toList)
  rw [String.toList_append, lines_append, getLastD_lines h, hl]
  rfl

theorem lines_join {texts : List String} (h : ∀ text ∈ texts, text = "" ∨ EndsLine text) :
    lines (String.join texts).toList = texts.flatMap endedLines ++ [[]] := by
  induction texts with
  | nil => rfl
  | cons text texts ih =>
      obtain ⟨htext, htexts⟩ := List.forall_mem_cons.mp h
      rw [String.join_cons, lines_append_of_endsLine htext, ih htexts, List.flatMap_cons,
        List.append_assoc]

/-- Of lines without newlines, each changed in a way that can be undone, a text
keeps all but the newline that is left out. -/
theorem dropFinalNewline_eq_of_mapLines_eq {f : List Char → List Char}
    (hf : Function.Injective f) (hnewline : ∀ l, '\n' ∉ l → '\n' ∉ f l) {text text' : String}
    (h : mapLines f text = mapLines f text') :
    dropFinalNewline text.toList = dropFinalNewline text'.toList := by
  have hlines : ∀ cs : List Char, lines (unlines ((lines cs).map f)) = (lines cs).map f := by
    intro cs
    refine lines_unlines (fun hnil => lines_ne_nil cs (List.map_eq_nil_iff.mp hnil)) ?_
    exact List.forall_mem_map.mpr fun l hl => hnewline l (newline_not_mem_of_mem_lines hl)
  have hcut := congrArg lines (String.ofList_injective h)
  rw [hlines, hlines] at hcut
  have hsame := List.map_injective_iff.mpr hf hcut
  rw [← unlines_lines (dropFinalNewline text.toList), hsame, unlines_lines]

theorem shiftFilled_line_injective (unit : List Char) :
    Function.Injective fun l : List Char => if l.isEmpty then [] else unit ++ l := by
  intro l l' h
  cases l with
  | nil =>
      cases l' with
      | nil => rfl
      | cons c' cs' => exact absurd h.symm (List.append_ne_nil_of_right_ne_nil unit (by simp))
  | cons c cs =>
      cases l' with
      | nil => exact absurd h (List.append_ne_nil_of_right_ne_nil unit (by simp))
      | cons c' cs' => exact List.append_cancel_left h

end Text

/-- A body shows all of a text that ends its lines. -/
theorem Form.body_inj {text text' : String} (ht : text = "" ∨ EndsLine text)
    (ht' : text' = "" ∨ EndsLine text') (h : Form.body text = Form.body text') :
    text = text' := by
  refine eq_of_dropFinalNewline_eq ht ht' ?_
  refine Text.dropFinalNewline_eq_of_mapLines_eq (List.append_right_injective _) ?_ h
  intro l hl
  simp [hl]

theorem Indent.shift_inj (i : Indent) {text text' : String} (ht : text = "" ∨ EndsLine text)
    (ht' : text' = "" ∨ EndsLine text') (h : i.shift text = i.shift text') : text = text' := by
  refine eq_of_dropFinalNewline_eq ht ht' ?_
  refine Text.dropFinalNewline_eq_of_mapLines_eq (Text.shiftFilled_line_injective _) ?_ h
  intro l hl
  split
  · exact List.not_mem_nil
  · exact fun hmem => (List.mem_append.mp hmem).elim i.newline_not_mem_unit hl

theorem TextOf.eq_or_endsLine {Ends : String → Prop}
    (hends : ∀ {text}, Ends text → EndsLine text) {s : Stmt} {text : String}
    (h : TextOf Ends s text) : text = "" ∨ EndsLine text :=
  h.imp And.right fun h => hends h.2

theorem Stmt.LowersTo.eq_or_endsLine {i : Indent} {s : Stmt} {text : String}
    (h : s.LowersTo i text) : text = "" ∨ EndsLine text :=
  (s.textOf_of_lowersTo text h).eq_or_endsLine EndsStatement.endsLine

/-- The diagnostic and the lowered text of a statement are empty exactly if the
statement is a suite of nothing but such suites. Otherwise the lowered one ends with
a semicolon or a brace and a newline, and the diagnostic one with a newline that is
not all of it. So the lines of a suite are those of its statements, none of which
shares a line with another; and a body shows all of the text that it was made from. -/
theorem Stmt.texts_end_lines :
    (∀ s : Stmt, (s.render = "" ↔ s.Hollow) ∧ (¬ s.Hollow → EndsLine s.render)) ∧
    (∀ (i : Indent) (s : Stmt) (text : String), s.LowersTo i text →
      (text = "" ↔ s.Hollow) ∧ (¬ s.Hollow → EndsStatement text)) ∧
    (∀ ss : List Stmt, Text.lines (Stmt.suite ss).render.toList
      = (ss.map Stmt.render).flatMap Text.endedLines ++ [[]]) ∧
    (∀ (i : Indent) (ss : List Stmt) (text : String), (Stmt.suite ss).LowersTo i text →
      ∃ texts, List.Forall₂ (Stmt.LowersTo i) ss texts ∧ text = String.join texts ∧
        Text.lines text.toList = texts.flatMap Text.endedLines ++ [[]]) ∧
    (∀ s s' : Stmt, Form.body s.render = Form.body s'.render → s.render = s'.render) ∧
    (∀ (i : Indent) (s s' : Stmt) (text text' : String), s.LowersTo i text →
      s'.LowersTo i text' → i.shift text = i.shift text' → text = text') := by
  refine ⟨fun s => ?_, fun i s text h => ?_, fun ss => ?_, fun i ss text h => ?_, ?_, ?_⟩
  · exact s.textOf_render.iff EndsLine.ne_empty
  · exact (s.textOf_of_lowersTo text h).iff fun hends => hends.endsLine.ne_empty
  · rw [Stmt.render_suite]
    refine Text.lines_join (List.forall_mem_map.mpr fun s _ => ?_)
    exact s.render_eq_or_endsLine
  · obtain ⟨texts, htexts, rfl⟩ := h.exists_texts
    refine ⟨texts, htexts, rfl, Text.lines_join ?_⟩
    exact Lowering.forall_mem_of_forall₂ (htexts.imp fun _ _ h => h.eq_or_endsLine)
  · intro s s' h
    exact Form.body_inj s.render_eq_or_endsLine s'.render_eq_or_endsLine h
  · intro i s s' text text' hs hs' h
    exact i.shift_inj hs.eq_or_endsLine hs'.eq_or_endsLine h

/-- A suite that ends with a hollow one still ends its last line. -/
theorem Stmt.texts_end_lines_hollow :
    let s := Stmt.suite [.whileDo (.ident "c") .brk, .suite [.suite []]]
    let text := "loop_while([&]() \x7b return c; \x7d, [&]() -> bool \x7b\n" ++
      "\treturn true;\n\treturn false;\n\x7d);\n"
    ¬ s.Hollow ∧ EndsLine s.render ∧ s.LowersTo .tabs text ∧ EndsStatement text := by
  intro s text
  have hfull : ¬ s.Hollow := by
    intro h
    exact Stmt.not_hollow_of_not_isSuite rfl (Stmt.hollow_suite_iff.mp h _ List.mem_cons_self)
  have hlowers : s.LowersTo .tabs text :=
    ⟨Lowering.Env.start Descriptor.empty, Lowering.Env.start Descriptor.empty, by rfl⟩
  obtain ⟨hrender, hlower, -⟩ := Stmt.texts_end_lines
  exact ⟨hfull, (hrender s).2 hfull, hlowers, (hlower .tabs s text hlowers).2 hfull⟩

end TreeIR
