import TreeIR.Proofs.LexicalScope

/-!
# The indentation is only a margin

A caller chooses how far a body is shifted. The choice is put to use in the
middle of the lowering, by cutting texts that are already written into lines
and joining them again, and those texts hold names, digits and a preamble that
may have spaces and newlines of their own. Still the choice decides nothing but
the margin: there is one list of lines, each with the number of steps it stands
to the right, and the text under any indentation is that list with the margins
filled in.

A text is put together in three ways, and the lines have to be followed through
each. Writing one text after another makes one line of the last line of the
first and the first line of the second, which is again some steps and a content
only if the second starts with no margin; so `LaidOut` asks that of every text.
Shifting a body moves its lines one step, except that an empty line stays, and
a final empty line is left out. Whether a line is empty must not depend on the
indentation, and it does not because an empty content has no margin: otherwise
a step of no spaces would make a line empty that is not so under others.
-/

namespace TreeIR

namespace Text

theorem lines_cons (c : Char) (cs : List Char) :
    lines (c :: cs) = if c = '\n' then [] :: lines cs else (lines cs).modifyHead (c :: ·) := by
  rw [lines]
  cases hl : lines cs with
  | nil => exact absurd hl (lines_ne_nil cs)
  | cons l ls => rfl

theorem lines_eq_splitOn (cs : List Char) : lines cs = cs.splitOn '\n' := by
  induction cs with
  | nil => rfl
  | cons c cs ih => simp only [lines_cons, List.splitOn_cons_eq_if_modifyHead, beq_iff_eq, ih]

theorem unlines_cons (l : List Char) {ls : List (List Char)} (h : ls ≠ []) :
    unlines (l :: ls) = l ++ '\n' :: unlines ls := by
  cases ls with
  | nil => exact absurd rfl h
  | cons l' ls => rfl

theorem unlines_map_cons {α : Type} (f : α → List Char) (a : α) {as : List α} (h : as ≠ []) :
    unlines ((a :: as).map f) = f a ++ '\n' :: unlines (as.map f) :=
  unlines_cons (f a) fun hnil => h (List.map_eq_nil_iff.mp hnil)

theorem unlines_append_cons (l l' : List Char) (ls : List (List Char)) :
    unlines ((l ++ l') :: ls) = l ++ unlines (l' :: ls) := by
  cases ls with
  | nil => rfl
  | cons m ms => exact List.append_assoc _ _ _

theorem unlines_eq_intercalate (ls : List (List Char)) :
    unlines ls = ['\n'].intercalate ls := by
  induction ls with
  | nil => rfl
  | cons l ls ih =>
      cases ls with
      | nil => simp [unlines]
      | cons l' ls =>
          rw [unlines_cons l (List.cons_ne_nil l' ls), ih, List.intercalate_cons_cons,
            List.append_assoc]
          rfl

theorem lines_unlines {ls : List (List Char)} (hne : ls ≠ []) (h : ∀ l ∈ ls, '\n' ∉ l) :
    lines (unlines ls) = ls := by
  rw [lines_eq_splitOn, unlines_eq_intercalate]
  exact List.splitOn_intercalate '\n' h hne

theorem lines_of_not_mem {l : List Char} (h : '\n' ∉ l) : lines l = [l] :=
  lines_unlines (List.cons_ne_nil l []) (List.forall_mem_singleton.mpr h)

/-- Two texts one after the other: the last line of the first goes on with the
first line of the second. -/
theorem lines_append (cs cs' : List Char) :
    lines (cs ++ cs')
      = (lines cs).dropLast ++ (lines cs').modifyHead ((lines cs).getLastD [] ++ ·) := by
  induction cs with
  | nil =>
      obtain ⟨l, ls, hl⟩ := List.exists_cons_of_ne_nil (lines_ne_nil cs')
      rw [List.nil_append, hl]
      rfl
  | cons c cs ih =>
      obtain ⟨l, ls, hl⟩ := List.exists_cons_of_ne_nil (lines_ne_nil cs)
      rw [List.cons_append, lines_cons, lines_cons, ih, hl]
      split
      · rfl
      · cases ls with
        | nil => cases lines cs' <;> rfl
        | cons m ms => rfl

/-- A newline between two texts keeps their lines apart. -/
theorem lines_append_newline (cs cs' : List Char) :
    lines (cs ++ '\n' :: cs') = lines cs ++ lines cs' := by
  have hlines := List.dropLast_concat_getLast (lines_ne_nil cs)
  rw [lines_append, lines_cons, if_pos rfl, List.modifyHead_cons, List.append_nil,
    List.append_cons, List.getLastD_eq_getLast?, List.getLast?_eq_some_getLast (lines_ne_nil cs),
    Option.getD_some, hlines]

theorem newline_not_mem_of_mem_lines {cs l : List Char} (h : l ∈ lines cs) : '\n' ∉ l := by
  induction cs generalizing l with
  | nil =>
      rw [lines, List.mem_singleton] at h
      rw [h]
      exact List.not_mem_nil
  | cons c cs ih =>
      obtain ⟨first, rest, hl⟩ := List.exists_cons_of_ne_nil (lines_ne_nil cs)
      rw [hl] at ih
      rw [lines_cons, hl] at h
      split at h
      · rcases List.mem_cons.mp h with rfl | h
        · exact List.not_mem_nil
        · exact ih h
      · next hc =>
          rcases List.mem_cons.mp h with rfl | h
          · rw [List.mem_cons, not_or]
            exact ⟨Ne.symm hc, ih List.mem_cons_self⟩
          · exact ih (List.mem_cons_of_mem first h)

/-- Leaves out the last of several entries if the test holds of it. -/
def dropLastIf {α : Type} (p : α → Bool) : List α → List α
  | a :: b :: l => if l.isEmpty && p b then [a] else a :: dropLastIf p (b :: l)
  | l => l

theorem dropLastIf_ne_nil {α : Type} {p : α → Bool} {l : List α} (h : l ≠ []) :
    dropLastIf p l ≠ [] := by
  unfold dropLastIf
  split
  · split <;> exact List.cons_ne_nil _ _
  · exact h

theorem dropLastIf_map {α β : Type} {p : α → Bool} {q : β → Bool} {f : α → β}
    (h : ∀ a, q (f a) = p a) (l : List α) :
    dropLastIf q (l.map f) = (dropLastIf p l).map f := by
  fun_induction dropLastIf p l with
  | case1 a b l hlast => simp only [List.map_cons, dropLastIf, List.isEmpty_map, h, hlast]; rfl
  | case2 a b l hlast ih =>
      rw [List.map_cons] at ih
      simp only [List.map_cons, dropLastIf, List.isEmpty_map, h, hlast, ih]
      rfl
  | case3 l hshort =>
      cases l with
      | nil => rfl
      | cons a l =>
          cases l with
          | nil => rfl
          | cons b l => exact absurd rfl (hshort a b l)

/-- A final newline ends a line without opening another. -/
theorem lines_dropFinalNewline (cs : List Char) :
    lines (dropFinalNewline cs) = dropLastIf List.isEmpty (lines cs) := by
  fun_induction dropFinalNewline cs with
  | case1 => rfl
  | case2 => rfl
  | case3 c hc => simp [lines, hc, dropLastIf]
  | case4 c cs hcs ih =>
      obtain ⟨l, ls, hl⟩ := List.exists_cons_of_ne_nil (lines_ne_nil cs)
      -- There is more to come, so the lines after this character are not one empty line.
      have hmore : ¬ (ls.isEmpty && l.isEmpty) = true := by
        rw [Bool.and_eq_true, List.isEmpty_iff, List.isEmpty_iff]
        rintro ⟨rfl, rfl⟩
        exact hcs (by rw [← unlines_lines cs, hl]; rfl)
      rw [lines_cons, lines_cons, ih, hl]
      split
      · rw [dropLastIf, if_neg hmore]
      · cases ls with
        | nil => rfl
        | cons m ms =>
            rw [List.modifyHead_cons, dropLastIf, dropLastIf]
            split <;> rfl

end Text

/-- A line and the number of steps it stands to the right. -/
structure Line where
  level : Nat
  content : List Char
  newline_not_mem : '\n' ∉ content
  /-- An empty line has no margin. -/
  level_eq_zero : content = [] → level = 0

namespace Line

variable {unit : String}

/-- The line with its margin. -/
def text (unit : String) (l : Line) : List Char :=
  (List.replicate l.level unit.toList).flatten ++ l.content

/-- A line without indentation. -/
def flush (content : List Char) (h : '\n' ∉ content) : Line :=
  ⟨0, content, h, fun _ => rfl⟩

/-- The line one step further to the right. -/
def shift (l : Line) : Line where
  level := if l.content.isEmpty then 0 else l.level + 1
  content := l.content
  newline_not_mem := l.newline_not_mem
  level_eq_zero h := by rw [h]; rfl

/-- The line with the content of another one after its own. -/
def append (l m : Line) : Line where
  level := l.level
  content := l.content ++ m.content
  newline_not_mem h := (List.mem_append.mp h).elim l.newline_not_mem m.newline_not_mem
  level_eq_zero h := l.level_eq_zero (List.append_eq_nil_iff.mp h).1

theorem text_of_level_eq_zero {l : Line} (h : l.level = 0) : l.text unit = l.content := by
  rw [text, h]
  rfl

theorem text_append (l : Line) {m : Line} (h : m.level = 0) :
    (l.append m).text unit = l.text unit ++ m.text unit := by
  rw [text_of_level_eq_zero h, text, text, List.append_assoc]
  rfl

theorem isEmpty_text (l : Line) : (l.text unit).isEmpty = l.content.isEmpty := by
  cases hc : l.content with
  | nil => rw [text_of_level_eq_zero (l.level_eq_zero hc), hc]
  | cons c cs =>
      rw [List.isEmpty_cons, List.isEmpty_eq_false_iff, text, hc]
      exact List.append_ne_nil_of_right_ne_nil _ (List.cons_ne_nil c cs)

theorem text_shift (l : Line) :
    l.shift.text unit = if (l.text unit).isEmpty then [] else unit.toList ++ l.text unit := by
  rw [isEmpty_text]
  by_cases hc : l.content.isEmpty = true
  · rw [if_pos hc, text_of_level_eq_zero (if_pos hc)]
    exact List.isEmpty_iff.mp hc
  · have hlevel : l.shift.level = l.level + 1 := if_neg hc
    rw [if_neg hc, text, text, hlevel, List.replicate_succ, List.flatten_cons, List.append_assoc]
    rfl

theorem newline_not_mem_text (h : '\n' ∉ unit.toList) (l : Line) : '\n' ∉ l.text unit := by
  intro hmem
  rcases List.mem_append.mp hmem with hmargin | hcontent
  · obtain ⟨step, hstep, hmem⟩ := List.mem_flatten.mp hmargin
    rw [List.eq_of_mem_replicate hstep] at hmem
    exact h hmem
  · exact l.newline_not_mem hcontent

end Line

/-- The text of some lines under an indentation by `unit`. -/
def layOut (unit : String) (lines : List Line) : String :=
  String.ofList (Text.unlines (lines.map (Line.text unit)))

/-- The first line stands to the left. -/
def StartsFlush : List Line → Prop
  | [] => False
  | l :: _ => l.level = 0

/-- The lines of two texts written one after the other. -/
def appendLines : List Line → List Line → List Line
  | l :: l' :: ls, ms => l :: appendLines (l' :: ls) ms
  | [l], m :: ms => l.append m :: ms
  | [l], [] => [l]
  | [], ms => ms

theorem StartsFlush.ne_nil {ls : List Line} (h : StartsFlush ls) : ls ≠ [] := by
  rintro rfl
  exact h

theorem StartsFlush.appendLines {ls ms : List Line} (h : StartsFlush ls) :
    StartsFlush (appendLines ls ms) := by
  fun_cases TreeIR.appendLines ls ms with
  | case1 l l' ls => exact h
  | case2 l m ms => exact h
  | case3 l => exact h
  | case4 => exact h.elim

theorem appendLines_ne_nil {ls : List Line} (h : ls ≠ []) (ms : List Line) :
    appendLines ls ms ≠ [] := by
  fun_cases appendLines ls ms with
  | case1 l l' ls => exact List.cons_ne_nil _ _
  | case2 l m ms => exact List.cons_ne_nil _ _
  | case3 l => exact h
  | case4 => exact absurd rfl h

theorem unlines_appendLines {unit : String} (ls : List Line) {ms : List Line}
    (h : StartsFlush ms) :
    Text.unlines ((appendLines ls ms).map (Line.text unit))
      = Text.unlines (ls.map (Line.text unit)) ++ Text.unlines (ms.map (Line.text unit)) := by
  fun_induction appendLines ls ms with
  | case1 l l' ls ms ih =>
      have hne := appendLines_ne_nil (List.cons_ne_nil l' ls) ms
      rw [Text.unlines_map_cons _ l hne, Text.unlines_map_cons _ l (List.cons_ne_nil l' ls), ih h,
        List.append_assoc]
      rfl
  | case2 l m ms =>
      rw [List.map_cons, Line.text_append l h, Text.unlines_append_cons]
      rfl
  | case3 l => exact h.elim
  | case4 ms => rfl

theorem layOut_appendLines {unit : String} (ls : List Line) {ms : List Line}
    (h : StartsFlush ms) :
    layOut unit (appendLines ls ms) = layOut unit ls ++ layOut unit ms := by
  rw [layOut, unlines_appendLines ls h, String.ofList_append]
  rfl

theorem layOut_blank_cons {unit : String} {ls : List Line} (h : ls ≠ []) :
    layOut unit (Line.flush [] List.not_mem_nil :: ls) = "\n" ++ layOut unit ls := by
  rw [layOut, Text.unlines_map_cons _ _ h, Line.text_of_level_eq_zero rfl]
  exact (String.ofList_append : String.ofList (['\n'] ++ Text.unlines _) = _)

/-! ## Texts under every indentation

A text is taken as a function of the indentation. It is laid out if one list of lines with
levels gives it for all of them. -/

theorem Indent.newline_not_mem_unit (i : Indent) : '\n' ∉ i.unit.toList := by
  cases i with
  | spaces width =>
      rw [unit, String.toList_ofList]
      intro h
      exact absurd (List.eq_of_mem_replicate h) (by decide)
  | tabs => decide

theorem lines_layOut (i : Indent) {ls : List Line} (h : ls ≠ []) :
    Text.lines (layOut i.unit ls).toList = ls.map (Line.text i.unit) := by
  rw [layOut, String.toList_ofList]
  refine Text.lines_unlines (fun hnil => h (List.map_eq_nil_iff.mp hnil)) fun text htext => ?_
  obtain ⟨l, _, rfl⟩ := List.mem_map.mp htext
  exact l.newline_not_mem_text i.newline_not_mem_unit

/-- A text that is the same under every indentation but for the margins. -/
def LaidOut (text : Indent → String) : Prop :=
  ∃ lines, StartsFlush lines ∧ ∀ i : Indent, text i = layOut i.unit lines

namespace LaidOut

variable {text text' : Indent → String}

theorem const (s : String) : LaidOut fun _ => s := by
  refine ⟨(Text.lines s.toList).pmap Line.flush fun l hl => Text.newline_not_mem_of_mem_lines hl,
    ?_, fun i => ?_⟩
  · obtain ⟨l, ls, hl⟩ := List.exists_cons_of_ne_nil (Text.lines_ne_nil s.toList)
    simp only [hl]
    rfl
  · have htext : ∀ l (h : '\n' ∉ l), (Line.flush l h).text i.unit = l :=
      fun l h => Line.text_of_level_eq_zero rfl
    simp only [layOut, List.map_pmap, htext, List.pmap_eq_map, List.map_id', Text.unlines_lines,
      String.ofList_toList]

theorem append (h : LaidOut text) (h' : LaidOut text') : LaidOut fun i => text i ++ text' i := by
  obtain ⟨ls, hls, heq⟩ := h
  obtain ⟨ms, hms, heq'⟩ := h'
  refine ⟨appendLines ls ms, hls.appendLines, fun i => ?_⟩
  rw [layOut_appendLines ls hms, ← heq, ← heq']

/-- A shifted body has margins from its first line on, so it is the newline
before it that starts flush. -/
theorem shift (h : LaidOut text) : LaidOut fun i => "\n" ++ i.shift (text i) := by
  obtain ⟨ls, hls, heq⟩ := h
  let body := Text.dropLastIf (fun l : Line => l.content.isEmpty) ls
  have hne : body.map Line.shift ≠ [] := fun hnil =>
    Text.dropLastIf_ne_nil hls.ne_nil (List.map_eq_nil_iff.mp hnil)
  refine ⟨Line.flush [] List.not_mem_nil :: body.map Line.shift, rfl, fun i => ?_⟩
  have hcut : Text.lines (Text.dropFinalNewline (text i).toList) = body.map (Line.text i.unit) := by
    rw [Text.lines_dropFinalNewline, heq, lines_layOut i hls.ne_nil]
    exact Text.dropLastIf_map Line.isEmpty_text ls
  have hshift : i.shift (text i) = layOut i.unit (body.map Line.shift) := by
    rw [Indent.shift, Text.shiftFilled, Text.mapLines, hcut, layOut, List.map_map, List.map_map]
    exact congrArg _ (congrArg _ (List.map_congr_left fun l _ => l.text_shift.symm))
  rw [layOut_blank_cons hne, ← hshift]

theorem block {header body : Indent → String} (hheader : LaidOut header) (hbody : LaidOut body) :
    LaidOut fun i => i.block (header i) (body i) := by
  have hsplit : ∀ i : Indent, i.block (header i) (body i)
      = header i ++ " \x7b" ++ ("\n" ++ i.shift (body i)) ++ "\n\x7d" := by
    intro i
    have hopen : header i ++ " \x7b\n" = header i ++ " \x7b" ++ "\n" := by
      rw [String.append_assoc]
      rfl
    simp only [Indent.block, hopen, String.append_assoc]
  simp only [hsplit]
  exact ((hheader.append (const _)).append hbody.shift).append (const _)

/-! Texts that are written one after the other, with or without something
between them. -/

theorem join {α : Type} {text : Indent → α → String} {as : List α}
    (h : ∀ a ∈ as, LaidOut fun i => text i a) : LaidOut fun i => String.join (as.map (text i)) := by
  induction as with
  | nil => exact const ""
  | cons a as ih =>
      simp only [List.map_cons, String.join_cons]
      exact (h a List.mem_cons_self).append (ih fun b hb => h b (List.mem_cons_of_mem a hb))

theorem commas {α : Type} {text : Indent → α → String} {as : List α}
    (h : ∀ a ∈ as, LaidOut fun i => text i a) :
    LaidOut fun i => Target.commas (as.map (text i)) := by
  induction as with
  | nil => exact const ""
  | cons a as ih =>
      have ha := h a List.mem_cons_self
      cases as with
      | nil => exact ha
      | cons b bs =>
          simp only [Target.commas, List.map_cons, String.intercalate_cons_cons] at ih ⊢
          exact (ha.append (const _)).append (ih fun b hb => h b (List.mem_cons_of_mem a hb))

/-! ## Forms

Most of a form is text that stands around one or two others. -/

variable {value body : Indent → String}

theorem between (before after : String) (h : LaidOut value) :
    LaidOut fun i => before ++ value i ++ after :=
  ((const before).append h).append (const after)

theorem declare (name : String) (h : LaidOut value) :
    LaidOut fun i => Target.declare name (value i) :=
  h.between _ _

theorem binding (place : Nat) (h : LaidOut value) :
    LaidOut fun i => Target.binding place (value i) :=
  h.between _ _

theorem bound {bindings application : Indent → String} (hbindings : LaidOut bindings)
    (happlication : LaidOut application) :
    LaidOut fun i => Target.bound i (bindings i) (application i) :=
  have hbody := ((hbindings.append (const _)).append happlication).append (const _)
  ((const _).block hbody).between _ _

theorem wrapper (name : String) (names params : List String) (result : String) :
    LaidOut fun i => Target.wrapper i name names params result :=
  (const _).block (const _)

theorem define (name : String) (names params : List String) (result : String) (h : LaidOut body) :
    LaidOut fun i => Target.define i name names params result (body i) :=
  have hwrapper := (wrapper name names params result).declare name
  (((const _).block (hwrapper.append h)).declare _).append hwrapper

theorem forEach (item : String) (hsource : LaidOut value) (hbody : LaidOut body) :
    LaidOut fun i => Target.forEach i item (value i) (body i) :=
  have hcallback := (const _).block (hbody.append (const _))
  ((hsource.between _ _).append hcallback).append (const _)

theorem whileDo (hcond : LaidOut value) (hbody : LaidOut body) :
    LaidOut fun i => Target.whileDo i (value i) (body i) :=
  have hcallback := (const _).block (hbody.append (const _))
  ((hcond.between _ _).append hcallback).append (const _)

theorem case (hcond : LaidOut value) (hbody : LaidOut body) :
    LaidOut fun i => Target.case i (value i) (body i) :=
  ((hcond.between _ _).block hbody).append (const _)

theorem fallback (h : LaidOut body) : LaidOut fun i => Target.fallback i (body i) :=
  ((const _).block h).append (const _)

end LaidOut

/-! ## Results under every indentation

A lowering that fails does so under every indentation, with the same error.
What it gives otherwise is a text or, on the way, a list of texts; `P` says of
it that it does not depend on the indentation but for the margins. -/

namespace Lowering

variable {α β γ : Type} {P : (Indent → α) → Prop} {Q : (Indent → β) → Prop}

/-- One error under every indentation, or values that are as `P` says. -/
def Uniform (P : (Indent → α) → Prop) (r : Indent → Except Error α) : Prop :=
  (∃ e, ∀ i, r i = .error e) ∨ ∃ a, P a ∧ ∀ i, r i = .ok (a i)

/-- Texts of one number, each laid out. -/
def AllLaidOut (texts : Indent → List String) : Prop :=
  ∃ ts : List (Indent → String), (∀ t ∈ ts, LaidOut t) ∧ ∀ i, texts i = ts.map (· i)

namespace Uniform

theorem ok {a : Indent → α} (h : P a) : Uniform P fun i => .ok (a i) :=
  .inr ⟨a, h, fun _ => rfl⟩

theorem error (e : Error) : Uniform P fun _ => .error e :=
  .inl ⟨e, fun _ => rfl⟩

theorem bind {r : Indent → Except Error α} {f : Indent → α → Except Error β} (h : Uniform P r)
    (hf : ∀ a, P a → Uniform Q fun i => f i (a i)) : Uniform Q fun i => r i >>= f i := by
  rcases h with ⟨e, he⟩ | ⟨a, ha, hok⟩
  · simp only [he]
    exact error e
  · simp only [hok]
    exact hf a ha

/-- A step that has nothing to do with the indentation. -/
theorem bind_const {r : Except Error γ} {f : Indent → γ → Except Error β}
    (hf : ∀ c, Uniform Q fun i => f i c) : Uniform Q fun i => r >>= f i := by
  cases r with
  | error e => exact error e
  | ok c => exact hf c

theorem const (r : Except Error String) : Uniform LaidOut fun _ => r := by
  cases r with
  | error e => exact error e
  | ok s => exact ok (.const s)

theorem mapM {f : Indent → γ → Except Error String} {cs : List γ}
    (h : ∀ c ∈ cs, Uniform LaidOut fun i => f i c) :
    Uniform AllLaidOut fun i => cs.mapM (f i) := by
  induction cs with
  | nil => exact ok ⟨[], fun t ht => absurd ht List.not_mem_nil, fun _ => rfl⟩
  | cons c cs ih =>
      simp only [List.mapM_cons]
      refine (h c List.mem_cons_self).bind fun t ht => ?_
      refine (ih fun c' hc' => h c' (List.mem_cons_of_mem c hc')).bind fun texts htexts => ?_
      obtain ⟨ts, hts, heq⟩ := htexts
      refine ok ⟨t :: ts, fun t' ht' => ?_, fun i => congrArg (t i :: ·) (heq i)⟩
      rcases List.mem_cons.mp ht' with rfl | ht'
      · exact ht
      · exact hts t' ht'

end Uniform

namespace AllLaidOut

variable {texts : Indent → List String}

theorem commas (h : AllLaidOut texts) : LaidOut fun i => Target.commas (texts i) := by
  obtain ⟨ts, hts, heq⟩ := h
  simp only [heq]
  exact .commas hts

theorem bindings (h : AllLaidOut texts) :
    LaidOut fun i => String.join ((texts i).mapIdx Target.binding) := by
  obtain ⟨ts, hts, heq⟩ := h
  simp only [heq, List.mapIdx_eq_zipIdx_map, List.zipIdx_map, List.map_map]
  refine .join fun t ht => ?_
  exact (hts t.1 (List.fst_mem_of_mem_zipIdx ht)).binding t.2

end AllLaidOut

theorem uniform_application {value : Indent → γ → Except Error String} {cs : List γ}
    (h : ∀ c ∈ cs, Uniform LaidOut fun i => value i c) (direct : Bool) (order : List Nat)
    {callee : String → String}
    (hcallee : ∀ args, LaidOut args → LaidOut fun i => callee (args i)) :
    Uniform LaidOut fun i => application i direct order (cs.map (value i)) callee := by
  cases direct with
  | true =>
      have hpassed : Uniform AllLaidOut fun i =>
          order.mapM fun place => (cs.map (value i)).getD place (.ok "") := by
        refine .mapM fun place _ => ?_
        simp only [List.getD_eq_getElem?_getD, List.getElem?_map]
        cases hc : cs[place]? with
        | none => exact .ok (.const "")
        | some c => exact h c (List.mem_of_getElem? hc)
      refine hpassed.bind fun texts htexts => ?_
      exact .ok ((hcallee _ htexts.commas).between _ _)
  | false =>
      have htexts : Uniform AllLaidOut fun i => (cs.map (value i)).mapM id := by
        simp only [List.mapM_map]
        exact .mapM h
      refine htexts.bind fun texts htexts => ?_
      exact .ok (htexts.bindings.bound (hcallee _ (.const _)))

end Lowering

/-! ## Lowering

What fails, which form is written and how arguments are passed is decided by
the tree and the view, so each case below only has to put laid out texts
together. -/

open Lowering

variable {d : Descriptor}

mutual

theorem Expr.uniform_lowerIn (v : View) (e : Expr) :
    Uniform LaidOut fun i => e.lowerIn d i v := by
  match e with
  | .num .. | .str _ | .ident _ =>
      simp only [Expr.lowerIn]
      exact .const _
  | .func params result body =>
      simp only [Expr.lowerIn]
      refine .bind_const fun signature => ?_
      refine (body.uniform_lowerIn v.functionBody).bind fun text htext => ?_
      exact .ok ((LaidOut.const _).block htext)
  | .create ty args =>
      simp only [Expr.lowerIn, Arg.lowerAllIn_eq_map]
      cases d.initParamsOf ty.name with
      | none => exact .error _
      | some declared =>
          refine .bind_const fun order => .bind_const fun head => ?_
          refine uniform_application (Arg.uniform_lowerAllIn v args) _ _ fun texts htexts => ?_
          exact htexts.between _ _
  | .call callee args =>
      simp only [Expr.lowerIn, Arg.lowerAllIn_eq_map]
      cases v.paramsOf callee with
      | none => exact .error _
      | some declared =>
          refine .bind_const fun order => ?_
          refine uniform_application (Arg.uniform_lowerAllIn v args) _ _ fun texts htexts => ?_
          exact htexts.between _ _

theorem Arg.uniform_lowerAllIn (v : View) (as : List Arg) :
    ∀ a ∈ as, Uniform LaidOut fun i => a.value.lowerIn d i v := by
  match as with
  | [] => exact fun a ha => absurd ha List.not_mem_nil
  | ⟨_, value⟩ :: as =>
      exact List.forall_mem_cons.mpr ⟨value.uniform_lowerIn v, Arg.uniform_lowerAllIn v as⟩

theorem Stmt.uniform_lowerIn (v : View) (s : Stmt) :
    Uniform LaidOut fun i => s.lowerIn d i v := by
  match s with
  | .assign target true (.func params result body) =>
      simp only [Stmt.lowerIn]
      refine .bind_const fun signature => ?_
      refine (body.uniform_lowerIn _).bind fun text htext => ?_
      exact .ok (htext.define target _ _ _)
  | .assign target true (.num ..) | .assign target true (.str _)
  | .assign target true (.ident _) | .assign target true (.create ..)
  | .assign target true (.call ..) =>
      simp only [Stmt.lowerIn]
      exact (Expr.uniform_lowerIn v _).bind fun text htext => .ok (htext.declare target)
  | .assign target false value =>
      simp only [Stmt.lowerIn]
      refine (value.uniform_lowerIn v).bind fun text htext => ?_
      exact .ok (htext.between _ _)
  | .eval value =>
      simp only [Stmt.lowerIn]
      refine (value.uniform_lowerIn v).bind fun text htext => ?_
      exact .ok (htext.append (.const _))
  | .forEach item source body =>
      simp only [Stmt.lowerIn]
      refine (source.uniform_lowerIn v).bind fun sourceText hsource => ?_
      refine (body.uniform_lowerIn v.loopBody).bind fun text htext => ?_
      exact .ok (hsource.forEach item htext)
  | .whileDo cond body =>
      simp only [Stmt.lowerIn]
      refine (cond.uniform_lowerIn v).bind fun condText hcond => ?_
      refine (body.uniform_lowerIn v.loopBody).bind fun text htext => ?_
      exact .ok (hcond.whileDo htext)
  | .branch cases none =>
      simp only [Stmt.lowerIn]
      refine (Case.uniform_lowerAllIn v cases).bind fun text htext => ?_
      exact .ok ((LaidOut.const _).append htext)
  | .branch cases (some body) =>
      simp only [Stmt.lowerIn]
      refine (Case.uniform_lowerAllIn v cases).bind fun casesText hcases => ?_
      refine (body.uniform_lowerIn v).bind fun text htext => ?_
      exact .ok (((LaidOut.const _).append hcases).append htext.fallback)
  | .ret none | .brk | .cont =>
      simp only [Stmt.lowerIn]
      exact .const _
  | .ret (some value) =>
      simp only [Stmt.lowerIn]
      cases v.inLoop with
      | true => exact .error _
      | false =>
          refine (value.uniform_lowerIn v).bind fun text htext => ?_
          exact .ok (htext.between _ _)
  | .suite body =>
      simp only [Stmt.lowerIn]
      exact Stmt.uniform_lowerAllIn v body

theorem Case.uniform_lowerAllIn (v : View) (cs : List Case) :
    Uniform LaidOut fun i => Case.lowerAllIn d i v cs := by
  match cs with
  | [] =>
      simp only [Case.lowerAllIn]
      exact .const _
  | ⟨cond, body⟩ :: cs =>
      simp only [Case.lowerAllIn]
      refine (cond.uniform_lowerIn v).bind fun condText hcond => ?_
      refine (body.uniform_lowerIn v).bind fun text htext => ?_
      refine (Case.uniform_lowerAllIn v cs).bind fun rest hrest => ?_
      exact .ok ((hcond.case htext).append hrest)

theorem Stmt.uniform_lowerAllIn (v : View) (ss : List Stmt) :
    Uniform LaidOut fun i => Stmt.lowerAllIn d i v ss := by
  match ss with
  | [] =>
      simp only [Stmt.lowerAllIn]
      exact .const _
  | s :: ss =>
      simp only [Stmt.lowerAllIn]
      refine (s.uniform_lowerIn v).bind fun text htext => ?_
      refine (Stmt.uniform_lowerAllIn (v.after s) ss).bind fun rest hrest => ?_
      exact .ok (htext.append hrest)

end

theorem Node.uniform_lowerIn (v : View) (n : Node) :
    Uniform LaidOut fun i => n.lowerIn d i v := by
  cases n with
  | ty t => exact .const _
  | typeArg a => exact .const _
  | param p => exact .const _
  | expr e => exact e.uniform_lowerIn v
  | arg a => exact a.value.uniform_lowerIn v
  | stmt s => exact s.uniform_lowerIn v
  | case c => exact Case.uniform_lowerAllIn v [c]
  | fallback body =>
      exact (body.uniform_lowerIn v).bind fun text htext => .ok htext.fallback

theorem uniform_lower (d : Descriptor) (entryPoint : String) (n : Node) :
    Uniform LaidOut fun i => lower d ⟨i, entryPoint⟩ n := by
  simp only [lower, Node.lower_start]
  exact n.uniform_lowerIn _

/-- What is written around a tree to make it a program leaves it laid out. -/
theorem LaidOut.program (d : Descriptor) (entryPoint : String) {body : Indent → String}
    (h : LaidOut body) :
    LaidOut fun i => String.join (d.headers.map Target.includeHeader) ++
      Target.endLine d.preamble ++ i.block entryPoint (body i) ++ "\n" :=
  ((const _).block h).between _ _

/-- The indentation decides nothing but the margins. Either a tree has no text
under any indentation, for one reason, and no program either; or there is one
list of lines for the text and one for the program, and under each indentation
they are written with its margins. No line has a newline inside and no empty
line has a margin, whatever newlines the names, the digits, the preamble and
the entry point have. -/
theorem lower_bundle_eq_layOut (d : Descriptor) (entryPoint : String) (n : Node) :
    (∃ e, ∀ i, lower d ⟨i, entryPoint⟩ n = .error e ∧ bundle d ⟨i, entryPoint⟩ n = .error e) ∨
    ∃ lines program : List Line, ∀ i : Indent,
      lower d ⟨i, entryPoint⟩ n = .ok (layOut i.unit lines) ∧
        bundle d ⟨i, entryPoint⟩ n = .ok (layOut i.unit program) := by
  rcases uniform_lower d entryPoint n with ⟨e, he⟩ | ⟨text, htext, hok⟩
  · left
    refine ⟨e, fun i => ⟨he i, ?_⟩⟩
    exact congrArg (· >>= _) (he i)
  · obtain ⟨program, -, hprogram⟩ := htext.program d entryPoint
    obtain ⟨lines, -, hlines⟩ := htext
    right
    refine ⟨lines, program, fun i => ⟨?_, ?_⟩⟩
    · exact (hok i).trans (congrArg _ (hlines i))
    · refine (congrArg (· >>= _) (hok i)).trans ?_
      exact congrArg _ (hprogram i)

end TreeIR
