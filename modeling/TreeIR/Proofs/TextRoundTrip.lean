import TreeIR.Archive
import TreeIR.Proofs.JsonDepth
import TreeIR.Proofs.WireRoundTrip

/-!
# From a tree to a text and back

A tree is written as a text in one of two layouts, or into a file, and the
write never refuses a tree. Reading refuses two things: a type that binds a
parameter twice, which the wire form does not stand for, and a text that nests
too deep. Nothing else is lost on the way, whatever the names and strings of the
tree are made of, since the scanner undoes the quoting and the printed wire form
is a plain value.

So all ways of reading a written tree come down to one case distinction on
the depth of its wire form, and to what `Wire.decode` makes of the wire form.
-/

namespace TreeIR

namespace Wire

open Json (Plain)

/-- The values of all fields are plain. -/
def PlainFields (fields : List (String × Json)) : Prop :=
  ∀ f ∈ fields, Plain f.2

theorem PlainFields.nil : PlainFields [] := List.forall_mem_nil _

theorem PlainFields.cons {key : String} {v : Json} {fields : List (String × Json)}
    (hv : Plain v) (h : PlainFields fields) : PlainFields ((key, v) :: fields) :=
  List.forall_mem_cons.mpr ⟨hv, h⟩

theorem plain_object {k : Kind} {fields : List (String × Json)}
    (hkeys : (tagKey :: fields.map Prod.fst).Nodup) (hfields : PlainFields fields) :
    Plain (object k fields) :=
  .obj hkeys (PlainFields.cons (.str k.tag) hfields)

theorem plain_ident (name : String) : Plain (ident name) :=
  plain_object (by simp [tagKey]) (.cons (.str name) .nil)

theorem plain_typeName (name : String) : Plain (typeName name) :=
  plain_object (by simp [tagKey]) (.cons (.str name) .nil)

theorem plain_array {ns : List Node} (h : ∀ n ∈ ns, Plain n.encode) :
    Plain (.arr (ns.map Node.encode)) :=
  .arr (List.forall_mem_map.mpr h)

theorem plain_option {n? : Option Node} (h : ∀ n ∈ n?.toList, Plain n.encode) :
    Plain (Node.encode? n?) := by
  cases n? with
  | none => exact .null
  | some n => exact h n List.mem_cons_self

theorem plain_encode (n : Node) : Plain n.encode := by
  induction n using Node.childInduction with
  | step n ih =>
      match n with
      | .ty (.named name) => exact plain_typeName name
      | .ty (.generic name args) =>
          rw [Node.encode, Ty.encode, TypeArg.encodeAll_eq_map]
          exact plain_object (by simp [tagKey])
            (.cons (plain_typeName name) (.cons (plain_array ih) .nil))
      | .typeArg a =>
          have hty : Plain a.ty.encode := ih _ List.mem_cons_self
          exact plain_object (by simp [tagKey]) (.cons (.str a.name) (.cons hty .nil))
      | .param p =>
          have hty : Plain p.ty.encode := ih _ List.mem_cons_self
          exact plain_object (by simp [tagKey]) (.cons (plain_ident p.name) (.cons hty .nil))
      | .expr (.num text isFloat) =>
          exact plain_object (by simp [tagKey]) (.cons (.str text) (.cons (.bool isFloat) .nil))
      | .expr (.str value) =>
          exact plain_object (by simp [tagKey]) (.cons (.str value) .nil)
      | .expr (.ident name) => exact plain_ident name
      | .expr (.func params result body) =>
          obtain ⟨hparams, hrest⟩ := List.forall_mem_append.mp ih
          have hresult : Plain result.encode := hrest _ List.mem_cons_self
          have hbody : Plain body.encode := hrest _ (List.mem_cons_of_mem _ List.mem_cons_self)
          rw [Node.encode, Expr.encode, Param.map_encode]
          exact plain_object (by simp [tagKey])
            (.cons (plain_array hparams) (.cons hresult (.cons hbody .nil)))
      | .expr (.create t args) =>
          obtain ⟨ht, hargs⟩ := List.forall_mem_cons.mp ih
          rw [Node.encode, Expr.encode, Arg.encodeAll_eq_map]
          exact plain_object (by simp [tagKey]) (.cons ht (.cons (plain_array hargs) .nil))
      | .expr (.call callee args) =>
          rw [Node.encode, Expr.encode, Arg.encodeAll_eq_map]
          exact plain_object (by simp [tagKey])
            (.cons (plain_ident callee) (.cons (plain_array ih) .nil))
      | .arg a =>
          have hvalue : Plain a.value.encode := ih _ List.mem_cons_self
          exact plain_object (by simp [tagKey])
            (.cons (plain_ident a.name) (.cons hvalue .nil))
      | .stmt (.assign target defines value) =>
          have hvalue : Plain value.encode := ih _ List.mem_cons_self
          rw [Node.encode, Stmt.encode]
          exact plain_object (by simp [tagKey])
            (.cons (plain_ident target) (.cons (.bool defines) (.cons hvalue .nil)))
      | .stmt (.eval value) =>
          have hvalue : Plain value.encode := ih _ List.mem_cons_self
          rw [Node.encode, Stmt.encode]
          exact plain_object (by simp [tagKey]) (.cons hvalue .nil)
      | .stmt (.forEach item source body) =>
          obtain ⟨hsource, hbody⟩ := List.forall_mem_cons.mp ih
          rw [Node.encode, Stmt.encode]
          exact plain_object (by simp [tagKey])
            (.cons (plain_ident item) (.cons hsource (.cons (hbody _ List.mem_cons_self) .nil)))
      | .stmt (.whileDo cond body) =>
          obtain ⟨hcond, hbody⟩ := List.forall_mem_cons.mp ih
          rw [Node.encode, Stmt.encode]
          exact plain_object (by simp [tagKey])
            (.cons hcond (.cons (hbody _ List.mem_cons_self) .nil))
      | .stmt (.branch cases last) =>
          obtain ⟨hcases, hlast⟩ := List.forall_mem_append.mp ih
          rw [Node.encode, Stmt.encode_branch, Case.encodeAll_eq_map]
          exact plain_object (by simp [tagKey])
            (.cons (plain_array hcases) (.cons (plain_option hlast) .nil))
      | .stmt (.ret value) =>
          rw [Node.encode, Stmt.encode_ret]
          exact plain_object (by simp [tagKey]) (.cons (plain_option ih) .nil)
      | .stmt .brk | .stmt .cont =>
          exact plain_object (by simp [tagKey]) .nil
      | .stmt (.suite body) =>
          rw [Node.encode, Stmt.encode, Stmt.encodeAll_eq_map]
          exact plain_object (by simp [tagKey]) (.cons (plain_array ih) .nil)
      | .case c =>
          obtain ⟨hcond, hbody⟩ := List.forall_mem_cons.mp ih
          exact plain_object (by simp [tagKey])
            (.cons hcond (.cons (hbody _ List.mem_cons_self) .nil))
      | .fallback body =>
          have hbody : Plain body.encode := ih _ List.mem_cons_self
          exact plain_object (by simp [tagKey]) (.cons hbody .nil)

end Wire

/-! ## Reading a printed tree

Both layouts parse to the wire form or to nothing, so what is said here is
about any text of which that is true. -/

/-- The text is a printed form of the tree, as far as parsing can tell. -/
def Node.PrintedAs (n : Node) (text : String) : Prop :=
  Json.parse? text = if n.encode.depth ≤ Json.maxDepth then some n.encode else none

theorem Node.printedAs_pretty (n : Node) : n.PrintedAs n.encode.pretty :=
  Json.parse?_pretty (Wire.plain_encode n)

theorem Node.printedAs_compact (n : Node) : n.PrintedAs n.encode.compact :=
  Json.parse?_compact (Wire.plain_encode n)

theorem Node.PrintedAs.parse?_of_le {n : Node} {text : String} (h : n.PrintedAs text)
    (hfit : n.encode.depth ≤ Json.maxDepth) : Json.parse? text = some n.encode :=
  h.trans (if_pos hfit)

theorem Node.PrintedAs.parse?_of_lt {n : Node} {text : String} (h : n.PrintedAs text)
    (hdeep : Json.maxDepth < n.encode.depth) : Json.parse? text = none :=
  h.trans (if_neg (Nat.not_le.mpr hdeep))

namespace Wire

theorem mapError_eq_ok_iff {ε ε' α : Type} {f : ε → ε'} {r : Except ε α} {a : α} :
    r.mapError f = .ok a ↔ r = .ok a := by
  cases r with
  | error e =>
      constructor
      · intro h
        cases h
      · intro h
        cases h
  | ok b =>
      constructor
      · intro h
        cases h
        rfl
      · intro h
        cases h
        rfl

theorem decodeText_of_deep {n : Node} {text : String} (h : n.PrintedAs text)
    (hdeep : Json.maxDepth < n.encode.depth) : decodeText text = .error .notJson := by
  rw [decodeText, h.parse?_of_lt hdeep]

theorem decodeText_eq_ok_iff {n : Node} {text : String} (h : n.PrintedAs text) :
    decodeText text = .ok (some n) ↔ n.BindsOnce ∧ n.encode.depth ≤ Json.maxDepth := by
  by_cases hfit : n.encode.depth ≤ Json.maxDepth
  · rw [decodeText, h.parse?_of_le hfit, and_iff_left hfit]
    exact mapError_eq_ok_iff.trans decode_encode_eq_ok_iff
  · rw [decodeText_of_deep h (Nat.not_le.mp hfit)]
    simp [hfit]

/-- Reading where there must be a tree makes no difference: a written tree is
never null. -/
theorem decodePresent_eq_ok_iff {v : Json} {n : Node} :
    decodePresent v = .ok n ↔ decode v = .ok (some n) := by
  rw [decodePresent]
  split
  · next m hm => rw [hm, Except.ok.injEq, Except.ok.injEq, Option.some.injEq]
  · next hnone => simp [hnone]
  · next e he => simp [he]

theorem parse?_map_decodePresent_iff {n : Node} {text : String} (h : n.PrintedAs text) :
    (Json.parse? text).map decodePresent = some (.ok n)
      ↔ n.BindsOnce ∧ n.encode.depth ≤ Json.maxDepth := by
  by_cases hfit : n.encode.depth ≤ Json.maxDepth
  · rw [h.parse?_of_le hfit, and_iff_left hfit, Option.map_some, Option.some.injEq]
    exact decodePresent_eq_ok_iff.trans decode_encode_eq_ok_iff
  · rw [h.parse?_of_lt (Nat.not_le.mp hfit)]
    simp [hfit]

end Wire

namespace Archive

theorem fromUTF8?_toUTF8 (text : String) : String.fromUTF8? text.toUTF8 = some text := by
  rw [String.fromUTF8?, String.toUTF8_eq_toByteArray, dif_pos text.isValidUTF8]
  rfl

theorem save_eq_ok_iff {p : Place} {n : Node} {a : Archive} :
    (∃ a', a.save p n = .ok a') ↔ p.folder ∈ a.folders := by
  rw [save, write]
  split
  · next h => exact ⟨fun _ => h, fun _ => ⟨_, rfl⟩⟩
  · next h => simp [h]

theorem bytesAt?_of_write {p : Place} {bytes : ByteArray} {a a' : Archive}
    (h : a.write p bytes = .ok a') : a'.bytesAt? p = some bytes := by
  rw [write] at h
  split at h
  · cases h
    simp [bytesAt?]
  · cases h

theorem load_of_save {p : Place} {n : Node} {a a' : Archive} (h : a.save p n = .ok a') :
    a'.load p = (Wire.decodeText n.encode.pretty).mapError .unreadable := by
  rw [load, bytesAt?_of_write h]
  show decodeBytes _ = _
  rw [decodeBytes, fromUTF8?_toUTF8]

end Archive

/-- A written tree can be read again, from either layout and from a file,
exactly if no type inside it binds a parameter twice and its wire form nests at
most 127 deep. A deeper one is written all the same, and is no valid text for
any reader. -/
theorem reads_back_iff (n : Node) :
    (Wire.decodeText n.encode.pretty = .ok (some n)
      ↔ n.BindsOnce ∧ n.encode.depth ≤ 127) ∧
    (Wire.decodeText n.encode.compact = .ok (some n)
      ↔ n.BindsOnce ∧ n.encode.depth ≤ 127) ∧
    ((Json.parse? n.encode.compact).map Wire.decodePresent = some (.ok n)
      ↔ n.BindsOnce ∧ n.encode.depth ≤ 127) ∧
    (∀ p a a', Archive.save p n a = .ok a' →
      (Archive.load p a' = .ok (some n) ↔ n.BindsOnce ∧ n.encode.depth ≤ 127)) ∧
    (∀ p a, (∃ a', Archive.save p n a = .ok a') ↔ p.folder ∈ a.folders) ∧
    (127 < n.encode.depth →
      Wire.decodeText n.encode.pretty = .error .notJson ∧
      Wire.decodeText n.encode.compact = .error .notJson ∧
      Json.parse? n.encode.compact = none ∧
      ∀ p a a', Archive.save p n a = .ok a' →
        Archive.load p a' = .error (.unreadable .notJson)) := by
  refine ⟨Wire.decodeText_eq_ok_iff n.printedAs_pretty,
    Wire.decodeText_eq_ok_iff n.printedAs_compact,
    Wire.parse?_map_decodePresent_iff n.printedAs_compact, ?_,
    fun _ _ => Archive.save_eq_ok_iff, fun hdeep => ⟨?_, ?_, ?_, ?_⟩⟩
  · intro p a a' hsave
    rw [Archive.load_of_save hsave, Wire.mapError_eq_ok_iff]
    exact Wire.decodeText_eq_ok_iff n.printedAs_pretty
  · exact Wire.decodeText_of_deep n.printedAs_pretty hdeep
  · exact Wire.decodeText_of_deep n.printedAs_compact hdeep
  · exact n.printedAs_compact.parse?_of_lt hdeep
  · intro p a a' hsave
    rw [Archive.load_of_save hsave, Wire.decodeText_of_deep n.printedAs_pretty hdeep]
    rfl

/-- Loops inside one another. -/
def Stmt.loops : Nat → Stmt
  | 0 => .brk
  | k + 1 => .whileDo (.ident "on") (Stmt.loops k)

theorem Stmt.depth_encode_loops (k : Nat) : (Stmt.loops k).encode.depth = k + 1 := by
  induction k with
  | zero => rfl
  | succ k ih =>
      rw [Stmt.loops, Stmt.encode, Wire.object, Json.depth]
      simp only [Json.membersDepth, ih]
      have hcond : (Expr.ident "on").encode.depth = 1 := rfl
      have htag : (Json.str (Kind.tag .whileDo)).depth = 0 := rfl
      omega

/-- One loop too many: the tree is saved and cannot be loaded. -/
theorem reads_back_iff_loops :
    let n := Node.stmt (Stmt.loops 127)
    let p : Place := ⟨"trees", "deep"⟩
    let a : Archive := ⟨["trees"], []⟩
    127 < n.encode.depth ∧
    Wire.decodeText n.encode.pretty = .error .notJson ∧
    ∃ a', Archive.save p n a = .ok a' ∧ Archive.load p a' = .error (.unreadable .notJson) := by
  intro n p a
  have hdepth : n.encode.depth = 128 := Stmt.depth_encode_loops 127
  have hdeep : 127 < n.encode.depth := by omega
  obtain ⟨-, -, -, -, hsaved, hunread⟩ := reads_back_iff n
  obtain ⟨hpretty, -, -, hload⟩ := hunread hdeep
  obtain ⟨a', ha'⟩ := (hsaved p a).mpr List.mem_cons_self
  exact ⟨hdeep, hpretty, a', ha', hload p a a' ha'⟩

end TreeIR
