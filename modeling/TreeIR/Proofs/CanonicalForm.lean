import TreeIR.Compile
import TreeIR.Proofs.WireGrammar

/-!
# Reading and writing again

A tree has many wire forms and is written in one. `Canonical` says what is
special about that one and mentions no tree: an object has its tag first and
then the fields of its kind, all of them and nothing else, in a fixed order; a
list is an array; a child that is missing is null. So whether a document is
canonical can be seen from the document, kind by kind out of one table.

What is read from any wire form is written in canonical form, and a canonical
document is written as it was. Both are inductions over the size of documents:
a node is written field by field (`encode_eq_object_fields`), and in a
canonical object a field is found where the table puts it.
-/

namespace TreeIR

open Lowering (forall_mem_of_forall₂)

namespace Wire

/-- What a field is always written as. -/
inductive FieldSort where
  | text
  | bool
  | node
  /-- A node, or null if there is none. -/
  | node?
  | nodes
  deriving DecidableEq

end Wire

/-- The fields of a kind, in the order in which they are written. -/
def Kind.fieldSorts : Kind → List (String × Wire.FieldSort)
  | .namedType => [("id", .text)]
  | .typeArg => [("name", .text), ("type", .node)]
  | .genericType => [("id", .node), ("typevars", .nodes)]
  | .num => [("value", .text), ("isFloat", .bool)]
  | .str => [("value", .text)]
  | .ident => [("id", .text)]
  | .param => [("arg", .node), ("type", .node)]
  | .func => [("decls", .nodes), ("returnType", .node), ("body", .node)]
  | .arg => [("name", .node), ("value", .node)]
  | .create => [("type", .node), ("args", .nodes)]
  | .call => [("func", .node), ("args", .nodes)]
  | .assign => [("lhs", .node), ("isDefine", .bool), ("rhs", .node)]
  | .eval => [("expr", .node)]
  | .forEach => [("id", .node), ("iterable", .node), ("body", .node)]
  | .whileDo => [("cond", .node), ("body", .node)]
  | .branch => [("cases", .nodes), ("default", .node?)]
  | .case => [("cond", .node), ("body", .node)]
  | .fallback => [("body", .node)]
  | .ret => [("value", .node?)]
  | .brk | .cont => []
  | .suite => [("stmts", .nodes)]

namespace Wire

/-- A member that is as its field asks, where `C` is asked of the nodes in it. -/
inductive CanonicalField (C : Json → Prop) : String × FieldSort → String × Json → Prop
  | text {key s : String} : CanonicalField C (key, .text) (key, .str s)
  | bool {key : String} {b : Bool} : CanonicalField C (key, .bool) (key, .bool b)
  | node {key : String} {v : Json} (h : C v) : CanonicalField C (key, .node) (key, v)
  | someNode {key : String} {v : Json} (h : C v) : CanonicalField C (key, .node?) (key, v)
  | noNode {key : String} : CanonicalField C (key, .node?) (key, .null)
  | nodes {key : String} {vs : List Json} (h : ∀ v ∈ vs, C v) :
      CanonicalField C (key, .nodes) (key, .arr vs)

/-- An object as it would be written. -/
inductive Canonical : Json → Prop
  | object {k : Kind} {fields : List (String × Json)}
      (h : List.Forall₂ (CanonicalField Canonical) k.fieldSorts fields) :
      Canonical (object k fields)

namespace Part

/-- What the field of a part is written as. -/
def sort : Part → FieldSort
  | .text _ => .text
  | .bool _ | .flag _ => .bool
  | .node _ => .node
  | .node? _ => .node?
  | .nodes _ | .bindings _ => .nodes

/-- The nodes in a part. -/
def inside : Part → List Node
  | .text _ | .bool _ | .flag _ => []
  | .node n => [n]
  | .node? o => o.toList
  | .nodes ns => ns
  | .bindings bs => bs.map Binding.whole

/-- A part as it is written, in the newest form. -/
def encode : Part → Json
  | .text s => .str s
  | .bool b | .flag b => .bool b
  | .node n => n.encode
  | .node? o => Node.encode? o
  | .nodes ns => .arr (ns.map Node.encode)
  | .bindings bs => .arr ((bs.map Binding.whole).map Node.encode)

end Part

end Wire

open Wire

theorem Node.fieldSorts_kind (n : Node) :
    n.kind.fieldSorts = n.fields.map fun p => (p.1, p.2.sort) := by
  match n with
  | .ty (.named _) | .ty (.generic ..) | .typeArg _ | .param _ | .expr (.num ..)
  | .expr (.str _) | .expr (.ident _) | .expr (.func ..) | .expr (.create ..)
  | .expr (.call ..) | .arg _ | .stmt (.assign ..) | .stmt (.eval _) | .stmt (.forEach ..)
  | .stmt (.whileDo ..) | .stmt (.branch ..) | .stmt (.ret _) | .stmt .brk | .stmt .cont
  | .stmt (.suite _) | .case _ | .fallback _ => rfl

theorem Wire.Part.encode_typeArgs (args : List TypeArg) :
    (Part.bindings (args.map .typeArg)).encode = .arr (TypeArg.encodeAll args) := by
  simp only [TypeArg.encodeAll_eq_map, Part.encode, List.map_map]
  rfl

theorem Wire.Part.encode_args (args : List Arg) :
    (Part.bindings (args.map .arg)).encode = .arr (Arg.encodeAll args) := by
  simp only [Arg.encodeAll_eq_map, Part.encode, List.map_map]
  rfl

theorem Node.encode_eq_object_fields (n : Node) :
    n.encode = object n.kind (n.fields.map fun p => (p.1, p.2.encode)) := by
  match n with
  | .ty (.named _) | .typeArg _ | .param _ | .expr (.num ..) | .expr (.str _)
  | .expr (.ident _) | .arg _ | .stmt (.assign ..) | .stmt (.eval _) | .stmt (.forEach ..)
  | .stmt (.whileDo ..) | .stmt .brk | .stmt .cont | .case _ | .fallback _ => rfl
  | .ty (.generic name args) =>
      rw [Node.encode, Ty.encode, ← Part.encode_typeArgs]
      rfl
  | .expr (.create t args) =>
      rw [Node.encode, Expr.encode, ← Part.encode_args]
      rfl
  | .expr (.call callee args) =>
      rw [Node.encode, Expr.encode, ← Part.encode_args]
      rfl
  | .expr (.func params result body) =>
      rw [Node.encode, Expr.encode, Param.map_encode]
      rfl
  | .stmt (.branch cases last) =>
      rw [Node.encode, Stmt.encode_branch, Case.encodeAll_eq_map]
      rfl
  | .stmt (.ret value) =>
      rw [Node.encode, Stmt.encode_ret]
      rfl
  | .stmt (.suite body) =>
      rw [Node.encode, Stmt.encode, Stmt.encodeAll_eq_map]
      rfl

namespace Wire

theorem Part.canonicalField_encode {C : Json → Prop} {part : Part} (key : String)
    (h : ∀ c ∈ part.inside, C c.encode) :
    CanonicalField C (key, part.sort) (key, part.encode) := by
  cases part with
  | text s => exact .text
  | bool b | flag b => exact .bool
  | node n => exact .node (h n List.mem_cons_self)
  | node? o =>
      cases o with
      | none => exact .noNode
      | some n => exact .someNode (h n List.mem_cons_self)
  | nodes ns | bindings bs => exact .nodes (List.forall_mem_map.mpr h)

theorem Part.sizeOf_encode_le {part : Part} {c : Node} (h : c ∈ part.inside) :
    sizeOf c.encode ≤ sizeOf part.encode := by
  cases part with
  | text s | bool b | flag b => cases h
  | node n =>
      cases List.mem_singleton.mp h
      exact Nat.le_refl _
  | node? o =>
      cases o with
      | none => cases h
      | some n =>
          cases List.mem_singleton.mp h
          exact Nat.le_refl _
  | nodes ns | bindings bs =>
      exact Nat.le_of_lt (sizeOf_lt_of_mem_arr (List.mem_map_of_mem h))

theorem sizeOf_encode_lt {n c : Node} {p : String × Part} (hp : p ∈ n.fields)
    (hc : c ∈ p.2.inside) : sizeOf c.encode < sizeOf n.encode := by
  have hmem : (p.1, p.2.encode) ∈ n.fields.map fun p => (p.1, p.2.encode) :=
    List.mem_map_of_mem hp
  rw [n.encode_eq_object_fields, object]
  calc sizeOf c.encode ≤ sizeOf p.2.encode := Part.sizeOf_encode_le hc
    _ < _ := sizeOf_lt_of_mem_obj (List.mem_cons_of_mem _ hmem)

/-- Every tree is written in canonical form. -/
theorem canonical_encode (n : Node) : Canonical n.encode := by
  rw [n.encode_eq_object_fields]
  refine .object ?_
  rw [n.fieldSorts_kind, List.forall₂_map_left_iff, List.forall₂_map_right_iff,
    List.forall₂_same]
  intro p hp
  exact Part.canonicalField_encode p.1 fun c hc => canonical_encode c
termination_by sizeOf n.encode
decreasing_by exact sizeOf_encode_lt hp hc

/-! ## A canonical document is written as it was

Here the document leads and not the tree: it has exactly the fields of its kind in their
order, so there is nothing that could be written in another way. -/

theorem not_form_null (n : Node) : ¬ Form .null n := by
  intro h
  cases form_iff.mp h

theorem not_canonical_null : ¬ Canonical .null := by
  intro h
  cases h

theorem eq_null_of_missing {v : Json} (h : Missing (some v)) : v = .null := by
  rcases h with h | h
  · cases h
  · exact Option.some.inj h

theorem map_encode_eq {vs : List Json} {ns : List Node} (h : List.Forall₂ Form vs ns)
    (heq : ∀ v ∈ vs, ∀ n, Form v n → n.encode = v) : ns.map Node.encode = vs := by
  have hall := forall₂_imp_of_mem h heq
  rw [← List.forall₂_eq_eq_eq, List.forall₂_map_left_iff]
  exact hall.flip

theorem CanonicalField.encode_eq {part : Part} {key : String} {v : Json}
    (hcanonical : CanonicalField Canonical (key, part.sort) (key, v))
    (h : part.Shaped Form (some v))
    (heq : ∀ w n, sizeOf w ≤ sizeOf v → Canonical w → Form w n → n.encode = w) :
    part.encode = v := by
  cases h with
  | text | bool | flag => rfl
  | noFlag hmissing =>
      cases hcanonical with
      | bool => exact absurd hmissing (not_missing Bool.false_ne_true)
  | node h =>
      cases hcanonical with
      | node hv => exact heq v _ (Nat.le_refl _) hv h
  | someNode h =>
      cases hcanonical with
      | someNode hv => exact heq v _ (Nat.le_refl _) hv h
      | noNode => exact absurd h (not_form_null _)
  | noNode hmissing =>
      cases hcanonical with
      | someNode hv => exact absurd (eq_null_of_missing hmissing ▸ hv) not_canonical_null
      | noNode => rfl
  | nodes h | listed h =>
      cases hcanonical with
      | nodes hvs =>
          have hitems := map_encode_eq h fun w hw n =>
            heq w n (Nat.le_of_lt (sizeOf_lt_of_mem_arr hw)) (hvs w hw)
          exact congrArg Json.arr hitems
  | keyed hnames h => cases hcanonical

theorem nodup_fieldSorts (k : Kind) : (k.fieldSorts.map Prod.fst).Nodup := by
  cases k <;> decide

theorem CanonicalField.key_eq {C : Json → Prop} {s : String × FieldSort} {m : String × Json}
    (h : CanonicalField C s m) : m.1 = s.1 := by
  cases h <;> rfl

theorem distinct_of_canonicalFields {C : Json → Prop} {k : Kind}
    {fields : List (String × Json)} (h : List.Forall₂ (CanonicalField C) k.fieldSorts fields) :
    Table.Distinct fields := by
  have hkeys : fields.map Prod.fst = k.fieldSorts.map Prod.fst := by
    rw [← List.forall₂_eq_eq_eq, List.forall₂_map_left_iff, List.forall₂_map_right_iff]
    exact (h.imp fun _ _ hfield => hfield.key_eq).flip
  rw [Table.Distinct, Table.keys, hkeys]
  exact nodup_fieldSorts k

/-- In a canonical object each field is found in its place. -/
theorem encode_eq_object_of_canonicalFields {n : Node} {fields : List (String × Json)}
    (hfields : List.Forall₂ (CanonicalField Canonical) n.kind.fieldSorts fields)
    (hparts : ∀ p ∈ n.fields, p.2.Shaped Form (Table.get? p.1 fields))
    (heq : ∀ w c, sizeOf w < sizeOf (object n.kind fields) → Canonical w → Form w c →
      c.encode = w) : n.encode = object n.kind fields := by
  have hdistinct := distinct_of_canonicalFields hfields
  rw [n.fieldSorts_kind, List.forall₂_map_left_iff, List.forall₂_iff_zip] at hfields
  have hmembers : List.Forall₂ (fun p m => (p.1, p.2.encode) = m) n.fields fields := by
    refine List.forall₂_iff_zip.mpr ⟨hfields.1, fun {p m} hmem => ?_⟩
    have hfield := hfields.2 hmem
    obtain ⟨hp, hm⟩ := List.of_mem_zip hmem
    obtain ⟨key, v⟩ := m
    obtain rfl : key = p.1 := hfield.key_eq
    have hpart := hparts p hp
    rw [(Table.get?_eq_some_iff hdistinct).mpr hm] at hpart
    have hlt : sizeOf v < sizeOf (object n.kind fields) :=
      sizeOf_lt_of_mem_obj (List.mem_cons_of_mem _ hm)
    have hv : p.2.encode = v := hfield.encode_eq hpart fun w c hle =>
      heq w c (Nat.lt_of_le_of_lt hle hlt)
    rw [hv]
  rw [← List.forall₂_map_left_iff, List.forall₂_eq_eq_eq] at hmembers
  rw [n.encode_eq_object_fields, hmembers]

theorem encode_eq_of_canonical {v : Json} {n : Node} (hcanonical : Canonical v)
    (h : Form v n) : n.encode = v := by
  have heq : ∀ w c, sizeOf w < sizeOf v → Canonical w → Form w c → c.encode = w :=
    fun w c _ hw hc => encode_eq_of_canonical hw hc
  cases hcanonical with
  | object hfields =>
      obtain ⟨rfl, hparts, -⟩ := form_object_iff.mp h
      exact encode_eq_object_of_canonicalFields hfields hparts heq
termination_by sizeOf v

theorem bindsOnce_of_children {n : Node} (hnames : n.NamesOnce)
    (h : ∀ c ∈ n.children, c.BindsOnce) : n.BindsOnce := by
  intro name args hin
  rcases Node.within_iff.mp hin with heq | ⟨c, hc, hin⟩
  · exact hnames name args heq.symm
  · exact h c hc name args hin

theorem mem_inside_of_mem_children {n : Node} :
    ∀ c ∈ n.children, ∃ p ∈ n.fields, c ∈ p.2.inside := by
  match n with
  | .ty (.named _) | .ty (.generic ..) | .typeArg _ | .param _ | .expr (.num ..)
  | .expr (.str _) | .expr (.ident _) | .expr (.func ..) | .expr (.create ..)
  | .expr (.call ..) | .arg _ | .stmt (.assign ..) | .stmt (.eval _) | .stmt (.forEach ..)
  | .stmt (.whileDo ..) | .stmt (.branch ..) | .stmt (.ret _) | .stmt .brk | .stmt .cont
  | .stmt (.suite _) | .case _ | .fallback _ =>
      simp [Node.children, Node.fields, Part.inside, Binding.whole]

theorem Binding.bindsOnce_whole {b : Binding} (h : b.value.BindsOnce) :
    b.whole.BindsOnce := by
  cases b with
  | typeArg a | arg a => exact bindsOnce_of_children nofun (List.forall_mem_singleton.mpr h)

theorem Part.bindsOnce_of_shaped {part : Part} {v? : Option Json}
    (h : part.Shaped (fun _ n => n.BindsOnce) v?) : ∀ c ∈ part.inside, c.BindsOnce := by
  cases h with
  | text | bool | flag | noFlag | noNode => exact List.forall_mem_nil _
  | node h | someNode h => exact List.forall_mem_singleton.mpr h
  | nodes h | listed h => exact forall_mem_of_forall₂ h
  | keyed _ h =>
      have hvalues := List.forall_mem_map.mp (forall_mem_of_forall₂ h)
      exact List.forall_mem_map.mpr fun b hb => Binding.bindsOnce_whole (hvalues b hb)

theorem bindsOnce_of_shaped {v : Json} {n : Node}
    (h : Shaped (fun _ c => c.BindsOnce) v n) : n.BindsOnce := by
  cases h with
  | obj htag hkind hfields hnames =>
      refine bindsOnce_of_children hnames fun c hc => ?_
      obtain ⟨p, hp, hinside⟩ := mem_inside_of_mem_children c hc
      exact Part.bindsOnce_of_shaped (hfields p hp) c hinside

theorem Form.bindsOnce {v : Json} {n : Node} (h : Form v n) : n.BindsOnce := by
  have hshaped := form_iff.mp h
  exact bindsOnce_of_shaped (hshaped.imp fun w c _ hc => hc.bindsOnce)
termination_by sizeOf v

theorem readTree_of_decode {v : Json} {n : Node} (h : decode v = .ok (some n)) :
    Compile.readTree v = .ok n := by
  rw [Compile.readTree, decodePresent, h]

/-- Whatever a tree is read from, no type in it binds a parameter twice, it is
written in canonical form, as it was if it was canonical already, and reads back
as itself; and to compile what was read and what is written is the same, in text
and in error. -/
theorem decode_normalizes {v : Json} {n : Node} (h : decode v = .ok (some n)) :
    n.BindsOnce ∧ Canonical n.encode ∧ (Canonical v → n.encode = v) ∧
    decode n.encode = .ok (some n) ∧
    ∀ d, Compile.lowerJson v d = Compile.lowerJson n.encode d ∧
      ∀ l, Compile.bundleJson l v d = Compile.bundleJson l n.encode d := by
  have hform := decode_eq_ok_some_iff.mp h
  have hback := decode_encode_eq_ok_iff.mpr hform.bindsOnce
  have htree : Compile.readTree v = Compile.readTree n.encode := by
    rw [readTree_of_decode h, readTree_of_decode hback]
  refine ⟨hform.bindsOnce, canonical_encode n, ?_, hback, fun d => ⟨?_, fun l => ?_⟩⟩
  · intro hcanonical
    exact encode_eq_of_canonical hcanonical hform
  · rw [Compile.lowerJson, Compile.lowerJson, htree]
  · rw [Compile.bundleJson, Compile.bundleJson, htree]

/-- An older loop over the items of a call, and what is written of it. -/
theorem decode_normalizes_loop :
    let n := Node.stmt (.forEach "x" (.call "f" [⟨"a", .num "1" false⟩]) (.ret none))
    let one := Json.obj [("value", .str "1"), (tagKey, .str "Num")]
    let call := Json.obj [("args", .obj [("a", one)]), ("func", ident "f"), (tagKey, .str "Call")]
    let v := Json.obj [(tagKey, .str "Loop"), ("id", ident "x"), ("iterable", call),
      ("body", .obj [(tagKey, .str "Return")])]
    decode v = .ok (some n) ∧ decode n.encode = .ok (some n) ∧ Canonical n.encode ∧
      ∀ d, Compile.lowerJson v d = Compile.lowerJson n.encode d := by
  intro n one call v
  have hread : decode v = .ok (some n) := by rfl
  obtain ⟨-, hcanonical, -, hback, hcompile⟩ := decode_normalizes hread
  exact ⟨hread, hback, hcanonical, fun d => (hcompile d).1⟩

end Wire

end TreeIR
