import TreeIR.Proofs.ByName
import TreeIR.Proofs.WireRoundTrip

/-!
# Which values are read

Reading is a recipe: it takes the fields of an object in order, each with a
reader of its own, and stops at the first fault. This file gives the documents
that it accepts as a grammar and has no order in it. `Node.fields` is the table:
the fields of a node by name, and for each the part of the node that it holds.
`Part.Shaped` says how a part may be written, the older forms included, and
`Form` puts the two together.

The grammar is stated one level at a time. `Shaped R` is one level: it looks at
the tag and the fields of one object and leaves what is inside them to a
relation `R`. `Form` is the relation that unfolds to `Shaped Form`, and because
what is inside a value is smaller than the value, it is the only one
(`iff_form`). So a law about `Form` needs no induction of its own; it is enough
to look at one level. For reading that means: one lemma per sort of field, and
then the table against the recipe, kind by kind.
-/

namespace TreeIR

open Lowering (bind_eq_ok_iff bind_pure_eq_ok_iff mapM_eq_ok_iff_forall₂)

namespace Wire

/-- Something that is bound to a name inside a node. -/
inductive Binding where
  | typeArg (a : TypeArg)
  | arg (a : Arg)

namespace Binding

/-- The name under which something is bound. -/
def name : Binding → String
  | .typeArg a => a.name
  | .arg a => a.name

/-- The binding as a node. -/
def whole : Binding → Node
  | .typeArg a => .typeArg a
  | .arg a => .arg a

/-- What is bound to the name. -/
def value : Binding → Node
  | .typeArg a => .ty a.ty
  | .arg a => .expr a.value

end Binding

/-- What a field of a node holds. -/
inductive Part where
  | text (s : String)
  | bool (b : Bool)
  /-- A truth value that may be left out when it is false. -/
  | flag (b : Bool)
  | node (n : Node)
  | node? (n : Option Node)
  | nodes (ns : List Node)
  /-- A list that may also be written as an object keyed by name. -/
  | bindings (bs : List Binding)

end Wire

namespace Node

/-- The fields of a node. -/
def fields : Node → List (String × Wire.Part)
  | .ty (.named name) => [("id", .text name)]
  | .ty (.generic name args) =>
    [("id", .node (.ty (.named name))), ("typevars", .bindings (args.map .typeArg))]
  | .typeArg a => [("name", .text a.name), ("type", .node (.ty a.ty))]
  | .param p => [("arg", .node (.expr (.ident p.name))), ("type", .node (.ty p.ty))]
  | .expr (.num text isFloat) => [("value", .text text), ("isFloat", .flag isFloat)]
  | .expr (.str value) => [("value", .text value)]
  | .expr (.ident name) => [("id", .text name)]
  | .expr (.func params result body) =>
    [("decls", .nodes (params.map .param)), ("returnType", .node (.ty result)),
      ("body", .node (.stmt body))]
  | .expr (.create t args) =>
    [("type", .node (.ty t)), ("args", .bindings (args.map .arg))]
  | .expr (.call callee args) =>
    [("func", .node (.expr (.ident callee))), ("args", .bindings (args.map .arg))]
  | .arg a => [("name", .node (.expr (.ident a.name))), ("value", .node (.expr a.value))]
  | .stmt (.assign target defines value) =>
    [("lhs", .node (.expr (.ident target))), ("isDefine", .bool defines),
      ("rhs", .node (.expr value))]
  | .stmt (.eval value) => [("expr", .node (.expr value))]
  | .stmt (.forEach item source body) =>
    [("id", .node (.expr (.ident item))), ("iterable", .node (.expr source)),
      ("body", .node (.stmt body))]
  | .stmt (.whileDo cond body) => [("cond", .node (.expr cond)), ("body", .node (.stmt body))]
  | .stmt (.branch cases last) =>
    [("cases", .nodes (cases.map .case)), ("default", .node? (last.map .fallback))]
  | .case c => [("cond", .node (.expr c.cond)), ("body", .node (.stmt c.body))]
  | .fallback body => [("body", .node (.stmt body))]
  | .stmt (.ret value) => [("value", .node? (value.map .expr))]
  | .stmt .brk | .stmt .cont => []
  | .stmt (.suite body) => [("stmts", .nodes (body.map .stmt))]

/-- A type itself, whatever is inside it, binds no parameter twice. -/
def NamesOnce (n : Node) : Prop :=
  ∀ name args, n = .ty (.generic name args) → (args.map TypeArg.name).Nodup

end Node

namespace Wire

/-- A field that is absent or null, which is the same. -/
def Missing (v? : Option Json) : Prop :=
  v? = none ∨ v? = some .null

/-- How a part may be written in its field, which may be absent. What the
values inside may be written for is up to `R`. -/
inductive Part.Shaped (R : Json → Node → Prop) : Part → Option Json → Prop
  | text {s : String} : Shaped R (.text s) (some (.str s))
  | bool {b : Bool} : Shaped R (.bool b) (some (.bool b))
  | flag {b : Bool} : Shaped R (.flag b) (some (.bool b))
  | noFlag {v? : Option Json} (h : Missing v?) : Shaped R (.flag false) v?
  | node {v : Json} {n : Node} (h : R v n) : Shaped R (.node n) (some v)
  | someNode {v : Json} {n : Node} (h : R v n) : Shaped R (.node? (some n)) (some v)
  | noNode {v? : Option Json} (h : Missing v?) : Shaped R (.node? none) v?
  | nodes {vs : List Json} {ns : List Node} (h : List.Forall₂ R vs ns) :
      Shaped R (.nodes ns) (some (.arr vs))
  | listed {vs : List Json} {bs : List Binding}
      (h : List.Forall₂ R vs (bs.map Binding.whole)) : Shaped R (.bindings bs) (some (.arr vs))
  | keyed {es : List (String × Json)} {bs : List Binding}
      (hnames : es.map Prod.fst = bs.map Binding.name)
      (h : List.Forall₂ R (es.map Prod.snd) (bs.map Binding.value)) :
      Shaped R (.bindings bs) (some (.obj es))

/-- The tags of a kind: its own, and the older one of a loop over items. -/
def TagOf (k : Kind) (tag : String) : Prop :=
  tag = k.tag ∨ k = .forEach ∧ tag = "Loop"

/-- An object with the tag and the fields of a node, as far as that can be seen
without looking into the fields. Members that are no fields are not looked at,
and neither is the order of those that are. -/
inductive Shaped (R : Json → Node → Prop) : Json → Node → Prop
  | obj {n : Node} {ms : List (String × Json)} {tag : String}
      (htag : Table.get? tagKey ms = some (.str tag)) (hkind : TagOf n.kind tag)
      (hfields : ∀ p ∈ n.fields, p.2.Shaped R (Table.get? p.1 ms))
      (hnames : n.NamesOnce) : Shaped R (.obj ms) n

/-- A value that is a wire form of a node. -/
inductive Form : Json → Node → Prop
  | level {v : Json} {n : Node} (h : Shaped Form v n) : Form v n

variable {R Q : Json → Node → Prop}

namespace Part

variable {v? : Option Json}

theorem shaped_text_iff {s : String} :
    (Part.text s).Shaped R v? ↔ v? = some (.str s) := by
  constructor
  · intro h
    cases h
    rfl
  · intro h
    exact h ▸ .text

theorem shaped_bool_iff {b : Bool} :
    (Part.bool b).Shaped R v? ↔ v? = some (.bool b) := by
  constructor
  · intro h
    cases h
    rfl
  · intro h
    exact h ▸ .bool

theorem shaped_flag_iff {b : Bool} :
    (Part.flag b).Shaped R v? ↔
      v? = some (.bool b) ∨ b = false ∧ Missing v? := by
  constructor
  · intro h
    cases h with
    | flag => exact .inl rfl
    | noFlag h => exact .inr ⟨rfl, h⟩
  · intro h
    rcases h with h | ⟨rfl, h⟩
    · exact h ▸ .flag
    · exact .noFlag h

theorem shaped_node_iff {n : Node} :
    (Part.node n).Shaped R v? ↔ ∃ v, v? = some v ∧ R v n := by
  constructor
  · intro h
    cases h with
    | node h => exact ⟨_, rfl, h⟩
  · intro h
    obtain ⟨v, rfl, h⟩ := h
    exact .node h

theorem shaped_node?_iff {o : Option Node} :
    (Part.node? o).Shaped R v? ↔
      (∃ v n, o = some n ∧ v? = some v ∧ R v n) ∨
        o = none ∧ Missing v? := by
  constructor
  · intro h
    cases h with
    | someNode h => exact .inl ⟨_, _, rfl, rfl, h⟩
    | noNode h => exact .inr ⟨rfl, h⟩
  · intro h
    rcases h with ⟨v, n, rfl, rfl, h⟩ | ⟨rfl, h⟩
    · exact .someNode h
    · exact .noNode h

theorem shaped_nodes_iff {ns : List Node} :
    (Part.nodes ns).Shaped R v? ↔ ∃ vs, v? = some (.arr vs) ∧ List.Forall₂ R vs ns := by
  constructor
  · intro h
    cases h with
    | nodes h => exact ⟨_, rfl, h⟩
  · intro h
    obtain ⟨vs, rfl, h⟩ := h
    exact .nodes h

theorem shaped_bindings_iff {bs : List Binding} :
    (Part.bindings bs).Shaped R v? ↔
      (∃ vs, v? = some (.arr vs) ∧ List.Forall₂ R vs (bs.map Binding.whole)) ∨
      ∃ es, v? = some (.obj es) ∧ es.map Prod.fst = bs.map Binding.name ∧
        List.Forall₂ R (es.map Prod.snd) (bs.map Binding.value) := by
  constructor
  · intro h
    cases h with
    | listed h => exact .inl ⟨_, rfl, h⟩
    | keyed hnames h => exact .inr ⟨_, rfl, hnames, h⟩
  · intro h
    rcases h with ⟨vs, rfl, h⟩ | ⟨es, rfl, hnames, h⟩
    · exact .listed h
    · exact .keyed hnames h

theorem shaped_listed_iff {bs : List Binding} {vs : List Json} :
    (Part.bindings bs).Shaped R (some (.arr vs)) ↔
      List.Forall₂ R vs (bs.map Binding.whole) := by
  rw [shaped_bindings_iff]
  simp

theorem shaped_keyed_iff {bs : List Binding} {es : List (String × Json)} :
    (Part.bindings bs).Shaped R (some (.obj es)) ↔
      es.map Prod.fst = bs.map Binding.name ∧
        List.Forall₂ R (es.map Prod.snd) (bs.map Binding.value) := by
  rw [shaped_bindings_iff]
  simp

end Part

/-! ## The grammar has one solution

The grammar is a relation with itself inside. Documents get smaller on the way down, so
whatever satisfies its equation is the same relation, and a reader will be shown to. -/

theorem form_iff {v : Json} {n : Node} : Form v n ↔ Shaped Form v n := by
  constructor
  · intro h
    cases h with
    | level h => exact h
  · exact Form.level

theorem shaped_obj_iff {ms : List (String × Json)} {n : Node} :
    Shaped R (.obj ms) n ↔
      ∃ tag, Table.get? tagKey ms = some (.str tag) ∧ TagOf n.kind tag ∧
        (∀ p ∈ n.fields, p.2.Shaped R (Table.get? p.1 ms)) ∧ n.NamesOnce := by
  constructor
  · intro h
    cases h with
    | obj htag hkind hfields hnames => exact ⟨_, htag, hkind, hfields, hnames⟩
  · intro h
    obtain ⟨_, htag, hkind, hfields, hnames⟩ := h
    exact .obj htag hkind hfields hnames

theorem sizeOf_lt_of_mem_obj {ms : List (String × Json)} {m : String × Json} (h : m ∈ ms) :
    sizeOf m.2 < sizeOf (Json.obj ms) := by
  obtain ⟨key, v⟩ := m
  have hmem := List.sizeOf_lt_of_mem h
  simp only [Prod.mk.sizeOf_spec, Json.obj.sizeOf_spec] at hmem ⊢
  omega

theorem sizeOf_lt_of_mem_arr {vs : List Json} {v : Json} (h : v ∈ vs) :
    sizeOf v < sizeOf (Json.arr vs) := by
  have hmem := List.sizeOf_lt_of_mem h
  simp only [Json.arr.sizeOf_spec]
  omega

theorem forall₂_imp_of_mem {vs : List Json} {ns : List Node} (h : List.Forall₂ R vs ns)
    (himp : ∀ v ∈ vs, ∀ n, R v n → Q v n) : List.Forall₂ Q vs ns := by
  induction h with
  | nil => exact .nil
  | cons hv _ ih =>
      obtain ⟨hhead, htail⟩ := List.forall_mem_cons.mp himp
      exact .cons (hhead _ hv) (ih htail)

/-- A part depends on the relation only at the value of its field and at the
values directly inside that. -/
theorem Part.Shaped.imp {part : Part} {v? : Option Json} (h : part.Shaped R v?)
    (himp : ∀ v ∈ v?, ∀ w n, sizeOf w ≤ sizeOf v → R w n → Q w n) : part.Shaped Q v? := by
  cases h with
  | text => exact .text
  | bool => exact .bool
  | flag => exact .flag
  | noFlag h => exact .noFlag h
  | noNode h => exact .noNode h
  | node h => exact .node (himp _ rfl _ _ (Nat.le_refl _) h)
  | someNode h => exact .someNode (himp _ rfl _ _ (Nat.le_refl _) h)
  | nodes h =>
      refine .nodes (forall₂_imp_of_mem h fun w hw n => himp _ rfl w n ?_)
      exact Nat.le_of_lt (sizeOf_lt_of_mem_arr hw)
  | listed h =>
      refine .listed (forall₂_imp_of_mem h fun w hw n => himp _ rfl w n ?_)
      exact Nat.le_of_lt (sizeOf_lt_of_mem_arr hw)
  | keyed hnames h =>
      refine .keyed hnames (forall₂_imp_of_mem h fun w hw n => himp _ rfl w n ?_)
      obtain ⟨e, he, rfl⟩ := List.mem_map.mp hw
      exact Nat.le_of_lt (sizeOf_lt_of_mem_obj he)

theorem Shaped.imp {v : Json} {n : Node} (h : Shaped R v n)
    (himp : ∀ w m, sizeOf w < sizeOf v → R w m → Q w m) : Shaped Q v n := by
  cases h with
  | obj htag hkind hfields hnames =>
      refine .obj htag hkind (fun p hp => (hfields p hp).imp ?_) hnames
      intro v hv w m hle
      exact himp w m (Nat.lt_of_le_of_lt hle (sizeOf_lt_of_mem_obj (Table.mem_of_get? hv)))

/-- A relation that unfolds as the grammar does is the grammar. -/
theorem iff_form (hR : ∀ v n, R v n ↔ Shaped R v n) (v : Json) (n : Node) :
    R v n ↔ Form v n := by
  rw [hR, form_iff]
  constructor
  · intro h
    exact h.imp fun w m _ => (iff_form hR w m).mp
  · intro h
    exact h.imp fun w m _ => (iff_form hR w m).mpr
termination_by sizeOf v

/-! ## Reading a field

What reading makes of a field is a part of the node exactly if the field holds
that part. The values inside are related by reading itself, so nothing is said
here about more than one level. -/

/-- Reading makes this node of the value. -/
def ReadsAs (v : Json) (n : Node) : Prop :=
  decodeNode v = .ok n

theorem not_readsAs_null (n : Node) : ¬ ReadsAs .null n := by
  intro h
  cases h

section Fields

variable {α β : Type} {k : Kind} {ms : List (String × Json)} {field : String}

theorem map_eq_ok_iff {ε : Type} {r : Except ε α} {f : α → β} {b : β} :
    r.map f = .ok b ↔ ∃ a, r = .ok a ∧ b = f a := by
  cases r with
  | error e => simp [Except.map]
  | ok a => simp [Except.map, eq_comm]

theorem forall₂_and_iff {γ : Type} {f : α → γ} {g : β → γ} {S : α → β → Prop} {as : List α}
    {bs : List β} :
    List.Forall₂ (fun a b => f a = g b ∧ S a b) as bs ↔
      as.map f = bs.map g ∧ List.Forall₂ S as bs := by
  induction as generalizing bs with
  | nil => cases bs <;> simp
  | cons a as ih =>
      cases bs with
      | nil => simp
      | cons b bs =>
          simp only [List.forall₂_cons, ih, List.map_cons, List.cons.injEq]
          exact and_and_and_comm

/-- A place that fits the nodes of one sort, and keeps enough of them to make
them again. -/
class Keeps (slot : Slot α) (make : outParam (α → Node)) : Prop where
  pick_iff : ∀ n a, slot.pick n = some a ↔ n = make a

instance : Keeps .ty .ty where
  pick_iff n a := by cases n <;> simp [Slot.ty]

instance : Keeps .expr .expr where
  pick_iff n a := by cases n <;> simp [Slot.expr]

instance : Keeps .stmt .stmt where
  pick_iff n a := by cases n <;> simp [Slot.stmt]

instance : Keeps .typeArg .typeArg where
  pick_iff n a := by cases n <;> simp [Slot.typeArg]

instance : Keeps .param .param where
  pick_iff n a := by cases n <;> simp [Slot.param]

instance : Keeps .arg .arg where
  pick_iff n a := by cases n <;> simp [Slot.arg]

instance : Keeps .case .case where
  pick_iff n a := by cases n <;> simp [Slot.case]

instance : Keeps .fallback .fallback where
  pick_iff n a := by cases n <;> simp [Slot.fallback]

instance : Keeps .ident fun name => .expr (.ident name) where
  pick_iff n a := by
    match n with
    | .expr (.num ..) | .expr (.str _) | .expr (.ident _) | .expr (.func ..)
    | .expr (.create ..) | .expr (.call ..) | .ty _ | .typeArg _ | .param _ | .arg _
    | .stmt _ | .case _ | .fallback _ => simp [Slot.ident]

instance : Keeps .typeName fun name => .ty (.named name) where
  pick_iff n a := by
    match n with
    | .ty (.named _) | .ty (.generic ..) | .expr _ | .typeArg _ | .param _ | .arg _
    | .stmt _ | .case _ | .fallback _ => simp [Slot.typeName]

theorem fit_eq_ok_iff {slot : Slot α} {make : α → Node} [Keeps slot make] {v : Json}
    {a : α} : (read v).toItem.fit slot = .ok a ↔ ReadsAs v (make a) := by
  rw [Item.fit, ReadsAs, decodeNode]
  cases (read v).node with
  | error e => simp [Except.bind]
  | ok n =>
      have hpick : slot.pick n = some a ↔ n = make a := Keeps.pick_iff n a
      simp only [Except.bind, Slot.fit, Except.ok.injEq, ← hpick]
      cases slot.pick n with
      | none => simp
      | some b => simp

theorem mapM_fit_eq_ok_iff {slot : Slot α} {make : α → Node} [Keeps slot make]
    {vs : List Json} {as : List α} :
    (readItems vs).mapM (Item.fit slot) = .ok as ↔
      List.Forall₂ ReadsAs vs (as.map make) := by
  rw [mapM_eq_ok_iff_forall₂, readItems_eq_map, List.forall₂_map_left_iff,
    List.forall₂_map_right_iff]
  simp only [fit_eq_ok_iff]

/-- Every reader of a field that must be there begins in this way. -/
theorem require_bind_eq_ok_iff {f : Reading → Except Error β} {b : β} :
    ((fieldsOf k ms).require field).bind f = .ok b ↔
      ∃ v, Table.get? field ms = some v ∧ ¬ v.isNull ∧ f (read v) = .ok b := by
  rw [Fields.require, Fields.find?, fieldsOf, get?_readMembers]
  cases Table.get? field ms with
  | none => simp [Fields.fail, Except.bind]
  | some v =>
      by_cases hv : v.isNull
      · simp [Fields.fail, Except.bind, hv]
      · simp [Except.bind, hv]

theorem string_eq_ok_iff {s : String} :
    (fieldsOf k ms).string field = .ok s ↔
      (Part.text s).Shaped ReadsAs (Table.get? field ms) := by
  rw [Fields.string, require_bind_eq_ok_iff, Part.shaped_text_iff]
  constructor
  · intro h
    obtain ⟨v, hv, -, h⟩ := h
    rw [raw_read] at h
    cases v with
    | str _ => cases h; exact hv
    | null | bool _ | num _ | arr _ | obj _ => cases h
  · intro h
    exact ⟨_, h, Bool.false_ne_true, rfl⟩

theorem bool_eq_ok_iff {b : Bool} :
    (fieldsOf k ms).bool field = .ok b ↔
      (Part.bool b).Shaped ReadsAs (Table.get? field ms) := by
  rw [Fields.bool, require_bind_eq_ok_iff, Part.shaped_bool_iff]
  constructor
  · intro h
    obtain ⟨v, hv, -, h⟩ := h
    rw [raw_read] at h
    cases v with
    | bool _ => cases h; exact hv
    | null | str _ | num _ | arr _ | obj _ => cases h
  · intro h
    exact ⟨_, h, Bool.false_ne_true, rfl⟩

theorem find?_cases (k : Kind) (ms : List (String × Json)) (field : String) :
    Missing (Table.get? field ms) ∧ (fieldsOf k ms).find? field = none ∨
      ∃ v, Table.get? field ms = some v ∧ ¬ v.isNull ∧
        (fieldsOf k ms).find? field = some (read v) := by
  rw [Fields.find?, fieldsOf, get?_readMembers]
  cases Table.get? field ms with
  | none => exact .inl ⟨.inl rfl, rfl⟩
  | some v =>
      cases v with
      | null => exact .inl ⟨.inr rfl, rfl⟩
      | bool _ | num _ | str _ | arr _ | obj _ =>
          exact .inr ⟨_, rfl, Bool.false_ne_true, by simp [Json.isNull]⟩

theorem not_missing {v : Json} (hv : ¬ v.isNull) : ¬ Missing (some v) := by
  intro h
  rcases h with h | h
  · cases h
  · cases h
    exact hv rfl

theorem flag_eq_ok_iff {b : Bool} :
    (fieldsOf k ms).flag field = .ok b ↔
      (Part.flag b).Shaped ReadsAs (Table.get? field ms) := by
  rw [Fields.flag, Part.shaped_flag_iff]
  rcases find?_cases k ms field with ⟨hmissing, hfind⟩ | ⟨v, hv, hnull, hfind⟩
  · have hbool : Table.get? field ms ≠ some (.bool b) := by
      intro h
      rw [h] at hmissing
      exact not_missing (v := .bool b) Bool.false_ne_true hmissing
    simp [hfind, hmissing, hbool, eq_comm]
  · have hpresent : ¬ Missing (Table.get? field ms) := hv ▸ not_missing hnull
    simp [hfind, hpresent, bool_eq_ok_iff, Part.shaped_bool_iff]

theorem child_eq_ok_iff {slot : Slot α} {make : α → Node} [Keeps slot make] {a : α} :
    (fieldsOf k ms).child slot field = .ok a ↔
      (Part.node (make a)).Shaped ReadsAs (Table.get? field ms) := by
  rw [Fields.child, require_bind_eq_ok_iff, Part.shaped_node_iff]
  simp only [fit_eq_ok_iff]
  constructor
  · intro h
    obtain ⟨v, hv, -, h⟩ := h
    exact ⟨v, hv, h⟩
  · intro h
    obtain ⟨v, hv, h⟩ := h
    refine ⟨v, hv, fun hnull => ?_, h⟩
    cases v with
    | null => exact not_readsAs_null _ h
    | bool _ | num _ | str _ | arr _ | obj _ => cases hnull

theorem child?_eq_ok_iff {slot : Slot α} {make : α → Node} [Keeps slot make]
    {o : Option α} :
    (fieldsOf k ms).child? slot field = .ok o ↔
      (Part.node? (o.map make)).Shaped ReadsAs (Table.get? field ms) := by
  rw [Fields.child?, Part.shaped_node?_iff]
  rcases find?_cases k ms field with ⟨hmissing, hfind⟩ | ⟨v, hv, hnull, hfind⟩
  · have hnode : ∀ v n, Table.get? field ms = some v → ¬ ReadsAs v n := by
      intro v n hv h
      rw [hv] at hmissing
      rcases hmissing with hmissing | hmissing
      · cases hmissing
      · cases hmissing
        exact not_readsAs_null n h
    constructor
    · intro h
      rw [hfind] at h
      cases h
      exact .inr ⟨rfl, hmissing⟩
    · intro h
      rcases h with ⟨v, n, -, hv, h⟩ | ⟨h, -⟩
      · exact absurd h (hnode v n hv)
      · rw [hfind, Option.map_eq_none_iff.mp h]
  · have hpresent : ¬ Missing (Table.get? field ms) := hv ▸ not_missing hnull
    simp only [hfind, map_eq_ok_iff, fit_eq_ok_iff]
    constructor
    · intro h
      obtain ⟨a, ha, rfl⟩ := h
      exact .inl ⟨v, make a, rfl, hv, ha⟩
    · intro h
      rcases h with ⟨w, n, ho, hw, h⟩ | ⟨-, h⟩
      · obtain ⟨a, rfl, rfl⟩ := Option.map_eq_some_iff.mp ho
        cases hv.symm.trans hw
        exact ⟨a, h, rfl⟩
      · exact absurd h hpresent

theorem itemsOf_eq_ok_iff {slot : Slot α} {make : α → Node} [Keeps slot make]
    {v : Json} {as : List α} :
    (fieldsOf k ms).itemsOf slot field (read v) = .ok as ↔
      ∃ vs, v = .arr vs ∧ List.Forall₂ ReadsAs vs (as.map make) := by
  rw [Fields.itemsOf, raw_read]
  cases v with
  | arr vs =>
      have hitems : (read (.arr vs)).items = readItems vs := by rw [read]
      simp only [hitems, mapM_fit_eq_ok_iff]
      simp
  | null | bool _ | num _ | str _ | obj _ => simp [Fields.fail]

theorem list_eq_ok_iff {slot : Slot α} {make : α → Node} [Keeps slot make]
    {as : List α} :
    (fieldsOf k ms).list slot field = .ok as ↔
      (Part.nodes (as.map make)).Shaped ReadsAs (Table.get? field ms) := by
  rw [Fields.list, require_bind_eq_ok_iff, Part.shaped_nodes_iff]
  simp only [itemsOf_eq_ok_iff]
  constructor
  · intro h
    obtain ⟨_, hv, -, vs, rfl, h⟩ := h
    exact ⟨vs, hv, h⟩
  · intro h
    obtain ⟨vs, hv, h⟩ := h
    exact ⟨_, hv, Bool.false_ne_true, vs, rfl, h⟩

/-- How named things are made of a name and a value, seen as bindings. -/
structure Makes (mk : String → β → α) (make : α → Node) (makeValue : β → Node)
    (binding : α → Binding) : Prop where
  cover : ∀ a, ∃ name b, a = mk name b
  name_mk : ∀ name b, (binding (mk name b)).name = name
  value_mk : ∀ name b, (binding (mk name b)).value = makeValue b
  whole_eq : ∀ a, (binding a).whole = make a

theorem makes_typeArg : Makes TypeArg.mk .typeArg .ty .typeArg where
  cover := fun ⟨name, ty⟩ => ⟨name, ty, rfl⟩
  name_mk _ _ := rfl
  value_mk _ _ := rfl
  whole_eq _ := rfl

theorem makes_arg : Makes Arg.mk .arg .expr .arg where
  cover := fun ⟨name, value⟩ => ⟨name, value, rfl⟩
  name_mk _ _ := rfl
  value_mk _ _ := rfl
  whole_eq _ := rfl

section Named

variable {slot : Slot α} {valueSlot : Slot β} {mk : String → β → α} {make : α → Node}
  {makeValue : β → Node} {binding : α → Binding}

theorem entry_eq_ok_iff [Keeps valueSlot makeValue]
    (hmakes : Makes mk make makeValue binding) {name : String} {v : Json} {a : α} :
    ((read v).toItem.fit valueSlot).map (mk name) = .ok a ↔
      name = (binding a).name ∧ ReadsAs v (binding a).value := by
  simp only [map_eq_ok_iff, fit_eq_ok_iff]
  constructor
  · intro h
    obtain ⟨b, hb, rfl⟩ := h
    rw [hmakes.name_mk, hmakes.value_mk]
    exact ⟨rfl, hb⟩
  · intro h
    obtain ⟨hname, hv⟩ := h
    obtain ⟨name', b, rfl⟩ := hmakes.cover a
    rw [hmakes.name_mk] at hname
    rw [hmakes.value_mk] at hv
    exact ⟨b, hv, hname ▸ rfl⟩

theorem entries_eq_ok_iff [Keeps valueSlot makeValue]
    (hmakes : Makes mk make makeValue binding) {es : List (String × Json)} {as : List α} :
    ((read (.obj es)).members.mapM fun (name, i) => (i.fit valueSlot).map (mk name)) = .ok as ↔
      es.map Prod.fst = (as.map binding).map Binding.name ∧
        List.Forall₂ ReadsAs (es.map Prod.snd) ((as.map binding).map Binding.value) := by
  have hmembers : (read (.obj es)).members = es.map fun e => (e.1, (read e.2).toItem) := by
    rw [read, readMembers_eq_map, List.map_map]
    rfl
  rw [mapM_eq_ok_iff_forall₂, hmembers, List.forall₂_map_left_iff]
  simp only [entry_eq_ok_iff hmakes]
  rw [forall₂_and_iff, List.map_map, List.map_map, List.forall₂_map_left_iff,
    List.forall₂_map_right_iff]
  rfl

theorem named_eq_ok_iff [Keeps slot make] [Keeps valueSlot makeValue]
    (hmakes : Makes mk make makeValue binding) {as : List α} :
    (fieldsOf k ms).named slot valueSlot mk field = .ok as ↔
      (Part.bindings (as.map binding)).Shaped ReadsAs (Table.get? field ms) := by
  have hwhole : (as.map binding).map Binding.whole = as.map make := by
    rw [List.map_map]
    exact List.map_congr_left fun a _ => hmakes.whole_eq a
  rw [Fields.named, require_bind_eq_ok_iff, Part.shaped_bindings_iff, hwhole]
  constructor
  · intro h
    obtain ⟨v, hv, -, h⟩ := h
    rw [raw_read] at h
    cases v with
    | obj es => exact .inr ⟨es, hv, (entries_eq_ok_iff hmakes).mp h⟩
    | null | bool _ | num _ | str _ | arr _ =>
        obtain ⟨vs, harr, h⟩ := itemsOf_eq_ok_iff.mp h
        exact .inl ⟨vs, harr ▸ hv, h⟩
  · intro h
    rcases h with ⟨vs, hv, h⟩ | ⟨es, hv, h⟩
    · exact ⟨_, hv, Bool.false_ne_true, itemsOf_eq_ok_iff.mpr ⟨vs, rfl, h⟩⟩
    · refine ⟨_, hv, Bool.false_ne_true, ?_⟩
      rw [raw_read]
      exact (entries_eq_ok_iff hmakes).mpr h

end Named

theorem args_eq_ok_iff {as : List Arg} :
    (fieldsOf k ms).args field = .ok as ↔
      (Part.bindings (as.map .arg)).Shaped ReadsAs (Table.get? field ms) :=
  named_eq_ok_iff makes_arg

end Fields

section Objects

variable {k : Kind} {ms : List (String × Json)} {n : Node}

theorem genericType_eq_ok_iff {t : Ty} :
    (fieldsOf k ms).genericType = .ok t ↔
      ∃ name args, (Part.node (.ty (.named name))).Shaped ReadsAs (Table.get? "id" ms) ∧
        (Part.bindings (args.map .typeArg)).Shaped ReadsAs
          (Table.get? "typevars" ms) ∧
        (args.map TypeArg.name).Nodup ∧ t = .generic name args := by
  rw [Fields.genericType, bind_eq_ok_iff]
  refine exists_congr fun name => ?_
  rw [child_eq_ok_iff, bind_eq_ok_iff, ← exists_and_left]
  refine exists_congr fun args => and_congr_right fun _ => ?_
  rw [named_eq_ok_iff makes_typeArg, ← firstRepeat_eq_none_iff]
  refine and_congr_right fun _ => ?_
  cases firstRepeat (args.map TypeArg.name) with
  | some twice => simp [Fields.fail]
  | none => simp [pure, Except.pure, eq_comm]

/-- A node that was read has the fields of its object. -/
theorem shaped_of_node_eq_ok (h : (fieldsOf k ms).node = .ok n) :
    n.kind = k ∧ (∀ p ∈ n.fields, p.2.Shaped ReadsAs (Table.get? p.1 ms)) ∧ n.NamesOnce := by
  cases k with
  | genericType =>
      obtain ⟨t, ht, h⟩ := bind_eq_ok_iff.mp h
      cases h
      obtain ⟨name, args, hname, hargs, hnames, rfl⟩ := genericType_eq_ok_iff.mp ht
      refine ⟨rfl, ?_, ?_⟩
      · exact List.forall_mem_cons.mpr ⟨hname, List.forall_mem_singleton.mpr hargs⟩
      · intro name' args' heq
        cases heq
        exact hnames
  | brk | cont =>
      cases h
      exact ⟨rfl, List.forall_mem_nil _, nofun⟩
  | namedType | str | ident | eval | fallback | ret | suite =>
      obtain ⟨a, ha, h⟩ := bind_eq_ok_iff.mp h
      cases h
      simp only [string_eq_ok_iff, child_eq_ok_iff, child?_eq_ok_iff, list_eq_ok_iff] at ha
      exact ⟨rfl, List.forall_mem_singleton.mpr ha, nofun⟩
  | typeArg | num | param | arg | create | call | whileDo | branch | case =>
      obtain ⟨a, ha, h⟩ := bind_eq_ok_iff.mp h
      obtain ⟨b, hb, h⟩ := bind_eq_ok_iff.mp h
      cases h
      simp only [string_eq_ok_iff, child_eq_ok_iff, list_eq_ok_iff] at ha
      simp only [flag_eq_ok_iff, child_eq_ok_iff, child?_eq_ok_iff, args_eq_ok_iff] at hb
      refine ⟨rfl, ?_, nofun⟩
      exact List.forall_mem_cons.mpr ⟨ha, List.forall_mem_singleton.mpr hb⟩
  | func | assign | forEach =>
      obtain ⟨a, ha, h⟩ := bind_eq_ok_iff.mp h
      obtain ⟨b, hb, h⟩ := bind_eq_ok_iff.mp h
      obtain ⟨c, hc, h⟩ := bind_eq_ok_iff.mp h
      cases h
      simp only [child_eq_ok_iff, list_eq_ok_iff] at ha
      simp only [bool_eq_ok_iff, child_eq_ok_iff] at hb
      rw [child_eq_ok_iff] at hc
      refine ⟨rfl, List.forall_mem_cons.mpr ⟨ha, ?_⟩, nofun⟩
      exact List.forall_mem_cons.mpr ⟨hb, List.forall_mem_singleton.mpr hc⟩

/-- An object with the fields of a node is read as that node. -/
theorem node_eq_ok_of_shaped
    (hfields : ∀ p ∈ n.fields, p.2.Shaped ReadsAs (Table.get? p.1 ms))
    (hnames : n.NamesOnce) : (fieldsOf n.kind ms).node = .ok n := by
  match n with
  | .ty (.generic name args) =>
      obtain ⟨hname, hargs⟩ := List.forall_mem_cons.mp hfields
      have hargs := List.forall_mem_singleton.mp hargs
      refine bind_eq_ok_iff.mpr ⟨_, genericType_eq_ok_iff.mpr ?_, rfl⟩
      exact ⟨name, args, hname, hargs, hnames name args rfl, rfl⟩
  | .stmt .brk | .stmt .cont => rfl
  | .ty (.named _) | .expr (.str _) | .expr (.ident _) | .stmt (.eval _) | .fallback _
  | .stmt (.ret _) | .stmt (.suite _) =>
      have ha := List.forall_mem_singleton.mp hfields
      refine bind_eq_ok_iff.mpr ⟨_, ?_, rfl⟩
      simp only [string_eq_ok_iff, child_eq_ok_iff, child?_eq_ok_iff, list_eq_ok_iff]
      exact ha
  | .typeArg ⟨_, _⟩ | .expr (.num ..) | .param _ | .arg ⟨_, _⟩ | .expr (.create ..)
  | .expr (.call ..) | .stmt (.whileDo ..) | .stmt (.branch ..) | .case ⟨_, _⟩ =>
      obtain ⟨ha, hb⟩ := List.forall_mem_cons.mp hfields
      have hb := List.forall_mem_singleton.mp hb
      refine bind_eq_ok_iff.mpr ⟨_, ?_, bind_eq_ok_iff.mpr ⟨_, ?_, rfl⟩⟩
      · simp only [string_eq_ok_iff, child_eq_ok_iff, list_eq_ok_iff]
        exact ha
      · simp only [flag_eq_ok_iff, child_eq_ok_iff, child?_eq_ok_iff, args_eq_ok_iff]
        exact hb
  | .expr (.func ..) | .stmt (.assign ..) | .stmt (.forEach ..) =>
      obtain ⟨ha, hrest⟩ := List.forall_mem_cons.mp hfields
      obtain ⟨hb, hc⟩ := List.forall_mem_cons.mp hrest
      have hc := List.forall_mem_singleton.mp hc
      refine bind_eq_ok_iff.mpr ⟨_, ?_, bind_eq_ok_iff.mpr ⟨_, ?_,
        bind_eq_ok_iff.mpr ⟨_, ?_, rfl⟩⟩⟩
      · simp only [child_eq_ok_iff, list_eq_ok_iff]
        exact ha
      · simp only [bool_eq_ok_iff, child_eq_ok_iff]
        exact hb
      · rw [child_eq_ok_iff]
        exact hc

end Objects

theorem kindOfTag?_eq_some_iff {tag : String} {k : Kind} :
    kindOfTag? tag = some k ↔ TagOf k tag := by
  constructor
  · intro h
    rw [kindOfTag?] at h
    split at h
    · next hold =>
        cases h
        exact .inr ⟨rfl, hold⟩
    · have hfound := List.find?_some h
      exact .inl (eq_of_beq hfound).symm
  · intro h
    rcases h with rfl | ⟨rfl, rfl⟩
    · exact kindOfTag?_tag k
    · rfl

theorem kind?_obj_eq_some_iff {ms : List (String × Json)} {k : Kind} :
    kind? (.obj ms) = some k ↔
      ∃ tag, Table.get? tagKey ms = some (.str tag) ∧ TagOf k tag := by
  rw [kind?, Json.get?]
  cases Table.get? tagKey ms with
  | none => simp
  | some v =>
      cases v with
      | str tag => simp [Json.str?, kindOfTag?_eq_some_iff]
      | null | bool _ | num _ | arr _ | obj _ => simp [Json.str?]

theorem readsAs_obj_iff {ms : List (String × Json)} {n : Node} :
    ReadsAs (.obj ms) n ↔ ∃ k, kind? (.obj ms) = some k ∧ (fieldsOf k ms).node = .ok n := by
  rw [ReadsAs, decodeNode, read, assemble]
  cases kind? (.obj ms) with
  | none => simp
  | some k => simp [fieldsOf]

theorem readsAs_iff_shaped (v : Json) (n : Node) : ReadsAs v n ↔ Shaped ReadsAs v n := by
  constructor
  · intro h
    cases v with
    | obj ms =>
        obtain ⟨k, hkind, hnode⟩ := readsAs_obj_iff.mp h
        obtain ⟨tag, htag, hk⟩ := kind?_obj_eq_some_iff.mp hkind
        obtain ⟨rfl, hfields, hnames⟩ := shaped_of_node_eq_ok hnode
        exact .obj htag hk hfields hnames
    | null | bool _ | num _ | str _ | arr _ => cases h
  · intro h
    cases h with
    | obj htag hkind hfields hnames =>
        have hk := kind?_obj_eq_some_iff.mpr ⟨_, htag, hkind⟩
        exact readsAs_obj_iff.mpr ⟨_, hk, node_eq_ok_of_shaped hfields hnames⟩

theorem readsAs_iff_form {v : Json} {n : Node} : ReadsAs v n ↔ Form v n :=
  iff_form readsAs_iff_shaped v n

theorem decode_eq_ok_none_iff {v : Json} : decode v = .ok none ↔ v = .null := by
  cases v with
  | null => simp [decode]
  | bool _ | num _ | str _ | arr _ | obj _ => simp [decode, map_eq_ok_iff]

theorem decode_eq_ok_some_iff {v : Json} {n : Node} : decode v = .ok (some n) ↔ Form v n := by
  rw [← readsAs_iff_form, ReadsAs]
  cases v with
  | null => simp [decode, decodeNode, read, assemble, kind?, Json.get?]
  | bool _ | num _ | str _ | arr _ | obj _ => simp [decode, map_eq_ok_iff]

theorem tagOf_tag_iff {k l : Kind} : TagOf k l.tag ↔ k = l := by
  rw [← kindOfTag?_eq_some_iff, kindOfTag?_tag, Option.some.injEq]
  exact eq_comm

theorem ne_tagKey_of_mem_fields {n : Node} : ∀ p ∈ n.fields, p.1 ≠ tagKey := by
  match n with
  | .ty (.named _) | .ty (.generic ..) | .typeArg _ | .param _ | .expr (.num ..)
  | .expr (.str _) | .expr (.ident _) | .expr (.func ..) | .expr (.create ..)
  | .expr (.call ..) | .arg _ | .stmt (.assign ..) | .stmt (.eval _) | .stmt (.forEach ..)
  | .stmt (.whileDo ..) | .stmt (.branch ..) | .stmt (.ret _) | .stmt .brk | .stmt .cont
  | .stmt (.suite _) | .case _ | .fallback _ => simp [Node.fields, tagKey]

theorem form_object_iff {k : Kind} {fields : List (String × Json)} {n : Node} :
    Form (object k fields) n ↔
      n.kind = k ∧ (∀ p ∈ n.fields, p.2.Shaped Form (Table.get? p.1 fields)) ∧
        n.NamesOnce := by
  have hget : ∀ p ∈ n.fields, Table.get? p.1 ((tagKey, .str k.tag) :: fields)
      = Table.get? p.1 fields := by
    intro p hp
    exact if_neg (ne_tagKey_of_mem_fields p hp).symm
  rw [form_iff, object, shaped_obj_iff]
  constructor
  · intro h
    obtain ⟨tag, htag, hkind, hfields, hnames⟩ := h
    cases htag
    refine ⟨tagOf_tag_iff.mp hkind, fun p hp => ?_, hnames⟩
    exact hget p hp ▸ hfields p hp
  · intro h
    obtain ⟨hkind, hfields, hnames⟩ := h
    refine ⟨_, rfl, tagOf_tag_iff.mpr hkind, fun p hp => ?_, hnames⟩
    rw [hget p hp]
    exact hfields p hp

/-- Two objects that agree on the tag and the fields of a node. -/
def AgreeOn (n : Node) (ms ms' : List (String × Json)) : Prop :=
  ∀ key ∈ tagKey :: n.fields.map Prod.fst, Table.get? key ms = Table.get? key ms'

theorem Form.of_agreeOn {n : Node} {ms ms' : List (String × Json)} (h : Form (.obj ms) n)
    (hagree : AgreeOn n ms ms') : Form (.obj ms') n := by
  obtain ⟨htagKey, hkeys⟩ := List.forall_mem_cons.mp hagree
  obtain ⟨tag, htag, hkind, hfields, hnames⟩ := shaped_obj_iff.mp (form_iff.mp h)
  refine .level (.obj (htagKey ▸ htag) hkind (fun p hp => ?_) hnames)
  rw [← hkeys p.1 (List.mem_map_of_mem hp)]
  exact hfields p hp

/-- Null stands for no tree and nothing else does, and a tree is read from its
wire forms and from nothing else. What is not a field of the tree has no bearing
on that, and neither has the order of the fields. -/
theorem decode_eq_ok_iff_form :
    (∀ v, decode v = .ok none ↔ v = .null) ∧
    (∀ v n, decode v = .ok (some n) ↔ Form v n) ∧
    ∀ n ms ms', AgreeOn n ms ms' →
      (decode (.obj ms) = .ok (some n) ↔ decode (.obj ms') = .ok (some n)) := by
  refine ⟨fun v => decode_eq_ok_none_iff, fun v n => decode_eq_ok_some_iff, ?_⟩
  intro n ms ms' hagree
  have hagree' : AgreeOn n ms' ms := fun key hkey => (hagree key hkey).symm
  rw [decode_eq_ok_some_iff, decode_eq_ok_some_iff]
  exact ⟨fun h => h.of_agreeOn hagree, fun h => h.of_agreeOn hagree'⟩

/-- An older call, with its members out of order and one that is no field. -/
theorem decode_eq_ok_iff_form_call :
    let n := Node.expr (.call "f" [⟨"_type", .ident "x"⟩])
    let args := Json.obj [("_type", ident "x")]
    let ms := [("args", args), ("note", .null), ("func", ident "f"), (tagKey, .str "Call")]
    let ms' := [(tagKey, .str "Call"), ("func", ident "f"), ("args", args)]
    AgreeOn n ms ms' ∧ decode (.obj ms) = .ok (some n) ∧ decode (.obj ms') = .ok (some n) := by
  intro n args ms ms'
  have hagree : AgreeOn n ms ms' := by
    simp [AgreeOn, n, ms, ms', Node.fields, Table.get?, tagKey]
  have hread : decode (.obj ms) = .ok (some n) := by rfl
  exact ⟨hagree, hread, (decode_eq_ok_iff_form.2.2 n ms ms' hagree).mp hread⟩

end Wire

end TreeIR
