import TreeIR.Proofs.WireGrammar

/-!
# A fault can be looked at by itself

When a document cannot be read, the error hands back one value out of it. This
file says that this value is enough: it stands in the document, and reading it
alone leads to the same fault again. Two cases are apart. A node of the wrong
sort is a fine node by itself, so reading it alone succeeds, and it is its kind
that does not fit. And a null where a node must stand is a fault there, while a
document that is null stands for no tree.

The faults come from readers of fields, which blame now the object and now what
is inside the field, some levels down. `Traced` has both: a fault of the object
itself, or one of a value somewhere inside it. Every reader of a field is traced
and so is what is made of readers, so that for an object no more is left to do
than to go through its fields. The rest is an induction over documents.
-/

namespace TreeIR

/-- The first value is the second one or stands somewhere inside it. -/
inductive Json.Within : Json → Json → Prop
  | refl (v : Json) : Within v v
  | item {w v : Json} {vs : List Json} (h : Within w v) (hv : v ∈ vs) : Within w (.arr vs)
  | member {w : Json} {m : String × Json} {ms : List (String × Json)} (h : Within w m.2)
      (hm : m ∈ ms) : Within w (.obj ms)

theorem Json.Within.trans {u w v : Json} (h : u.Within w) (h' : w.Within v) : u.Within v := by
  induction h' with
  | refl => exact h
  | item _ hv ih => exact .item ih hv
  | member _ hm ih => exact .member ih hm

/-- The places that fields have for nodes. -/
inductive Slot.Field : {α : Type} → Slot α → Prop
  | ty : Field .ty
  | expr : Field .expr
  | stmt : Field .stmt
  | ident : Field .ident
  | typeName : Field .typeName
  | typeArg : Field .typeArg
  | param : Field .param
  | arg : Field .arg
  | case : Field .case
  | fallback : Field .fallback

/-- Whether a node fits a place is seen from its kind alone. -/
theorem Slot.Field.isSome_pick {α : Type} {slot : Slot α} (h : slot.Field) (n : Node) :
    (slot.pick n).isSome = slot.demand.admits n.kind := by
  cases h <;> rcases n with (_ | _) | _ | _ | (_ | _ | _ | _ | _ | _) | _ |
    (_ | _ | _ | _ | _ | _ | _ | _ | _) | _ | _ <;> rfl

namespace Wire

/-- Is the value of this shape? -/
def Shape.fits : Shape → Json → Bool
  | .string, .str _ => true
  | .bool, .bool _ => true
  | .array, .arr _ => true
  | _, _ => false

/-! ## Faults of an object and of what is inside it

A reader stops at its first fault. Where that is does not matter here, only that the error
names something in the object that is read. -/

/-- A fault that an object of this kind has itself. -/
inductive OwnFault (k : Kind) (ms : List (String × Json)) : Fault → Prop
  | absent {field : String} (h : Missing (Table.get? field ms)) :
      OwnFault k ms (.absentField k field)
  | shape {field : String} {v : Json} {shape : Shape} (hv : Table.get? field ms = some v)
      (hnull : ¬ v.isNull) (hshape : shape.fits v = false) :
      OwnFault k ms (.illShaped k field shape)
  | twice {name : String} : OwnFault k ms (.nameTwice k name)

/-- The error of a value in a place that asks for a node: its own error, or that
of a node which the place refuses. -/
inductive PlaceError (v : Json) : Error → Prop
  | unread {e : Error} (h : decodeNode v = .error e) : PlaceError v e
  | refused {n : Node} {m : Mismatch} (hread : decodeNode v = .ok n) (hfound : n.kind = m.found)
      (hdemand : m.expected.admits n.kind = false) : PlaceError v ⟨.wrongSort m, v⟩

/-- The error is a fault of the object itself, or comes from a value inside. -/
def Traced (k : Kind) (ms : List (String × Json)) (e : Error) : Prop :=
  OwnFault k ms e.fault ∧ e.value = .obj ms ∨
    ∃ m ∈ ms, ∃ v, v.Within m.2 ∧ PlaceError v e

/-- All errors of a reader are traced. -/
def Traces {α : Type} (k : Kind) (ms : List (String × Json)) (r : Except Error α) : Prop :=
  ∀ e, r = .error e → Traced k ms e

section Readers

variable {α β : Type} {k : Kind} {ms : List (String × Json)} {field : String}

theorem Traces.ok (a : α) : Traces k ms (.ok a) := by
  intro e h
  cases h

theorem Traces.fail {fault : Fault} (h : OwnFault k ms fault) :
    Traces k ms ((fieldsOf k ms).fail fault : Except Error α) := by
  intro e he
  cases he
  exact .inl ⟨h, rfl⟩

theorem Traces.bind {r : Except Error α} {f : α → Except Error β} (hr : Traces k ms r)
    (hf : ∀ a, Traces k ms (f a)) : Traces k ms (r >>= f) := by
  intro e h
  rcases Lowering.bind_eq_error h with h | ⟨a, -, h⟩
  · exact hr e h
  · exact hf a e h

theorem Traces.map {r : Except Error α} {g : α → β} (hr : Traces k ms r) :
    Traces k ms (r.map g) := by
  intro e h
  cases r with
  | ok a => cases h
  | error e' => cases h; exact hr e rfl

theorem Traces.mapM {f : α → Except Error β} {as : List α} (h : ∀ a ∈ as, Traces k ms (f a)) :
    Traces k ms (as.mapM f) := by
  intro e he
  obtain ⟨a, ha, hfail⟩ := Lowering.exists_mem_of_mapM_eq_error he
  exact h a ha e hfail

theorem placeError_of_fit {slot : Slot α} (hslot : slot.Field) {v : Json} {e : Error}
    (h : (read v).toItem.fit slot = .error e) : PlaceError v e := by
  rw [Item.fit] at h
  cases hread : (read v).node with
  | error e' =>
      rw [hread] at h
      cases h
      exact .unread hread
  | ok n =>
      rw [hread] at h
      have hpick := hslot.isSome_pick n
      cases hfit : slot.pick n with
      | some a => simp [Except.bind, Slot.fit, hfit] at h
      | none =>
          simp only [Except.bind, Slot.fit, hfit, raw_read, Except.error.injEq] at h
          subst h
          rw [hfit] at hpick
          exact .refused hread rfl hpick.symm

/-- What stands inside a member of the object is read for a place. -/
theorem Traces.fit {slot : Slot α} (hslot : slot.Field) {v w : Json}
    (hv : Table.get? field ms = some v) (hw : w.Within v) :
    Traces k ms ((read w).toItem.fit slot) := by
  intro e h
  exact .inr ⟨_, Table.mem_of_get? hv, w, hw, placeError_of_fit hslot h⟩

theorem Traces.require_bind {f : Reading → Except Error β}
    (hf : ∀ v, Table.get? field ms = some v → ¬ v.isNull → Traces k ms (f (read v))) :
    Traces k ms (((fieldsOf k ms).require field).bind f) := by
  rw [Fields.require]
  rcases find?_cases k ms field with ⟨hmissing, hfind⟩ | ⟨v, hv, hnull, hfind⟩
  · rw [hfind]
    exact Traces.fail (.absent hmissing)
  · rw [hfind]
    exact hf v hv hnull

theorem traces_string : Traces k ms ((fieldsOf k ms).string field) := by
  refine .require_bind fun v hv hnull => ?_
  rw [raw_read]
  cases v with
  | str s => exact .ok s
  | null | bool _ | num _ | arr _ | obj _ => exact .fail (.shape hv hnull rfl)

theorem traces_bool : Traces k ms ((fieldsOf k ms).bool field) := by
  refine .require_bind fun v hv hnull => ?_
  rw [raw_read]
  cases v with
  | bool b => exact .ok b
  | null | str _ | num _ | arr _ | obj _ => exact .fail (.shape hv hnull rfl)

theorem traces_flag : Traces k ms ((fieldsOf k ms).flag field) := by
  rw [Fields.flag]
  split
  · exact traces_bool
  · exact .ok false

theorem traces_child {slot : Slot α} (hslot : slot.Field) :
    Traces k ms ((fieldsOf k ms).child slot field) :=
  .require_bind fun v hv _ => .fit hslot hv (.refl v)

theorem traces_child? {slot : Slot α} (hslot : slot.Field) :
    Traces k ms ((fieldsOf k ms).child? slot field) := by
  rw [Fields.child?]
  rcases find?_cases k ms field with ⟨-, hfind⟩ | ⟨v, hv, -, hfind⟩
  · rw [hfind]
    exact .ok none
  · rw [hfind]
    exact .map (.fit hslot hv (.refl v))

theorem traces_itemsOf {slot : Slot α} (hslot : slot.Field) {v : Json}
    (hv : Table.get? field ms = some v) (hnull : ¬ v.isNull) :
    Traces k ms ((fieldsOf k ms).itemsOf slot field (read v)) := by
  rw [Fields.itemsOf, raw_read]
  cases v with
  | arr vs =>
      have hitems : (read (.arr vs)).items = vs.map fun w => (read w).toItem := by
        rw [read, readItems_eq_map]
      refine .mapM fun i hi => ?_
      rw [hitems] at hi
      obtain ⟨w, hw, rfl⟩ := List.mem_map.mp hi
      exact .fit hslot hv (.item (.refl w) hw)
  | null | bool _ | num _ | str _ | obj _ => exact .fail (.shape hv hnull rfl)

theorem traces_list {slot : Slot α} (hslot : slot.Field) :
    Traces k ms ((fieldsOf k ms).list slot field) :=
  .require_bind fun _ hv hnull => traces_itemsOf hslot hv hnull

theorem traces_named {slot : Slot α} {valueSlot : Slot β} {make : String → β → α}
    (hslot : slot.Field) (hvalue : valueSlot.Field) :
    Traces k ms ((fieldsOf k ms).named slot valueSlot make field) := by
  refine .require_bind fun v hv hnull => ?_
  rw [raw_read]
  cases v with
  | obj es =>
      have hmembers : (read (.obj es)).members = es.map fun e => (e.1, (read e.2).toItem) := by
        rw [read, readMembers_eq_map, List.map_map]
        rfl
      refine .mapM fun i hi => ?_
      rw [hmembers] at hi
      obtain ⟨e, he, rfl⟩ := List.mem_map.mp hi
      exact .map (.fit hvalue hv (.member (.refl e.2) he))
  | null | bool _ | num _ | str _ | arr _ => exact traces_itemsOf hslot hv hnull

theorem traces_genericType : Traces k ms (fieldsOf k ms).genericType := by
  refine .bind (traces_child .typeName) fun name => ?_
  refine .bind (traces_named .typeArg .ty) fun args => ?_
  split
  · exact .fail .twice
  · exact .ok _

/-- The fields of a node are all that is looked at, one after the other. -/
theorem traces_node : Traces k ms (fieldsOf k ms).node := by
  cases k with
  | brk | cont => exact .ok _
  | namedType | str | ident => exact .bind traces_string fun _ => .ok _
  | genericType => exact .bind traces_genericType fun _ => .ok _
  | typeArg => exact .bind traces_string fun _ => .bind (traces_child .ty) fun _ => .ok _
  | num => exact .bind traces_string fun _ => .bind traces_flag fun _ => .ok _
  | param =>
      exact .bind (traces_child .ident) fun _ => .bind (traces_child .ty) fun _ => .ok _
  | arg =>
      exact .bind (traces_child .ident) fun _ => .bind (traces_child .expr) fun _ => .ok _
  | create =>
      exact .bind (traces_child .ty) fun _ => .bind (traces_named .arg .expr) fun _ => .ok _
  | call =>
      exact .bind (traces_child .ident) fun _ => .bind (traces_named .arg .expr) fun _ => .ok _
  | whileDo | case =>
      exact .bind (traces_child .expr) fun _ => .bind (traces_child .stmt) fun _ => .ok _
  | func =>
      refine .bind (traces_list .param) fun _ => ?_
      exact .bind (traces_child .ty) fun _ => .bind (traces_child .stmt) fun _ => .ok _
  | assign =>
      refine .bind (traces_child .ident) fun _ => ?_
      exact .bind traces_bool fun _ => .bind (traces_child .expr) fun _ => .ok _
  | forEach =>
      refine .bind (traces_child .ident) fun _ => ?_
      exact .bind (traces_child .expr) fun _ => .bind (traces_child .stmt) fun _ => .ok _
  | branch =>
      exact .bind (traces_list .case) fun _ => .bind (traces_child? .fallback) fun _ => .ok _
  | eval => exact .bind (traces_child .expr) fun _ => .ok _
  | fallback => exact .bind (traces_child .stmt) fun _ => .ok _
  | ret => exact .bind (traces_child? .expr) fun _ => .ok _
  | suite => exact .bind (traces_list .stmt) fun _ => .ok _

end Readers

/-- What is known of an error from the value that it carries, whatever document
the value comes from. -/
inductive Diagnosed : Error → Prop
  | notNode {v : Json} (h : kind? v = none) : Diagnosed ⟨.notNode, v⟩
  | own {k : Kind} {ms : List (String × Json)} {fault : Fault} (hkind : kind? (.obj ms) = some k)
      (hfault : OwnFault k ms fault) (hread : decodeNode (.obj ms) = .error ⟨fault, .obj ms⟩) :
      Diagnosed ⟨fault, .obj ms⟩
  | refused {v : Json} {n : Node} {m : Mismatch} (hread : decodeNode v = .ok n)
      (hfound : n.kind = m.found) (hdemand : m.expected.admits n.kind = false) :
      Diagnosed ⟨.wrongSort m, v⟩

theorem decodeNode_of_kind?_eq_none {v : Json} (h : kind? v = none) :
    decodeNode v = .error ⟨.notNode, v⟩ := by
  cases v with
  | obj ms => rw [decodeNode, read, assemble, h]
  | null | bool _ | num _ | str _ | arr _ => rfl

theorem decodeNode_obj {ms : List (String × Json)} {k : Kind} (h : kind? (.obj ms) = some k) :
    decodeNode (.obj ms) = (fieldsOf k ms).node := by
  rw [decodeNode, read, assemble, h]
  rfl

theorem eq_obj_of_kind? {v : Json} {k : Kind} (h : kind? v = some k) : ∃ ms, v = .obj ms := by
  cases v with
  | obj ms => exact ⟨ms, rfl⟩
  | null | bool _ | num _ | str _ | arr _ => cases h

theorem sizeOf_le_of_within {w v : Json} (h : w.Within v) : sizeOf w ≤ sizeOf v := by
  induction h with
  | refl => exact Nat.le_refl _
  | item _ hv ih => exact Nat.le_trans ih (Nat.le_of_lt (sizeOf_lt_of_mem_arr hv))
  | member _ hm ih => exact Nat.le_trans ih (Nat.le_of_lt (sizeOf_lt_of_mem_obj hm))

/-- The value of an error stands in the document, and tells the error by itself. -/
theorem diagnosed_of_decodeNode {v : Json} {e : Error} (h : decodeNode v = .error e) :
    e.value.Within v ∧ Diagnosed e := by
  cases hkind : kind? v with
  | none =>
      rw [decodeNode_of_kind?_eq_none hkind] at h
      cases h
      exact ⟨.refl v, .notNode hkind⟩
  | some k =>
      obtain ⟨ms, rfl⟩ := eq_obj_of_kind? hkind
      have hnode := h
      rw [decodeNode_obj hkind] at hnode
      obtain ⟨fault, value⟩ := e
      rcases traces_node _ hnode with ⟨hown, rfl⟩ | ⟨m, hm, w, hw, herror⟩
      · exact ⟨.refl _, .own hkind hown h⟩
      · -- A place may be two levels down, in a list of a field: hence sizes, and no
        -- induction on the document itself.
        have hlt : sizeOf w < sizeOf (Json.obj ms) :=
          Nat.lt_of_le_of_lt (sizeOf_le_of_within hw) (sizeOf_lt_of_mem_obj hm)
        cases herror with
        | unread herror =>
            obtain ⟨hwithin, hdiagnosed⟩ := diagnosed_of_decodeNode herror
            exact ⟨.member (hwithin.trans hw) hm, hdiagnosed⟩
        | refused hread hfound hdemand =>
            exact ⟨.member hw hm, .refused hread hfound hdemand⟩
termination_by sizeOf v

theorem decode_of_ne_null {v : Json} (h : v ≠ .null) : decode v = (decodeNode v).map some := by
  cases v with
  | null => exact absurd rfl h
  | bool _ | num _ | str _ | arr _ | obj _ => rfl

theorem decodeNode_of_decode_eq_error {v : Json} {e : Error} (h : decode v = .error e) :
    decodeNode v = .error e := by
  by_cases hnull : v = .null
  · rw [hnull] at h
    cases h
  · rw [decode_of_ne_null hnull] at h
    cases hread : decodeNode v with
    | ok n => rw [hread] at h; cases h
    | error e' => rw [hread] at h; cases h; rfl

/-- A fault that is not about the sort of a node shows again when its value is
read as a document. Only null has no fault there: it stands for no tree. -/
theorem Diagnosed.decode_value {e : Error} (h : Diagnosed e)
    (hsort : ∀ m, e.fault ≠ .wrongSort m) :
    e.value = .null ∧ e.fault = .notNode ∨ decode e.value = .error e := by
  cases h with
  | @notNode v hkind =>
      by_cases hnull : v = .null
      · exact .inl ⟨hnull, rfl⟩
      · refine .inr ?_
        show decode v = _
        rw [decode_of_ne_null hnull, decodeNode_of_kind?_eq_none hkind]
        rfl
  | @own k ms fault hkind hfault hread =>
      have hnull : Json.obj ms ≠ .null := nofun
      refine .inr ?_
      show decode (.obj ms) = _
      rw [decode_of_ne_null hnull, hread]
      rfl
  | refused => exact absurd rfl (hsort _)

/-- When a document cannot be read, the value in the error stands in the
document. If a node is of the wrong sort, the value is that node, and neither of
the category nor of the kind that was asked for. Any other fault is found again
by reading the value alone, unless it is a null in place of a node. An object
that lacks a field has the tag of the kind and the field is absent or null, and
where a field is of the wrong shape it is there and is not of that shape. -/
theorem decode_error_local {v : Json} {e : Error} (h : decode v = .error e) :
    e.value.Within v ∧
    (∀ m, e.fault = .wrongSort m →
      ∃ n, decode e.value = .ok (some n) ∧ n.kind = m.found ∧
        m.expected.admits n.kind = false) ∧
    ((∀ m, e.fault ≠ .wrongSort m) →
      e.value = .null ∧ e.fault = .notNode ∨ decode e.value = .error e) ∧
    (∀ k field, e.fault = .absentField k field →
      ∃ ms tag, e.value = .obj ms ∧ Table.get? tagKey ms = some (.str tag) ∧ TagOf k tag ∧
        Missing (Table.get? field ms)) ∧
    ∀ k field shape, e.fault = .illShaped k field shape →
      ∃ ms tag w, e.value = .obj ms ∧ Table.get? tagKey ms = some (.str tag) ∧ TagOf k tag ∧
        Table.get? field ms = some w ∧ w ≠ .null ∧ shape.fits w = false := by
  obtain ⟨hwithin, hdiagnosed⟩ := diagnosed_of_decodeNode (decodeNode_of_decode_eq_error h)
  refine ⟨hwithin, ?_, hdiagnosed.decode_value, ?_, ?_⟩
  · intro m hm
    cases hdiagnosed with
    | notNode => cases hm
    | own _ hown => cases hown <;> cases hm
    | refused hread hfound hdemand =>
        cases hm
        exact ⟨_, decode_eq_ok_some_iff.mpr (readsAs_iff_form.mp hread), hfound, hdemand⟩
  · intro k field hfault
    cases hdiagnosed with
    | notNode => cases hfault
    | refused => cases hfault
    | own hkind hown =>
        obtain ⟨tag, htag, hk⟩ := kind?_obj_eq_some_iff.mp hkind
        cases hown with
        | absent hmissing =>
            cases hfault
            exact ⟨_, tag, rfl, htag, hk, hmissing⟩
        | shape | twice => cases hfault
  · intro k field shape hfault
    cases hdiagnosed with
    | notNode => cases hfault
    | refused => cases hfault
    | own hkind hown =>
        obtain ⟨tag, htag, hk⟩ := kind?_obj_eq_some_iff.mp hkind
        cases hown with
        | shape hv hnull hshape =>
            cases hfault
            refine ⟨_, tag, _, rfl, htag, hk, hv, fun heq => hnull ?_, hshape⟩
            rw [heq]
            rfl
        | absent | twice => cases hfault

/-- A number without its digits as text, in the keyed list of a call in an older
loop over items. -/
theorem decode_error_local_keyed :
    let one := Json.obj [(tagKey, .str "Num"), ("value", .bool true)]
    let call := Json.obj [(tagKey, .str "Call"), ("func", ident "f"), ("args", .obj [("a", one)])]
    let v := Json.obj [(tagKey, .str "Loop"), ("id", ident "x"), ("iterable", call),
      ("body", .null)]
    decode v = .error ⟨.illShaped .num "value" .string, one⟩ ∧ one.Within v ∧
      decode one = .error ⟨.illShaped .num "value" .string, one⟩ := by
  intro one call v
  have hfails : decode v = .error ⟨.illShaped .num "value" .string, one⟩ := by rfl
  obtain ⟨hwithin, -, hagain, -⟩ := decode_error_local hfails
  rcases hagain nofun with ⟨hnull, -⟩ | hagain
  · cases hnull
  · exact ⟨hfails, hwithin, hagain⟩

end Wire

end TreeIR
