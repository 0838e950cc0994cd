import TreeIR.Descriptor.Wire

/-!
# What is a descriptor, and what is said of what is none

A descriptor is accepted or refused by one reader that stops at its first
fault, and a document can be wrong at many places at once. This file says
without the reader which documents are descriptors and which fault is the
first.

`Fits` is the shape of a member: an object of arrays of texts, an array of
texts or a text. `demands` lists the values of a member as a document shows
them, a container before its items, each with the shape that is wanted there;
the first fault is the first of them that has another shape. Null is a fault
like any other inside a member, but a member that is null is not there.

The readers are followed through the error they end with. Reading one thing
after another ends with the first error there is, for the items of a list as
for the five members, so both are a search through a list: of demands in the
one case and of members in the other.
-/

namespace TreeIR.Descriptor

/-- The shape that a member is to have. -/
def Field.shape : Field → Shape
  | .typeParams | .initParams | .funcParams => .table
  | .headers => .list
  | .preamble => .text

/-- The members in the order in which they are read. -/
def Field.all : List Field :=
  [.typeParams, .initParams, .funcParams, .headers, .preamble]

/-- The value is of the shape, with all that is in it. -/
inductive Fits : Shape → Json → Prop
  | text (s : String) : Fits .text (.str s)
  | list {items : List Json} (h : ∀ v ∈ items, Fits .text v) : Fits .list (.arr items)
  | table {members : List (String × Json)} (h : ∀ m ∈ members, Fits .list m.2) :
      Fits .table (.obj members)

/-- The member is there and of its shape. -/
def Holds (v : Json) (field : Field) : Prop :=
  ∃ w, v.get? field.key = some w ∧ Fits field.shape w

/-- Is the value of the shape, whatever is in it? -/
def Shape.meets : Shape → Json → Bool
  | .table, .obj _ | .list, .arr _ | .text, .str _ => true
  | _, _ => false

/-- The values in a list, with the shape that is wanted at their places. -/
def itemDemands : Json → List (Json × Shape)
  | .arr items => items.map (·, .text)
  | _ => []

/-- The values in a table, each list before its items. -/
def memberDemands : Json → List (Json × Shape)
  | .obj members => members.flatMap fun m => (m.2, .list) :: itemDemands m.2
  | _ => []

/-- A member and the values in it, in document order, each with the shape that is
wanted at its place. -/
def demands (shape : Shape) (v : Json) : List (Json × Shape) :=
  (v, shape) ::
    match shape with
    | .table => memberDemands v
    | .list => itemDemands v
    | .text => []

/-- The first value in a member that is not of the shape wanted there. -/
def FirstFault (shape : Shape) (v : Json) (u : Unexpected) : Prop :=
  ∃ before after, demands shape v = before ++ (u.found, u.wanted) :: after ∧
    (∀ d ∈ before, d.2.meets d.1 = true) ∧ u.wanted.meets u.found = false

/-- The error that a value is to be refused with. -/
inductive Refused (v : Json) : Error → Prop
  | notObject (h : ∀ members, v ≠ .obj members) : Refused v .notObject
  | missing {members : List (String × Json)} {before after : List Field} {field : Field}
      (hv : v = .obj members) (hfield : Field.all = before ++ field :: after)
      (hbefore : ∀ f ∈ before, Holds v f)
      (h : v.get? field.key = none ∨ v.get? field.key = some .null) :
      Refused v (.missing field)
  | malformed {members : List (String × Json)} {before after : List Field} {field : Field}
      {w : Json} {u : Unexpected} (hv : v = .obj members)
      (hfield : Field.all = before ++ field :: after) (hbefore : ∀ f ∈ before, Holds v f)
      (hw : v.get? field.key = some w) (hnull : w ≠ .null) (h : FirstFault field.shape w u) :
      Refused v (.malformed field u)

/-! ## Errors of readers

Of a reading only its error is looked at. Readings one after the other then are a search
for the first error, whatever the values are that they read. -/

section Errors

variable {ε ε' α β : Type}

/-- The error that a reading ends with. -/
def errorOf? : Except ε α → Option ε
  | .ok _ => none
  | .error e => some e

theorem errorOf?_eq_some_iff {r : Except ε α} {e : ε} : errorOf? r = some e ↔ r = .error e := by
  cases r with
  | ok a => simp [errorOf?]
  | error e' => simp [errorOf?]

theorem errorOf?_eq_none_iff {r : Except ε α} : errorOf? r = none ↔ ∃ a, r = .ok a := by
  cases r with
  | ok a => simp [errorOf?]
  | error e => simp [errorOf?]

theorem findSome?_cons_eq_or (f : α → Option β) (a : α) (as : List α) :
    (a :: as).findSome? f = (f a).or (as.findSome? f) := by
  rw [List.findSome?_cons]
  cases f a <;> rfl

theorem findSome?_flatMap (f : β → Option ε) (g : α → List β) (as : List α) :
    (as.flatMap g).findSome? f = as.findSome? fun a => (g a).findSome? f := by
  induction as with
  | nil => rfl
  | cons a as ih => rw [List.flatMap_cons, List.findSome?_append, ih, findSome?_cons_eq_or]

/-- If what follows fails in one way, whatever it is given, the first error counts. -/
theorem errorOf?_bind {r : Except ε α} {f : α → Except ε β} {next : Option ε}
    (h : ∀ a, errorOf? (f a) = next) : errorOf? (r >>= f) = (errorOf? r).or next := by
  cases r with
  | ok a => exact h a
  | error e => rfl

theorem errorOf?_bind_pure (f : α → β) (r : Except ε α) :
    errorOf? (r >>= fun a => pure (f a)) = errorOf? r := by
  cases r <;> rfl

theorem errorOf?_map (f : α → β) (r : Except ε α) : errorOf? (r.map f) = errorOf? r := by
  cases r <;> rfl

theorem errorOf?_mapError (f : ε → ε') (r : Except ε α) :
    errorOf? (r.mapError f) = (errorOf? r).map f := by
  cases r <;> rfl

theorem errorOf?_mapM (f : α → Except ε β) (as : List α) :
    errorOf? (as.mapM f) = as.findSome? fun a => errorOf? (f a) := by
  induction as with
  | nil => rfl
  | cons a as ih =>
      have hrest : ∀ b, errorOf? (as.mapM f >>= fun bs => pure (b :: bs))
          = as.findSome? fun a => errorOf? (f a) := by
        intro b
        rw [errorOf?_bind_pure, ih]
      rw [List.mapM_cons, errorOf?_bind hrest, findSome?_cons_eq_or]

end Errors

/-- The fault at one place. -/
def fault? (d : Json × Shape) : Option Unexpected :=
  if d.2.meets d.1 then none else some ⟨d.1, d.2⟩

/-- The first fault in a member, as a search through its demands. -/
def firstFault? (shape : Shape) (v : Json) : Option Unexpected :=
  (demands shape v).findSome? fault?

theorem fault?_eq_none_iff {d : Json × Shape} : fault? d = none ↔ d.2.meets d.1 = true := by
  simp [fault?]

theorem fault?_eq_some_iff {d : Json × Shape} {u : Unexpected} :
    fault? d = some u ↔ d = (u.found, u.wanted) ∧ u.wanted.meets u.found = false := by
  obtain ⟨v, shape⟩ := d
  obtain ⟨found, wanted⟩ := u
  by_cases h : shape.meets v = true
  · simp only [fault?, h]
    simp only [reduceIte, reduceCtorEq, false_iff, not_and, Prod.mk.injEq]
    rintro ⟨rfl, rfl⟩
    simp [h]
  · simp only [fault?, h]
    simp only [Bool.false_eq_true, reduceIte, Option.some.injEq, Unexpected.mk.injEq,
      Prod.mk.injEq]
    constructor
    · rintro ⟨rfl, rfl⟩
      exact ⟨⟨rfl, rfl⟩, Bool.eq_false_iff.mpr h⟩
    · exact fun h' => h'.1

theorem firstFault?_eq_some_iff {shape : Shape} {v : Json} {u : Unexpected} :
    firstFault? shape v = some u ↔ FirstFault shape v u := by
  rw [firstFault?, List.findSome?_eq_some_iff]
  constructor
  · rintro ⟨before, d, after, hsplit, hd, hbefore⟩
    obtain ⟨rfl, hwrong⟩ := fault?_eq_some_iff.mp hd
    exact ⟨before, after, hsplit, fun d hd => fault?_eq_none_iff.mp (hbefore d hd), hwrong⟩
  · rintro ⟨before, after, hsplit, hbefore, hwrong⟩
    exact ⟨before, _, after, hsplit, fault?_eq_some_iff.mpr ⟨rfl, hwrong⟩,
      fun d hd => fault?_eq_none_iff.mpr (hbefore d hd)⟩

theorem errorOf?_readText (v : Json) : errorOf? (readText v) = firstFault? .text v := by
  cases v <;> rfl

theorem errorOf?_readList (v : Json) : errorOf? (readList v) = firstFault? .list v := by
  cases v with
  | arr items =>
      rw [readList, errorOf?_mapM]
      show _ = (items.map (·, Shape.text)).findSome? fault?
      rw [List.findSome?_map]
      congr 1
      funext w
      rw [errorOf?_readText]
      cases w <;> rfl
  | _ => rfl

theorem errorOf?_readTable (v : Json) : errorOf? (readTable v) = firstFault? .table v := by
  cases v with
  | obj members =>
      rw [readTable, errorOf?_bind_pure, errorOf?_mapM]
      show _ = (members.flatMap fun m => (m.2, Shape.list) :: itemDemands m.2).findSome? fault?
      rw [findSome?_flatMap]
      congr 1
      funext m
      rw [errorOf?_map, errorOf?_readList]
      rfl
  | _ => rfl

theorem firstFault?_eq_none_iff {shape : Shape} {v : Json} :
    firstFault? shape v = none ↔ ∀ d ∈ demands shape v, d.2.meets d.1 = true := by
  simp only [firstFault?, List.findSome?_eq_none_iff, fault?_eq_none_iff]

theorem fits_text_iff {v : Json} : Fits .text v ↔ Shape.text.meets v = true := by
  constructor
  · rintro ⟨s⟩
    rfl
  · intro h
    cases v with
    | str s => exact .text s
    | _ => cases h

theorem fits_list_iff {v : Json} :
    Fits .list v ↔ Shape.list.meets v = true ∧ ∀ d ∈ itemDemands v, d.2.meets d.1 = true := by
  constructor
  · rintro (_ | ⟨h⟩)
    exact ⟨rfl, List.forall_mem_map.mpr fun w hw => fits_text_iff.mp (h w hw)⟩
  · rintro ⟨hlist, hitems⟩
    cases v with
    | arr items =>
        exact .list fun w hw => fits_text_iff.mpr (List.forall_mem_map.mp hitems w hw)
    | _ => cases hlist

theorem fits_table_iff {v : Json} :
    Fits .table v ↔
      Shape.table.meets v = true ∧ ∀ d ∈ memberDemands v, d.2.meets d.1 = true := by
  have hmember : ∀ m : String × Json, Fits .list m.2 ↔
      ∀ d ∈ (m.2, Shape.list) :: itemDemands m.2, d.2.meets d.1 = true := by
    intro m
    rw [fits_list_iff, List.forall_mem_cons]
  constructor
  · rintro (_ | _ | ⟨h⟩)
    refine ⟨rfl, fun d hd => ?_⟩
    obtain ⟨m, hm, hd⟩ := List.mem_flatMap.mp hd
    exact (hmember m).mp (h m hm) d hd
  · rintro ⟨htable, hmembers⟩
    cases v with
    | obj members =>
        refine .table fun m hm => (hmember m).mpr fun d hd => ?_
        exact hmembers d (List.mem_flatMap.mpr ⟨m, hm, hd⟩)
    | _ => cases htable

/-- A value is of its shape if no place in it has a fault. -/
theorem fits_iff {shape : Shape} {v : Json} : Fits shape v ↔ firstFault? shape v = none := by
  rw [firstFault?_eq_none_iff]
  unfold demands
  rw [List.forall_mem_cons]
  cases shape with
  | table => exact fits_table_iff
  | list => exact fits_list_iff
  | text => exact fits_text_iff.trans (and_iff_left (List.forall_mem_nil _)).symm

/-- What is wrong with one member. -/
def Field.fault? (v : Json) (field : Field) : Option Error :=
  match v.getFilled? field.key with
  | none => some (.missing field)
  | some w => (firstFault? field.shape w).map (.malformed field)

theorem errorOf?_readField {α : Type} (field : Field) {read : Json → Except Unexpected α}
    (h : ∀ w, errorOf? (read w) = firstFault? field.shape w) (v : Json) :
    errorOf? (readField v field read) = field.fault? v := by
  unfold readField Field.fault?
  cases v.getFilled? field.key with
  | none => rfl
  | some w =>
      show errorOf? ((read w).mapError _) = _
      rw [errorOf?_mapError, h]

theorem errorOf?_ofJson (members : List (String × Json)) :
    errorOf? (ofJson (.obj members)) = Field.all.findSome? (Field.fault? (.obj members)) := by
  rw [ofJson, Field.all, findSome?_cons_eq_or, ← errorOf?_readField .typeParams errorOf?_readTable]
  refine errorOf?_bind fun _ => ?_
  rw [findSome?_cons_eq_or, ← errorOf?_readField .initParams errorOf?_readTable]
  refine errorOf?_bind fun _ => ?_
  rw [findSome?_cons_eq_or, ← errorOf?_readField .funcParams errorOf?_readTable]
  refine errorOf?_bind fun _ => ?_
  rw [findSome?_cons_eq_or, ← errorOf?_readField .headers errorOf?_readList]
  refine errorOf?_bind fun _ => ?_
  rw [List.findSome?_singleton, errorOf?_bind_pure, errorOf?_readField .preamble errorOf?_readText]

theorem not_fits_null (shape : Shape) : ¬ Fits shape .null := by
  rintro ⟨⟩

/-- A member that is null counts as absent. -/
theorem getFilled?_cases (v : Json) (key : String) :
    (v.getFilled? key = none ∧ (v.get? key = none ∨ v.get? key = some .null)) ∨
    ∃ w, v.getFilled? key = some w ∧ v.get? key = some w ∧ w ≠ .null := by
  unfold Json.getFilled?
  cases v.get? key with
  | none => exact .inl ⟨rfl, .inl rfl⟩
  | some w =>
      cases w with
      | null => exact .inl ⟨rfl, .inr rfl⟩
      | _ => exact .inr ⟨_, rfl, rfl, by simp⟩

theorem holds_iff {v : Json} {field : Field} : Holds v field ↔ field.fault? v = none := by
  unfold Holds Field.fault?
  rcases getFilled?_cases v field.key with ⟨hfilled, habsent⟩ | ⟨w, hfilled, hget, -⟩
  · rw [hfilled]
    refine iff_of_false ?_ (by simp)
    rintro ⟨w, hget, hfits⟩
    rcases habsent with hnone | hnull
    · cases hget.symm.trans hnone
    · cases hget.symm.trans hnull
      exact not_fits_null _ hfits
  · simp only [hfilled, hget, Option.some.injEq, exists_eq_left', Option.map_eq_none_iff, fits_iff]

theorem Field.fault?_eq_some_iff {v : Json} {field : Field} {e : Error} :
    field.fault? v = some e ↔
      (e = .missing field ∧ (v.get? field.key = none ∨ v.get? field.key = some .null)) ∨
      ∃ w u, e = .malformed field u ∧ v.get? field.key = some w ∧ w ≠ .null ∧
        FirstFault field.shape w u := by
  unfold Field.fault?
  rcases getFilled?_cases v field.key with ⟨hfilled, habsent⟩ | ⟨w, hfilled, hget, hnull⟩
  · rw [hfilled]
    constructor
    · rintro ⟨⟩
      exact .inl ⟨rfl, habsent⟩
    · rintro (⟨rfl, -⟩ | ⟨w, u, -, hget, hnull, -⟩)
      · rfl
      · rcases habsent with hnone | hnull'
        · cases hget.symm.trans hnone
        · cases hget.symm.trans hnull'
          exact absurd rfl hnull
  · rw [hfilled]
    constructor
    · intro h
      obtain ⟨u, hu, rfl⟩ := Option.map_eq_some_iff.mp h
      exact .inr ⟨w, u, rfl, hget, hnull, firstFault?_eq_some_iff.mp hu⟩
    · rintro (⟨-, hnone | hnull'⟩ | ⟨w', u, rfl, hget', -, hfirst⟩)
      · cases hget.symm.trans hnone
      · cases hget.symm.trans hnull'
        exact absurd rfl hnull
      · cases hget.symm.trans hget'
        exact Option.map_eq_some_iff.mpr ⟨u, firstFault?_eq_some_iff.mpr hfirst, rfl⟩

theorem refused_obj_iff {members : List (String × Json)} {e : Error} :
    Refused (.obj members) e ↔ Field.all.findSome? (Field.fault? (.obj members)) = some e := by
  rw [List.findSome?_eq_some_iff]
  constructor
  · rintro (h | ⟨-, hfield, hbefore, h⟩ | ⟨-, hfield, hbefore, hw, hnull, h⟩)
    · exact absurd rfl (h members)
    · exact ⟨_, _, _, hfield, Field.fault?_eq_some_iff.mpr (.inl ⟨rfl, h⟩),
        fun f hf => holds_iff.mp (hbefore f hf)⟩
    · exact ⟨_, _, _, hfield, Field.fault?_eq_some_iff.mpr (.inr ⟨_, _, rfl, hw, hnull, h⟩),
        fun f hf => holds_iff.mp (hbefore f hf)⟩
  · rintro ⟨before, field, after, hfield, hfault, hnone⟩
    have hbefore : ∀ f ∈ before, Holds (.obj members) f := fun f hf => holds_iff.mpr (hnone f hf)
    rcases Field.fault?_eq_some_iff.mp hfault with ⟨rfl, h⟩ | ⟨w, u, rfl, hw, hnull, h⟩
    · exact .missing rfl hfield hbefore h
    · exact .malformed rfl hfield hbefore hw hnull h

/-- A refusal names the member at fault, or the descriptor if it has no members. Of a
member that is there it says which value was found first that is not of the shape wanted
at its place, and which shape that is. -/
theorem Refused.message_eq {v : Json} {e : Error} (h : Refused v e) :
    (e.place = "descriptor" ∧ (∀ members, v ≠ .obj members) ∧
      e.message = "Malformed descriptor argument: expected an object") ∨
    ∃ field : Field, e.place = field.key ∧
      ((v.get? field.key = none ∨ v.get? field.key = some .null) ∧
          e.message = "No " ++ e.place ++ " argument" ∨
        ∃ w u, v.get? field.key = some w ∧ w ≠ .null ∧ FirstFault field.shape w u ∧
          e.message = "Malformed " ++ e.place ++ " argument: " ++
            ("invalid type: " ++ describe u.found ++ ", expected " ++ u.wanted.label)) := by
  cases h with
  | notObject h => exact .inl ⟨rfl, h, rfl⟩
  | missing _ _ _ h => exact .inr ⟨_, rfl, .inl ⟨h, rfl⟩⟩
  | malformed _ _ _ hw hnull h => exact .inr ⟨_, rfl, .inr ⟨_, _, hw, hnull, h, rfl⟩⟩

-- Two faults in a table, of which the second is that of an outer value, and a member that is
-- missing behind them.
example :
    (errorOf? (ofJson (.obj [("createArgNames", .obj [("A", .arr [.str "x", .null]), ("B", .null)]),
      ("lib", .null), ("typevarNames", .obj [])]))).map Error.message
      = some "Malformed createArgNames argument: invalid type: null, expected a string" := by
  rfl

end TreeIR.Descriptor
