import TreeIR.Proofs.WireGrammar

/-!
# Older documents

Two forms are still read that are no longer written: the tag of a loop over
items was another one, and lists of named things were objects keyed by name.
`upgrade` rewrites both wherever they stand and looks at nothing but the
document: it knows tags and keys, and no tree.

A document and its upgrade have the same wire forms. By `iff_form` that is a
matter of one level: upgrading the tag keeps the kind, and upgrading a field
keeps what it can hold. Most fields hold the same after it because they are
upgraded inside only. A keyed list becomes an array, and an item of the array
is a wire form of a binding exactly if the key is its name and the value is a
wire form of what it binds.
-/

namespace TreeIR.Wire

/-- What an older document may have had at a place. -/
inductive Place where
  /-- Nothing of interest. -/
  | any
  /-- The tag of an object. -/
  | tag
  /-- A list keyed by name; `entry` is what an entry is now. -/
  | keyed (entry : String → Json → Json)

/-- The tag of an object with these members. -/
def tag? (ms : List (String × Json)) : Option String :=
  (Table.get? tagKey ms).bind Json.str?

/-- The place of a member in an object with this tag. -/
def placeOf (tag : Option String) (key : String) : Place :=
  if key = tagKey then .tag
  else if key = "args" ∧ (tag = some "Call" ∨ tag = some "Create") then .keyed arg
  else if key = "typevars" ∧ tag = some "PolymorphicType" then .keyed typeArg
  else .any

/-- The name that a kind of node has now. -/
def upgradeTag (tag : String) : String :=
  if tag = "Loop" then "Foreach" else tag

mutual

/-- A value in its newest form, which depends on where it stands: an object in the
place of a list is spread out, and all that is inside is upgraded too. -/
def upgradeAt : Place → Json → Json
  | .keyed entry, .obj es => .arr (upgradeEntries entry es)
  | .tag, .str s => .str (upgradeTag s)
  | _, .arr vs => .arr (upgradeItems vs)
  | _, .obj ms => .obj (upgradeMembers (tag? ms) ms)
  | _, .null => .null
  | _, .bool b => .bool b
  | _, .num n => .num n
  | _, .str s => .str s

/-- The list that the entries of an object stand for. -/
def upgradeEntries (entry : String → Json → Json) : List (String × Json) → List Json
  | [] => []
  | (name, v) :: es => entry name (upgradeAt .any v) :: upgradeEntries entry es

/-- Items, each in its newest form. -/
def upgradeItems : List Json → List Json
  | [] => []
  | v :: vs => upgradeAt .any v :: upgradeItems vs

/-- Members, each in the newest form for its place. -/
def upgradeMembers (tag : Option String) : List (String × Json) → List (String × Json)
  | [] => []
  | (key, v) :: ms => (key, upgradeAt (placeOf tag key) v) :: upgradeMembers tag ms

end

/-- The document with all older forms in it replaced. -/
def upgrade (v : Json) : Json :=
  upgradeAt .any v

-- The argument is named as the tag is.
example :
    upgrade (.obj [(tagKey, .str "Call"), ("func", ident "f"), ("args", .obj [(tagKey, ident "x")])])
      = object .call [("func", ident "f"), ("args", .arr [arg tagKey (ident "x")])] := by
  rfl

theorem upgradeEntries_eq_map (entry : String → Json → Json) (es : List (String × Json)) :
    upgradeEntries entry es = es.map fun e => entry e.1 (upgrade e.2) := by
  induction es with
  | nil => simp [upgradeEntries]
  | cons e es ih => simp [upgradeEntries, ih, upgrade]

theorem upgradeItems_eq_map (vs : List Json) : upgradeItems vs = vs.map upgrade := by
  induction vs with
  | nil => simp [upgradeItems]
  | cons v vs ih => simp [upgradeItems, ih, upgrade]

theorem get?_upgradeMembers (tag : Option String) (key : String) (ms : List (String × Json)) :
    Table.get? key (upgradeMembers tag ms)
      = (Table.get? key ms).map (upgradeAt (placeOf tag key)) := by
  induction ms with
  | nil => rfl
  | cons m ms ih =>
      obtain ⟨k, v⟩ := m
      rw [upgradeMembers, Table.get?_cons, Table.get?_cons, ih]
      split
      · next hk => rw [hk]; rfl
      · rfl

/-! ## What a field holds after the upgrade

The upgrade goes down into a document by places, and the grammar goes by parts. They meet
in a field, one sort of part at a time. -/

/-- The value is upgraded to a wire form of the node. -/
def UpgradesTo (v : Json) (n : Node) : Prop :=
  Form (upgrade v) n

theorem upgrade_eq_str_iff {v : Json} {s : String} : upgrade v = .str s ↔ v = .str s := by
  cases v <;> simp [upgrade, upgradeAt]

theorem upgrade_eq_bool_iff {v : Json} {b : Bool} : upgrade v = .bool b ↔ v = .bool b := by
  cases v <;> simp [upgrade, upgradeAt]

theorem upgrade_eq_null_iff {v : Json} : upgrade v = .null ↔ v = .null := by
  cases v <;> simp [upgrade, upgradeAt]

theorem upgrade_eq_arr_iff {v : Json} {ws : List Json} :
    upgrade v = .arr ws ↔ ∃ vs, v = .arr vs ∧ vs.map upgrade = ws := by
  cases v <;> simp [upgrade, upgradeAt, upgradeItems_eq_map]

theorem missing_map_upgrade_iff {v? : Option Json} :
    Missing (v?.map upgrade) ↔ Missing v? := by
  simp [Missing, upgrade_eq_null_iff]

theorem forall₂_map_upgrade_iff {vs : List Json} {ns : List Node} :
    List.Forall₂ Form (vs.map upgrade) ns ↔ List.Forall₂ UpgradesTo vs ns := by
  rw [List.forall₂_map_left_iff]
  rfl

/-- A part that is no list of bindings is upgraded inside only. -/
theorem Part.shaped_map_upgrade_iff {part : Part} (hpart : ∀ bs, part ≠ .bindings bs)
    {v? : Option Json} : part.Shaped Form (v?.map upgrade) ↔ part.Shaped UpgradesTo v? := by
  cases part with
  | text s => simp [shaped_text_iff, upgrade_eq_str_iff]
  | bool b => simp [shaped_bool_iff, upgrade_eq_bool_iff]
  | flag b => simp [shaped_flag_iff, upgrade_eq_bool_iff, missing_map_upgrade_iff]
  | node n => simp [shaped_node_iff, UpgradesTo]
  | node? o =>
      rw [shaped_node?_iff, shaped_node?_iff, missing_map_upgrade_iff]
      refine or_congr_left ⟨fun h => ?_, fun h => ?_⟩
      · obtain ⟨w, n, ho, hw, h⟩ := h
        obtain ⟨v, hv, rfl⟩ := Option.map_eq_some_iff.mp hw
        exact ⟨v, n, ho, hv, h⟩
      · obtain ⟨v, n, ho, hv, h⟩ := h
        exact ⟨upgrade v, n, ho, Option.map_eq_some_iff.mpr ⟨v, hv, rfl⟩, h⟩
  | nodes ns =>
      rw [shaped_nodes_iff, shaped_nodes_iff]
      refine ⟨fun h => ?_, fun h => ?_⟩
      · obtain ⟨ws, hw, h⟩ := h
        obtain ⟨v, hv, hup⟩ := Option.map_eq_some_iff.mp hw
        obtain ⟨vs, rfl, rfl⟩ := upgrade_eq_arr_iff.mp hup
        exact ⟨vs, hv, forall₂_map_upgrade_iff.mp h⟩
      · obtain ⟨vs, hv, h⟩ := h
        have hup : upgrade (.arr vs) = .arr (vs.map upgrade) :=
          upgrade_eq_arr_iff.mpr ⟨vs, rfl, rfl⟩
        refine ⟨vs.map upgrade, ?_, forall₂_map_upgrade_iff.mpr h⟩
        exact Option.map_eq_some_iff.mpr ⟨_, hv, hup⟩
  | bindings bs => exact absurd rfl (hpart bs)

/-- What an entry is now is a wire form of a binding exactly if the key is the
name of the binding and the value is a wire form of what it binds. -/
def EntryOf {α : Type} (entry : String → Json → Json) (binding : α → Binding) : Prop :=
  ∀ a name v, Form (entry name v) (binding a).whole ↔
    name = (binding a).name ∧ Form v (binding a).value

/-- A place and what may be at it. -/
inductive Place.Suits : Place → Part → Prop
  | any {part : Part} (h : ∀ bs, part ≠ .bindings bs) : Suits .any part
  | keyed {α : Type} {entry : String → Json → Json} {binding : α → Binding} {as : List α}
      (h : EntryOf entry binding) : Suits (.keyed entry) (.bindings (as.map binding))

theorem form_ident_iff {name s : String} :
    Form (ident name) (.expr (.ident s)) ↔ name = s := by
  simp [ident, form_object_iff, Node.fields, Node.kind, Expr.kind, Node.NamesOnce, Table.get?,
    Part.shaped_text_iff]

theorem entryOf_arg : EntryOf arg Binding.arg := by
  intro a name v
  simp [arg, Binding.whole, Binding.name, Binding.value, form_object_iff, Node.fields, Node.kind,
    Node.NamesOnce, Table.get?, Part.shaped_node_iff, form_ident_iff]

theorem entryOf_typeArg : EntryOf typeArg Binding.typeArg := by
  intro a name v
  simp [typeArg, Binding.whole, Binding.name, Binding.value, form_object_iff, Node.fields,
    Node.kind, Node.NamesOnce, Table.get?, Part.shaped_node_iff, Part.shaped_text_iff]

theorem placeOf_of_ne {tag : Option String} {key : String} (htag : key ≠ tagKey)
    (hargs : key ≠ "args") (htypevars : key ≠ "typevars") : placeOf tag key = .any := by
  simp [placeOf, htag, hargs, htypevars]

theorem suits_of_mem_fields {n : Node} {tag : String} (htag : TagOf n.kind tag) :
    ∀ p ∈ n.fields, (placeOf (some tag) p.1).Suits p.2 := by
  match n with
  | .ty (.generic name args) =>
      rcases htag with rfl | ⟨hkind, -⟩
      · refine List.forall_mem_cons.mpr ⟨.any nofun, List.forall_mem_singleton.mpr ?_⟩
        exact .keyed entryOf_typeArg
      · cases hkind
  | .expr (.create ..) | .expr (.call ..) =>
      rcases htag with rfl | ⟨hkind, -⟩
      · refine List.forall_mem_cons.mpr ⟨.any nofun, List.forall_mem_singleton.mpr ?_⟩
        exact .keyed entryOf_arg
      · cases hkind
  | .ty (.named _) | .typeArg _ | .param _ | .expr (.num ..) | .expr (.str _)
  | .expr (.ident _) | .expr (.func ..) | .arg _ | .stmt (.assign ..) | .stmt (.eval _)
  | .stmt (.forEach ..) | .stmt (.whileDo ..) | .stmt (.branch ..) | .stmt (.ret _)
  | .stmt .brk | .stmt .cont | .stmt (.suite _) | .case _ | .fallback _ =>
      intro p hp
      have hkey : p.1 ≠ "args" ∧ p.1 ≠ "typevars" ∧ ∀ bs, p.2 ≠ .bindings bs := by
        revert p
        simp [Node.fields]
      rw [placeOf_of_ne (ne_tagKey_of_mem_fields p hp) hkey.1 hkey.2.1]
      exact .any hkey.2.2

section Keyed

variable {α : Type} {entry : String → Json → Json} {binding : α → Binding} {as : List α}

theorem forall₂_entries_iff {es : List (String × Json)} (hentry : EntryOf entry binding) :
    List.Forall₂ Form (es.map fun e => entry e.1 (upgrade e.2))
        ((as.map binding).map Binding.whole) ↔
      es.map Prod.fst = (as.map binding).map Binding.name ∧
        List.Forall₂ UpgradesTo (es.map Prod.snd) ((as.map binding).map Binding.value) := by
  rw [List.map_map, List.map_map, List.map_map, List.forall₂_map_left_iff,
    List.forall₂_map_right_iff, List.forall₂_map_left_iff, List.forall₂_map_right_iff]
  simp only [Function.comp, hentry _ _ _]
  exact forall₂_and_iff

/-- A keyed list is upgraded to the list of its entries, and an entry holds a
binding exactly if its array item does. -/
theorem Part.shaped_map_keyed_iff {v? : Option Json} (hentry : EntryOf entry binding) :
    (Part.bindings (as.map binding)).Shaped Form (v?.map (upgradeAt (.keyed entry))) ↔
      (Part.bindings (as.map binding)).Shaped UpgradesTo v? := by
  cases v? with
  | none => simp [shaped_bindings_iff]
  | some v =>
      rw [Option.map_some]
      cases v with
      | arr vs =>
          rw [upgradeAt, upgradeItems_eq_map, shaped_listed_iff, shaped_listed_iff,
            forall₂_map_upgrade_iff]
      | obj es =>
          rw [upgradeAt, upgradeEntries_eq_map, shaped_listed_iff, shaped_keyed_iff,
            forall₂_entries_iff hentry]
      | null | bool _ | num _ | str _ => simp [upgradeAt, shaped_bindings_iff]

end Keyed

theorem Place.Suits.shaped_map_iff {place : Place} {part : Part} (h : place.Suits part)
    {v? : Option Json} :
    part.Shaped Form (v?.map (upgradeAt place)) ↔ part.Shaped UpgradesTo v? := by
  cases h with
  | any hpart => exact Part.shaped_map_upgrade_iff hpart
  | keyed hentry => exact Part.shaped_map_keyed_iff hentry

theorem tagOf_upgradeTag_iff {k : Kind} {tag : String} :
    TagOf k (upgradeTag tag) ↔ TagOf k tag := by
  rw [upgradeTag]
  split
  · next hold =>
      have hnew : "Foreach" = Kind.forEach.tag := rfl
      rw [hnew, tagOf_tag_iff, hold, ← kindOfTag?_eq_some_iff]
      simp [kindOfTag?, oldForEachTag, eq_comm]
  · rfl

theorem upgradeAt_tag_eq_str_iff {v : Json} {tag : String} :
    upgradeAt .tag v = .str tag ↔ ∃ s, v = .str s ∧ upgradeTag s = tag := by
  cases v <;> simp [upgradeAt]

theorem upgrade_obj (ms : List (String × Json)) :
    upgrade (.obj ms) = .obj (upgradeMembers (tag? ms) ms) := by
  simp [upgrade, upgradeAt]

theorem get?_tagKey_upgradeMembers_iff {tag? : Option String} {ms : List (String × Json)}
    {tag : String} :
    Table.get? tagKey (upgradeMembers tag? ms) = some (.str tag) ↔
      ∃ s, Table.get? tagKey ms = some (.str s) ∧ upgradeTag s = tag := by
  have hplace : placeOf tag? tagKey = .tag := if_pos rfl
  rw [get?_upgradeMembers, hplace, Option.map_eq_some_iff]
  simp only [upgradeAt_tag_eq_str_iff]
  constructor
  · intro h
    obtain ⟨_, hv, s, rfl, hs⟩ := h
    exact ⟨s, hv, hs⟩
  · intro h
    obtain ⟨s, hv, hs⟩ := h
    exact ⟨_, hv, s, rfl, hs⟩

theorem shaped_upgradeMembers_iff {ms : List (String × Json)} {n : Node} :
    Shaped Form (.obj (upgradeMembers (tag? ms) ms)) n ↔ Shaped UpgradesTo (.obj ms) n := by
  have hfield : ∀ {s}, Table.get? tagKey ms = some (.str s) → TagOf n.kind s →
      ∀ p ∈ n.fields, (p.2.Shaped Form (Table.get? p.1 (upgradeMembers (tag? ms) ms)) ↔
        p.2.Shaped UpgradesTo (Table.get? p.1 ms)) := by
    intro s hs hkind p hp
    have htag : tag? ms = some s := by rw [tag?, hs]; rfl
    rw [htag, get?_upgradeMembers]
    exact (suits_of_mem_fields hkind p hp).shaped_map_iff
  rw [shaped_obj_iff, shaped_obj_iff]
  constructor
  · intro h
    obtain ⟨tag, htag, hkind, hfields, hnames⟩ := h
    obtain ⟨s, hs, rfl⟩ := get?_tagKey_upgradeMembers_iff.mp htag
    have hkind := tagOf_upgradeTag_iff.mp hkind
    exact ⟨s, hs, hkind, fun p hp => (hfield hs hkind p hp).mp (hfields p hp), hnames⟩
  · intro h
    obtain ⟨s, hs, hkind, hfields, hnames⟩ := h
    refine ⟨upgradeTag s, get?_tagKey_upgradeMembers_iff.mpr ⟨s, hs, rfl⟩,
      tagOf_upgradeTag_iff.mpr hkind, fun p hp => ?_, hnames⟩
    exact (hfield hs hkind p hp).mpr (hfields p hp)

theorem upgradesTo_iff_shaped (v : Json) (n : Node) :
    UpgradesTo v n ↔ Shaped UpgradesTo v n := by
  rw [UpgradesTo, form_iff]
  cases v with
  | obj ms => rw [upgrade_obj, shaped_upgradeMembers_iff]
  | null | bool _ | num _ | str _ | arr _ =>
      simp only [upgrade, upgradeAt]
      constructor
      · intro h
        cases h
      · intro h
        cases h

/-- An older document is read as its upgrade is, and a document of which nothing
can be read is not upgraded to one of which something can. -/
theorem decode_upgrade_iff (v : Json) (r : Option Node) :
    decode v = .ok r ↔ decode (upgrade v) = .ok r := by
  cases r with
  | none => rw [decode_eq_ok_none_iff, decode_eq_ok_none_iff, upgrade_eq_null_iff]
  | some n =>
      rw [decode_eq_ok_some_iff, decode_eq_ok_some_iff, ← iff_form upgradesTo_iff_shaped v n]
      rfl

end TreeIR.Wire
