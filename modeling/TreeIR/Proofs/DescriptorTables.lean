import Mathlib.Data.List.Induction
import TreeIR.Proofs.DescriptorShape
import TreeIR.Proofs.JsonBoundary

/-!
# Descriptors keep their order

A lowering goes by the order of a descriptor: arguments are passed and headers
are included in the order in which they were declared. A descriptor is built by
settings made one after the other or read from a document, and it can be
written and read again, so the order has to survive all of that.

The account of a table is in its settings. `Table.Records` says what they leave:
each key once, where it was first set, with the value it was last set to. One
setting keeps the account and so does any number of them, for the tables of a
builder as for a table that is read, which is built by the same settings.
-/

namespace TreeIR

theorem eraseDups_concat (ss : List String) (s : String) :
    (ss ++ [s]).eraseDups = if s ∈ ss then ss.eraseDups else ss.eraseDups ++ [s] := by
  rw [List.eraseDups_append]
  split
  · next h => simp [List.removeAll, h]
  · next h => simp [List.removeAll, h, List.eraseDups_cons]

theorem nodup_eraseDups (ss : List String) : ss.eraseDups.Nodup := by
  induction ss using List.reverseRecOn with
  | nil => exact List.nodup_nil
  | append_singleton ss s ih =>
      rw [eraseDups_concat]
      split
      · exact ih
      · next h =>
          have hnew : s ∉ ss.eraseDups := fun hs => h (List.mem_eraseDups.mp hs)
          exact List.nodup_append.mpr ⟨ih, List.nodup_singleton s, fun a ha b hb =>
            fun hab => hnew (List.mem_singleton.mp hb ▸ hab ▸ ha)⟩

namespace Table

variable {α : Type}

/-- The table holds what the settings leave, made from first to last. -/
structure Records (settings : List (String × α)) (t : Table α) : Prop where
  /-- A key stands where it was first set. -/
  keys : t.keys = (settings.map Prod.fst).eraseDups
  distinct : t.Distinct
  /-- A key has the value it was last set to. -/
  last : ∀ key, t.get? key = settings.reverse.lookup key

namespace Records

theorem nil : Records [] ([] : Table α) :=
  ⟨rfl, List.nodup_nil, fun _ => rfl⟩

theorem insert {settings : List (String × α)} {t : Table α} (h : Records settings t)
    (key : String) (value : α) :
    Records (settings ++ [(key, value)]) (Table.insert key value t) := by
  have hkeys : (Table.insert key value t).keys
      = ((settings ++ [(key, value)]).map Prod.fst).eraseDups := by
    rw [List.map_append, List.map_singleton, eraseDups_concat, keys_insert, h.keys]
    simp only [List.mem_eraseDups]
  refine ⟨hkeys, ?_, fun other => ?_⟩
  · rw [Distinct, hkeys]
    exact nodup_eraseDups _
  · rw [List.reverse_concat, List.lookup_cons]
    by_cases hother : other = key
    · rw [hother, get?_insert_self, beq_self_eq_true]
    · rw [get?_insert_of_ne hother, h.last, beq_false_of_ne hother]

theorem ofList (settings : List (String × α)) : Records settings (Table.ofList settings) := by
  induction settings using List.reverseRecOn with
  | nil => exact nil
  | append_singleton settings s ih =>
      have hstep : Table.ofList (settings ++ [s]) = Table.insert s.1 s.2 (Table.ofList settings) :=
        List.foldl_concat ..
      rw [hstep]
      exact ih.insert s.1 s.2

end Records

end Table

namespace Descriptor

/-- A setting that is made on a descriptor. -/
inductive Setting where
  | typeParams (name : String) (params : List String)
  | initParams (name : String) (params : List String)
  | funcParams (name : String) (params : List String)
  | header (name : String)
  | preamble (text : String)

namespace Setting

/-- The descriptor after a setting has been made. -/
def apply (d : Descriptor) : Setting → Descriptor
  | .typeParams name params => d.withTypeParams name params
  | .initParams name params => d.withInitParams name params
  | .funcParams name params => d.withFuncParams name params
  | .header name => d.withHeader name
  | .preamble text => d.withPreamble text

/-- What a setting says of type parameters. -/
def typeParams? : Setting → Option (String × List String)
  | .typeParams name params => some (name, params)
  | _ => none

/-- What a setting says of the parameters of a type when it is created. -/
def initParams? : Setting → Option (String × List String)
  | .initParams name params => some (name, params)
  | _ => none

/-- What a setting says of the parameters of a function. -/
def funcParams? : Setting → Option (String × List String)
  | .funcParams name params => some (name, params)
  | _ => none

/-- The header that a setting adds. -/
def header? : Setting → Option String
  | .header name => some name
  | _ => none

/-- The preamble that a setting puts in place of the one before. -/
def preamble? : Setting → Option String
  | .preamble text => some text
  | _ => none

end Setting

/-- The descriptor that settings build, made from first to last. -/
def build (settings : List Setting) : Descriptor :=
  settings.foldl Setting.apply .empty

/-- The descriptor holds what the settings leave. -/
structure Records (settings : List Setting) (d : Descriptor) : Prop where
  typeParams : Table.Records (settings.filterMap Setting.typeParams?) d.typeParams
  initParams : Table.Records (settings.filterMap Setting.initParams?) d.initParams
  funcParams : Table.Records (settings.filterMap Setting.funcParams?) d.funcParams
  headers : d.headers = (settings.filterMap Setting.header?).eraseDups
  preamble : d.preamble = (settings.filterMap Setting.preamble?).getLast?.getD ""

theorem onceEach_eq_eraseDups (ss : List String) : onceEach ss = ss.eraseDups := by
  induction ss using List.reverseRecOn with
  | nil => rfl
  | append_singleton ss s ih =>
      have hstep : onceEach (ss ++ [s]) = addOnce s (onceEach ss) := List.foldl_concat ..
      rw [hstep, ih, addOnce, eraseDups_concat]
      simp only [List.mem_eraseDups]

/-- One part of a descriptor is made by the settings that concern it; the others
leave it alone. -/
theorem build_part {β γ : Type} {pick : Setting → Option β} {part : Descriptor → γ}
    {set : γ → β → γ} (h : ∀ s d, part (s.apply d) = (pick s).elim (part d) (set (part d)))
    (settings : List Setting) :
    part (build settings) = (settings.filterMap pick).foldl set (part .empty) := by
  have hfrom : ∀ d, part (settings.foldl Setting.apply d)
      = (settings.filterMap pick).foldl set (part d) := by
    induction settings with
    | nil => exact fun _ => rfl
    | cons s settings ih =>
        intro d
        rw [List.foldl_cons, ih, h, List.filterMap_cons]
        cases pick s <;> rfl
  exact hfrom .empty

theorem records_table {pick : Setting → Option (String × List String)}
    {part : Descriptor → NameTable} (hempty : part .empty = [])
    (h : ∀ s d, part (s.apply d)
      = (pick s).elim (part d) fun entry => Table.insert entry.1 entry.2 (part d))
    (settings : List Setting) :
    Table.Records (settings.filterMap pick) (part (build settings)) := by
  have htable : part (build settings)
      = (settings.filterMap pick).foldl (fun t entry => Table.insert entry.1 entry.2 t)
        (part .empty) := build_part h settings
  rw [htable, hempty]
  exact .ofList _

theorem foldl_last (texts : List String) (text : String) :
    texts.foldl (fun _ t => t) text = texts.getLast?.getD text := by
  induction texts generalizing text with
  | nil => rfl
  | cons t texts ih =>
      rw [List.foldl_cons, ih, List.getLast?_cons]
      rfl

theorem records_build (settings : List Setting) : Records settings (build settings) where
  typeParams := records_table rfl (fun s d => by cases s <;> rfl) settings
  initParams := records_table rfl (fun s d => by cases s <;> rfl) settings
  funcParams := records_table rfl (fun s d => by cases s <;> rfl) settings
  headers := by
    rw [← onceEach_eq_eraseDups]
    exact build_part (fun s d => by cases s <;> rfl) settings
  preamble := by
    rw [← foldl_last]
    exact build_part (fun s d => by cases s <;> rfl) settings

theorem Records.wellFormed {settings : List Setting} {d : Descriptor} (h : Records settings d) :
    d.WellFormed where
  typeParams := h.typeParams.distinct
  initParams := h.initParams.distinct
  funcParams := h.funcParams.distinct
  headers := by
    rw [h.headers]
    exact nodup_eraseDups _

open Lowering (mapM_eq_ok_iff_forall₂ bind_eq_ok_iff)

theorem get?_of_readField {α : Type} {v : Json} {field : Field}
    {read : Json → Except Unexpected α} {a : α} (h : readField v field read = .ok a) :
    ∃ w, v.get? field.key = some w ∧ read w = .ok a := by
  unfold readField at h
  rcases getFilled?_cases v field.key with ⟨hfilled, -⟩ | ⟨w, hfilled, hget, -⟩
  · rw [hfilled] at h
    cases h
  · rw [hfilled] at h
    exact ⟨w, hget, Wire.mapError_eq_ok_iff.mp h⟩

theorem eq_str_of_readText {v : Json} {s : String} (h : readText v = .ok s) : v = .str s := by
  cases v with
  | str s' =>
      cases h
      rfl
  | _ => cases h

theorem eq_arr_of_readList {v : Json} {names : List String} (h : readList v = .ok names) :
    v = .arr (names.map .str) := by
  cases v with
  | arr items =>
      have hread := mapM_eq_ok_iff_forall₂.mp h
      have hitems : List.Forall₂ Eq items (names.map Json.str) :=
        List.forall₂_map_right_iff.mpr (hread.imp fun _ _ => eq_str_of_readText)
      rw [List.forall₂_eq_eq_eq] at hitems
      rw [hitems]
  | _ => cases h

theorem distinct_of_readTable {v : Json} {field : Field} {t : NameTable}
    (h : readField v field readTable = .ok t) : t.Distinct := by
  obtain ⟨w, -, hread⟩ := get?_of_readField h
  cases w with
  | obj members =>
      obtain ⟨settings, -, ht⟩ := bind_eq_ok_iff.mp hread
      cases ht
      exact (Table.Records.ofList settings).distinct
  | _ => cases hread

/-- A descriptor that was read is as one that was built. -/
theorem wellFormed_of_ofJson {v : Json} {d : Descriptor} (h : ofJson v = .ok d) :
    d.WellFormed ∧ ∃ names : List String,
      v.get? Field.headers.key = some (.arr (names.map .str)) ∧ d.headers = names.eraseDups := by
  cases v with
  | obj members =>
      obtain ⟨typeParams, htype, h⟩ := bind_eq_ok_iff.mp h
      obtain ⟨initParams, hinit, h⟩ := bind_eq_ok_iff.mp h
      obtain ⟨funcParams, hfunc, h⟩ := bind_eq_ok_iff.mp h
      obtain ⟨names, hnames, h⟩ := bind_eq_ok_iff.mp h
      obtain ⟨preamble, -, h⟩ := bind_eq_ok_iff.mp h
      cases h
      obtain ⟨w, hget, hread⟩ := get?_of_readField hnames
      have hheaders := onceEach_eq_eraseDups names
      refine ⟨⟨distinct_of_readTable htype, distinct_of_readTable hinit,
        distinct_of_readTable hfunc, ?_⟩, names, ?_, hheaders⟩
      · show (onceEach names).Nodup
        rw [hheaders]
        exact nodup_eraseDups names
      · rw [hget, eq_arr_of_readList hread]
  | _ => cases h

/-- Settings leave each name once in its table, at the place of its first setting
and with the parameters of its last one, each header once, at its first place,
and the last preamble. A descriptor in which no name and no header stands twice
can be written and read back, with everything in its order. And a descriptor that
was read is of that sort; its headers are those of the document, without the
later ones of those that stand there twice. -/
theorem built_or_read_reads_back :
    (∀ settings : List Setting,
      (build settings).WellFormed ∧ Records settings (build settings)) ∧
    (∀ d : Descriptor, d.WellFormed → ofJson d.toJson = .ok d) ∧
    ∀ (v : Json) (d : Descriptor), ofJson v = .ok d →
      d.WellFormed ∧
      (∃ names : List String, v.get? Field.headers.key = some (.arr (names.map .str)) ∧
        d.headers = names.eraseDups) ∧
      ofJson d.toJson = .ok d := by
  refine ⟨fun settings => ?_, fun d => ofJson_toJson, fun v d h => ?_⟩
  · have hrecords := records_build settings
    exact ⟨hrecords.wellFormed, hrecords⟩
  · obtain ⟨hwellFormed, hheaders⟩ := wellFormed_of_ofJson h
    exact ⟨hwellFormed, hheaders, ofJson_toJson hwellFormed⟩

/-- A type that is set again stays where it was and a header that stands twice is
kept once, in a descriptor that is built as in one that is read. -/
theorem built_or_read_reads_back_repeats :
    let d := build [.typeParams "Map" ["K"], .header "map", .typeParams "Set" ["T"],
      .typeParams "Map" ["K", "V"], .header "set", .header "map", .preamble "a", .preamble "b"]
    let v : Json := .obj [("lib", .str "b"),
      ("includes", .arr [.str "map", .str "set", .str "map"]), ("argNames", .obj []),
      ("createArgNames", .obj []),
      ("typevarNames", .obj [("Map", .arr [.str "K", .str "V"]), ("Set", .arr [.str "T"])])]
    d = ⟨[("Map", ["K", "V"]), ("Set", ["T"])], [], [], ["map", "set"], "b"⟩ ∧
      ofJson v = .ok d ∧ d.WellFormed ∧
      (∃ names : List String, v.get? "includes" = some (.arr (names.map .str)) ∧
        d.headers = names.eraseDups) ∧
      ofJson d.toJson = .ok d := by
  intro d v
  have hv : ofJson v = .ok d := by rfl
  obtain ⟨hwellFormed, hheaders, -⟩ := built_or_read_reads_back.2.2 v d hv
  exact ⟨by rfl, hv, hwellFormed, hheaders, built_or_read_reads_back.2.1 d hwellFormed⟩

end Descriptor

end TreeIR
