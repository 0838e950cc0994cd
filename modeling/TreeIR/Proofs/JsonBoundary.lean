import TreeIR.Compile
import TreeIR.Proofs.CanonicalForm
import TreeIR.Proofs.TextRoundTrip

/-!
# Compiling what was written

A tree and a descriptor can be handed over as values of the library, as JSON or
as text. The last two are meant to be a mere detour: writing both and compiling
what was written should be compiling them directly. That asks something of every
part on the way. The descriptor must come back with the order of its tables and
headers, the tree with all its names and strings, both out of any layout, and
an error must come through as the error it was.

For trees the way back is known. This file does the same for descriptors, which
are read back whenever their tables have no name twice, as the tables of a
descriptor that was built or read never have. A descriptor nests three deep,
whatever is in it, so only the tree can be too deep for a text.
-/

namespace TreeIR

/-- Adding to a list what is not in it yet puts it last, so where no key stands
twice everything is added in its order. -/
theorem foldl_of_nodup {α : Type} (key : α → String) {add : List α → α → List α}
    (hadd : ∀ seen a, key a ∉ seen.map key → add seen a = seen ++ [a]) (as : List α) :
    ∀ seen, ((seen ++ as).map key).Nodup → as.foldl add seen = seen ++ as := by
  induction as with
  | nil =>
      intro seen _
      exact (List.append_nil seen).symm
  | cons a as ih =>
      intro seen hnodup
      have hnew : key a ∉ seen.map key := by
        intro hmem
        rw [List.map_append] at hnodup
        exact List.disjoint_of_nodup_append hnodup hmem List.mem_cons_self
      rw [List.append_cons] at hnodup ⊢
      rw [List.foldl_cons, hadd seen a hnew]
      exact ih _ hnodup

theorem Table.ofList_of_distinct {α : Type} {t : Table α} (ht : t.Distinct) :
    Table.ofList t = t :=
  foldl_of_nodup Prod.fst (fun _ _ hnew => Table.insert_of_not_mem hnew) t [] ht

namespace Descriptor

open Lowering (mapM_eq_ok_iff bind_eq_ok_iff)

theorem onceEach_of_nodup {ss : List String} (h : ss.Nodup) : onceEach ss = ss := by
  refine foldl_of_nodup id (fun seen s hnew => ?_) ss [] ?_
  · rw [List.map_id] at hnew
    exact if_neg hnew
  · rw [List.map_id]
    exact h

theorem readList_listJson (names : List String) : readList (listJson names) = .ok names := by
  rw [listJson, readList, mapM_eq_ok_iff, List.map_map]
  rfl

theorem readTable_tableJson {t : NameTable} (ht : Table.Distinct t) :
    readTable (tableJson t) = .ok t := by
  have hsettings : (t.map fun s => (s.1, listJson s.2)).mapM
      (fun m => (readList m.2).map (m.1, ·)) = .ok t := by
    rw [mapM_eq_ok_iff, List.map_map]
    refine List.map_congr_left fun s _ => ?_
    show (readList (listJson s.2)).map (s.1, ·) = .ok s
    rw [readList_listJson]
    rfl
  rw [tableJson, readTable]
  refine bind_eq_ok_iff.mpr ⟨t, hsettings, ?_⟩
  rw [Table.ofList_of_distinct ht]
  rfl

theorem readField_of_get? {α : Type} {v w : Json} {field : Field}
    {read : Json → Except Unexpected α} {a : α} (hget : v.get? field.key = some w)
    (hnull : ¬ w.isNull) (hread : read w = .ok a) : readField v field read = .ok a := by
  have hfilled : v.getFilled? field.key = some w := by
    simp only [Json.getFilled?, hget, if_neg hnull]
  rw [readField, hfilled]
  show (read w).mapError (Error.malformed field) = .ok a
  rw [hread]
  rfl

/-- A written descriptor is read back, order and all. -/
theorem ofJson_toJson {d : Descriptor} (hd : d.WellFormed) : ofJson d.toJson = .ok d := by
  obtain ⟨typeParams, initParams, funcParams, headers, preamble⟩ := d
  have hpresent : ∀ {v : Json}, v.isNull = false → ¬ v.isNull = true :=
    fun h => Bool.eq_false_iff.mp h
  rw [toJson, ofJson]
  refine bind_eq_ok_iff.mpr ⟨typeParams, ?_, bind_eq_ok_iff.mpr ⟨initParams, ?_,
    bind_eq_ok_iff.mpr ⟨funcParams, ?_, bind_eq_ok_iff.mpr ⟨headers, ?_,
    bind_eq_ok_iff.mpr ⟨preamble, ?_, ?_⟩⟩⟩⟩⟩
  · exact readField_of_get? (by rfl) (hpresent rfl) (readTable_tableJson hd.typeParams)
  · exact readField_of_get? (by rfl) (hpresent rfl) (readTable_tableJson hd.initParams)
  · exact readField_of_get? (by rfl) (hpresent rfl) (readTable_tableJson hd.funcParams)
  · exact readField_of_get? (by rfl) (hpresent rfl) (readList_listJson headers)
  · exact readField_of_get? (by rfl) (hpresent rfl) rfl
  · rw [onceEach_of_nodup hd.headers]
    rfl

open Json (Plain)

theorem plain_listJson (names : List String) : Plain (listJson names) :=
  .arr (List.forall_mem_map.mpr fun s _ => .str s)

theorem plain_tableJson {t : NameTable} (ht : Table.Distinct t) : Plain (tableJson t) := by
  refine .obj ?_ (List.forall_mem_map.mpr fun s _ => plain_listJson s.2)
  rw [Table.Distinct, Table.keys, List.map_map]
  exact ht

theorem plain_toJson {d : Descriptor} (hd : d.WellFormed) : Plain d.toJson := by
  have hkeys : ["typevarNames", "createArgNames", "argNames", "includes", "lib"].Nodup := by
    decide
  refine .obj hkeys ?_
  refine List.forall_mem_cons.mpr ⟨plain_tableJson hd.typeParams, ?_⟩
  refine List.forall_mem_cons.mpr ⟨plain_tableJson hd.initParams, ?_⟩
  refine List.forall_mem_cons.mpr ⟨plain_tableJson hd.funcParams, ?_⟩
  refine List.forall_mem_cons.mpr ⟨plain_listJson d.headers, ?_⟩
  exact List.forall_mem_singleton.mpr (.str d.preamble)

theorem itemsDepth_map_str (names : List String) : Json.itemsDepth (names.map .str) = 0 := by
  induction names with
  | nil => rfl
  | cons s names ih =>
      rw [List.map_cons, Json.itemsDepth, Json.depth, ih]
      rfl

theorem depth_listJson (names : List String) : (listJson names).depth = 1 := by
  rw [listJson, Json.depth, itemsDepth_map_str]

theorem membersDepth_tableJson_le (t : NameTable) :
    Json.membersDepth (t.map fun s => (s.1, listJson s.2)) ≤ 1 := by
  induction t with
  | nil => exact Nat.zero_le 1
  | cons s t ih =>
      rw [List.map_cons, Json.membersDepth, depth_listJson]
      exact Nat.max_le.mpr ⟨Nat.le_refl 1, ih⟩

theorem depth_tableJson_le (t : NameTable) : (tableJson t).depth ≤ 2 := by
  rw [tableJson, Json.depth]
  exact Nat.succ_le_succ (membersDepth_tableJson_le t)

theorem depth_toJson_le (d : Descriptor) : d.toJson.depth ≤ 3 := by
  have htype := depth_tableJson_le d.typeParams
  have hinit := depth_tableJson_le d.initParams
  have hfunc := depth_tableJson_le d.funcParams
  have hheaders := depth_listJson d.headers
  rw [toJson, Json.depth]
  simp only [Json.membersDepth, Json.depth]
  omega

/-- The texts of a descriptor, in the two layouts. -/
def texts (d : Descriptor) : List String :=
  [d.toJson.compact, d.toJson.pretty]

theorem parse?_of_mem_texts {d : Descriptor} (hd : d.WellFormed) {text : String}
    (h : text ∈ d.texts) : Json.parse? text = some d.toJson := by
  have hplain := plain_toJson hd
  have hfit : d.toJson.depth ≤ Json.maxDepth := Nat.le_trans d.depth_toJson_le (by decide)
  rcases List.mem_cons.mp h with rfl | h
  · exact (Json.parse?_compact hplain).trans (if_pos hfit)
  · rw [List.mem_singleton.mp h]
    exact (Json.parse?_pretty hplain).trans (if_pos hfit)

end Descriptor

namespace Compile

/-- The error of the lowering that is at the root of an error. -/
def Error.root? : Error → Option Lowering.Error
  | .notLowered _ e | .notBundled _ e => some e
  | _ => none

/-- Compiling gives the text that was to be had directly, or fails as it did
directly, with one line put in front of the error. -/
def Agrees (line : String) (direct : Except Lowering.Error String)
    (compiled : Except Error String) : Prop :=
  (∀ text, direct = .ok text → compiled = .ok text) ∧
  ∀ e, direct = .error e → ∃ e', compiled = .error e' ∧ e'.message = line ∧
    e'.root? = some e ∧ e'.chain = [line, e.message]

variable {d : Descriptor} {n : Node}

theorem readDescriptor_toJson (hd : d.WellFormed) : readDescriptor d.toJson = .ok d := by
  rw [readDescriptor, Descriptor.ofJson_toJson hd]
  rfl

theorem readTree_encode (hn : n.BindsOnce) : readTree n.encode = .ok n :=
  Wire.readTree_of_decode (Wire.decode_encode_eq_ok_iff.mpr hn)

theorem lowerJson_written (hd : d.WellFormed) (hn : n.BindsOnce) :
    lowerJson n.encode d.toJson = (lower d {} n).mapError (.notLowered n.kind) := by
  rw [lowerJson, readTree_encode hn, readDescriptor_toJson hd]
  rfl

theorem bundleJson_written (l : Layout) (hd : d.WellFormed) (hn : n.BindsOnce) :
    bundleJson l n.encode d.toJson = (bundle d l n).mapError (.notBundled n.kind) := by
  rw [bundleJson, readTree_encode hn, readDescriptor_toJson hd]
  rfl

theorem bundleText_written (hd : d.WellFormed) (hfit : n.encode.depth ≤ Json.maxDepth)
    {text : String} (htext : text ∈ d.texts) :
    bundleText n.encode.pretty text = bundleJson {} n.encode d.toJson := by
  rw [bundleText, n.printedAs_pretty.parse?_of_le hfit, Descriptor.parse?_of_mem_texts hd htext]

/-- An error that is kept under a line of its own. -/
theorem agrees_mapError {line : String} {wrap : Lowering.Error → Error}
    (direct : Except Lowering.Error String)
    (hwrap : ∀ e, (wrap e).message = line ∧ (wrap e).root? = some e ∧
      (wrap e).chain = [line, e.message]) :
    Agrees line direct (direct.mapError wrap) := by
  refine ⟨fun text h => ?_, fun e h => ⟨wrap e, ?_, hwrap e⟩⟩
  · rw [h]
    rfl
  · rw [h]
    rfl

/-- Writing a tree and a descriptor and compiling what was written is the same
as compiling them directly: from JSON for every tree in which no type binds a
parameter twice, and from texts if the tree nests no deeper than a text may. The
error of a tree that cannot be compiled comes through as it is. -/
theorem written_agrees (d : Descriptor) (n : Node) (hd : d.WellFormed) (hn : n.BindsOnce) :
    (n.encode.depth ≤ 127 → ∀ text ∈ d.texts,
      Agrees ("Failed to bundle " ++ n.kind.tag) (bundle d {} n)
        (bundleText n.encode.pretty text)) ∧
    (∀ l, Agrees ("Failed to bundle " ++ n.kind.tag) (bundle d l n)
      (bundleJson l n.encode d.toJson)) ∧
    Agrees ("Failed to transpile " ++ n.kind.tag) (lower d {} n)
      (lowerJson n.encode d.toJson) := by
  have hbundle : ∀ l, Agrees ("Failed to bundle " ++ n.kind.tag) (bundle d l n)
      (bundleJson l n.encode d.toJson) := by
    intro l
    rw [bundleJson_written l hd hn]
    exact agrees_mapError _ fun e => ⟨rfl, rfl, rfl⟩
  refine ⟨fun hfit text htext => ?_, hbundle, ?_⟩
  · rw [bundleText_written hd hfit htext]
    exact hbundle {}
  · rw [lowerJson_written hd hn]
    exact agrees_mapError _ fun e => ⟨rfl, rfl, rfl⟩

/-- A tree that lacks an argument, from a text to the message. -/
theorem written_agrees_lacking :
    let d : Descriptor :=
      { typeParams := [("Map", ["K", "V"])], initParams := [("Map", ["size"])],
        headers := ["map", "string"], preamble := "// \"lib\"" }
    let n : Node := .stmt (.eval (.create
      (.generic "Map" [⟨"V", .named "B"⟩, ⟨"K", .named "A"⟩]) []))
    d.WellFormed ∧ n.BindsOnce ∧ n.encode.depth ≤ 127 ∧
    ∃ e, bundleText n.encode.pretty d.toJson.compact = .error e ∧
      e.chain = ["Failed to bundle Do",
        "Argument size is not specified in (#Map<V=#B,K=#A>())"] := by
  intro d n
  have hd : d.WellFormed :=
    ⟨List.nodup_singleton _, List.nodup_singleton _, List.nodup_nil, by decide⟩
  have hn : n.BindsOnce := Wire.decode_encode_eq_ok_iff.mp rfl
  have hfit : n.encode.depth ≤ 127 := by decide
  have hfails : bundle d {} n
      = .error ⟨.unboundParam "size", "(#Map<V=#B,K=#A>())"⟩ := by rfl
  obtain ⟨e, he, -, -, hchain⟩ :=
    ((written_agrees d n hd hn).1 hfit _ List.mem_cons_self).2 _ hfails
  exact ⟨hd, hn, hfit, e, he, hchain⟩

end Compile

end TreeIR
