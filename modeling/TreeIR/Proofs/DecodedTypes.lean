import TreeIR.Proofs.Blame
import TreeIR.Proofs.JsonBoundary

/-!
# What reading rules out for the lowering

Two parts of the library refuse a type that binds a parameter twice: the reader
of the wire form, and the lowering. On the way from JSON to a text the second
check comes too late to find anything, so the error it would give is one that
nobody who hands over JSON will ever see.

Neither part knows of the other. What the reader leaves behind is a fact about
the whole tree, `Node.BindsOnce`; what the lowering says when it fails is a fact
about one node in it. An error that blames a type for binding a parameter twice
blames a node of the tree, wherever it stands: in a parameter, in a result, in
what is created or in an argument of another type. So the two facts meet there.
-/

namespace TreeIR

open Lowering

/-- The error is about a type that binds a parameter twice. -/
def Lowering.Error.SaysTwice (e : Error) : Prop :=
  ∃ name, e.cause = .typeParamTwice name

theorem Node.Stands.within {v w : View} {n m : Node} (h : n.Stands v w m) : m.Within n := by
  induction h with
  | here v n => exact .refl n
  | inside hp _ ih => exact ih.child (Node.mem_children_of_mem_placed hp)

theorem Node.eq_generic_of_kind {n : Node} (h : n.kind = .genericType) :
    ∃ name args, n = .ty (.generic name args) := by
  cases n with
  | ty t =>
      cases t with
      | named name => cases h
      | generic name args => exact ⟨name, args, rfl⟩
  | expr e => cases e <;> cases h
  | stmt s => cases s <;> cases h
  | _ => cases h

namespace Node.BindsOnce

variable {d : Descriptor} {n : Node} {e : Error}

/-- Nothing in such a tree can be blamed for binding a parameter twice. -/
theorem not_saysTwice_of_located {v : View} (hn : n.BindsOnce) (h : e.Located d v n) :
    ¬ e.SaysTwice := by
  rintro ⟨name, hcause⟩
  obtain ⟨w, m, hstands, -, hholds⟩ := h
  rw [hcause] at hholds
  obtain ⟨hkind, htwice⟩ := hholds
  obtain ⟨type, args, rfl⟩ := Node.eq_generic_of_kind hkind
  exact htwice.not_nodup (hn type args hstands.within)

theorem not_saysTwice_of_lower (hn : n.BindsOnce) {l : Layout}
    (h : TreeIR.lower d l n = .error e) : ¬ e.SaysTwice := by
  rw [TreeIR.lower, Node.lower_start] at h
  exact hn.not_saysTwice_of_located
    (Node.located_of_lowerIn_eq_error d l.indent n _ e (.refl _) h)

theorem not_saysTwice_of_bundle (hn : n.BindsOnce) {l : Layout} (h : bundle d l n = .error e) :
    ¬ e.SaysTwice :=
  hn.not_saysTwice_of_lower (bind_pure_eq_error h)

end Node.BindsOnce

namespace Compile

/-- An error of the lowering at the root of an error can only come from the
lowering, under some descriptor that was read. -/
theorem exists_descriptor_of_root {dv : Json} {run : Descriptor → Except Lowering.Error String}
    {wrap : Lowering.Error → Error} {e : Error} {root : Lowering.Error}
    (hwrap : ∀ e, (wrap e).root? = some e)
    (h : (readDescriptor dv >>= fun d => (run d).mapError wrap) = .error e)
    (hroot : e.root? = some root) : ∃ d, run d = .error root := by
  rcases bind_eq_error h with hread | ⟨d, -, hrun⟩
  · rw [readDescriptor] at hread
    cases hd : Descriptor.ofJson dv with
    | ok d => rw [hd] at hread; cases hread
    | error reason => rw [hd] at hread; cases hread; cases hroot
  · cases hresult : run d with
    | ok text => rw [hresult] at hrun; cases hrun
    | error cause =>
        rw [hresult] at hrun
        cases hrun
        rw [hwrap, Option.some.injEq] at hroot
        exact ⟨d, hresult.trans (congrArg _ hroot)⟩

variable {v dv : Json} {n : Node} {e : Error} {root : Lowering.Error}

theorem exists_lower_of_lowerJson (hn : readTree v = .ok n) (h : lowerJson v dv = .error e)
    (hroot : e.root? = some root) : ∃ d, lower d {} n = .error root := by
  rw [lowerJson, hn] at h
  exact exists_descriptor_of_root (fun _ => rfl) h hroot

theorem exists_bundle_of_bundleJson {l : Layout} (hn : readTree v = .ok n)
    (h : bundleJson l v dv = .error e) (hroot : e.root? = some root) :
    ∃ d, bundle d l n = .error root := by
  rw [bundleJson, hn] at h
  exact exists_descriptor_of_root (fun _ => rfl) h hroot

/-- No tree that was read from JSON, in whichever of its forms, is refused by a
lowering for a type that binds a parameter twice: not under any descriptor and
layout, not as part of a program, and not on the whole way from JSON with the
descriptor read from JSON as well. -/
theorem decoded_not_saysTwice (v : Json) (n : Node) (h : Wire.decode v = .ok (some n)) :
    (∀ d l e, lower d l n = .error e → ¬ e.SaysTwice) ∧
    (∀ d l e, bundle d l n = .error e → ¬ e.SaysTwice) ∧
    ∀ dv l e root, (lowerJson v dv = .error e ∨ bundleJson l v dv = .error e) →
      e.root? = some root → ¬ root.SaysTwice := by
  have hn : n.BindsOnce := (Wire.decode_eq_ok_some_iff.mp h).bindsOnce
  have htree := Wire.readTree_of_decode h
  refine ⟨fun d l e => hn.not_saysTwice_of_lower, fun d l e => hn.not_saysTwice_of_bundle, ?_⟩
  intro dv l e root hfails hroot
  rcases hfails with hfails | hfails
  · obtain ⟨d, hlower⟩ := exists_lower_of_lowerJson htree hfails hroot
    exact hn.not_saysTwice_of_lower hlower
  · obtain ⟨d, hbundle⟩ := exists_bundle_of_bundleJson htree hfails hroot
    exact hn.not_saysTwice_of_bundle hbundle

/-- A function with a type by keys for its parameter, another inside it, and a
list for the type it creates. What it is refused for is a parameter that the
inner type lacks. -/
theorem decoded_not_saysTwice_keyed :
    let d := (Descriptor.empty.withTypeParams "Map" ["K", "V"]).withTypeParams "List" ["T", "A"]
    let list : Ty := .generic "List" [⟨"T", .named "S"⟩]
    let map : Ty := .generic "Map" [⟨"V", list⟩, ⟨"K", .named "S"⟩]
    let n : Node := .expr (.func [⟨"m", map⟩] (.named "S") (.ret (some (.create map []))))
    let keyed := Wire.object .genericType [("id", Wire.typeName "Map"),
      ("typevars", .obj [("V", list.encode), ("K", Wire.typeName "S")])]
    let v := Wire.object .func [
      ("decls", .arr [Wire.object .param [("arg", Wire.ident "m"), ("type", keyed)]]),
      ("returnType", Wire.typeName "S"),
      ("body", Wire.object .ret [("value", (Expr.create map []).encode)])]
    Wire.decode v = .ok (some n) ∧
    ∃ e, lower d {} n = .error e ∧ e.cause = .unboundTypeParam "A" ∧ ¬ e.SaysTwice := by
  intro d list map n keyed v
  have hread : Wire.decode v = .ok (some n) := by rfl
  have hfails : lower d {} n = .error ⟨.unboundTypeParam "A", "#List<T=#S>"⟩ := by rfl
  exact ⟨hread, _, hfails, rfl, (decoded_not_saysTwice v n hread).1 d {} _ hfails⟩

-- A tree that was not read may well be refused for it.
example :
    let d := Descriptor.empty.withTypeParams "Map" ["K"]
    lower d {} (.ty (.generic "Map" [⟨"K", .named "S"⟩, ⟨"K", .named "T"⟩]))
      = .error ⟨.typeParamTwice "K", "#Map<K=#S,K=#T>"⟩ := by
  rfl

end Compile

end TreeIR
