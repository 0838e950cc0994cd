import TreeIR.Proofs.CanonicalForm

/-!
# No two trees are written alike

A tree may bind a parameter of a generic type twice, and then what is written of
it is refused by the reader. So that written trees can be told apart does not
follow from reading them back, and this file does not read. It looks at one object
at a time. The tag shows the kind, and the kind decides which fields there are and
of what sort, so two objects that are equal hold equal texts, equal truth values
and, in the same places, nodes that are written alike. Those are smaller.

`Content` is what a field holds once its sort is known, and a node is its kind and
the contents of its fields: `ofContents?` puts it together again. It does not ask
whether names repeat.
-/

namespace TreeIR

namespace Wire

/-- What a field holds. Its sort tells a node from a list that has one. -/
inductive Content where
  | text (s : String)
  | bool (b : Bool)
  | nodes (ns : List Node)

/-- What a part holds, without regard to how it is written. -/
def Part.content : Part → Content
  | .text s => .text s
  | .bool b | .flag b => .bool b
  | .node n => .nodes [n]
  | .node? o => .nodes o.toList
  | .nodes ns => .nodes ns
  | .bindings bs => .nodes (bs.map Binding.whole)

end Wire

open Wire

namespace Node

/-- What the fields of a node hold, in the order of the fields. -/
def contents (n : Node) : List Content :=
  n.fields.map fun p => p.2.content

/-- The node of a kind with these contents. -/
def ofContents? : Kind → List Content → Option Node
  | .namedType, [.text name] => some (.ty (.named name))
  | .genericType, [.nodes [.ty (.named name)], .nodes args] =>
    some (.ty (.generic name (args.filterMap Slot.typeArg.pick)))
  | .typeArg, [.text name, .nodes [.ty t]] => some (.typeArg ⟨name, t⟩)
  | .param, [.nodes [.expr (.ident name)], .nodes [.ty t]] => some (.param ⟨name, t⟩)
  | .num, [.text text, .bool isFloat] => some (.expr (.num text isFloat))
  | .str, [.text value] => some (.expr (.str value))
  | .ident, [.text name] => some (.expr (.ident name))
  | .func, [.nodes params, .nodes [.ty result], .nodes [.stmt body]] =>
    some (.expr (.func (params.filterMap Slot.param.pick) result body))
  | .create, [.nodes [.ty t], .nodes args] =>
    some (.expr (.create t (args.filterMap Slot.arg.pick)))
  | .call, [.nodes [.expr (.ident callee)], .nodes args] =>
    some (.expr (.call callee (args.filterMap Slot.arg.pick)))
  | .arg, [.nodes [.expr (.ident name)], .nodes [.expr value]] => some (.arg ⟨name, value⟩)
  | .assign, [.nodes [.expr (.ident target)], .bool defines, .nodes [.expr value]] =>
    some (.stmt (.assign target defines value))
  | .eval, [.nodes [.expr value]] => some (.stmt (.eval value))
  | .forEach, [.nodes [.expr (.ident item)], .nodes [.expr source], .nodes [.stmt body]] =>
    some (.stmt (.forEach item source body))
  | .whileDo, [.nodes [.expr cond], .nodes [.stmt body]] => some (.stmt (.whileDo cond body))
  | .branch, [.nodes cases, .nodes last] =>
    some (.stmt (.branch (cases.filterMap Slot.case.pick) (last.findSome? Slot.fallback.pick)))
  | .case, [.nodes [.expr cond], .nodes [.stmt body]] => some (.case ⟨cond, body⟩)
  | .fallback, [.nodes [.stmt body]] => some (.fallback body)
  | .ret, [.nodes value] => some (.stmt (.ret (value.findSome? Slot.expr.pick)))
  | .brk, [] => some (.stmt .brk)
  | .cont, [] => some (.stmt .cont)
  | .suite, [.nodes body] => some (.stmt (.suite (body.filterMap Slot.stmt.pick)))
  | _, _ => none

section Pick

variable {α : Type} (slot : Slot α)

theorem filterMap_pick (make : α → Node) (h : ∀ a, slot.pick (make a) = some a)
    (as : List α) : (as.map make).filterMap slot.pick = as := by
  rw [List.filterMap_map]
  exact (List.filterMap_congr fun a _ => h a).trans List.filterMap_some

theorem filterMap_pick_whole (bind : α → Binding)
    (h : ∀ a, slot.pick (bind a).whole = some a) (as : List α) :
    ((as.map bind).map Binding.whole).filterMap slot.pick = as := by
  rw [List.map_map]
  exact filterMap_pick slot _ h as

theorem findSome?_pick (make : α → Node) (h : ∀ a, slot.pick (make a) = some a)
    (o : Option α) : (o.map make).toList.findSome? slot.pick = o := by
  cases o with
  | none => rfl
  | some a => simp [h a]

end Pick

theorem ofContents?_contents (n : Node) : ofContents? n.kind n.contents = some n := by
  match n with
  | .ty (.named _) | .typeArg ⟨_, _⟩ | .param _ | .expr (.num ..) | .expr (.str _)
  | .expr (.ident _) | .arg ⟨_, _⟩ | .stmt (.assign ..) | .stmt (.eval _)
  | .stmt (.forEach ..) | .stmt (.whileDo ..) | .stmt .brk | .stmt .cont | .case ⟨_, _⟩
  | .fallback _ => rfl
  | .ty (.generic name args) =>
      have hargs := filterMap_pick_whole .typeArg .typeArg (fun _ => rfl) args
      exact congrArg (fun as => some (Node.ty (.generic name as))) hargs
  | .expr (.create t args) =>
      have hargs := filterMap_pick_whole .arg .arg (fun _ => rfl) args
      exact congrArg (fun as => some (Node.expr (.create t as))) hargs
  | .expr (.call callee args) =>
      have hargs := filterMap_pick_whole .arg .arg (fun _ => rfl) args
      exact congrArg (fun as => some (Node.expr (.call callee as))) hargs
  | .expr (.func params result body) =>
      have hparams := filterMap_pick .param .param (fun _ => rfl) params
      exact congrArg (fun ps => some (Node.expr (.func ps result body))) hparams
  | .stmt (.branch cases last) =>
      have hcases := filterMap_pick .case .case (fun _ => rfl) cases
      have hlast := findSome?_pick .fallback .fallback (fun _ => rfl) last
      exact congrArg₂ (fun cs l => some (Node.stmt (.branch cs l))) hcases hlast
  | .stmt (.ret value) =>
      have hvalue := findSome?_pick .expr .expr (fun _ => rfl) value
      exact congrArg (fun o => some (Node.stmt (.ret o))) hvalue
  | .stmt (.suite body) =>
      have hbody := filterMap_pick .stmt .stmt (fun _ => rfl) body
      exact congrArg (fun ss => some (Node.stmt (.suite ss))) hbody

theorem eq_of_contents_eq {a b : Node} (hkind : a.kind = b.kind)
    (h : a.contents = b.contents) : a = b := by
  refine Option.some.inj ?_
  rw [← ofContents?_contents a, hkind, h, ofContents?_contents b]

end Node

namespace Wire

theorem map_encode_inj {ns ms : List Node}
    (hns : ∀ n ∈ ns, ∀ m : Node, n.encode = m.encode → n = m)
    (h : ns.map Node.encode = ms.map Node.encode) : ns = ms := by
  induction ns generalizing ms with
  | nil =>
      cases ms with
      | nil => rfl
      | cons m ms => cases h
  | cons n ns ih =>
      cases ms with
      | nil => cases h
      | cons m ms =>
          obtain ⟨hhead, htail⟩ := List.cons.inj h
          obtain ⟨hn, hns⟩ := List.forall_mem_cons.mp hns
          rw [hn m hhead, ih hns htail]

/-- A missing node is written as null, and nothing else is. -/
theorem encode?_inj {o o' : Option Node}
    (ho : ∀ n ∈ o, ∀ m : Node, n.encode = m.encode → n = m)
    (h : Node.encode? o = Node.encode? o') : o = o' := by
  cases o with
  | none =>
      cases o' with
      | none => rfl
      | some m => exact absurd (congrArg Json.isNull h).symm m.encode_ne_null
  | some n =>
      cases o' with
      | none => exact absurd (congrArg Json.isNull h) n.encode_ne_null
      | some m => exact congrArg some (ho n rfl m h)

/-- In a field of a known sort, what is written shows the content, as far as nodes
show in what is written of them. -/
theorem Part.content_eq_of_encode_eq {p q : Part} (hsort : p.sort = q.sort)
    (hp : ∀ n ∈ p.inside, ∀ m : Node, n.encode = m.encode → n = m)
    (h : p.encode = q.encode) : p.content = q.content := by
  cases p with
  | text s =>
      cases q with
      | text s' => exact congrArg Content.text (Json.str.inj h)
      | _ => cases hsort
  | bool b | flag b =>
      cases q with
      | bool b' | flag b' => exact congrArg Content.bool (Json.bool.inj h)
      | _ => cases hsort
  | node n =>
      cases q with
      | node m =>
          have hnode : n = m := hp n List.mem_cons_self m h
          rw [hnode]
      | _ => cases hsort
  | node? o =>
      cases q with
      | node? o' =>
          have hoption : o = o' := encode?_inj (fun n hn => hp n (Option.mem_toList.mpr hn)) h
          rw [hoption]
      | _ => cases hsort
  | nodes ns | bindings bs =>
      cases q with
      | nodes ms | bindings bs' =>
          exact congrArg Content.nodes (map_encode_inj hp (Json.arr.inj h))
      | _ => cases hsort

theorem map_content_eq {ps qs : List (String × Part)}
    (hps : ∀ p ∈ ps, ∀ n ∈ p.2.inside, ∀ m : Node, n.encode = m.encode → n = m)
    (hsorts : ps.map (fun p => (p.1, p.2.sort)) = qs.map fun p => (p.1, p.2.sort))
    (h : ps.map (fun p => (p.1, p.2.encode)) = qs.map fun p => (p.1, p.2.encode)) :
    ps.map (fun p => p.2.content) = qs.map fun p => p.2.content := by
  induction ps generalizing qs with
  | nil =>
      cases qs with
      | nil => rfl
      | cons q qs => cases h
  | cons p ps ih =>
      cases qs with
      | nil => cases h
      | cons q qs =>
          obtain ⟨hsort, hsorts⟩ := List.cons.inj hsorts
          obtain ⟨hhead, htail⟩ := List.cons.inj h
          obtain ⟨hp, hps⟩ := List.forall_mem_cons.mp hps
          have hcontent := Part.content_eq_of_encode_eq (congrArg Prod.snd hsort) hp
            (congrArg Prod.snd hhead)
          rw [List.map_cons, List.map_cons, hcontent, ih hps hsorts htail]

theorem object_inj {k k' : Kind} {fields fields' : List (String × Json)}
    (h : object k fields = object k' fields') : k = k' ∧ fields = fields' := by
  obtain ⟨hhead, hfields⟩ := List.cons.inj (Json.obj.inj h)
  have htag : k.tag = k'.tag := Json.str.inj (congrArg Prod.snd hhead)
  refine ⟨Option.some.inj ?_, hfields⟩
  rw [← Kind.ofTag?_tag k, htag, Kind.ofTag?_tag]

end Wire

theorem Node.eq_of_encode_eq {a b : Node} (h : a.encode = b.encode) : a = b := by
  have hobject := h
  rw [a.encode_eq_object_fields, b.encode_eq_object_fields] at hobject
  obtain ⟨hkind, hfields⟩ := object_inj hobject
  refine Node.eq_of_contents_eq hkind (map_content_eq ?_ ?_ hfields)
  · exact fun p hp n hn m hnm => Node.eq_of_encode_eq hnm
  · rw [← a.fieldSorts_kind, ← b.fieldSorts_kind, hkind]
termination_by sizeOf a.encode
decreasing_by exact sizeOf_encode_lt hp hn

/-- Trees are written alike only if they are equal, whatever their kinds and whether
or not their types bind a parameter twice; and no tree is written like a missing one. -/
theorem Node.encode_eq_iff_eq :
    (∀ a b : Node, a.encode = b.encode ↔ a = b) ∧
    ∀ a b : Option Node, Node.encode? a = Node.encode? b ↔ a = b := by
  refine ⟨fun a b => ⟨Node.eq_of_encode_eq, congrArg Node.encode⟩, fun a b => ⟨?_, ?_⟩⟩
  · exact encode?_inj fun _ _ _ => Node.eq_of_encode_eq
  · exact congrArg Node.encode?

end TreeIR
