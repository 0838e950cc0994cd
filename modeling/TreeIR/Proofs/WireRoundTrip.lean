import TreeIR.Proofs.Subtree
import TreeIR.Wire.Decode

/-!
# Reading back what was written

A tree is written and read by two tables over the same kinds, and they agree on
everything but one point. A tree may bind a parameter of a generic type twice;
writing it is fine, reading it is an error. So a written tree reads back as
itself exactly if no type inside it does that.

The proof is one induction over children. Reading visits the children in the
order in which `Node.children` lists them and checks a type after what is
inside it, so the outcome is known in advance: `Node.firstTwice?` is the first
node, children before parents, that binds a parameter twice, and reading fails
on that very node or not at all. Whatever an object can ask of its members is
then answered by `verdict`, for one child and for a list of them alike.
-/

namespace TreeIR

namespace Node

/-- The name that a node binds twice, if it is a type that does so. -/
def twice? : Node → Option String
  | .ty (.generic _ args) => firstRepeat (args.map TypeArg.name)
  | _ => none

/-- No type inside binds a parameter twice. -/
def BindsOnce (n : Node) : Prop :=
  ∀ name args, (Node.ty (.generic name args)).Within n → (args.map TypeArg.name).Nodup

/-- The first node, children before parents, that binds a parameter twice. -/
def firstTwice? (n : Node) : Option (String × Node) :=
  (n.children.attach.findSome? fun c => firstTwice? c.1).or (n.twice?.map (·, n))
termination_by n
decreasing_by exact c.2

theorem firstTwice?_eq (n : Node) :
    n.firstTwice? = (n.children.findSome? firstTwice?).or (n.twice?.map (·, n)) := by
  rw [firstTwice?, List.findSome?_subtype fun _ _ => rfl, List.unattach_attach]

theorem eq_generic_of_twice? {n : Node} {twice : String} (h : n.twice? = some twice) :
    ∃ name args, n = .ty (.generic name args) := by
  match n with
  | .ty (.generic name args) => exact ⟨name, args, rfl⟩
  | .ty (.named _) | .typeArg _ | .param _ | .expr _ | .arg _ | .stmt _ | .case _
  | .fallback _ => cases h

theorem firstTwice?_of_twice?_eq_none {n : Node} (h : n.twice? = none) :
    n.firstTwice? = n.children.findSome? firstTwice? := by
  rw [firstTwice?_eq, h]
  exact Option.or_none

theorem twice?_eq_none_of_bindsOnce {n : Node} (h : n.BindsOnce) : n.twice? = none := by
  match n with
  | .ty (.generic name args) => exact firstRepeat_eq_none_iff.mpr (h name args (.refl _))
  | .ty (.named _) | .typeArg _ | .param _ | .expr _ | .arg _ | .stmt _ | .case _
  | .fallback _ => rfl

theorem BindsOnce.child {c n : Node} (h : n.BindsOnce) (hc : c ∈ n.children) :
    c.BindsOnce :=
  fun name args hin => h name args (hin.child hc)

/-- A type that binds a parameter twice shows up, and nothing else does. -/
theorem firstTwice?_eq_none_iff (n : Node) : n.firstTwice? = none ↔ n.BindsOnce := by
  induction n using childInduction with
  | step n ih =>
      rw [firstTwice?_eq, Option.or_eq_none_iff, List.findSome?_eq_none_iff,
        Option.map_eq_none_iff]
      constructor
      · rintro ⟨hchildren, hself⟩ name args hin
        rcases within_iff.mp hin with rfl | ⟨c, hc, hin⟩
        · exact firstRepeat_eq_none_iff.mp hself
        · exact (ih c hc).mp (hchildren c hc) name args hin
      · intro h
        exact ⟨fun c hc => (ih c hc).mpr (h.child hc), twice?_eq_none_of_bindsOnce h⟩

/-- What shows up binds a parameter twice, and nothing inside it does. -/
theorem firstTwice?_eq_some {n p : Node} {name : String}
    (h : n.firstTwice? = some (name, p)) :
    p.Within n ∧ p.twice? = some name ∧ ∀ c ∈ p.children, c.BindsOnce := by
  induction n using childInduction with
  | step n ih =>
      rw [firstTwice?_eq, Option.or_eq_some_iff] at h
      rcases h with h | ⟨hnone, h⟩
      · obtain ⟨c, hc, hfound⟩ := List.exists_of_findSome?_eq_some h
        obtain ⟨hin, hname, hinner⟩ := ih c hc hfound
        exact ⟨hin.child hc, hname, hinner⟩
      · obtain ⟨name', hname, heq⟩ := Option.map_eq_some_iff.mp h
        cases heq
        refine ⟨.refl _, hname, fun c hc => ?_⟩
        exact (firstTwice?_eq_none_iff c).mp (List.findSome?_eq_none_iff.mp hnone c hc)

theorem encode_eq_object (n : Node) : ∃ fields, n.encode = Wire.object n.kind fields := by
  match n with
  | .ty (.named _) | .ty (.generic ..) | .typeArg _ | .param _ | .expr (.num ..)
  | .expr (.str _) | .expr (.ident _) | .expr (.func ..) | .expr (.create ..)
  | .expr (.call ..) | .arg _ | .stmt (.assign ..) | .stmt (.eval _)
  | .stmt (.forEach ..) | .stmt (.whileDo ..) | .stmt (.branch _ none)
  | .stmt (.branch _ (some _)) | .stmt (.ret none) | .stmt (.ret (some _))
  | .stmt .brk | .stmt .cont | .stmt (.suite _) | .case _ | .fallback _ => exact ⟨_, rfl⟩

theorem encode_ne_null (n : Node) : ¬ n.encode.isNull := by
  obtain ⟨fields, h⟩ := n.encode_eq_object
  rw [h]
  exact Bool.false_ne_true

end Node

namespace Wire

variable {α β : Type}

/-! ## What the fields of a written object are

`fieldsOf` is an object of a known kind as reading sees it. Each lemma takes
the written member and says what the reader of that sort of field returns. -/

/-- An object of this kind with its members read. -/
def fieldsOf (k : Kind) (ms : List (String × Json)) : Fields :=
  ⟨k, .obj ms, readMembers ms⟩

/-- What reading gives for a part of a tree: the part itself, unless a type in
it was found that binds a parameter twice. -/
def verdict (found : Option (String × Node)) (a : α) : Except Error α :=
  match found with
  | none => .ok a
  | some (name, p) => .error ⟨.nameTwice .genericType name, p.encode⟩

/-- Reading the written node back gives its verdict. -/
def ReadsBack (n : Node) : Prop :=
  decodeNode n.encode = verdict n.firstTwice? n

theorem kindOfTag?_tag (k : Kind) : kindOfTag? k.tag = some k := by
  cases k <;> decide

theorem decodeNode_object (k : Kind) (fields : List (String × Json)) :
    decodeNode (object k fields)
      = (fieldsOf k ((tagKey, .str k.tag) :: fields)).node := by
  have hkind : kind? (object k fields) = some k := kindOfTag?_tag k
  rw [object] at hkind
  rw [decodeNode, object, read, assemble, hkind]
  rfl

theorem get?_readMembers (field : String) (ms : List (String × Json)) :
    Table.get? field (readMembers ms) = (Table.get? field ms).map read := by
  induction ms with
  | nil => rfl
  | cons m ms ih =>
      obtain ⟨k, v⟩ := m
      rw [readMembers, Table.get?_cons, Table.get?_cons, ih]
      split <;> rfl

section Fields

variable {k : Kind} {ms : List (String × Json)} {field : String}

theorem find?_of_get? {v : Json} (h : Table.get? field ms = some v) (hv : ¬ v.isNull) :
    (fieldsOf k ms).find? field = some (read v) := by
  have hget : Table.get? field (fieldsOf k ms).members = some (read v) := by
    rw [fieldsOf, get?_readMembers, h]
    rfl
  rw [Fields.find?, hget]
  simp only [raw_read, if_neg hv]

theorem require_of_get? {v : Json} (h : Table.get? field ms = some v) (hv : ¬ v.isNull) :
    (fieldsOf k ms).require field = .ok (read v) := by
  rw [Fields.require, find?_of_get? h hv]

theorem string_of_get? {s : String} (h : Table.get? field ms = some (.str s)) :
    (fieldsOf k ms).string field = .ok s := by
  rw [Fields.string, require_of_get? h Bool.false_ne_true]
  rfl

theorem bool_of_get? {b : Bool} (h : Table.get? field ms = some (.bool b)) :
    (fieldsOf k ms).bool field = .ok b := by
  rw [Fields.bool, require_of_get? h Bool.false_ne_true]
  rfl

theorem flag_of_get? {b : Bool} (h : Table.get? field ms = some (.bool b)) :
    (fieldsOf k ms).flag field = .ok b := by
  rw [Fields.flag, find?_of_get? h Bool.false_ne_true]
  exact bool_of_get? h

theorem fit_read {slot : Slot α} {c : Node} {a : α} (hpick : slot.pick c = some a)
    (hread : ReadsBack c) :
    (read c.encode).toItem.fit slot = verdict c.firstTwice? a := by
  have hnode : (read c.encode).node = verdict c.firstTwice? c := hread
  rw [Item.fit, hnode]
  cases c.firstTwice? with
  | some found => rfl
  | none =>
      have hfit : slot.fit c = .ok a := by rw [Slot.fit, hpick]
      simp only [verdict, Except.bind, hfit]

theorem mapM_fit_read {slot : Slot α} {make : α → Node}
    (hpick : ∀ a, slot.pick (make a) = some a) (as : List α)
    (hread : ∀ c ∈ as.map make, ReadsBack c) :
    (readItems ((as.map make).map Node.encode)).mapM (Item.fit slot)
      = verdict ((as.map make).findSome? Node.firstTwice?) as := by
  induction as with
  | nil => rfl
  | cons a as ih =>
      obtain ⟨hhead, htail⟩ := List.forall_mem_cons.mp hread
      have ha := fit_read (hpick a) hhead
      have has := ih htail
      simp only [List.map_cons, readItems, List.mapM_cons, List.findSome?_cons, ha, has]
      cases (make a).firstTwice? with
      | some found => rfl
      | none =>
          cases (as.map make).findSome? Node.firstTwice? with
          | some found => rfl
          | none => rfl

/-! ## Reading a node child by child

A step reads one field and hands what it read to the rest. The children that
are still to be read stand in the verdict, and a step takes its own off the
front of them. -/

theorem string_step {s : String} {f : String → Except Error β} {r : Except Error β}
    (h : Table.get? field ms = some (.str s)) (hf : f s = r) :
    ((fieldsOf k ms).string field >>= f) = r := by
  rw [string_of_get? h]
  exact hf

theorem bool_step {b : Bool} {f : Bool → Except Error β} {r : Except Error β}
    (h : Table.get? field ms = some (.bool b)) (hf : f b = r) :
    ((fieldsOf k ms).bool field >>= f) = r := by
  rw [bool_of_get? h]
  exact hf

theorem flag_step {b : Bool} {f : Bool → Except Error β} {r : Except Error β}
    (h : Table.get? field ms = some (.bool b)) (hf : f b = r) :
    ((fieldsOf k ms).flag field >>= f) = r := by
  rw [flag_of_get? h]
  exact hf

theorem child_step {slot : Slot α} {c : Node} {a : α} {cs : List Node}
    {f : α → Except Error β} {b : β} (h : Table.get? field ms = some c.encode)
    (hpick : slot.pick c = some a) (hread : ReadsBack c)
    (hf : f a = verdict (cs.findSome? Node.firstTwice?) b) :
    ((fieldsOf k ms).child slot field >>= f)
      = verdict ((c :: cs).findSome? Node.firstTwice?) b := by
  rw [Fields.child, require_of_get? h c.encode_ne_null]
  show ((read c.encode).toItem.fit slot >>= f) = _
  rw [fit_read hpick hread, List.findSome?_cons]
  cases c.firstTwice? with
  | some found => rfl
  | none => exact hf

theorem list_or_step {slot : Slot α} {make : α → Node} {as : List α}
    {rest : Option (String × Node)} {f : List α → Except Error β} {b : β}
    (h : Table.get? field ms = some (.arr ((as.map make).map Node.encode)))
    (hpick : ∀ a, slot.pick (make a) = some a) (hread : ∀ c ∈ as.map make, ReadsBack c)
    (hf : f as = verdict rest b) :
    ((fieldsOf k ms).list slot field >>= f)
      = verdict (((as.map make).findSome? Node.firstTwice?).or rest) b := by
  rw [Fields.list, require_of_get? h Bool.false_ne_true]
  show ((readItems ((as.map make).map Node.encode)).mapM (Item.fit slot) >>= f) = _
  rw [mapM_fit_read hpick as hread]
  cases (as.map make).findSome? Node.firstTwice? with
  | some found => rfl
  | none => exact hf

theorem list_step {slot : Slot α} {make : α → Node} {as : List α} {cs : List Node}
    {f : List α → Except Error β} {b : β}
    (h : Table.get? field ms = some (.arr ((as.map make).map Node.encode)))
    (hpick : ∀ a, slot.pick (make a) = some a) (hread : ∀ c ∈ as.map make, ReadsBack c)
    (hf : f as = verdict (cs.findSome? Node.firstTwice?) b) :
    ((fieldsOf k ms).list slot field >>= f)
      = verdict ((as.map make ++ cs).findSome? Node.firstTwice?) b := by
  rw [List.findSome?_append]
  exact list_or_step h hpick hread hf

theorem last_list_step {slot : Slot α} {make : α → Node} {as : List α}
    {f : List α → Except Error β} {b : β}
    (h : Table.get? field ms = some (.arr ((as.map make).map Node.encode)))
    (hpick : ∀ a, slot.pick (make a) = some a) (hread : ∀ c ∈ as.map make, ReadsBack c)
    (hf : f as = .ok b) :
    ((fieldsOf k ms).list slot field >>= f)
      = verdict ((as.map make).findSome? Node.firstTwice?) b := by
  rw [← List.append_nil (as.map make)]
  exact list_step h hpick hread hf

theorem named_eq_list {slot : Slot α} {valueSlot : Slot β} {make : String → β → α}
    {vs : List Json} (h : Table.get? field ms = some (.arr vs)) :
    (fieldsOf k ms).named slot valueSlot make field = (fieldsOf k ms).list slot field := by
  rw [Fields.named, Fields.list, require_of_get? h Bool.false_ne_true]
  rfl

theorem option_step {slot : Slot α} {make : α → Node} {o : Option α}
    {f : Option α → Except Error β} {b : β}
    (h : Table.get? field ms = some (Node.encode? (o.map make)))
    (hpick : ∀ a, slot.pick (make a) = some a)
    (hread : ∀ c ∈ (o.map make).toList, ReadsBack c) (hf : f o = .ok b) :
    ((fieldsOf k ms).child? slot field >>= f)
      = verdict ((o.map make).toList.findSome? Node.firstTwice?) b := by
  cases o with
  | none =>
      have hget : Table.get? field (fieldsOf k ms).members = some (read .null) := by
        rw [fieldsOf, get?_readMembers, h]
        rfl
      rw [Fields.child?, Fields.find?, hget]
      exact hf
  | some a =>
      rw [Fields.child?, find?_of_get? h (make a).encode_ne_null]
      show (((read (make a).encode).toItem.fit slot).map some >>= f) = _
      rw [fit_read (hpick a) (hread _ List.mem_cons_self), Option.map_some, Option.toList_some,
        List.findSome?_singleton]
      cases (make a).firstTwice? with
      | some found => rfl
      | none => exact hf

theorem name_step {slot : Slot String} {c : Node} {name : String}
    {f : String → Except Error β} {r : Except Error β}
    (h : Table.get? field ms = some c.encode) (hpick : slot.pick c = some name)
    (hread : ReadsBack c) (hnone : c.firstTwice? = none) (hf : f name = r) :
    ((fieldsOf k ms).child slot field >>= f) = r := by
  rw [Fields.child, require_of_get? h c.encode_ne_null]
  show ((read c.encode).toItem.fit slot >>= f) = r
  rw [fit_read hpick hread, hnone]
  exact hf

theorem ident_step {name : String} {f : String → Except Error β} {r : Except Error β}
    (h : Table.get? field ms = some (ident name)) (hf : f name = r) :
    ((fieldsOf k ms).child .ident field >>= f) = r := by
  have hnone : (Node.expr (.ident name)).firstTwice? = none := Node.firstTwice?_eq _
  have hread : ReadsBack (.expr (.ident name)) := by
    rw [ReadsBack, hnone]
    exact (decodeNode_object _ _).trans (string_step (by rfl) rfl)
  exact name_step (c := .expr (.ident name)) h rfl hread hnone hf

theorem typeName_step {name : String} {f : String → Except Error β} {r : Except Error β}
    (h : Table.get? field ms = some (typeName name)) (hf : f name = r) :
    ((fieldsOf k ms).child .typeName field >>= f) = r := by
  have hnone : (Node.ty (.named name)).firstTwice? = none := Node.firstTwice?_eq _
  have hread : ReadsBack (.ty (.named name)) := by
    rw [ReadsBack, hnone]
    exact (decodeNode_object _ _).trans (string_step (by rfl) rfl)
  exact name_step (c := .ty (.named name)) h rfl hread hnone hf

end Fields

end Wire

theorem TypeArg.encodeAll_eq_map (as : List TypeArg) :
    TypeArg.encodeAll as = (as.map Node.typeArg).map Node.encode := by
  induction as with
  | nil => rfl
  | cons a as ih =>
      obtain ⟨_, _⟩ := a
      rw [TypeArg.encodeAll, ih]
      rfl

theorem Arg.encodeAll_eq_map (as : List Arg) :
    Arg.encodeAll as = (as.map Node.arg).map Node.encode := by
  induction as with
  | nil => rfl
  | cons a as ih =>
      obtain ⟨_, _⟩ := a
      rw [Arg.encodeAll, ih]
      rfl

theorem Case.encodeAll_eq_map (cs : List Case) :
    Case.encodeAll cs = (cs.map Node.case).map Node.encode := by
  induction cs with
  | nil => rfl
  | cons c cs ih =>
      obtain ⟨_, _⟩ := c
      rw [Case.encodeAll, ih]
      rfl

theorem Stmt.encodeAll_eq_map (ss : List Stmt) :
    Stmt.encodeAll ss = (ss.map Node.stmt).map Node.encode := by
  induction ss with
  | nil => rfl
  | cons s ss ih =>
      rw [Stmt.encodeAll, ih]
      rfl

theorem Stmt.encode_branch (cases : List Case) (last : Option Stmt) :
    Stmt.encode (.branch cases last) = Wire.object .branch
      [("cases", .arr (Case.encodeAll cases)),
        ("default", Node.encode? (last.map .fallback))] := by
  cases last with
  | none => rw [Stmt.encode]; rfl
  | some body => rw [Stmt.encode]; rfl

theorem Stmt.encode_ret (value : Option Expr) :
    Stmt.encode (.ret value)
      = Wire.object .ret [("value", Node.encode? (value.map .expr))] := by
  cases value with
  | none => rw [Stmt.encode]; rfl
  | some e => rw [Stmt.encode]; rfl

theorem Param.map_encode (ps : List Param) :
    ps.map Param.encode = (ps.map Node.param).map Node.encode := by
  rw [List.map_map]
  rfl

namespace Wire

/-- A generic type is checked after its arguments have been read. -/
theorem genericType_step (name : String) (args : List TypeArg)
    (hread : ∀ c ∈ args.map Node.typeArg, ReadsBack c) :
    (fieldsOf .genericType [(tagKey, .str Kind.genericType.tag), ("id", typeName name),
        ("typevars", .arr (TypeArg.encodeAll args))]).node
      = verdict (Node.ty (.generic name args)).firstTwice? (Node.ty (.generic name args)) := by
  have harr := congrArg (some ∘ Json.arr) (TypeArg.encodeAll_eq_map args)
  show (Fields.genericType _ >>= fun t => pure (Node.ty t)) = _
  rw [Fields.genericType, bind_assoc]
  refine typeName_step (by rfl) ?_
  rw [bind_assoc, named_eq_list (by rfl), Node.firstTwice?_eq]
  refine list_or_step harr (fun _ => rfl) hread ?_
  have htwice : (Node.ty (.generic name args)).twice?
      = firstRepeat (args.map TypeArg.name) := rfl
  rw [htwice]
  cases firstRepeat (args.map TypeArg.name) with
  | none => rfl
  | some twice => rfl

/-- The one induction: reading follows the children in their order, and only a
generic type has something to check once they are read. -/
theorem readsBack (n : Node) : ReadsBack n := by
  induction n using Node.childInduction with
  | step n ih =>
      rw [ReadsBack]
      match n with
      | .ty (.generic name args) =>
          refine (decodeNode_object _ _).trans ?_
          exact genericType_step name args ih
      | .ty (.named _) | .expr (.str _) | .expr (.ident _) =>
          rw [Node.firstTwice?_of_twice?_eq_none rfl]
          exact (decodeNode_object _ _).trans (string_step (by rfl) rfl)
      | .expr (.num ..) =>
          rw [Node.firstTwice?_of_twice?_eq_none rfl]
          refine (decodeNode_object _ _).trans (string_step (by rfl) ?_)
          exact flag_step (by rfl) rfl
      | .stmt .brk | .stmt .cont =>
          rw [Node.firstTwice?_of_twice?_eq_none rfl]
          exact decodeNode_object _ _
      | .typeArg ⟨_, _⟩ =>
          rw [Node.firstTwice?_of_twice?_eq_none rfl]
          refine (decodeNode_object _ _).trans (string_step (by rfl) ?_)
          exact child_step (by rfl) rfl (ih _ List.mem_cons_self) rfl
      | .param _ | .arg ⟨_, _⟩ =>
          rw [Node.firstTwice?_of_twice?_eq_none rfl]
          refine (decodeNode_object _ _).trans (ident_step (by rfl) ?_)
          exact child_step (by rfl) rfl (ih _ List.mem_cons_self) rfl
      | .stmt (.eval _) | .fallback _ =>
          rw [Node.firstTwice?_of_twice?_eq_none rfl]
          refine (decodeNode_object _ _).trans ?_
          exact child_step (by rfl) rfl (ih _ List.mem_cons_self) rfl
      | .stmt (.assign ..) =>
          rw [Node.firstTwice?_of_twice?_eq_none rfl]
          refine (decodeNode_object _ _).trans (ident_step (by rfl) ?_)
          refine bool_step (by rfl) ?_
          exact child_step (by rfl) rfl (ih _ List.mem_cons_self) rfl
      | .stmt (.forEach ..) =>
          obtain ⟨hsource, hbody⟩ := List.forall_mem_cons.mp ih
          rw [Node.firstTwice?_of_twice?_eq_none rfl]
          refine (decodeNode_object _ _).trans (ident_step (by rfl) ?_)
          refine child_step (by rfl) rfl hsource ?_
          exact child_step (by rfl) rfl (hbody _ List.mem_cons_self) rfl
      | .stmt (.whileDo ..) | .case ⟨_, _⟩ =>
          obtain ⟨hcond, hbody⟩ := List.forall_mem_cons.mp ih
          rw [Node.firstTwice?_of_twice?_eq_none rfl]
          refine (decodeNode_object _ _).trans (child_step (by rfl) rfl hcond ?_)
          exact child_step (by rfl) rfl (hbody _ List.mem_cons_self) rfl
      | .expr (.func params result body) =>
          obtain ⟨hparams, hrest⟩ := List.forall_mem_append.mp ih
          obtain ⟨hresult, hbody⟩ := List.forall_mem_cons.mp hrest
          rw [Node.firstTwice?_of_twice?_eq_none rfl]
          refine (decodeNode_object _ _).trans ?_
          refine list_step (by rw [Param.map_encode]; rfl) (fun _ => rfl) hparams ?_
          refine child_step (by rfl) rfl hresult ?_
          exact child_step (by rfl) rfl (hbody _ List.mem_cons_self) rfl
      | .expr (.create t args) =>
          obtain ⟨ht, hargs⟩ := List.forall_mem_cons.mp ih
          have harr := congrArg (some ∘ Json.arr) (Arg.encodeAll_eq_map args)
          rw [Node.firstTwice?_of_twice?_eq_none rfl]
          refine (decodeNode_object _ _).trans (child_step (by rfl) rfl ht ?_)
          rw [Fields.args, named_eq_list (by rfl)]
          exact last_list_step harr (fun _ => rfl) hargs rfl
      | .expr (.call _ args) =>
          have harr := congrArg (some ∘ Json.arr) (Arg.encodeAll_eq_map args)
          rw [Node.firstTwice?_of_twice?_eq_none rfl]
          refine (decodeNode_object _ _).trans (ident_step (by rfl) ?_)
          rw [Fields.args, named_eq_list (by rfl)]
          exact last_list_step harr (fun _ => rfl) ih rfl
      | .stmt (.branch cases last) =>
          obtain ⟨hcases, hlast⟩ := List.forall_mem_append.mp ih
          have harr := congrArg (some ∘ Json.arr) (Case.encodeAll_eq_map cases)
          rw [Node.firstTwice?_of_twice?_eq_none rfl, Node.encode, Stmt.encode_branch]
          refine (decodeNode_object _ _).trans (list_step harr (fun _ => rfl) hcases ?_)
          exact option_step (by rfl) (fun _ => rfl) hlast rfl
      | .stmt (.ret value) =>
          rw [Node.firstTwice?_of_twice?_eq_none rfl, Node.encode, Stmt.encode_ret]
          refine (decodeNode_object _ _).trans ?_
          exact option_step (by rfl) (fun _ => rfl) ih rfl
      | .stmt (.suite body) =>
          have harr := congrArg (some ∘ Json.arr) (Stmt.encodeAll_eq_map body)
          rw [Node.firstTwice?_of_twice?_eq_none rfl]
          refine (decodeNode_object _ _).trans ?_
          exact last_list_step harr (fun _ => rfl) ih rfl

theorem decode_encode (n : Node) : decode n.encode = verdict n.firstTwice? (some n) := by
  have hread : decodeNode n.encode = verdict n.firstTwice? n := readsBack n
  obtain ⟨fields, hobj⟩ := n.encode_eq_object
  have hdecode : decode n.encode = (decodeNode n.encode).map some := by
    rw [hobj]
    rfl
  rw [hdecode, hread]
  cases n.firstTwice? with
  | none => rfl
  | some found => rfl

theorem decode_encode_eq_ok_iff {n : Node} :
    decode n.encode = .ok (some n) ↔ n.BindsOnce := by
  rw [← Node.firstTwice?_eq_none_iff, decode_encode]
  cases n.firstTwice? with
  | none => exact ⟨fun _ => rfl, fun _ => rfl⟩
  | some found =>
      constructor
      · intro h
        cases h
      · intro h
        cases h

/-- A written tree reads back as itself exactly if no type inside it binds a
parameter twice. Otherwise reading fails at a type that does so, with nothing of
the kind inside it, and names its first repeated parameter. -/
theorem decode_encode_iff (n : Node) :
    (decode n.encode = .ok (some n) ↔ n.BindsOnce) ∧
    (¬ n.BindsOnce → ∃ name args twice,
      (Node.ty (.generic name args)).Within n ∧
      firstRepeat (args.map TypeArg.name) = some twice ∧
      (∀ c ∈ (Node.ty (.generic name args)).children, c.BindsOnce) ∧
      decode n.encode
        = .error ⟨.nameTwice .genericType twice, (Node.ty (.generic name args)).encode⟩) := by
  refine ⟨decode_encode_eq_ok_iff, fun hn => ?_⟩
  rw [← Node.firstTwice?_eq_none_iff] at hn
  obtain ⟨⟨twice, p⟩, hfound⟩ := Option.ne_none_iff_exists'.mp hn
  obtain ⟨hin, htwice, hinner⟩ := Node.firstTwice?_eq_some hfound
  obtain ⟨name, args, rfl⟩ := Node.eq_generic_of_twice? htwice
  refine ⟨name, args, twice, hin, htwice, hinner, ?_⟩
  rw [decode_encode, hfound]
  rfl

/-- A type that binds a parameter twice, with another such type inside. -/
theorem decode_encode_iff_nested :
    let inner := Ty.generic "Set" [⟨"T", .named "A"⟩, ⟨"T", .named "B"⟩]
    let n := Node.ty (.generic "Map" [⟨"K", inner⟩, ⟨"K", .named "C"⟩])
    ¬ n.BindsOnce ∧
    ∃ name args twice,
      (Node.ty (.generic name args)).Within n ∧
      firstRepeat (args.map TypeArg.name) = some twice ∧
      (∀ c ∈ (Node.ty (.generic name args)).children, c.BindsOnce) ∧
      decode n.encode
        = .error ⟨.nameTwice .genericType twice, (Node.ty (.generic name args)).encode⟩ := by
  intro inner n
  have htwice : ¬ n.BindsOnce := fun h => absurd (h "Map" _ (.refl n)) (by decide)
  exact ⟨htwice, (decode_encode_iff n).2 htwice⟩

end Wire

end TreeIR
