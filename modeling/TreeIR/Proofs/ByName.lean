import Mathlib.Data.List.Forall2
import Mathlib.Data.List.Nodup
import TreeIR.Proofs.LexicalScope

/-!
# What is found under a name

Types and applications take their arguments by name, and both go about it in a
roundabout way: an application first finds the place of each declared name and
then takes what stands at those places. When all is said, a declared name gets
what is bound to it. `Reads` is that reading, one declared name after the other
out of a table, and the two equivalences below say that a generic type and a
plain application are made of nothing else.

A reading knows nothing of the order of its table, nor of entries that are not
asked for. That is what the equivalences are for: whether a tree has a text, and
what text, can be argued about tables instead of places.
-/

namespace TreeIR

/-- Is this an expression whose evaluation may have an effect? -/
def Expr.isApplication : Expr → Bool
  | .create .. | .call .. => true
  | .num .. | .str _ | .ident _ | .func .. => false

theorem Expr.isInert_eq (e : Expr) : e.isInert = !e.isApplication := by
  cases e <;> rfl

namespace Lowering

theorem bind_eq_ok {ε α β : Type} {r : Except ε α} {f : α → Except ε β} {b : β}
    (h : r >>= f = .ok b) : ∃ a, r = .ok a ∧ f a = .ok b := by
  cases r with
  | error e => cases h
  | ok a => exact ⟨a, rfl, h⟩

theorem bind_eq_ok_iff {ε α β : Type} {r : Except ε α} {f : α → Except ε β} {b : β} :
    r >>= f = .ok b ↔ ∃ a, r = .ok a ∧ f a = .ok b := by
  refine ⟨bind_eq_ok, ?_⟩
  rintro ⟨a, rfl, h⟩
  exact h

theorem bind_pure_eq_ok_iff {ε α β : Type} {r : Except ε α} {g : α → β} {b : β} :
    (r >>= fun a => pure (g a)) = .ok b ↔ ∃ a, r = .ok a ∧ b = g a := by
  rw [bind_eq_ok_iff]
  refine exists_congr fun a => and_congr_right fun _ => ?_
  exact ⟨fun h => (Except.ok.inj h).symm, fun h => congrArg Except.ok h.symm⟩

theorem mapM_eq_ok_iff {ε α β : Type} {f : α → Except ε β} {as : List α} {bs : List β} :
    as.mapM f = .ok bs ↔ as.map f = bs.map .ok := by
  induction as generalizing bs with
  | nil => cases bs <;> simp [pure, Except.pure]
  | cons a as ih =>
      rw [List.mapM_cons, List.map_cons]
      cases hfa : f a with
      | error e => cases bs <;> simp [bind, Except.bind]
      | ok b =>
          cases hrest : as.mapM f with
          | error e =>
              cases bs with
              | nil => simp [bind, Except.bind]
              | cons c cs =>
                  have hcs : as.map f ≠ cs.map .ok := fun h => by
                    rw [← ih, hrest] at h
                    cases h
                  simp [bind, Except.bind, hcs]
          | ok rest =>
              cases bs with
              | nil => simp [bind, Except.bind, pure, Except.pure]
              | cons c cs => simp [bind, Except.bind, pure, Except.pure, ← ih, hrest]

theorem mapM_eq_ok_iff_forall₂ {ε α β : Type} {f : α → Except ε β} {as : List α}
    {bs : List β} : as.mapM f = .ok bs ↔ List.Forall₂ (fun a b => f a = .ok b) as bs := by
  rw [mapM_eq_ok_iff, ← List.forall₂_eq_eq_eq, List.forall₂_map_left_iff,
    List.forall₂_map_right_iff]

theorem exists_forall₂_iff {α β : Type} {R : α → β → Prop} {as : List α} :
    (∃ bs, List.Forall₂ R as bs) ↔ ∀ a ∈ as, ∃ b, R a b := by
  induction as with
  | nil => exact ⟨fun _ _ ha => absurd ha List.not_mem_nil, fun _ => ⟨[], .nil⟩⟩
  | cons a as ih =>
      rw [List.forall_mem_cons, ← ih]
      constructor
      · rintro ⟨bs, h⟩
        cases h with
        | cons hb hbs => exact ⟨⟨_, hb⟩, _, hbs⟩
      · rintro ⟨⟨b, hb⟩, bs, hbs⟩
        exact ⟨b :: bs, .cons hb hbs⟩

theorem forall_mem_of_forall₂ {α β : Type} {P : β → Prop} {as : List α} {bs : List β}
    (h : List.Forall₂ (fun _ b => P b) as bs) : ∀ b ∈ bs, P b := by
  induction h with
  | nil => exact List.forall_mem_nil _
  | cons hb _ ih => exact List.forall_mem_cons.mpr ⟨hb, ih⟩

/-! ## Results that do not exist

Where a step of a sequence fails, the whole of it fails with the error of that
step. Where a list is gone through, all steps before the failing one succeeded. -/

section Failing

variable {ε α β : Type} {r : Except ε α} {e : ε}

theorem bind_eq_error {f : α → Except ε β} (h : r >>= f = .error e) :
    r = .error e ∨ ∃ a, r = .ok a ∧ f a = .error e := by
  cases r with
  | error e' => cases h; exact .inl rfl
  | ok a => exact .inr ⟨a, rfl, h⟩

theorem bind_pure_eq_error {g : α → β} (h : (r >>= fun a => pure (g a)) = .error e) :
    r = .error e := by
  rcases bind_eq_error h with h | ⟨a, -, h⟩
  · exact h
  · cases h

theorem mapM_eq_error {f : α → Except ε β} {as : List α} (h : as.mapM f = .error e) :
    ∃ before a after, as = before ++ a :: after ∧ (∀ b ∈ before, ∃ c, f b = .ok c) ∧
      f a = .error e := by
  induction as with
  | nil => cases h
  | cons a as ih =>
      rw [List.mapM_cons] at h
      rcases bind_eq_error h with ha | ⟨c, hc, h⟩
      · exact ⟨[], a, as, rfl, List.forall_mem_nil _, ha⟩
      · obtain ⟨before, b, after, rfl, hbefore, hb⟩ := ih (bind_pure_eq_error h)
        exact ⟨a :: before, b, after, rfl, List.forall_mem_cons.mpr ⟨⟨c, hc⟩, hbefore⟩, hb⟩

theorem exists_mem_of_mapM_eq_error {f : α → Except ε β} {as : List α}
    (h : as.mapM f = .error e) : ∃ a ∈ as, f a = .error e := by
  obtain ⟨before, a, after, rfl, -, ha⟩ := mapM_eq_error h
  exact ⟨a, List.mem_append_right _ List.mem_cons_self, ha⟩

end Failing

/-! ## Readings

A table has the result of each argument under its name, an error or a text. To read names
out of it is to ask for the texts of just these. -/

/-- The texts that a table of results has under some names, all of which it
must have. -/
def Reads (t : Table (Except Error String)) : List String → List String → Prop :=
  List.Forall₂ fun name text => Table.get? name t = some (.ok text)

variable {t t' : Table (Except Error String)} {names texts : List String}

theorem exists_reads_iff :
    (∃ texts, Reads t names texts) ↔
      ∀ name ∈ names, ∃ text, Table.get? name t = some (.ok text) :=
  exists_forall₂_iff

theorem reads_congr (h : ∀ name text,
    Table.get? name t = some (.ok text) ↔ Table.get? name t' = some (.ok text)) :
    Reads t names texts ↔ Reads t' names texts :=
  ⟨List.Forall₂.imp fun name text => (h name text).mp,
    List.Forall₂.imp fun name text => (h name text).mpr⟩

/-- A lookup that stands for an error when it finds nothing. -/
theorem getD_error_eq_ok_iff {r : Option (Except Error String)} {e : Error} {text : String} :
    r.getD (.error e) = .ok text ↔ r = some (.ok text) := by
  cases r with
  | none => simp
  | some r => simp

section Entries

variable {α : Type} {key : α → String} {f : α → Except Error String} {as as' : List α}

theorem distinct_entries (has : (as.map key).Nodup) :
    Table.Distinct (as.map fun a => (key a, f a)) := by
  rw [Table.Distinct, Table.keys, List.map_map]
  exact has

theorem get?_entries_iff {name : String} {r : Except Error String}
    (has : (as.map key).Nodup) :
    Table.get? name (as.map fun a => (key a, f a)) = some r ↔
      ∃ a ∈ as, key a = name ∧ f a = r := by
  rw [Table.get?_eq_some_iff (distinct_entries has), List.mem_map]
  simp only [Prod.mk.injEq]

theorem reads_entries_perm_iff (has : (as.map key).Nodup) (h : as.Perm as') :
    Reads (as.map fun a => (key a, f a)) names texts ↔
      Reads (as'.map fun a => (key a, f a)) names texts := by
  refine reads_congr fun name text => ?_
  rw [Table.get?_perm (distinct_entries has) (h.map _) name]

theorem exists_mem_of_reads (h : Reads (as.map fun a => (key a, f a)) names texts) :
    ∀ text ∈ texts, ∃ a ∈ as, f a = .ok text := by
  induction h with
  | nil => exact List.forall_mem_nil _
  | cons hget _ ih =>
      obtain ⟨a, ha, hentry⟩ := List.mem_map.mp (Table.mem_of_get? hget)
      exact List.forall_mem_cons.mpr ⟨⟨a, ha, congrArg Prod.snd hentry⟩, ih⟩

/-- In a table with distinct names a reading succeeds if all names are there
and none that is asked for has an error. -/
theorem exists_reads_entries_iff (has : (as.map key).Nodup) :
    (∃ texts, Reads (as.map fun a => (key a, f a)) names texts) ↔
      (∀ name ∈ names, name ∈ as.map key) ∧
      ∀ a ∈ as, key a ∈ names → ∃ text, f a = .ok text := by
  simp only [exists_reads_iff, get?_entries_iff has, List.mem_map]
  constructor
  · intro h
    refine ⟨fun name hname => ?_, fun a ha hname => ?_⟩
    · obtain ⟨_, a, ha, hkey, -⟩ := h name hname
      exact ⟨a, ha, hkey⟩
    · obtain ⟨text, b, hb, hkey, hok⟩ := h _ hname
      have hab : b = a := List.inj_on_of_nodup_map has hb ha hkey
      exact ⟨text, hab ▸ hok⟩
  · rintro ⟨hall, hok⟩ name hname
    obtain ⟨a, ha, rfl⟩ := hall name hname
    obtain ⟨text, htext⟩ := hok a ha hname
    exact ⟨text, a, ha, rfl, htext⟩

end Entries

end Lowering

open Lowering

theorem TypeArg.lowerAll_eq_map (d : Descriptor) (as : List TypeArg) :
    TypeArg.lowerAll d as = as.map fun a => (a.name, a.ty.lower d) := by
  induction as with
  | nil => rfl
  | cons a as ih =>
      obtain ⟨_, _⟩ := a
      rw [TypeArg.lowerAll, ih]
      rfl

theorem Ty.lower_generic_eq_ok_iff {d : Descriptor} {name out : String}
    {args : List TypeArg} :
    (Ty.generic name args).lower d = .ok out ↔
      ∃ declared, d.typeParamsOf name = some declared ∧
        (args.map TypeArg.name).Nodup ∧
        ∃ texts, Reads (args.map fun a => (a.name, a.ty.lower d)) declared texts ∧
          out = name ++ "<" ++ Target.commas texts ++ ">" := by
  rw [Ty.lower, ← firstRepeat_eq_none_iff, ← TypeArg.lowerAll_eq_map]
  cases d.typeParamsOf name with
  | none => simp
  | some declared =>
      cases firstRepeat (args.map TypeArg.name) with
      | some twice => simp
      | none =>
          simp only [bind_pure_eq_ok_iff, mapM_eq_ok_iff_forall₂, getD_error_eq_ok_iff,
            Option.some.injEq, true_and, exists_eq_left', Reads]

/-! ## Applications

The table of places that a scan fills agrees, name by name, with a search of the listed
names. With that an application is settled by what is found under the declared names, and
no place is left in it. -/

namespace Lowering

theorem repeatAfter_congr {seen seen' names : List String} (h : ∀ x, x ∈ seen ↔ x ∈ seen') :
    repeatAfter seen names = repeatAfter seen' names := by
  induction names generalizing seen seen' with
  | nil => rfl
  | cons n ns ih =>
      have hnext : ∀ x, x ∈ n :: seen ↔ x ∈ n :: seen' := by
        intro x
        rw [List.mem_cons, List.mem_cons, h x]
      rw [repeatAfter, repeatAfter, ih hnext]
      simp only [h n]

theorem idxOf?_append_singleton (before : List String) (name x : String) :
    (before ++ [name]).idxOf? x
      = (before.idxOf? x).or (if name = x then some before.length else none) := by
  rw [List.idxOf?, List.findIdx?_append, ← List.idxOf?]
  by_cases hx : name = x
  · simp [hx]
  · simp [hx]

/-- What a table knows of the names entered so far stays true when one more of them
is entered. -/
theorem get?_insert_place {table : Table Nat} {before : List String} {name : String}
    (h : ∀ x, Table.get? x table = before.idxOf? x) (hnew : name ∉ before) (x : String) :
    Table.get? x (Table.insert name before.length table) = (before ++ [name]).idxOf? x := by
  rw [idxOf?_append_singleton, ← h x]
  by_cases hx : x = name
  · rw [hx, Table.get?_insert_self, h name, List.idxOf?_eq_none_iff.mpr hnew, if_pos rfl]
    rfl
  · rw [Table.get?_insert_of_ne hx, if_neg (Ne.symm hx), Option.or_none]

/-- The scan stops at the first name that has stood before. If there is none, it
leaves a table with the place of every name that it went through. -/
theorem enterPlaces_eq (names : List String) {table : Table Nat} {before : List String}
    (h : ∀ x, Table.get? x table = before.idxOf? x) :
    (∃ name, repeatAfter before names = some name ∧
      enterPlaces table before.length names = .error (.paramTwice name)) ∨
    repeatAfter before names = none ∧
      ∃ entered, enterPlaces table before.length names = .ok entered ∧
        ∀ x, Table.get? x entered = (before ++ names).idxOf? x := by
  induction names generalizing table before with
  | nil =>
      rw [List.append_nil]
      exact .inr ⟨rfl, table, rfl, h⟩
  | cons name names ih =>
      rw [repeatAfter, enterPlaces]
      by_cases hname : name ∈ before
      · obtain ⟨place, hplace⟩ := Option.isSome_iff_exists.mp (List.isSome_idxOf?.mpr hname)
        rw [if_pos hname, h name, hplace]
        exact .inl ⟨name, rfl, rfl⟩
      · have hseen : repeatAfter (name :: before) names = repeatAfter (before ++ [name]) names :=
          repeatAfter_congr fun x => by simp [or_comm]
        have hnext := ih (get?_insert_place h hname)
        rw [List.length_append, List.length_singleton, List.append_assoc] at hnext
        rw [if_neg hname, h name, List.idxOf?_eq_none_iff.mpr hname, hseen]
        exact hnext

theorem get?_empty (x : String) : Table.get? x ([] : Table Nat) = ([] : List String).idxOf? x := rfl

variable {declared listed : List String} {order : List Nat}

theorem places_of_firstRepeat {name : String} (h : firstRepeat listed = some name) :
    places declared listed = .error (.paramTwice name) := by
  rcases enterPlaces_eq listed get?_empty with
    ⟨twice, htwice, herror⟩ | ⟨hnone, -⟩
  · obtain rfl : twice = name := Option.some.inj (htwice.symm.trans h)
    exact congrArg (· >>= _) herror
  · cases hnone.symm.trans h

/-- Among names that differ, what the table says of a name is where it is found. -/
theorem places_of_nodup (h : listed.Nodup) : places declared listed
    = declared.mapM fun name => (listed.idxOf? name).elim (.error (.unboundParam name)) .ok := by
  rcases enterPlaces_eq listed get?_empty with
    ⟨twice, htwice, -⟩ | ⟨-, entered, hentered, hplaces⟩
  · cases htwice.symm.trans (firstRepeat_eq_none_iff.mpr h)
  · have hlookup : ∀ name, placeOf entered name
        = (listed.idxOf? name).elim (.error (.unboundParam name)) .ok := by
      intro name
      rw [placeOf, hplaces name, List.nil_append]
      cases listed.idxOf? name with
      | none => rfl
      | some place => rfl
    have hrun : places declared listed = declared.mapM (placeOf entered) :=
      congrArg (· >>= _) hentered
    rw [hrun]
    exact congrArg (declared.mapM ·) (funext hlookup)

theorem places_eq_ok_iff :
    places declared listed = .ok order ↔
      listed.Nodup ∧ List.Forall₂ (fun name place => listed.idxOf? name = some place)
        declared order := by
  by_cases hnodup : listed.Nodup
  · rw [places_of_nodup hnodup, mapM_eq_ok_iff_forall₂, and_iff_right hnodup]
    refine iff_of_eq (congrArg (List.Forall₂ · declared order) ?_)
    funext name place
    cases listed.idxOf? name with
    | none => simp
    | some found => simp
  · have htwice := mt firstRepeat_eq_none_iff.mp hnodup
    obtain ⟨name, hname⟩ := Option.ne_none_iff_exists'.mp htwice
    rw [places_of_firstRepeat hname]
    exact iff_of_false nofun fun h => hnodup h.1

theorem idxOf?_eq_some_iff_idxOf {name : String} {place : Nat} :
    listed.idxOf? name = some place ↔ name ∈ listed ∧ listed.idxOf name = place := by
  rw [List.idxOf_eq_getD_idxOf?, ← List.isSome_idxOf?]
  cases listed.idxOf? name with
  | none => simp
  | some found => simp

theorem forall₂_idxOf?_iff :
    List.Forall₂ (fun name place => listed.idxOf? name = some place) declared order ↔
      (∀ name ∈ declared, name ∈ listed) ∧ declared.map listed.idxOf = order := by
  simp only [idxOf?_eq_some_iff_idxOf, List.forall₂_and_left]
  rw [← List.forall₂_map_left_iff (R := Eq), List.forall₂_eq_eq_eq]

theorem exists_places_iff :
    (∃ order, places declared listed = .ok order) ↔
      listed.Nodup ∧ ∀ name ∈ declared, name ∈ listed := by
  simp only [places_eq_ok_iff, forall₂_idxOf?_iff, exists_and_left, exists_eq', and_true]

theorem orderFor_eq_ok_iff {node : String} {args : List Arg} :
    orderFor node declared args = .ok order ↔
      places declared (args.map Arg.name) = .ok order := by
  rw [orderFor]
  cases places declared (args.map Arg.name) with
  | error cause => simp [Except.mapError]
  | ok found => simp [Except.mapError]

/-- Among names that differ, the place of a name is wherever it stands. -/
theorem idxOf?_eq_some_iff_of_nodup {args : List Arg} {name : String} {place : Nat}
    (h : (args.map Arg.name).Nodup) :
    (args.map Arg.name).idxOf? name = some place ↔
      ∃ hp : place < args.length, args[place].name = name := by
  rw [List.idxOf?_eq_some_iff]
  constructor
  · rintro ⟨hlt, hname, -⟩
    rw [List.length_map] at hlt
    rw [List.getElem_map] at hname
    exact ⟨hlt, hname⟩
  · rintro ⟨hlt, hname⟩
    have hlt' : place < (args.map Arg.name).length := by
      rw [List.length_map]
      exact hlt
    have hplace : (args.map Arg.name)[place] = name := by
      rw [List.getElem_map]
      exact hname
    refine ⟨hlt', hplace, fun j hj hearlier => ?_⟩
    have hsame : j = place := h.getElem_inj_iff.mp (hearlier.trans hplace.symm)
    omega

/-- What a table has under a name stands at the place of the name. -/
theorem get?_eq_getElem?_idxOf {α : Type} {name : String} (t : Table α) (h : name ∈ t.keys) :
    ∃ a, Table.get? name t = some a ∧ t[t.keys.idxOf name]? = some (name, a) := by
  induction t with
  | nil => exact absurd h List.not_mem_nil
  | cons entry t ih =>
      obtain ⟨key, a⟩ := entry
      have hkeys : Table.keys ((key, a) :: t) = key :: Table.keys t := rfl
      rw [hkeys] at h
      rw [Table.get?_cons, hkeys]
      by_cases hkey : key = name
      · rw [if_pos hkey, hkey, List.idxOf_cons_self]
        exact ⟨a, rfl, rfl⟩
      · rw [if_neg hkey, List.idxOf_cons_ne _ hkey]
        exact ih (List.mem_of_ne_of_mem (Ne.symm hkey) h)

theorem getD_idxOf? {f : Arg → Except Error String} {args : List Arg} {name : String}
    {place : Nat} (h : (args.map Arg.name).idxOf? name = some place) :
    Table.get? name (args.map fun a => (a.name, f a))
      = some ((args.map f).getD place (.ok "")) := by
  have hkeys : Table.keys (args.map fun a => (a.name, f a)) = args.map Arg.name := by
    rw [Table.keys, List.map_map]
    rfl
  obtain ⟨hmem, rfl⟩ := idxOf?_eq_some_iff_idxOf.mp h
  rw [← hkeys] at hmem
  obtain ⟨r, hget, hplace⟩ := get?_eq_getElem?_idxOf _ hmem
  rw [hkeys, List.getElem?_map] at hplace
  obtain ⟨a, ha, hentry⟩ := Option.map_eq_some_iff.mp hplace
  obtain rfl : f a = r := congrArg Prod.snd hentry
  rw [hget, List.getD_eq_getElem?_getD, List.getElem?_map, ha]
  rfl

theorem exists_idxOf?_of_get? {f : Arg → Except Error String} {args : List Arg}
    {name : String} {r : Except Error String}
    (h : Table.get? name (args.map fun a => (a.name, f a)) = some r) :
    ∃ place, (args.map Arg.name).idxOf? name = some place := by
  have hmem : name ∈ args.map Arg.name := by
    obtain ⟨a, ha, hentry⟩ := List.mem_map.mp (Table.mem_of_get? h)
    exact List.mem_map.mpr ⟨a, ha, congrArg Prod.fst hentry⟩
  refine Option.isSome_iff_exists.mp ?_
  rw [List.isSome_idxOf?]
  exact hmem

variable {node : String} {declared : List String} {args : List Arg} {i : Indent}
  {f : Arg → Except Error String} {write : String → String} {out : String}

/-- Going through places or reading by name makes no difference to what is
passed. -/
theorem exists_places_passed_iff {texts : List String} :
    (∃ order : List Nat,
        List.Forall₂ (fun name place => (args.map Arg.name).idxOf? name = some place)
          declared order ∧
        List.Forall₂ (fun place text => (args.map f).getD place (.ok "") = .ok text)
          order texts) ↔
      Reads (args.map fun a => (a.name, f a)) declared texts := by
  induction declared generalizing texts with
  | nil =>
      constructor
      · rintro ⟨_, ⟨⟩, ⟨⟩⟩
        exact .nil
      · rintro ⟨⟩
        exact ⟨[], .nil, .nil⟩
  | cons name declared ih =>
      constructor
      · rintro ⟨_, hplaces, htexts⟩
        cases hplaces with
        | cons hplace hplaces =>
            cases htexts with
            | cons htext htexts =>
                refine .cons ?_ (ih.mp ⟨_, hplaces, htexts⟩)
                rw [getD_idxOf? hplace, htext]
      · intro h
        cases h with
        | cons hget hrest =>
            obtain ⟨order, hplaces, htexts⟩ := ih.mpr hrest
            obtain ⟨place, hplace⟩ := exists_idxOf?_of_get? hget
            refine ⟨place :: order, .cons hplace hplaces, .cons ?_ htexts⟩
            rw [getD_idxOf? hplace] at hget
            exact Option.some.inj hget

/-- Arguments are passed plainly where their order cannot be told: if evaluating
them has no effect, or if there is one and it is all that is passed. -/
def PassesPlainly (args : List Arg) (declared : List String) : Prop :=
  (∀ a ∈ args, a.value.isApplication = false) ∨ (args.length = 1 ∧ declared.length = 1)

theorem passDirectly_iff {args : List Arg} {order : List Nat} {declared : List String}
    (h : order.length = declared.length) :
    passDirectly args order = true ↔ PassesPlainly args declared := by
  simp only [passDirectly, PassesPlainly, Expr.isInert_eq, Bool.or_eq_true, Bool.and_eq_true,
    beq_iff_eq, decide_eq_true_eq, List.all_eq_true, Bool.not_eq_true', h]
  constructor
  · rintro (⟨hlen, hle⟩ | hall)
    · cases args with
      | nil => exact Or.inl fun _ ha => absurd ha List.not_mem_nil
      | cons a args =>
          rw [List.length_cons] at hlen hle
          exact Or.inr ⟨by rw [List.length_cons]; omega, by omega⟩
    · exact Or.inl hall
  · rintro (hall | ⟨hargs, hdeclared⟩)
    · exact Or.inr hall
    · exact Or.inl (by omega)

instance (args : List Arg) (declared : List String) : Decidable (PassesPlainly args declared) :=
  inferInstanceAs (Decidable (_ ∨ _))

theorem passDirectly_of_places {order : List Nat}
    (h : places declared (args.map Arg.name) = .ok order) :
    passDirectly args order = decide (PassesPlainly args declared) := by
  have hlength : order.length = declared.length := (places_eq_ok_iff.mp h).2.length_eq.symm
  rw [Bool.eq_iff_iff, passDirectly_iff hlength, decide_eq_true_iff]

theorem application_direct_eq_ok_iff {order : List Nat} :
    application i true order (args.map f) write = .ok out ↔
      ∃ texts, List.Forall₂ (fun place text => (args.map f).getD place (.ok "") = .ok text)
          order texts ∧
        out = Target.direct (write (Target.commas texts)) := by
  rw [application, if_pos rfl, bind_pure_eq_ok_iff]
  simp only [mapM_eq_ok_iff_forall₂]

theorem application_bound_eq_ok_iff {order : List Nat} :
    application i false order (args.map f) write = .ok out ↔
      ∃ texts, List.Forall₂ (fun a text => f a = .ok text) args texts ∧
        out = Target.bound i (String.join (texts.mapIdx Target.binding))
          (write (Target.commas (order.map Target.reference))) := by
  rw [application, if_neg Bool.false_ne_true, bind_pure_eq_ok_iff]
  simp only [mapM_eq_ok_iff_forall₂, List.forall₂_map_left_iff, id]

/-- The text of an application, from the result of each listed argument. -/
def applied (i : Indent) (node : String) (declared : List String) (args : List Arg)
    (f : Arg → Except Error String) (write : String → String) : Except Error String := do
  let order ← orderFor node declared args
  application i (passDirectly args order) order (args.map f) write

theorem applied_eq_ok_iff :
    applied i node declared args f write = .ok out ↔
      ∃ order, places declared (args.map Arg.name) = .ok order ∧
        application i (decide (PassesPlainly args declared)) order (args.map f) write
          = .ok out := by
  rw [applied, bind_eq_ok_iff]
  refine exists_congr fun order => ?_
  rw [orderFor_eq_ok_iff]
  refine and_congr_right fun horder => ?_
  rw [passDirectly_of_places horder]

theorem applied_plainly_eq_ok_iff (hplain : PassesPlainly args declared) :
    applied i node declared args f write = .ok out ↔
      (args.map Arg.name).Nodup ∧
      ∃ texts, Reads (args.map fun a => (a.name, f a)) declared texts ∧
        out = Target.direct (write (Target.commas texts)) := by
  rw [applied_eq_ok_iff, decide_eq_true hplain]
  simp only [application_direct_eq_ok_iff, places_eq_ok_iff, ← exists_places_passed_iff]
  constructor
  · rintro ⟨order, ⟨hnodup, hplaces⟩, texts, htexts, hout⟩
    exact ⟨hnodup, texts, ⟨order, hplaces, htexts⟩, hout⟩
  · rintro ⟨hnodup, texts, ⟨order, hplaces, htexts⟩, hout⟩
    exact ⟨order, ⟨hnodup, hplaces⟩, texts, htexts, hout⟩

/-- Arguments that are bound first have a text each, and what is passed are their
references. -/
theorem applied_bound_eq_ok_iff (hbound : ¬ PassesPlainly args declared) :
    applied i node declared args f write = .ok out ↔
      (args.map Arg.name).Nodup ∧ (∀ name ∈ declared, name ∈ args.map Arg.name) ∧
      ∃ texts, List.Forall₂ (fun a text => f a = .ok text) args texts ∧
        out = Target.bound i (String.join (texts.mapIdx Target.binding))
          (write (Target.commas (declared.map fun name =>
            Target.reference ((args.map Arg.name).idxOf name)))) := by
  rw [applied_eq_ok_iff, decide_eq_false hbound]
  simp only [application_bound_eq_ok_iff, places_eq_ok_iff, forall₂_idxOf?_iff, and_assoc,
    exists_and_left, exists_eq_left', List.map_map, Function.comp_def]

theorem exists_applied_bound_iff (hbound : ¬ PassesPlainly args declared) :
    (∃ out, applied i node declared args f write = .ok out) ↔
      (args.map Arg.name).Nodup ∧ (∀ name ∈ declared, name ∈ args.map Arg.name) ∧
      ∀ a ∈ args, ∃ text, f a = .ok text := by
  simp only [applied_bound_eq_ok_iff hbound, exists_and_left, ← exists_forall₂_iff]
  refine and_congr_right fun _ => and_congr_right fun _ => ?_
  constructor
  · rintro ⟨out, texts, htexts, -⟩
    exact ⟨texts, htexts⟩
  · rintro ⟨texts, htexts⟩
    exact ⟨_, texts, htexts, rfl⟩

theorem mem_listed_of_applied (h : applied i node declared args f write = .ok out) :
    ∀ name ∈ declared, name ∈ args.map Arg.name := by
  obtain ⟨order, horder, -⟩ := applied_eq_ok_iff.mp h
  exact (exists_places_iff.mp ⟨order, horder⟩).2

end Lowering

section

variable {d : Descriptor} {i : Indent} {v : View} {args : List Arg} {out : String}

theorem Expr.lowerIn_call_eq_ok_iff {callee : String} :
    (Expr.call callee args).lowerIn d i v = .ok out ↔
      ∃ declared, v.paramsOf callee = some declared ∧
        applied i (Expr.call callee args).render declared args
          (fun a => a.value.lowerIn d i v) (Target.apply callee) = .ok out := by
  rw [Expr.lowerIn, Arg.lowerAllIn_eq_map]
  cases v.paramsOf callee with
  | none => simp
  | some declared => simp only [Option.some.injEq, exists_eq_left', applied]

theorem Expr.lowerIn_create_eq_ok_iff {ty : Ty} :
    (Expr.create ty args).lowerIn d i v = .ok out ↔
      ∃ declared, d.initParamsOf ty.name = some declared ∧
        ∃ head, ty.lower d = .ok head ∧
          applied i (Expr.create ty args).render declared args
            (fun a => a.value.lowerIn d i v) (Target.initialise head) = .ok out := by
  rw [Expr.lowerIn, Arg.lowerAllIn_eq_map]
  cases d.initParamsOf ty.name with
  | none => simp
  | some declared =>
      simp only [Option.some.injEq, exists_eq_left', applied, bind_eq_ok_iff]
      constructor
      · rintro ⟨order, horder, head, hhead, happ⟩
        exact ⟨head, hhead, order, horder, happ⟩
      · rintro ⟨head, hhead, order, horder, happ⟩
        exact ⟨order, horder, head, hhead, happ⟩

end

end TreeIR
