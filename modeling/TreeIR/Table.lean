/-!
# Tables in insertion order

Objects of the wire form, the name tables of a descriptor and the scopes of a lowering are all
tables keyed by text whose order shows: it is the order in which keys first came in. Setting a key
again replaces its value and leaves it where it was.

A table is a plain list of pairs, so that the rest of the library can use the list functions;
`Table.Distinct` says that no key stands twice, which `insert` keeps.
-/

namespace TreeIR

/-- A table as a list of entries. Of two entries under one name the first counts. -/
abbrev Table (α : Type) := List (String × α)

namespace Table

variable {α : Type}

/-- The value of a key. -/
def get? (key : String) : Table α → Option α
  | [] => none
  | (k, v) :: t => if k = key then some v else get? key t

/-- Sets a key: in place if the table has it, at the end if not. -/
def insert (key : String) (value : α) : Table α → Table α
  | [] => [(key, value)]
  | (k, v) :: t => if k = key then (k, value) :: t else (k, v) :: insert key value t

/-- The names in a table, in the order of its entries. -/
def keys (t : Table α) : List String :=
  t.map Prod.fst

/-- The table that a list of settings builds, first to last. -/
def ofList (settings : List (String × α)) : Table α :=
  settings.foldl (fun t s => insert s.1 s.2 t) []

/-- No name has two entries. -/
def Distinct (t : Table α) : Prop :=
  t.keys.Nodup

@[simp] theorem get?_nil (key : String) : get? key ([] : Table α) = none := rfl

theorem get?_cons (key k : String) (v : α) (t : Table α) :
    get? key ((k, v) :: t) = if k = key then some v else get? key t := rfl

@[simp] theorem get?_insert_self (key : String) (value : α) (t : Table α) :
    get? key (insert key value t) = some value := by
  induction t with
  | nil => simp [insert, get?]
  | cons p t ih =>
    obtain ⟨k, v⟩ := p
    by_cases h : k = key <;> simp [insert, get?, h, ih]

theorem get?_insert_of_ne {key other : String} (h : other ≠ key) (value : α) (t : Table α) :
    get? other (insert key value t) = get? other t := by
  induction t with
  | nil => simp [insert, get?, h.symm]
  | cons p t ih =>
    obtain ⟨k, v⟩ := p
    by_cases hk : k = key
    · simp [insert, get?, hk, h.symm]
    · simp only [insert, if_neg hk, get?_cons, ih]

theorem keys_insert (key : String) (value : α) (t : Table α) :
    (insert key value t).keys = if key ∈ t.keys then t.keys else t.keys ++ [key] := by
  induction t with
  | nil => simp [insert, keys]
  | cons p t ih =>
    obtain ⟨k, v⟩ := p
    by_cases hk : k = key
    · simp [insert, keys, hk]
    · have hk' : key ≠ k := fun h => hk h.symm
      simp only [keys] at ih
      by_cases hm : key ∈ t.map Prod.fst <;> simp_all [insert, keys]

theorem mem_of_get? {key : String} {value : α} {t : Table α} (h : get? key t = some value) :
    (key, value) ∈ t := by
  induction t with
  | nil => cases h
  | cons p t ih =>
    obtain ⟨k, v⟩ := p
    rw [get?_cons] at h
    split at h
    · next hk =>
      cases h
      exact hk ▸ List.mem_cons_self
    · exact List.mem_cons_of_mem _ (ih h)

theorem get?_eq_some_iff {key : String} {value : α} {t : Table α} (ht : t.Distinct) :
    get? key t = some value ↔ (key, value) ∈ t := by
  refine ⟨mem_of_get?, fun h => ?_⟩
  induction t with
  | nil => cases h
  | cons p t ih =>
    obtain ⟨k, v⟩ := p
    obtain ⟨hnew, hrest⟩ := List.nodup_cons.mp ht
    rw [get?_cons]
    rcases List.mem_cons.mp h with heq | hmem
    · cases heq
      exact if_pos rfl
    · have hkey : key ∈ t.map Prod.fst := List.mem_map.mpr ⟨_, hmem, rfl⟩
      have hne : k ≠ key := fun hk => hnew (hk ▸ hkey)
      rw [if_neg hne]
      exact ih hrest hmem

/-- Only the order of its keys tells apart two tables with the same settings. -/
theorem get?_perm {t t' : Table α} (ht : t.Distinct) (h : t.Perm t') (key : String) :
    get? key t = get? key t' := by
  have ht' : t'.Distinct := (h.map Prod.fst).nodup_iff.mp ht
  refine Option.ext fun value => ?_
  rw [get?_eq_some_iff ht, get?_eq_some_iff ht', h.mem_iff]

end Table

end TreeIR
