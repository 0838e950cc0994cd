import TreeIR.Proofs.JsonText

/-!
# How deep a text may nest

Printing has no bound and parsing has one: a container may be opened only
while fewer than `maxDepth` are open. So what becomes of a printed value hangs
on its depth and on nothing else. A value that is deep enough is refused when
the machine opens one container too many, wherever in the value that is, and
any other value comes back as it was.

The invariant of the machine is about one value in the middle of a text: with
`stack` open, it takes the tokens of a value exactly if the stack and the depth
of the value together stay within the bound, and then it has put the value
where it belongs.
-/

namespace TreeIR

theorem Table.insert_of_not_mem {α : Type} {key : String} {value : α} :
    ∀ {t : Table α}, key ∉ t.keys → Table.insert key value t = t ++ [(key, value)]
  | [], _ => rfl
  | (k, v) :: t, h => by
      have hk : k ≠ key := fun heq => h (heq ▸ List.mem_cons_self)
      have ht : key ∉ Table.keys t := fun hmem => h (List.mem_cons_of_mem k hmem)
      rw [Table.insert, if_neg hk, Table.insert_of_not_mem ht]
      rfl

namespace Json

mutual

/-- How many containers are open at the innermost place of a value. -/
def depth : Json → Nat
  | .null | .bool _ | .num _ | .str _ => 0
  | .arr vs => itemsDepth vs + 1
  | .obj ms => membersDepth ms + 1

/-- The depth of the deepest item. -/
def itemsDepth : List Json → Nat
  | [] => 0
  | v :: vs => max v.depth (itemsDepth vs)

/-- The depth of the deepest member. -/
def membersDepth : List (String × Json) → Nat
  | [] => 0
  | (_, v) :: ms => max v.depth (membersDepth ms)

end

/-! ## Running the machine over the tokens of a value

With anything on the stack and anything behind the value, since that is how items and
members are met. -/

namespace Parse

/-- The machine takes the tokens of a value if the bound allows it, and stops
without a result if not. -/
def Takes (v : Json) : Prop :=
  ∀ (stack : List Frame) (ts : List Token), stack.length ≤ maxDepth →
    run ⟨stack, .value⟩ (v.tokens ++ ts)
      = if stack.length + v.depth ≤ maxDepth then run (put v stack) ts else none

theorem run_cons (p : Parse) (t : Token) (ts : List Token) :
    p.run (t :: ts) = (p.step t).bind (·.run ts) := by
  rw [run, List.foldlM_cons]
  rfl

theorem run_of_step {p p' : Parse} {t : Token} {ts : List Token} (h : p.step t = some p') :
    p.run (t :: ts) = p'.run ts := by
  rw [run_cons, h]
  rfl

theorem run_of_step_none {p : Parse} {t : Token} {ts : List Token} (h : p.step t = none) :
    p.run (t :: ts) = none := by
  rw [run_cons, h]
  rfl

theorem takes_of_step {v : Json} {t : Token} (htokens : v.tokens = [t]) (hdepth : v.depth = 0)
    (hstep : ∀ stack, step ⟨stack, .value⟩ t = some (put v stack)) : Takes v := by
  intro stack ts hstack
  rw [htokens, hdepth, Nat.add_zero, if_pos hstack]
  exact run_of_step (hstep stack)

theorem run_items {vs : List Json} (hne : vs ≠ []) (hvs : ∀ v ∈ vs, Takes v)
    {stack : List Frame} (hstack : stack.length < maxDepth) (acc : List Json)
    (ts : List Token) :
    run ⟨.arr acc :: stack, .value⟩ (itemTokens vs ++ ts)
      = if stack.length + 1 + itemsDepth vs ≤ maxDepth
        then run ⟨.arr (vs.reverse ++ acc) :: stack, .next⟩ ts else none := by
  induction vs generalizing acc with
  | nil => exact absurd rfl hne
  | cons v vs ih =>
      obtain ⟨hv, hvs⟩ := List.forall_mem_cons.mp hvs
      have hrun := hv (.arr acc :: stack)
      rw [List.length_cons] at hrun
      cases vs with
      | nil =>
          rw [itemTokens, hrun ts hstack, itemsDepth, itemsDepth, Nat.max_zero]
          rfl
      | cons w vs =>
          simp only [itemTokens, List.append_assoc, List.cons_append]
          rw [hrun _ hstack, itemsDepth]
          by_cases hfit : stack.length + 1 + v.depth ≤ maxDepth
          · have hcomma : step (put v (.arr acc :: stack)) .comma
                = some ⟨.arr (v :: acc) :: stack, .value⟩ := rfl
            -- the first item fits, so the bound is now about the others
            have hiff : stack.length + 1 + max v.depth (itemsDepth (w :: vs)) ≤ maxDepth
                ↔ stack.length + 1 + itemsDepth (w :: vs) ≤ maxDepth := by omega
            rw [if_pos hfit, run_of_step hcomma, ih (List.cons_ne_nil _ _) hvs]
            simp only [hiff, List.reverse_cons, List.append_assoc, List.cons_append,
              List.nil_append]
          · rw [if_neg hfit, if_neg (by omega)]

/-- The keys that are still to come are new, so each member goes to the end. -/
theorem run_members {ms : List (String × Json)} (hne : ms ≠ []) (hms : ∀ m ∈ ms, Takes m.2)
    {stack : List Frame} (hstack : stack.length < maxDepth) (acc : List (String × Json))
    (hkeys : Table.Distinct (acc ++ ms)) (ts : List Token) :
    run ⟨.obj acc :: stack, .key⟩ (memberTokens ms ++ ts)
      = if stack.length + 1 + membersDepth ms ≤ maxDepth
        then run ⟨.obj (acc ++ ms) :: stack, .next⟩ ts else none := by
  induction ms generalizing acc with
  | nil => exact absurd rfl hne
  | cons m ms ih =>
      obtain ⟨key, v⟩ := m
      obtain ⟨hv, hms⟩ := List.forall_mem_cons.mp hms
      have hnew : key ∉ Table.keys acc := by
        intro hmem
        rw [Table.Distinct, Table.keys, List.map_append, List.map_cons] at hkeys
        exact (List.nodup_append.mp hkeys).2.2 key hmem key List.mem_cons_self rfl
      have hput : put v (.member acc key :: stack)
          = ⟨.obj (acc ++ [(key, v)]) :: stack, .next⟩ := by
        rw [put, Table.insert_of_not_mem hnew]
      have hkey : ∀ us, run ⟨.obj acc :: stack, .key⟩ (.str key :: .colon :: us)
          = run ⟨.member acc key :: stack, .value⟩ us := fun us =>
        (run_of_step rfl).trans (run_of_step rfl)
      have hrun : ∀ us, _ := fun us => hv (.member acc key :: stack) us hstack
      simp only [List.length_cons] at hrun
      cases ms with
      | nil =>
          rw [memberTokens, List.cons_append, List.cons_append, hkey, hrun, hput,
            membersDepth, membersDepth, Nat.max_zero]
      | cons w ms =>
          simp only [memberTokens, List.append_assoc, List.cons_append]
          rw [hkey, hrun, hput, membersDepth]
          by_cases hfit : stack.length + 1 + v.depth ≤ maxDepth
          · have hcomma : step ⟨.obj (acc ++ [(key, v)]) :: stack, .next⟩ .comma
                = some ⟨.obj (acc ++ [(key, v)]) :: stack, .key⟩ := rfl
            have hiff : stack.length + 1 + max v.depth (membersDepth (w :: ms)) ≤ maxDepth
                ↔ stack.length + 1 + membersDepth (w :: ms) ≤ maxDepth := by omega
            rw [List.append_cons] at hkeys
            rw [if_pos hfit, run_of_step hcomma, ih (List.cons_ne_nil _ _) hms _ hkeys]
            simp only [hiff, List.append_assoc, List.singleton_append]
          · rw [if_neg hfit, if_neg (by omega)]

/-- A container is opened if the bound allows it, and from there on the bound
is about what is inside. -/
theorem takes_of_open {v : Json} {t : Token} {us : List Token} {f : Frame} {due : Due} {d : Nat}
    (htokens : v.tokens = t :: us) (hdepth : v.depth = d + 1)
    (hopen : ∀ stack, step ⟨stack, .value⟩ t = open? f due stack)
    (hinside : ∀ {stack : List Frame} (ts : List Token), stack.length < maxDepth →
      run ⟨f :: stack, due⟩ (us ++ ts)
        = if stack.length + 1 + d ≤ maxDepth then run (put v stack) ts else none) :
    Takes v := by
  intro stack ts _
  rw [htokens, hdepth, List.cons_append]
  have hstep := hopen stack
  by_cases hroom : stack.length < maxDepth
  · rw [open?, if_pos hroom] at hstep
    have hsum : stack.length + (d + 1) = stack.length + 1 + d := by omega
    rw [run_of_step hstep, hinside ts hroom, hsum]
  · rw [open?, if_neg hroom] at hstep
    rw [run_of_step_none hstep, if_neg (by omega)]

/-- The first token of a value cannot end an array, so an array that has an
item may as well be in the middle of its items. -/
theorem run_firstItem (v : Json) (stack : List Frame) (items : List Json) (ts : List Token) :
    run ⟨.arr items :: stack, .firstItem⟩ (v.tokens ++ ts)
      = run ⟨.arr items :: stack, .value⟩ (v.tokens ++ ts) := by
  cases v with
  | null | bool _ | num _ | str _ => rfl
  | arr _ | obj _ =>
      rw [tokens, List.cons_append, run_cons, run_cons]
      rfl

theorem run_firstItems (v : Json) (vs : List Json) (stack : List Frame) (ts : List Token) :
    run ⟨.arr [] :: stack, .firstItem⟩ (itemTokens (v :: vs) ++ ts)
      = run ⟨.arr [] :: stack, .value⟩ (itemTokens (v :: vs) ++ ts) := by
  cases vs with
  | nil => exact run_firstItem v stack [] ts
  | cons w vs =>
      simp only [itemTokens, List.append_assoc]
      exact run_firstItem v stack [] _

theorem takes_arr {vs : List Json} (hvs : ∀ v ∈ vs, Takes v) : Takes (.arr vs) := by
  refine takes_of_open (by rw [tokens]) (by rw [depth]) (fun _ => rfl) fun ts hroom => ?_
  rw [List.append_assoc]
  cases vs with
  | nil =>
      rw [itemsDepth, if_pos (by omega)]
      exact run_of_step rfl
  | cons v vs =>
      rw [run_firstItems, run_items (List.cons_ne_nil v vs) hvs hroom]
      split
      · rw [List.append_nil, List.singleton_append]
        refine run_of_step ?_
        simp only [step, next?, close?, List.reverse_reverse]
      · rfl

theorem run_firstKeys (m : String × Json) (ms : List (String × Json)) (stack : List Frame)
    (ts : List Token) :
    run ⟨.obj [] :: stack, .firstKey⟩ (memberTokens (m :: ms) ++ ts)
      = run ⟨.obj [] :: stack, .key⟩ (memberTokens (m :: ms) ++ ts) := by
  cases ms with
  | nil => rfl
  | cons w ms =>
      simp only [memberTokens, List.cons_append, run_cons]
      rfl

theorem takes_obj {ms : List (String × Json)} (hkeys : Table.Distinct ms)
    (hms : ∀ m ∈ ms, Takes m.2) : Takes (.obj ms) := by
  refine takes_of_open (by rw [tokens]) (by rw [depth]) (fun _ => rfl) fun ts hroom => ?_
  rw [List.append_assoc]
  cases ms with
  | nil =>
      rw [membersDepth, if_pos (by omega)]
      exact run_of_step rfl
  | cons m ms =>
      rw [run_firstKeys, run_members (List.cons_ne_nil m ms) hms hroom [] hkeys]
      split
      · exact run_of_step rfl
      · rfl

theorem takes_of_plain {v : Json} (hv : v.Plain) : Takes v := by
  induction hv with
  | null => exact takes_of_step rfl rfl fun _ => rfl
  | bool b => exact takes_of_step rfl rfl fun _ => rfl
  | str s => exact takes_of_step rfl rfl fun _ => rfl
  | arr _ ih => exact takes_arr ih
  | obj hkeys _ ih => exact takes_obj hkeys ih

end Parse

theorem parse?_of_tokens {text : String} {v : Json} (hv : v.Plain)
    (h : tokens? text = some v.tokens) :
    parse? text = if v.depth ≤ maxDepth then some v else none := by
  have hrun := Parse.takes_of_plain hv [] [] (Nat.zero_le _)
  rw [List.append_nil, List.length_nil, Nat.zero_add] at hrun
  rw [parse?, h, Option.bind_some, Parse.start, hrun]
  split
  · rfl
  · rfl

theorem parse?_compact {v : Json} (hv : v.Plain) :
    parse? v.compact = if v.depth ≤ maxDepth then some v else none :=
  parse?_of_tokens hv (tokens?_compact hv)

theorem parse?_pretty {v : Json} (hv : v.Plain) :
    parse? v.pretty = if v.depth ≤ maxDepth then some v else none :=
  parse?_of_tokens hv (tokens?_pretty hv)

end Json

end TreeIR
