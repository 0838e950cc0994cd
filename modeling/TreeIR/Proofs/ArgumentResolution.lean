import TreeIR.Proofs.Blame

/-!
# Where declared names are found

Everything that is passed in a lowered program goes through one step: for each
name that a callee declares, the place of the argument listed under it. Names may
be declared twice and may be listed without being declared; what is settled here
is when there are such places, what is found at them, and what is reported when
there are none.

Two scans are behind it. The first enters the listed names into a table of places,
and stops at one that is there already (`enterPlaces_eq`). The second goes through the
declared names and stops at one that the table does not have. So a name that is listed
twice is reported before any name that is missing, and since a place is only looked up
once the listed names are known to differ, it is the only place of its name: `Orders`
determines the order.
-/

namespace TreeIR

open Lowering

namespace Lowering

/-- An order has one place for each declared name, and the argument listed at that
place has the name. -/
def Orders (order : List Nat) (declared : List String) (args : List Arg) : Prop :=
  order.length = declared.length ∧
  ∀ (j : Nat) (ho : j < order.length) (hd : j < declared.length),
    ∃ hp : order[j] < args.length, args[order[j]].name = declared[j]

variable {declared : List String} {args : List Arg} {order : List Nat}

theorem places_eq_ok_iff_orders :
    places declared (args.map Arg.name) = .ok order ↔
      (args.map Arg.name).Nodup ∧ Orders order declared args := by
  rw [places_eq_ok_iff]
  refine and_congr_right fun hnodup => ?_
  simp only [idxOf?_eq_some_iff_of_nodup hnodup, List.forall₂_iff_get, List.get_eq_getElem]
  constructor
  · rintro ⟨hlen, hplaces⟩
    exact ⟨hlen.symm, fun j ho hd => hplaces j hd ho⟩
  · rintro ⟨hlen, hplaces⟩
    exact ⟨hlen.symm, fun j hd ho => hplaces j ho hd⟩

theorem places_of_not_nodup {listed : List String} (h : ¬ listed.Nodup) :
    ∃ name, FirstTwice name listed ∧ places declared listed = .error (.paramTwice name) := by
  rw [← firstRepeat_eq_none_iff] at h
  obtain ⟨name, hname⟩ := Option.ne_none_iff_exists'.mp h
  exact ⟨name, firstTwice_of_firstRepeat hname, places_of_firstRepeat hname⟩

theorem places_of_missing {listed : List String} (hnodup : listed.Nodup)
    (h : ¬ ∀ name ∈ declared, name ∈ listed) :
    ∃ name, FirstMissing name declared listed ∧
      places declared listed = .error (.unboundParam name) := by
  cases hplaces : places declared listed with
  | ok order => exact absurd (exists_places_iff.mp ⟨order, hplaces⟩).2 h
  | error cause =>
      rcases places_eq_error hplaces with ⟨name, rfl, htwice⟩ | ⟨name, rfl, -, hmissing⟩
      · exact absurd hnodup htwice.not_nodup
      · exact ⟨name, hmissing, rfl⟩

theorem FirstMissing.not_forall_mem {name : String} {listed : List String}
    (h : FirstMissing name declared listed) : ¬ ∀ param ∈ declared, param ∈ listed := by
  obtain ⟨before, after, rfl, -, hmissing⟩ := h
  exact fun hall => hmissing (hall name (List.mem_append_right before List.mem_cons_self))

end Lowering

namespace Lower

variable {node : String} {declared : List String} {args : List Arg} {env : Env}

theorem argumentOrder_eq_ok_iff {order : List Nat} :
    argumentOrder node declared args env = (.ok order, env) ↔
      places declared (args.map Arg.name) = .ok order := by
  rw [argumentOrder_run, Prod.mk.injEq, orderFor_eq_ok_iff, and_iff_left rfl]

theorem argumentOrder_eq_error_iff {cause : Cause} :
    argumentOrder node declared args env = (.error ⟨cause, node⟩, env) ↔
      places declared (args.map Arg.name) = .error cause := by
  rw [argumentOrder_run, Prod.mk.injEq, and_iff_left rfl, orderFor]
  cases places declared (args.map Arg.name) with
  | ok order => simp [Except.mapError]
  | error found => simp [Except.mapError]

end Lower

/-- Arguments have an order exactly if no name is listed twice and every declared
name is listed, and then the order has one place for each declared name, inside the
list, where the argument of that name stands. If a name is listed twice, the first
to stand for a second time is reported, whatever is missing; otherwise the first
declared name that is not listed. The surroundings stay as they are. -/
theorem Lower.argumentOrder_resolves (node : String) (declared : List String)
    (args : List Arg) (env : Env) :
    let names := args.map Arg.name
    let resolve := Lower.argumentOrder node declared args env
    (∀ order, resolve = (.ok order, env) ↔ names.Nodup ∧ Orders order declared args) ∧
    ((∃ order, resolve = (.ok order, env)) ↔
      names.Nodup ∧ ∀ name ∈ declared, name ∈ names) ∧
    ((∃ name, FirstTwice name names ∧ resolve = (.error ⟨.paramTwice name, node⟩, env)) ↔
      ¬ names.Nodup) ∧
    ((∃ name, FirstMissing name declared names ∧
        resolve = (.error ⟨.unboundParam name, node⟩, env)) ↔
      names.Nodup ∧ ¬ ∀ name ∈ declared, name ∈ names) := by
  intro names resolve
  simp only [names, resolve, argumentOrder_eq_ok_iff, argumentOrder_eq_error_iff]
  refine ⟨fun order => places_eq_ok_iff_orders, exists_places_iff, ⟨?_, ?_⟩, ?_, ?_⟩
  · rintro ⟨name, htwice, -⟩
    exact htwice.not_nodup
  · exact places_of_not_nodup
  · rintro ⟨name, hmissing, herror⟩
    rcases places_eq_error herror with ⟨_, hcause, -⟩ | ⟨_, -, hnodup, -⟩
    · cases hcause
    · exact ⟨hnodup, hmissing.not_forall_mem⟩
  · rintro ⟨hnodup, hlacks⟩
    exact places_of_missing hnodup hlacks

/-- A repeated declaration gives one place twice; a repeated argument is reported
although a declared name is missing. -/
example (env : Env) :
    Lower.argumentOrder "n" ["x", "y", "x"] [⟨"y", .ident "a"⟩, ⟨"x", .ident "b"⟩] env
      = (.ok [1, 0, 1], env) ∧
    Lower.argumentOrder "n" ["z"] [⟨"y", .ident "a"⟩, ⟨"y", .ident "b"⟩] env
      = (.error ⟨.paramTwice "y", "n"⟩, env) :=
  ⟨rfl, rfl⟩

end TreeIR
