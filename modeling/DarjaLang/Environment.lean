import DarjaLang.Value.Basic

/-!
# Environments

An environment binds names to values.  It is a table of entries: no name has two of them, and where
the table keeps an entry means nothing.  `Environment.bindings` is for reading it as a whole: it
walks over the table, in whatever order, and sorts what it finds by name.
-/

set_option autoImplicit false

namespace DarjaLang

/-- The variables of a program. -/
structure Environment where
  entries : List (String × Value)
  nodup : (entries.map Prod.fst).Nodup

namespace Environment

/-- No variable is bound. -/
def empty : Environment := ⟨[], .nil⟩

/-- The value bound to a name. -/
def get? (env : Environment) (name : String) : Option Value := env.entries.lookup name

theorem get?_eq_none_iff {env : Environment} {name : String} :
    env.get? name = none ↔ name ∉ env.entries.map Prod.fst := by
  simp only [get?, List.lookup_eq_none_iff, bne_iff_ne, List.mem_map, not_exists, not_and]
  exact ⟨fun h p hp hname => h p hp hname.symm, fun h p hp hname => h p hp hname.symm⟩

/-- The entry of a name with another value in it. -/
def replaced (name : String) (v : Value) (p : String × Value) : String × Value :=
  if p.1 = name then (name, v) else p

theorem fst_replaced (name : String) (v : Value) (p : String × Value) :
    (replaced name v p).1 = p.1 := by
  rw [replaced]
  split
  · next h => exact h.symm
  · rfl

/-- Puts another value into the entry of a name. -/
def replace (env : Environment) (name : String) (v : Value) : Environment where
  entries := env.entries.map (replaced name v)
  nodup := by
    have hnames : Prod.fst ∘ replaced name v = Prod.fst := funext (fst_replaced name v)
    rw [List.map_map, hnames]
    exact env.nodup

/-- Adds an entry for a name that has none. -/
def add (env : Environment) (name : String) (v : Value) (h : env.get? name = none) :
    Environment where
  entries := (name, v) :: env.entries
  nodup := List.nodup_cons.2 ⟨get?_eq_none_iff.1 h, env.nodup⟩

/-- Binds a name to a value, in place of what it was bound to, and hands that back.  Only a name
that is not bound gets a new entry. -/
def exchange (env : Environment) (name : String) (v : Value) : Option Value × Environment :=
  match h : env.get? name with
  | some old => (some old, env.replace name v)
  | none => (none, env.add name v h)

/-- Binds a name to a value, in place of what it was bound to. -/
def assign (env : Environment) (name : String) (v : Value) : Environment := (env.exchange name v).2

/-- Whether a name is bound. -/
def contains (env : Environment) (name : String) : Bool := (env.entries.map Prod.fst).contains name

/-- The number of bound names. -/
def size (env : Environment) : Nat := env.entries.length

/-- Whether no name is bound. -/
def isEmpty (env : Environment) : Bool := env.entries.isEmpty

/-- Entries in the order of their names.  Entries of one name stay in the order they are in. -/
def sortByName (walk : List (String × Value)) : List (String × Value) :=
  walk.mergeSort fun p q => p.1 ≤ q.1

/-- All bindings, ordered by name. -/
def bindings (env : Environment) : List (String × Value) := sortByName env.entries

/-- The same names bound to the same values; NaN is not the same as itself. -/
def same (env other : Environment) : Bool :=
  env.size == other.size && env.entries.all fun (name, v) => other.get? name == some v

/-- Assigns in order, so that the last value for a name stays. -/
def ofList (pairs : List (String × Value)) : Environment :=
  pairs.foldl (fun env (name, v) => env.assign name v) empty

@[simp] theorem get?_empty (name : String) : empty.get? name = none := rfl

@[simp] theorem get?_add {env : Environment} {name : String} (v : Value)
    (h : env.get? name = none) (other : String) :
    (env.add name v h).get? other = if name = other then some v else env.get? other := by
  rw [get?, add, List.lookup_cons]
  by_cases hother : name = other
  · rw [if_pos hother, beq_iff_eq.2 hother.symm]
  · rw [if_neg hother, beq_eq_false_iff_ne.2 (Ne.symm hother), get?]

theorem lookup_map_replaced (walk : List (String × Value)) (name : String) (v : Value)
    (other : String) : (walk.map (replaced name v)).lookup other =
      (walk.lookup other).map fun old => if name = other then v else old := by
  induction walk with
  | nil => rfl
  | cons p walk ih =>
    have hp : replaced name v p = (p.1, if p.1 = name then v else p.2) := by
      refine Prod.ext (fst_replaced name v p) ?_
      rw [replaced]
      split <;> rfl
    rw [List.map_cons, hp, List.lookup_cons, List.lookup_cons, ih]
    cases hother : other == p.1 with
    | false => rfl
    | true => rw [beq_iff_eq.1 hother, Option.map_some]; simp only [eq_comm]

@[simp] theorem get?_replace (env : Environment) (name : String) (v : Value) (other : String) :
    (env.replace name v).get? other =
      (env.get? other).map fun old => if name = other then v else old :=
  lookup_map_replaced env.entries name v other

/-- What is handed back is what the name was bound to. -/
theorem fst_exchange (env : Environment) (name : String) (v : Value) :
    (env.exchange name v).1 = env.get? name := by
  rw [exchange]
  split <;> simp [*]

/-- Assigning changes the value of one name. -/
theorem get?_assign (env : Environment) (name other : String) (v : Value) :
    (env.assign name v).get? other = if name = other then some v else env.get? other := by
  rw [assign, exchange]
  split
  · next old hold =>
    rw [get?_replace]
    by_cases h : name = other
    · rw [if_pos h, ← h, hold, Option.map_some, if_pos rfl]
    · simp [h]
  · next hnone => exact get?_add v hnone other

/-- A name is bound if it has a value. -/
theorem contains_eq_isSome (env : Environment) (name : String) :
    env.contains name = (env.get? name).isSome := by
  rw [contains, Bool.eq_iff_iff, List.contains_iff_mem, Option.isSome_iff_ne_none, ne_eq,
    get?_eq_none_iff, Decidable.not_not]

end Environment

end DarjaLang
