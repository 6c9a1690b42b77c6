import DarjaLang.Environment
import DarjaLang.Proofs.ByteOrder
import Mathlib.Data.Finset.Card

/-!
# What a sequence of assignments leaves behind

An environment has one entry for each name that was ever assigned, with the value that was assigned
last.  It knows nothing else: not how often a name was assigned, and not in which order the names
were.

* `Environment.lastAssigned?` reads that value off the sequence itself.
* `get?_ofList`, `size_ofList` and `mem_bindings_ofList_iff` describe the environment by it.
* `sortByName_eq_bindings`: sorting forgets the order in which the entries were found.
* `pairwise_bindings`: names are listed in the order of their bytes, so none is listed twice.
* `one_entry_per_name` puts this together.
-/

set_option autoImplicit false

namespace DarjaLang

namespace Environment

variable {env env' : Environment} {pairs pairs' : List (String × Value)} {name : String} {v : Value}

/-! ## One environment -/

theorem mem_entries_iff : (name, v) ∈ env.entries ↔ env.get? name = some v := by
  rw [get?, List.lookup_eq_some_iff]
  constructor
  · intro h
    obtain ⟨front, behind, henv⟩ := List.append_of_mem h
    refine ⟨front, behind, henv, fun p hp => bne_iff_ne.2 fun hname => ?_⟩
    -- An entry of this name in front of this one would be a second one.
    have hnames := env.nodup
    rw [henv, List.map_append, List.map_cons, List.nodup_append] at hnames
    exact hnames.2.2 _ (List.mem_map_of_mem hp) _ List.mem_cons_self hname.symm
  · rintro ⟨front, behind, henv, -⟩
    simp [henv]

/-- Environments with the same values have the same entries, each one somewhere. -/
theorem perm_entries_of_get?_eq (h : ∀ name, env.get? name = env'.get? name) :
    env.entries.Perm env'.entries :=
  (List.perm_ext_iff_of_nodup env.nodup.of_map env'.nodup.of_map).2 fun p => by
    rw [← Prod.mk.eta (p := p), mem_entries_iff, mem_entries_iff, h]

/-! ## Sorting the entries -/

theorem sortByName_perm (walk : List (String × Value)) : (sortByName walk).Perm walk :=
  List.mergeSort_perm walk _

theorem pairwise_sortByName (walk : List (String × Value)) :
    (sortByName walk).Pairwise fun p q => p.1 ≤ q.1 := by
  refine (List.pairwise_mergeSort (fun p q r hpq hqr => ?_) (fun p q => ?_) walk).imp
    of_decide_eq_true
  · exact decide_eq_true (String.le_trans (of_decide_eq_true hpq) (of_decide_eq_true hqr))
  · simpa using String.le_total p.1 q.1

/-- What stands in the order of its names, no name twice, can stand in one order only. -/
theorem eq_of_perm_of_pairwise {walk walk' : List (String × Value)} (hperm : walk.Perm walk')
    (hnames : (walk.map Prod.fst).Nodup) (hwalk : walk.Pairwise fun p q => p.1 ≤ q.1)
    (hwalk' : walk'.Pairwise fun p q => p.1 ≤ q.1) : walk = walk' := by
  refine hperm.eq_of_pairwise (fun p q hp hq hpq hqp => ?_) hwalk hwalk'
  exact List.inj_on_of_nodup_map hnames hp (hperm.mem_iff.2 hq) (String.le_antisymm hpq hqp)

/-- **The list of the bindings does not tell in which order the table was walked over.** -/
theorem sortByName_eq_bindings {walk : List (String × Value)} (h : walk.Perm env.entries) :
    sortByName walk = env.bindings := by
  have hsorted := (sortByName_perm walk).trans h
  exact eq_of_perm_of_pairwise (hsorted.trans (sortByName_perm env.entries).symm)
    ((hsorted.map Prod.fst).nodup_iff.2 env.nodup) (pairwise_sortByName walk)
    (pairwise_sortByName env.entries)

theorem mem_bindings_iff : (name, v) ∈ env.bindings ↔ env.get? name = some v := by
  rw [bindings, (sortByName_perm env.entries).mem_iff, mem_entries_iff]

/-- **The names are listed in the order of their bytes**, each one once. -/
theorem pairwise_bindings (env : Environment) :
    env.bindings.Pairwise fun p q => p.1.toUTF8.toList < q.1.toUTF8.toList := by
  have hnames : (env.bindings.map Prod.fst).Nodup :=
    ((sortByName_perm env.entries).map Prod.fst).nodup_iff.2 env.nodup
  refine ((pairwise_sortByName env.entries).and (List.pairwise_map.1 hnames)).imp ?_
  rintro p q ⟨hle, hne⟩
  have hlt : p.1 < q.1 := String.not_le.1 fun h => hne (String.le_antisymm hle h)
  rwa [Lines.toList_toUTF8, Lines.toList_toUTF8, Lines.encode_lt_iff]

/-- Environments with the same values list the same bindings, however they came about. -/
theorem bindings_eq_of_get?_eq (h : ∀ name, env.get? name = env'.get? name) :
    env.bindings = env'.bindings :=
  sortByName_eq_bindings (perm_entries_of_get?_eq h)

/-- The size is the number of names that have a value. -/
theorem size_eq_card {names : Finset String}
    (h : ∀ name, (env.get? name).isSome = true ↔ name ∈ names) : env.size = names.card := by
  have hkeys : (env.entries.map Prod.fst).toFinset = names := by
    ext name
    rw [List.mem_toFinset, ← h, Option.isSome_iff_ne_none, ne_eq, get?_eq_none_iff, not_not]
  rw [← hkeys, List.toFinset_card_of_nodup env.nodup, List.length_map, size]

/-! ## A sequence of assignments -/

/-- What a name was assigned last. -/
def lastAssigned? (pairs : List (String × Value)) (name : String) : Option Value :=
  pairs.reverse.lookup name

theorem lastAssigned?_concat (pairs : List (String × Value)) (name other : String) (v : Value) :
    lastAssigned? (pairs ++ [(name, v)]) other =
      if name = other then some v else lastAssigned? pairs other := by
  rw [lastAssigned?, List.reverse_concat, List.lookup_cons]
  by_cases h : name = other
  · rw [if_pos h, beq_iff_eq.2 h.symm]
  · rw [if_neg h, beq_eq_false_iff_ne.2 (Ne.symm h), lastAssigned?]

theorem isSome_lastAssigned?_iff :
    (lastAssigned? pairs name).isSome = true ↔ name ∈ pairs.map Prod.fst := by
  simp [lastAssigned?, List.lookup_isSome_iff]

theorem ofList_concat (pairs : List (String × Value)) (name : String) (v : Value) :
    ofList (pairs ++ [(name, v)]) = (ofList pairs).assign name v := by
  rw [ofList, List.foldl_concat]
  rfl

/-- **A name has the value that it was assigned last.** -/
theorem get?_ofList (pairs : List (String × Value)) (name : String) :
    (ofList pairs).get? name = lastAssigned? pairs name := by
  induction pairs using List.reverseRecOn with
  | nil => exact get?_empty name
  | append_singleton pairs p ih =>
    rw [ofList_concat, get?_assign, lastAssigned?_concat, ih]

theorem size_ofList (pairs : List (String × Value)) :
    (ofList pairs).size = (pairs.map Prod.fst).toFinset.card :=
  size_eq_card fun name => by
    rw [get?_ofList, isSome_lastAssigned?_iff, List.mem_toFinset]

theorem mem_bindings_ofList_iff :
    (name, v) ∈ (ofList pairs).bindings ↔ lastAssigned? pairs name = some v := by
  rw [mem_bindings_iff, get?_ofList]

/-- **An environment has one entry for each name.**  After any sequence of assignments, a name has
the value that it was assigned last, the next assignment hands back just that value, there are as
many entries as different names, and they are listed in the order of the bytes of the names.
In whatever order the table is walked over, this is the list that comes out, and nothing but the
last value of every name counts for it. -/
theorem one_entry_per_name (pairs : List (String × Value)) :
    (∀ name, (ofList pairs).get? name = lastAssigned? pairs name) ∧
    (∀ name v, (ofList pairs).exchange name v =
      ((ofList pairs).get? name, ofList (pairs ++ [(name, v)]))) ∧
    (ofList pairs).size = (pairs.map Prod.fst).toFinset.card ∧
    (∀ name v, (name, v) ∈ (ofList pairs).bindings ↔ lastAssigned? pairs name = some v) ∧
    ((ofList pairs).bindings.Pairwise fun p q => p.1.toUTF8.toList < q.1.toUTF8.toList) ∧
    (∀ walk, walk.Perm (ofList pairs).entries → sortByName walk = (ofList pairs).bindings) ∧
    ∀ pairs', (∀ name, lastAssigned? pairs name = lastAssigned? pairs' name) →
      (ofList pairs).bindings = (ofList pairs').bindings := by
  refine ⟨get?_ofList pairs, fun name v => ?_, size_ofList pairs,
    fun name v => mem_bindings_ofList_iff, pairwise_bindings _,
    fun walk h => sortByName_eq_bindings h, fun pairs' h => ?_⟩
  · exact Prod.ext (fst_exchange _ name v) (ofList_concat pairs name v).symm
  · exact bindings_eq_of_get?_eq fun name => by rw [get?_ofList, get?_ofList, h]

/-- Names of which one begins another, one that is assigned twice and one that is not ASCII.  If
each is assigned once and in another order, the table is in another order, and the bindings are the
same. -/
theorem one_entry_per_name_in_another_order :
    let pairs := [("ze", .integer 1), ("é", .integer 2), ("z", .integer 3), ("z", .integer 4)]
    let pairs' := [("é", .integer 2), ("z", .integer 4), ("ze", .integer 1)]
    (∀ name, lastAssigned? pairs name = lastAssigned? pairs' name) ∧
      (ofList pairs).entries = [("z", .integer 4), ("é", .integer 2), ("ze", .integer 1)] ∧
      (ofList pairs').entries = [("ze", .integer 1), ("z", .integer 4), ("é", .integer 2)] ∧
      (ofList pairs).bindings = (ofList pairs').bindings ∧
      sortByName [("z", .integer 4), ("ze", .integer 1), ("é", .integer 2)] =
        (ofList pairs').bindings ∧
      (ofList pairs').bindings = [("z", .integer 4), ("ze", .integer 1), ("é", .integer 2)] := by
  intro pairs pairs'
  have hlast : ∀ name, lastAssigned? pairs name = lastAssigned? pairs' name := by
    intro name
    by_cases hz : name = "z"
    · subst hz
      rfl
    by_cases hze : name = "ze"
    · subst hze
      rfl
    simp [pairs, pairs', lastAssigned?, List.lookup_cons, beq_eq_false_iff_ne.2 hz,
      beq_eq_false_iff_ne.2 hze]
  have hwalk := (one_entry_per_name pairs').2.2.2.2.2.1
    [("z", .integer 4), ("ze", .integer 1), ("é", .integer 2)] (.swap _ _ _)
  refine ⟨hlast, rfl, rfl, (one_entry_per_name pairs).2.2.2.2.2.2 pairs' hlast, hwalk, ?_⟩
  rw [← hwalk]
  exact List.mergeSort_of_pairwise (by decide)

end Environment

end DarjaLang
