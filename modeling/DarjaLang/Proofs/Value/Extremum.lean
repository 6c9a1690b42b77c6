import DarjaLang.Proofs.Value.Conversion

/-!
# The least and the greatest of some numbers

`min` and `max` go two ways: integers are compared as they are, and as soon as one argument is a
float, all of them become floats.  In both ways the result is the extremum of the numbers that the
arguments stand for, and so it does not depend on their order.

* `Extremum.IsOf` says what the extremum of some numbers is, and `isOf_foldl` that a fold finds it
  if each step chooses between two numbers.
* `Extremum.applyAll_of_isNumeric`: the two ways, and where the second one fails.
* `Extremum.Answers` is what an answer has to be as far as the comparison operators can tell.
* `extremum_agrees` puts this together.
-/

set_option autoImplicit false

namespace DarjaLang

namespace Extremum

open Value

variable {e : Extremum} {o p q : Option (WithBotTop ℚ)}
  {numbers numbers' : List (Option (WithBotTop ℚ))}

/-- How the extremum compares with all the numbers. -/
def comparison : Extremum → Comparison
  | least => .lessEqual
  | greatest => .greaterEqual

theorem isOrdering_comparison (e : Extremum) : e.comparison.IsOrdering := by
  cases e <;> exact ⟨nofun, nofun⟩

/-! ## The extremum of some numbers -/

/-- Both are numbers, and the first one is at least as extreme. -/
def Bounds (e : Extremum) (o p : Option (WithBotTop ℚ)) : Prop :=
  ∃ x y, o = some x ∧ p = some y ∧ e.comparison.Relates x y

theorem bounds_some_iff {x y : WithBotTop ℚ} :
    e.Bounds (some x) (some y) ↔ e.comparison.Relates x y := by
  simp [Bounds]

theorem bounds_refl (e : Extremum) (h : o ≠ none) : e.Bounds o o := by
  obtain ⟨x, rfl⟩ := Option.ne_none_iff_exists'.1 h
  cases e <;> exact bounds_some_iff.2 (le_refl x)

theorem Bounds.trans (h : e.Bounds o p) (h' : e.Bounds p q) : e.Bounds o q := by
  obtain ⟨x, y, rfl, rfl, hxy⟩ := h
  obtain ⟨_, z, ⟨rfl⟩, rfl, hyz⟩ := h'
  cases e with
  | least => exact bounds_some_iff.2 (le_trans (a := x) hxy hyz)
  | greatest => exact bounds_some_iff.2 (le_trans (c := x) hyz hxy)

theorem Bounds.antisymm (h : e.Bounds o p) (h' : e.Bounds p o) : o = p := by
  obtain ⟨x, y, rfl, rfl, hxy⟩ := h
  rw [bounds_some_iff] at h'
  cases e with
  | least => exact congrArg some (le_antisymm (a := x) hxy h')
  | greatest => exact congrArg some (le_antisymm (a := x) h' hxy)

/-- The extremum is one of the numbers, and it bounds all of them. -/
structure IsOf (e : Extremum) (numbers : List (Option (WithBotTop ℚ)))
    (o : Option (WithBotTop ℚ)) : Prop where
  mem : o ∈ numbers
  bounds : ∀ p ∈ numbers, e.Bounds o p

theorem IsOf.unique (h : e.IsOf numbers o) (h' : e.IsOf numbers p) : o = p :=
  (h.bounds p h'.mem).antisymm (h'.bounds o h.mem)

theorem IsOf.of_perm (h : e.IsOf numbers o) (hperm : numbers.Perm numbers') :
    e.IsOf numbers' o :=
  ⟨hperm.mem_iff.1 h.mem, fun p hp => h.bounds p (hperm.mem_iff.2 hp)⟩

/-- **A fold finds the extremum** if each step takes the extremum of two numbers. -/
theorem isOf_foldl {α : Type} (number : α → Option (WithBotTop ℚ)) (choose : α → α → α)
    (hchoose : ∀ a b, number a ≠ none → number b ≠ none →
      e.IsOf [number a, number b] (number (choose a b))) {a : α} {as : List α}
    (ha : number a ≠ none) (has : ∀ b ∈ as, number b ≠ none) :
    e.IsOf (number a :: as.map number) (number (as.foldl choose a)) := by
  induction as generalizing a with
  | nil =>
    refine ⟨List.mem_singleton.2 rfl, fun p hp => ?_⟩
    rw [List.mem_singleton.1 hp]
    exact bounds_refl e ha
  | cons b as ih =>
    rw [List.forall_mem_cons] at has
    have hstep := hchoose a b ha has.1
    have hne : number (choose a b) ≠ none := by
      rcases List.mem_pair.1 hstep.mem with h | h <;> rw [h]
      exacts [ha, has.1]
    obtain ⟨hmem, hbounds⟩ := ih hne has.2
    rw [List.forall_mem_cons] at hbounds
    constructor
    · -- what the fold comes to is the choice between the first two, or it is further behind
      rcases List.mem_cons.1 hmem with h | h
      · rw [List.foldl_cons, h]
        exact List.mem_append_left (as.map number) hstep.mem
      · exact List.mem_cons_of_mem _ (List.mem_cons_of_mem _ h)
    · refine List.forall_mem_cons.2 ⟨?_, List.forall_mem_cons.2 ⟨?_, hbounds.2⟩⟩
      · exact hbounds.1.trans (hstep.bounds _ List.mem_cons_self)
      · exact hbounds.1.trans (hstep.bounds _ (List.mem_cons_of_mem _ List.mem_cons_self))

/-! ## Choosing between two numbers -/

/-- To take the second number only if the first one does not bound it is right. -/
theorem isOf_ite {α : Type} (number : α → Option (WithBotTop ℚ)) {a b : α} {x y : WithBotTop ℚ}
    (ha : number a = some x) (hb : number b = some y) {c : Prop} [Decidable c]
    (hc : c ↔ ¬e.comparison.Relates x y) :
    e.IsOf [number a, number b] (number (if c then b else a)) := by
  have htotal : ¬e.comparison.Relates x y → e.comparison.Relates y x := by
    cases e with
    | least => exact fun h => (not_le.1 h).le
    | greatest => exact fun h => (not_le.1 h).le
  have hself : ∀ z : WithBotTop ℚ, e.Bounds (some z) (some z) := fun z => bounds_refl e nofun
  split_ifs with h
  · rw [ha, hb]
    exact ⟨by simp, by simpa using ⟨bounds_some_iff.2 (htotal (hc.1 h)), hself y⟩⟩
  · rw [ha, hb]
    exact ⟨by simp, by simpa using ⟨hself x, bounds_some_iff.2 (not_not.1 (mt hc.2 h))⟩⟩

theorem isOf_ofIntegers (e : Extremum) (a b : Int64) :
    e.IsOf [(integer a).number?, (integer b).number?] (integer (e.ofIntegers a b)).number? := by
  have hlt : ∀ {m n : Int64}, m < n ↔
      ¬((n.toInt : ℚ) : WithBotTop ℚ) ≤ ((m.toInt : ℚ) : WithBotTop ℚ) := fun {m n} => by
    rw [not_le, WithBotTop.coe_strictMono.lt_iff_lt, Int.cast_lt, Int64.lt_iff_toInt_lt]
  cases e with
  | least => exact isOf_ite (number? ∘ integer) rfl rfl hlt
  | greatest => exact isOf_ite (number? ∘ integer) rfl rfl hlt

theorem isOf_ofDoubles (e : Extremum) {x y : Float} (hx : Binary64.number? x ≠ none)
    (hy : Binary64.number? y ≠ none) :
    e.IsOf [Binary64.number? x, Binary64.number? y] (Binary64.number? (e.ofDoubles x y)) := by
  have hnan : x.isNaN = false := by
    rwa [ne_eq, Binary64.number?_eq_none_iff, Bool.not_eq_true] at hx
  obtain ⟨p, hp⟩ := Option.ne_none_iff_exists'.1 hx
  obtain ⟨q, hq⟩ := Option.ne_none_iff_exists'.1 hy
  have hlt : x < y ↔ ¬q ≤ p := by simp [Binary64.lt_iff, hp, hq, cmp_eq_lt_iff]
  have hgt : y < x ↔ ¬p ≤ q := by simp [Binary64.lt_iff, hp, hq, cmp_eq_lt_iff]
  cases e with
  | least =>
    simp only [ofDoubles, Binary64.least, hnan, Bool.false_or, decide_eq_true_eq]
    exact isOf_ite Binary64.number? hp hq hgt
  | greatest =>
    simp only [ofDoubles, Binary64.greatest, hnan, Bool.false_or, decide_eq_true_eq]
    exact isOf_ite Binary64.number? hp hq hlt

/-! ## The two ways -/

/-- There is a float, and there is an integer that is too large to become one. -/
def Mixes (vs : List Value) : Prop :=
  ∃ (n : Int64) (x : Float), integer n ∈ vs ∧ float x ∈ vs ∧ 2 ^ 53 - 1 < n.toInt.natAbs

variable {function : String} {first : Value} {rest vs vs' : List Value}

/-- The first argument that is no number is complained about, whatever the others are. -/
theorem apply_of_not_isNumeric (e : Extremum) (function : String)
    (h : ∃ v ∈ first :: rest, v.isNumeric = false) :
    ∃ v ∈ first :: rest, v.isNumeric = false ∧ e.apply function first rest =
      .error (.typeMismatch (.argument function "numbers" v.type)) := by
  obtain ⟨v, hv⟩ : ∃ v, (first :: rest).find? (!·.isNumeric) = some v :=
    Option.isSome_iff_exists.1 (List.find?_isSome.2 (by simpa using h))
  refine ⟨v, List.mem_of_find?_eq_some hv, by simpa using List.find?_some hv, ?_⟩
  rw [apply, hv]

/-- A number becomes a float that is the same number, or it is an integer that is too large. -/
theorem toFloat?_of_isNumeric {v : Value} (h : v.isNumeric = true) :
    (∃ x, v.toFloat? = .ok x ∧ Binary64.number? x = v.number?) ∧
        (∀ n, v = integer n → n.toInt.natAbs ≤ 2 ^ 53 - 1) ∨
      v.toFloat? = .error .overflow ∧ ∃ n, v = integer n ∧ 2 ^ 53 - 1 < n.toInt.natAbs := by
  cases v with
  | integer n =>
    have hfloat := toFloat?_integer n
    rw [show maxExactInteger = 2 ^ 53 - 1 from rfl] at hfloat
    split_ifs at hfloat with hn
    · refine .inl ⟨⟨_, hfloat, number?_of_toFloat? hfloat⟩, fun k hk => ?_⟩
      obtain rfl := Value.integer.inj hk
      exact hn
    · exact .inr ⟨hfloat, n, rfl, Nat.not_le.1 hn⟩
  | float x => exact .inl ⟨⟨x, rfl, rfl⟩, nofun⟩
  | _ => cases h

/-- **All the numbers become floats, or one of them is an integer that is too large.** -/
theorem mapM_toFloat?_of_isNumeric (h : ∀ v ∈ vs, v.isNumeric = true) :
    (∃ xs, vs.mapM toFloat? = .ok xs ∧ xs.map Binary64.number? = vs.map number?) ∧
        (∀ n, integer n ∈ vs → n.toInt.natAbs ≤ 2 ^ 53 - 1) ∨
      vs.mapM toFloat? = .error .overflow ∧ ∃ n, integer n ∈ vs ∧ 2 ^ 53 - 1 < n.toInt.natAbs := by
  induction vs with
  | nil => exact .inl ⟨⟨[], rfl, rfl⟩, nofun⟩
  | cons v vs ih =>
    rw [List.forall_mem_cons] at h
    rw [List.mapM_cons]
    rcases toFloat?_of_isNumeric h.1 with ⟨⟨x, hx, hnumber⟩, hsmall⟩ | ⟨hx, n, rfl, hn⟩
    · rcases ih h.2 with ⟨⟨xs, hxs, hnumbers⟩, hall⟩ | ⟨hxs, n, hmem, hn⟩
      · refine .inl ⟨⟨x :: xs, by rw [hx, hxs]; rfl, by simp [hnumber, hnumbers]⟩, fun n hmem => ?_⟩
        rcases List.mem_cons.1 hmem with hv | hmem
        exacts [hsmall n hv.symm, hall n hmem]
      · exact .inr ⟨by rw [hx, hxs]; rfl, n, List.mem_cons_of_mem v hmem, hn⟩
    · exact .inr ⟨by rw [hx]; rfl, n, List.mem_cons_self, hn⟩

theorem mapM_integer?_eq_some_iff {ns : List Int64} :
    vs.mapM integer? = some ns ↔ vs = ns.map integer := by
  induction vs generalizing ns with
  | nil => cases ns <;> simp
  | cons v vs ih =>
    cases v with
    | integer n => cases ns <;> simp [Value.integer?, Option.bind_eq_some_iff, ih, and_comm]
    | _ => cases ns <;> simp [Value.integer?]

/-- Integers stay integers. -/
theorem apply_integers (e : Extremum) (function : String) (n : Int64) (ns : List Int64) :
    e.apply function (integer n) (ns.map integer) = .ok (integer (ns.foldl e.ofIntegers n)) := by
  have hnumeric : (integer n :: ns.map integer).find? (!·.isNumeric) = none :=
    List.find?_eq_none.2 (by simp [isNumeric])
  simp only [apply, hnumeric, Value.integer?, mapM_integer?_eq_some_iff.2 rfl]

/-- Beside a float, all the numbers become floats. -/
theorem apply_of_float_mem (e : Extremum) (function : String)
    (h : ∀ v ∈ first :: rest, v.isNumeric = true) {x : Float} (hx : float x ∈ first :: rest) :
    e.apply function first rest = (first :: rest).mapM toFloat? >>= fun xs =>
      .ok (float (xs.tail.foldl e.ofDoubles (xs.headD x))) := by
  have hnumeric : (first :: rest).find? (!·.isNumeric) = none :=
    List.find?_eq_none.2 (by simpa using h)
  simp only [apply, hnumeric]
  split
  · rename_i n ns hfirst hrest
    have hall : (first :: rest).mapM integer? = some (n :: ns) := by simp [hfirst, hrest]
    rw [mapM_integer?_eq_some_iff.1 hall] at hx
    simp at hx
  · rw [List.mapM_cons]
    rcases first.toFloat? with _ | y
    · rfl
    · rcases rest.mapM toFloat? with _ | ys <;> rfl

/-- **The extremum is that of the numbers, whichever way it is found**, and only a float beside an
integer that is too large to become one stops it. -/
theorem applyAll_of_isNumeric (e : Extremum) (function : String) (hne : vs ≠ [])
    (h : ∀ v ∈ vs, v.isNumeric = true ∧ ¬v.IsNaN) :
    Mixes vs ∧ e.applyAll function vs = .error .overflow ∨
      ¬Mixes vs ∧ ∃ r, e.applyAll function vs = .ok r ∧
        r.isNumeric = true ∧ e.IsOf (vs.map number?) r.number? ∧
        (r.type = .integer ↔ ∀ v ∈ vs, v.type = .integer) := by
  obtain ⟨first, rest, rfl⟩ := List.exists_cons_of_ne_nil hne
  rw [applyAll]
  by_cases hfloat : ∃ x, float x ∈ first :: rest
  · obtain ⟨x, hx⟩ := hfloat
    rw [apply_of_float_mem e function (fun v hv => (h v hv).1) hx]
    rcases mapM_toFloat?_of_isNumeric fun v hv => (h v hv).1 with
      ⟨⟨xs, hxs, hnumbers⟩, hsmall⟩ | ⟨herror, n, hmem, hn⟩
    · obtain ⟨y, ys, rfl⟩ : ∃ y ys, xs = y :: ys := List.exists_cons_of_ne_nil (by
        rintro rfl
        simp at hnumbers)
      have hnumber : ∀ z ∈ y :: ys, Binary64.number? z ≠ none := fun z hz => by
        obtain ⟨v, hv, hvz⟩ := List.mem_map.1 (hnumbers ▸ List.mem_map_of_mem hz)
        rw [← hvz, ne_eq, number?_eq_none_iff (h v hv).1]
        exact (h v hv).2
      rw [List.forall_mem_cons] at hnumber
      refine .inr ⟨?_, _, by rw [hxs]; rfl, rfl, ?_, ?_⟩
      · rintro ⟨n, -, hmem, -, hn⟩
        exact (hsmall n hmem).not_gt hn
      · rw [← hnumbers, List.map_cons]
        exact isOf_foldl Binary64.number? e.ofDoubles (fun _ _ => isOf_ofDoubles e) hnumber.1
          hnumber.2
      · exact ⟨nofun, fun hall => nomatch hall _ hx⟩
    · exact .inl ⟨⟨n, x, hmem, hx, hn⟩, by rw [herror]; rfl⟩
  · have hall : ∀ v ∈ first :: rest, v ∈ Set.range integer := fun v hv => by
      cases v with
      | integer n => exact ⟨n, rfl⟩
      | float x => exact absurd ⟨x, hv⟩ hfloat
      | _ => cases (h _ hv).1
    obtain ⟨ns, hns⟩ : first :: rest ∈ Set.range (List.map integer) := by
      rwa [Set.range_list_map]
    obtain ⟨n, ns, rfl⟩ : ∃ n ns', ns = n :: ns' := List.exists_cons_of_ne_nil (by
      rintro rfl
      cases hns)
    obtain ⟨rfl, rfl⟩ := List.cons.inj hns
    refine .inr ⟨?_, _, apply_integers e function n ns, rfl, ?_, ?_⟩
    · rintro ⟨-, x, -, hx, -⟩
      exact hfloat ⟨x, hx⟩
    · rw [List.map_cons, List.map_map]
      exact isOf_foldl (number? ∘ integer) e.ofIntegers (fun a b _ _ => isOf_ofIntegers e a b) nofun
        fun _ _ => nofun
    · simp [Value.type]

theorem Mixes.of_subset (h : Mixes vs) (hsub : vs ⊆ vs') : Mixes vs' := by
  obtain ⟨n, x, hn, hx, hlarge⟩ := h
  exact ⟨n, x, hsub hn, hsub hx, hlarge⟩

/-! ## What the comparison operators say of it -/

/-- The extremum of some numbers as the operators see it: its type is that of the numbers, a float
if there are both, it equals one of them, and it compares with all of them. -/
structure Answers (e : Extremum) (vs : List Value) (r : Value) : Prop where
  integer : (∀ v ∈ vs, v.type = .integer) → r.type = .integer
  float : (∃ v ∈ vs, v.type ≠ .integer) → r.type = .float
  equals : ∃ v ∈ vs, r.equals v = true
  holds : ∀ v ∈ vs, e.comparison.Holds r v

theorem Answers.of_isOf {r : Value} (h : ∀ v ∈ vs, v.isNumeric = true) (hmix : ¬Mixes vs)
    (hr : r.isNumeric = true) (hof : e.IsOf (vs.map number?) r.number?)
    (htype : r.type = .integer ↔ ∀ v ∈ vs, v.type = .integer) : e.Answers vs r where
  integer := htype.2
  float hfloat := by
    cases r with
    | integer n =>
      obtain ⟨v, hv, hne⟩ := hfloat
      exact absurd (htype.1 rfl v hv) hne
    | float x => rfl
    | _ => cases hr
  equals := by
    obtain ⟨v, hv, hnumber⟩ := List.mem_map.1 hof.mem
    obtain ⟨p, -, hp, -⟩ := hof.bounds _ hof.mem
    exact ⟨v, hv, (equals_iff_of_isNumeric hr (h v hv)).2 ⟨p, hp, hnumber.trans hp⟩⟩
  holds v hv := by
    -- the answer could only clash with a number that clashes with the float that it comes from
    have hclash : ¬r.Clashes v := by
      rintro ⟨n, x, hn, ⟨rfl, rfl⟩ | ⟨rfl, rfl⟩⟩
      · cases htype.1 rfl _ hv
      · obtain ⟨w, hw, hne⟩ : ∃ w ∈ vs, w.type ≠ .integer := by
          by_contra! hall
          cases htype.2 hall
        cases w with
        | integer k => exact hne rfl
        | float y => exact hmix ⟨n, y, hv, hw, hn⟩
        | _ => cases h _ hw
    obtain ⟨p, q, hp, hq, hpq⟩ := hof.bounds _ (List.mem_map_of_mem hv)
    obtain ⟨hyes, -⟩ | ⟨-, t, happly, ht⟩ :=
      Comparison.apply_of_isNumeric (isOrdering_comparison e) hr (h v hv)
    · exact absurd hyes hclash
    · rw [Comparison.Holds, happly, ht.2 ⟨p, q, hp, hq, hpq⟩]

/-- The order of the numbers decides neither whether there is an answer nor which one it is. -/
theorem applyAll_of_perm (e : Extremum) (function : String) (hne : vs ≠ [])
    (h : ∀ v ∈ vs, v.isNumeric = true ∧ ¬v.IsNaN) (hperm : vs.Perm vs') :
    e.applyAll function vs = .error .overflow ∧ e.applyAll function vs' = .error .overflow ∨
      ∃ r r', e.applyAll function vs = .ok r ∧ e.applyAll function vs' = .ok r' ∧
        r.equals r' = true := by
  have hne' : vs' ≠ [] := fun hnil => hne (hnil ▸ hperm).eq_nil
  have h' : ∀ v ∈ vs', v.isNumeric = true ∧ ¬v.IsNaN := fun v hv => h v (hperm.mem_iff.2 hv)
  rcases applyAll_of_isNumeric e function hne h with ⟨hmix, happly⟩ | ⟨hmix, r, happly, hr, hof, -⟩
  · rcases applyAll_of_isNumeric e function hne' h' with ⟨-, happly'⟩ | ⟨hno, -⟩
    exacts [.inl ⟨happly, happly'⟩, absurd (hmix.of_subset hperm.subset) hno]
  · rcases applyAll_of_isNumeric e function hne' h' with ⟨hyes, -⟩ | ⟨-, r', happly', hr', hof', -⟩
    · exact absurd (hyes.of_subset hperm.symm.subset) hmix
    · obtain ⟨p, -, hp, -⟩ := hof.bounds _ hof.mem
      have hsame : r'.number? = r.number? := hof'.unique (hof.of_perm (hperm.map number?))
      exact .inr ⟨r, r', happly, happly',
        (equals_iff_of_isNumeric hr hr').2 ⟨p, hp, hsame.trans hp⟩⟩

/-- **The least and the greatest of some numbers are what the comparison operators take them for,
and the order of the arguments does not matter.**  A value that is no number is always complained
about.  Numbers fail together only if one is a float and another one is an integer that is too
large to become one; otherwise the answer is one of them and compares with all of them. -/
theorem extremum_agrees (e : Extremum) (function : String) {vs : List Value} (hne : vs ≠ []) :
    ((∃ v ∈ vs, v.isNumeric = false) → ∃ v ∈ vs, v.isNumeric = false ∧
      e.applyAll function vs = .error (.typeMismatch (.argument function "numbers" v.type))) ∧
    ((∀ v ∈ vs, v.isNumeric = true ∧ ¬v.IsNaN) →
      ((∃ error, e.applyAll function vs = .error error) ↔ Mixes vs) ∧
      (Mixes vs → e.applyAll function vs = .error .overflow) ∧
      (¬Mixes vs → ∃ r, e.applyAll function vs = .ok r ∧ e.Answers vs r) ∧
      ∀ vs' : List Value, vs.Perm vs' →
        e.applyAll function vs = .error .overflow ∧
            e.applyAll function vs' = .error .overflow ∨
          ∃ r r', e.applyAll function vs = .ok r ∧ e.applyAll function vs' = .ok r' ∧
            r.equals r' = true) ∧
    callFunction "min" vs = least.applyAll "min" vs ∧
    callFunction "max" vs = greatest.applyAll "max" vs := by
  refine ⟨fun h => ?_, fun h => ⟨?_, fun hmix => ?_, fun hmix => ?_, fun vs' hperm => ?_⟩, ?_, ?_⟩
  · obtain ⟨first, rest, rfl⟩ := List.exists_cons_of_ne_nil hne
    exact apply_of_not_isNumeric e function h
  · rcases applyAll_of_isNumeric e function hne h with ⟨hmix, happly⟩ | ⟨hmix, r, happly, -⟩
    · simp [happly, hmix]
    · simp [happly, hmix]
  · rcases applyAll_of_isNumeric e function hne h with ⟨-, happly⟩ | ⟨hno, -⟩
    exacts [happly, absurd hmix hno]
  · rcases applyAll_of_isNumeric e function hne h with ⟨hyes, -⟩ | ⟨-, r, happly, hr, hof, htype⟩
    · exact absurd hyes hmix
    · exact ⟨r, happly, .of_isOf (fun v hv => (h v hv).1) hmix hr hof htype⟩
  · exact applyAll_of_perm e function hne h hperm
  · obtain ⟨first, rest, rfl⟩ := List.exists_cons_of_ne_nil hne
    rfl
  · obtain ⟨first, rest, rfl⟩ := List.exists_cons_of_ne_nil hne
    rfl

/-- Numbers of both kinds in two orders, an integer that does not go with a float, and a string
that is complained about all the same. -/
theorem extremum_agrees_on_mixed_numbers :
    (∃ r r', least.applyAll "min" [integer 3, float 2.5] = .ok r ∧
      least.applyAll "min" [float 2.5, integer 3] = .ok r' ∧ r.equals r' = true) ∧
    (∃ r, least.applyAll "min" [integer 3, float 2.5] = .ok r ∧ r.type = .float ∧
      ∀ v ∈ [integer 3, float 2.5], Comparison.lessEqual.Holds r v) ∧
    greatest.applyAll "max" [float 0.5, integer 9007199254740992] = .error .overflow ∧
    ∃ v ∈ [float 0.5, integer 9007199254740992, walou], v.isNumeric = false ∧
      greatest.applyAll "max" [float 0.5, integer 9007199254740992, walou] =
        .error (.typeMismatch (.argument "max" "numbers" v.type)) := by
  have hnumeric : ∀ v ∈ [integer 3, float 2.5], v.isNumeric = true ∧ ¬v.IsNaN := by
    simp only [List.forall_mem_cons, List.not_mem_nil, false_imp_iff, implies_true, and_true]
    exact ⟨⟨rfl, not_false⟩, rfl, by show ¬Float.isNaN 2.5 = true; decide⟩
  have hlarge : ∀ v ∈ [float 0.5, integer 9007199254740992], v.isNumeric = true ∧ ¬v.IsNaN := by
    simp only [List.forall_mem_cons, List.not_mem_nil, false_imp_iff, implies_true, and_true]
    exact ⟨⟨rfl, by show ¬Float.isNaN 0.5 = true; decide⟩, rfl, not_false⟩
  have hmix : ¬Mixes [integer 3, float 2.5] := by
    rintro ⟨n, x, hn, -, hlarge⟩
    obtain rfl : n = 3 := by simpa using hn
    exact absurd hlarge (by decide)
  obtain ⟨-, hleast, -⟩ := extremum_agrees least "min" (List.cons_ne_nil (integer 3) [float 2.5])
  obtain ⟨-, -, hok, hperm⟩ := hleast hnumeric
  obtain ⟨r, happly, hr⟩ := hok hmix
  refine ⟨(hperm _ (List.Perm.swap _ _ _)).resolve_left fun h => ?_, ?_, ?_, ?_⟩
  · cases happly.symm.trans h.1
  · exact ⟨r, happly, hr.float ⟨float 2.5, by simp, by decide⟩, hr.holds⟩
  · exact ((extremum_agrees greatest "max" (List.cons_ne_nil _ _)).2.1 hlarge).2.1
      ⟨9007199254740992, 0.5, by simp, by simp, by decide⟩
  · exact (extremum_agrees greatest "max" (List.cons_ne_nil _ _)).1 ⟨walou, by simp, rfl⟩

end Extremum

end DarjaLang
