import DarjaLang.Builtin
import DarjaLang.Proofs.Binary64.Finite
import DarjaLang.Proofs.Value.Conversion

/-!
# Operations on finite values

No operator and no function makes a value that is not finite out of finite ones.

* `Gives` says of a computation that whatever it gives has a property.  There is one lemma for each
  operation that gives a value.
* `Arithmetic.gives_isFinite_onFloats` is where it could go wrong: the results of arithmetic on
  doubles are checked, and refused.
-/

set_option autoImplicit false

namespace DarjaLang

/-- Whatever a computation gives has the property. -/
def Gives {ε α : Type} (P : α → Prop) (x : Except ε α) : Prop := ∀ a, x = .ok a → P a

namespace Gives

variable {ε α β : Type} {P : α → Prop} {Q : β → Prop} {x : Except ε α}

theorem ok {a : α} (h : P a) : Gives P (.ok a : Except ε α) := by
  intro b hb
  cases hb
  exact h

theorem error (e : ε) : Gives P (.error e : Except ε α) := nofun

theorem bind {f : α → Except ε β} (hx : Gives P x) (hf : ∀ a, P a → Gives Q (f a)) :
    Gives Q (x >>= f) := by
  cases x with
  | error e => exact error e
  | ok a => exact hf a (hx a rfl)

/-- It does not matter what comes first. -/
theorem bind_of_forall {f : α → Except ε β} (hf : ∀ a, Gives Q (f a)) : Gives Q (x >>= f) :=
  bind (P := fun _ => True) (fun _ _ => trivial) fun a _ => hf a

theorem map {f : α → β} (hx : Gives P x) (hf : ∀ a, P a → Q (f a)) : Gives Q (x.map f) := by
  cases x with
  | error e => exact error e
  | ok a => exact ok (hf a (hx a rfl))

theorem mapM {f : β → Except ε α} {as : List β} (hf : ∀ a ∈ as, Gives P (f a)) :
    Gives (fun bs => ∀ b ∈ bs, P b) (as.mapM f) := by
  induction as with
  | nil => exact ok nofun
  | cons a as ih =>
    rw [List.forall_mem_cons] at hf
    rw [List.mapM_cons]
    exact hf.1.bind fun b hb => (ih hf.2).bind fun bs hbs => ok (List.forall_mem_cons.2 ⟨hb, hbs⟩)

end Gives

/-! ## Values -/

namespace Value

/-- The value is no float, or a finite one. -/
def IsFinite : Value → Prop
  | float x => x.isFinite = true
  | _ => True

variable {v : Value}

theorem gives_isFinite_ofInt? (n : ℤ) : Gives IsFinite (ofInt? n) := by
  rw [ofInt?]
  split
  · exact .ok trivial
  · exact .error _

/-- Integers become finite floats. -/
theorem gives_isFinite_toFloat? (hv : v.IsFinite) : Gives (Float.isFinite · = true) v.toFloat? := by
  cases v with
  | float x => exact .ok hv
  | integer n =>
    rw [toFloat?]
    split
    · next x hx => exact .ok (Binary64.isFinite_iff.2 ⟨_, number?_of_exactFloat? hx⟩)
    · exact .error _
  | _ => exact .error _

theorem gives_isFinite_truncate? (x : Float) : Gives IsFinite (truncate? x) := by
  rw [truncate?]
  split
  · exact .error _
  · dsimp only
    split
    · exact .error _
    · exact .ok trivial

end Value

open Value

variable {a b : Value}

/-! ## Operators -/

theorem Arithmetic.gives_isFinite_onIntegers (op : Arithmetic) (a b : ℤ) :
    Gives IsFinite (op.onIntegers a b) := by
  cases op with
  | add => exact gives_isFinite_ofInt? _
  | subtract => exact gives_isFinite_ofInt? _
  | multiply => exact gives_isFinite_ofInt? _
  | divide =>
    rw [onIntegers]
    split
    · exact .error _
    · exact gives_isFinite_ofInt? _
  | remainder =>
    rw [onIntegers]
    split
    · exact .error _
    · exact (gives_isFinite_ofInt? _).bind fun _ _ => gives_isFinite_ofInt? _

/-- **A result that is not finite is refused.** -/
theorem Arithmetic.gives_isFinite_onFloats (op : Arithmetic) {x y : Float}
    (hx : x.isFinite = true) (hy : y.isFinite = true) : Gives IsFinite (op.onFloats x y) := by
  rw [onFloats]
  split
  · exact .error _
  · dsimp only
    rw [hx, hy, Bool.and_true, Bool.and_true]
    split
    · exact .error _
    · next hfinite =>
      rw [Bool.not_eq_true', Bool.not_eq_false] at hfinite
      exact .ok hfinite

theorem Arithmetic.gives_isFinite_apply (op : Arithmetic) (ha : a.IsFinite) (hb : b.IsFinite) :
    Gives IsFinite (op.apply a b) := by
  rw [apply.eq_def]
  split
  · exact gives_isFinite_onIntegers op _ _
  split
  · exact .ok trivial
  split
  · exact (gives_isFinite_toFloat? ha).bind fun x hx =>
      (gives_isFinite_toFloat? hb).bind fun y hy => gives_isFinite_onFloats op hx hy
  · exact .error _

/-- Comparisons have truth values. -/
theorem Comparison.gives_isFinite_apply (op : Comparison) (a b : Value) :
    Gives IsFinite (op.apply a b) := by
  rw [apply.eq_def]
  split
  · exact .ok trivial
  · exact .ok trivial
  · exact .bind_of_forall fun _ => .ok trivial

theorem Connective.gives_isFinite_apply (op : Connective) (a b : Value) :
    Gives IsFinite (op.apply a b) :=
  .bind_of_forall fun _ => .bind_of_forall fun _ => .ok trivial

theorem BinaryOperator.gives_isFinite_apply (op : BinaryOperator) (ha : a.IsFinite)
    (hb : b.IsFinite) : Gives IsFinite (op.apply a b) := by
  cases op with
  | arithmetic op => exact op.gives_isFinite_apply ha hb
  | comparison op => exact op.gives_isFinite_apply a b
  | connective op => exact op.gives_isFinite_apply a b

theorem UnaryOperator.gives_isFinite_apply (op : UnaryOperator) (ha : a.IsFinite) :
    Gives IsFinite (op.apply a) := by
  rw [apply.eq_def]
  split
  · exact gives_isFinite_ofInt? _
  · exact .ok (Binary64.isFinite_neg ha)
  · exact .error _
  · exact .bind_of_forall fun _ => .ok trivial

/-! ## Functions -/

theorem Extremum.isFinite_ofDoubles (e : Extremum) {x y : Float} (hx : x.isFinite = true)
    (hy : y.isFinite = true) : (e.ofDoubles x y).isFinite = true := by
  cases e with
  | least => exact Binary64.isFinite_least hx hy
  | greatest => exact Binary64.isFinite_greatest hx hy

theorem Extremum.isFinite_foldl (e : Extremum) {xs : List Float}
    (hxs : ∀ x ∈ xs, x.isFinite = true) {x : Float} (hx : x.isFinite = true) :
    (xs.foldl e.ofDoubles x).isFinite = true := by
  induction xs generalizing x with
  | nil => exact hx
  | cons y xs ih =>
    rw [List.forall_mem_cons] at hxs
    exact ih hxs.2 (e.isFinite_ofDoubles hx hxs.1)

theorem Extremum.gives_isFinite_apply (e : Extremum) (function : String) {first : Value}
    {rest : List Value} (hfirst : first.IsFinite) (hrest : ∀ v ∈ rest, v.IsFinite) :
    Gives IsFinite (e.apply function first rest) := by
  rw [apply]
  split
  · exact .error _
  split
  · exact .ok trivial
  · exact (gives_isFinite_toFloat? hfirst).bind fun x hx =>
      (Gives.mapM fun v hv => gives_isFinite_toFloat? (hrest v hv)).bind fun xs hxs =>
        .ok (e.isFinite_foldl hxs hx)

namespace Builtin

theorem gives_isFinite_absoluteValue (ha : a.IsFinite) : Gives IsFinite (absoluteValue a) := by
  cases a with
  | integer n => exact gives_isFinite_ofInt? _
  | float x => exact .ok (Binary64.isFinite_abs ha)
  | _ => exact .error _

theorem gives_isFinite_squareRoot (ha : a.IsFinite) : Gives IsFinite (squareRoot a) := by
  rw [squareRoot]
  split
  · refine (gives_isFinite_toFloat? ha).bind fun x hx => ?_
    split
    · exact .error _
    · next hneg => exact .ok (Binary64.isFinite_sqrt hx hneg)
  · exact .error _

theorem gives_isFinite_toInteger (a : Value) : Gives IsFinite (toInteger a) := by
  cases a with
  | float x => exact gives_isFinite_truncate? x
  | string s =>
    rw [toInteger]
    split
    · exact .ok trivial
    · exact .error _
  | walou => exact .error _
  | _ => exact .ok trivial

/-- A string is read as a finite number, or it is refused. -/
theorem gives_isFinite_toFloating (ha : a.IsFinite) : Gives IsFinite (toFloating a) := by
  rw [toFloating.eq_def]
  split
  · split
    · next hx => exact .ok (Option.filter_eq_some_iff.1 hx).2
    · exact .error _
  · split
    · exact (gives_isFinite_toFloat? ha).map fun _ hx => hx
    · exact .error _

theorem gives_isFinite_length (a : Value) : Gives IsFinite (length a) := by
  cases a with
  | string s => exact gives_isFinite_ofInt? _
  | _ => exact .error _

theorem gives_isFinite_apply (f : Builtin) {first : Value} {rest : List Value}
    (hfirst : first.IsFinite) (hrest : ∀ v ∈ rest, v.IsFinite) :
    Gives IsFinite (f.apply first rest) := by
  cases f with
  | abs => exact gives_isFinite_absoluteValue hfirst
  | sqrt => exact gives_isFinite_squareRoot hfirst
  | int => exact gives_isFinite_toInteger first
  | float => exact gives_isFinite_toFloating hfirst
  | str => exact .ok trivial
  | len => exact gives_isFinite_length first
  | type => exact .ok trivial
  | min => exact Extremum.gives_isFinite_apply _ _ hfirst hrest
  | max => exact Extremum.gives_isFinite_apply _ _ hfirst hrest

end Builtin

theorem gives_isFinite_callFunction (name : String) {arguments : List Value}
    (h : ∀ v ∈ arguments, v.IsFinite) : Gives IsFinite (callFunction name arguments) := by
  rw [callFunction]
  split
  · exact .error _
  split
  · exact .error _
  · rw [List.forall_mem_cons] at h
    split
    · exact Builtin.gives_isFinite_apply _ h.1 h.2
    · exact .error _

end DarjaLang
