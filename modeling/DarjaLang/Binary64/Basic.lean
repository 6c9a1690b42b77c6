/-!
# Exact views of double precision numbers

A finite double is `± m · 2 ^ e` for a natural number `m` and an integer `e`, so what the language
asks of it beyond the basic arithmetic can be answered in exact integer arithmetic.

* `Binary64.ofInt` is the double nearest to an integer.
* `Binary64.trunc` cuts off the fractional part of a double, and `Binary64.fract` is the rest.
* `Binary64.toInt64` makes an integer of 64 bits out of any double, the nearest one if the double is
  out of range.
* `Binary64.remainder` is what is left of a division toward zero; it has the sign of the dividend
  and is never rounded, because it is a multiple of a power of two that both operands share.
* `Binary64.least` and `Binary64.greatest` choose between two doubles and pass over NaN.
-/

set_option autoImplicit false

namespace DarjaLang

open Float.Model (UnpackedFloat Format)

namespace Binary64

/-- Sign, mantissa and binary exponent of a double. -/
def unpack (x : Float) : UnpackedFloat := x.toModel.unpack

/-- The double with a given sign, mantissa and exponent. -/
def pack (u : UnpackedFloat) : Float := Float.ofModel (Float.Model.pack u)

/-- The double nearest to an integer, a half going to the even neighbour. -/
def ofInt (n : Int) : Float := pack (UnpackedFloat.ofInt .binary64 n)

/-- The double nearest to `m · 10 ^ e`; infinite if that is too large. -/
def ofDecimal (m : Nat) (e : Int) : Float := pack (UnpackedFloat.ofScientific .binary64 m e)

/-- The fraction `m · 2 ^ e`, as numerator and denominator. -/
def fraction (m : Nat) (e : Int) : Nat × Nat := (m * Nat.pow 2 e.toNat, Nat.pow 2 (-e).toNat)

/-- A double without its fractional part.  It keeps its sign, also when nothing but zero is left.
Without a negative exponent there is no fractional part, and infinities and NaN stay as they are. -/
def trunc (x : Float) : Float :=
  match unpack x with
  | .finite sign m e _ =>
    if 0 ≤ e then x
    else
      let (num, den) := fraction m e
      pack (UnpackedFloat.normalize .binary64 (sign.apply ↑(num / den)) 0 sign)
  | _ => x

/-- The fractional part of a double, with its sign; NaN if there is none to speak of. -/
def fract (x : Float) : Float := x - trunc x

/-- A double as an integer of 64 bits: without its fractional part, and if that is out of range the
end of the range that is nearer.  NaN becomes zero. -/
def toInt64 (x : Float) : Int64 := x.toModel.toInt64

/-- The remainder of the division toward zero, computed without rounding.  It is undefined for an
infinite dividend and for a zero divisor, and an infinite divisor leaves the dividend as it is. -/
def remainder (x y : Float) : Float :=
  match unpack x, unpack y with
  | .finite sign m e _, .finite _ n f _ =>
    let shared := min e f
    let rest := (m * Nat.pow 2 (e - shared).toNat) % (n * Nat.pow 2 (f - shared).toNat)
    pack (UnpackedFloat.normalize .binary64 (sign.apply ↑rest) shared sign)
  | .zero sign, .finite _ _ _ _ => pack (.zero sign)
  | .zero sign, .infinity _ => pack (.zero sign)
  | .finite _ _ _ _, .infinity _ => x
  | _, _ => pack .notANumber

/-- The smaller of two doubles, the first if they are equal; NaN counts only beside NaN. -/
def least (x y : Float) : Float := if x.isNaN || y < x then y else x

/-- The larger of two doubles, the first if they are equal; NaN counts only beside NaN. -/
def greatest (x y : Float) : Float := if x.isNaN || x < y then y else x

end Binary64

end DarjaLang
