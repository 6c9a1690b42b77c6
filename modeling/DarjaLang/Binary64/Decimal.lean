import DarjaLang.Numeral
import DarjaLang.Binary64.Basic

/-!
# Decimal texts of double precision numbers

A double can be written with a fixed count of decimal places (`Binary64.fixed`), or with as few
digits as it takes to read it back (`Binary64.shortest`), never with an exponent.  In the shortest
text a whole number has no point, and so the language writes whole numbers with one decimal place
and only the others with the shortest text (`Binary64.text`).

* `Binary64.ofDigits` reads a run of digits before and after the point.
* `Binary64.rounded` is the exact value rounded to a count of places, a half to the even neighbour.
* `Binary64.reading` chooses the shortest digits: it looks at the two neighbours of the exact value
  on a grid of decimals, from the coarsest grid on, which has nothing but zeros before the point, to
  finer and finer ones, and stops at the first grid on which a neighbour reads back.  A double
  `m / 2 ^ s` is itself a point of the grid of `s` places, so the search ends there at the latest.
* `Binary64.ofText?` reads a number as a person may write it: with a sign, without digits on one
  side of the point, with an exponent, or by name.
-/

set_option autoImplicit false

namespace DarjaLang

open Float.Model (UnpackedFloat Format)

namespace Binary64

/-! ## Reading digits -/

/-- The double nearest to the number written `whole.part`. -/
def ofDigits (whole part : List Char) : Float :=
  ofDecimal (Numeral.value (whole ++ part)) (-part.length)

/-! ## Choosing digits -/

/-- A number with a fixed count of decimal places, as the integer that is left when the point is
taken away. -/
structure Decimal where
  unscaled : Nat
  places : Nat
  deriving DecidableEq, Repr

namespace Decimal

/-- The double nearest to a decimal. -/
def toDouble (d : Decimal) : Float := ofDecimal d.unscaled (-d.places)

/-- The digits, with the point put back if there are places behind it. -/
def text (d : Decimal) : List Char :=
  Numeral.digits (d.unscaled / Nat.pow 10 d.places) ++
    if d.places = 0 then []
    else '.' :: (Numeral.digits (d.unscaled % Nat.pow 10 d.places)).leftpad d.places '0'

end Decimal

/-- The decimal with a fixed count of places that is nearest to `m · 2 ^ e`, an even one if two are
equally near. -/
def rounded (m : Nat) (e : Int) (places : Nat) : Decimal :=
  let (num, den) := fraction m e
  let scaled := num * Nat.pow 10 places
  let below := scaled / den
  match compare (2 * (scaled % den)) den with
  | .lt => ⟨below, places⟩
  | .eq => ⟨below + below % 2, places⟩
  | .gt => ⟨below + 1, places⟩

/-- A grid of decimals: those that have so many zeros before the point, or so many places behind
it. -/
inductive Grid where
  | zeros (count : Nat)
  | places (count : Nat)
  deriving DecidableEq, Repr

/-- The decimal with a number on a grid. -/
def Grid.decimal : Grid → Nat → Decimal
  | zeros count, n => ⟨n * Nat.pow 10 count, 0⟩
  | places count, n => ⟨n, count⟩

/-- A fraction in units of a grid. -/
def Grid.scale (grid : Grid) (num den : Nat) : Nat × Nat :=
  match grid with
  | zeros count => (num, den * Nat.pow 10 count)
  | places count => (num * Nat.pow 10 count, den)

/-- Whether a decimal is read as a double. -/
def Decimal.readsAs (d : Decimal) (x : Float) : Bool := d.toDouble.toBits == x.toBits

/-- The neighbour of `num / den` on a grid that reads back as `x`.  If both do it is the nearer one,
and the upper one if they are equally near. -/
def neighbour? (x : Float) (num den : Nat) (grid : Grid) : Option Decimal :=
  let (num, den) := grid.scale num den
  let below := grid.decimal (num / den)
  let above := grid.decimal (num / den + 1)
  match below.readsAs x, above.readsAs x with
  | true, true => some (if 2 * (num % den) < den then below else above)
  | true, false => some below
  | false, true => some above
  | false, false => none

/-- The grids to look at, from the coarsest one on. -/
def grids (zeros places : Nat) : List Grid :=
  (List.range zeros).reverse.map (fun count => .zeros (count + 1)) ++
    (List.range (places + 1)).map .places

/-- The shortest decimal that reads back as the positive double `m · 2 ^ e`.  The first grid has as
many zeros as there are digits before the point, and on the last one the decimal is exact. -/
def reading (m : Nat) (e : Int) (pos : 0 < m) : Decimal :=
  let (num, den) := fraction m e
  let found? := (grids (Numeral.digits (num / den)).length (-e).toNat).findSome?
    (neighbour? (pack (.finite .positive m e pos)) num den)
  found?.getD (rounded m e (-e).toNat)

/-! ## The text of a double -/

/-- The sign in front of a number. -/
def signText : UnpackedFloat.Sign → String
  | .negative => "-"
  | .positive => ""

/-- A double with its sign, or its name.  `digits` chooses the digits of a positive one, and zero
has `zeroPlaces` places. -/
def render (zeroPlaces : Nat) (digits : (m : Nat) → Int → 0 < m → Decimal) (x : Float) : String :=
  match unpack x with
  | .notANumber => "NaN"
  | .infinity sign => signText sign ++ "inf"
  | .zero sign => signText sign ++ String.ofList (Decimal.text ⟨0, zeroPlaces⟩)
  | .finite sign m e pos => signText sign ++ String.ofList (digits m e pos).text

/-- A double with a fixed count of decimal places. -/
def fixed (places : Nat) : Float → String := render places fun m e _ => rounded m e places

/-- A double with as few digits as it takes to read it back. -/
def shortest : Float → String := render 0 reading

/-- A double as the language writes it.  Whole numbers keep a decimal place, so that they never read
as integers. -/
def text (x : Float) : String :=
  if x.isFinite && fract x == 0.0 then fixed 1 x else shortest x

/-! ## Reading a number as it may be typed -/

/-- The exponent behind a mantissa: nothing, or `e` with an integer. -/
def exponent? : List Char → Option Int
  | [] => some 0
  | c :: cs => if c = 'e' ∨ c = 'E' then Numeral.integer? cs else none

/-- A number without a sign: digits with at most one point among them and at least one digit, then
an exponent; or one of the words for infinity and NaN in any case. -/
def unsigned? (cs : List Char) : Option Float :=
  match String.ofList (cs.map Char.toLower) with
  | "inf" => some (pack (.infinity .positive))
  | "infinity" => some (pack (.infinity .positive))
  | "nan" => some (pack .notANumber)
  | _ =>
    let (whole, rest) := cs.span Char.isDigit
    let (part, rest) := match rest with
      | '.' :: rest => rest.span Char.isDigit
      | rest => ([], rest)
    if whole.isEmpty && part.isEmpty then none
    else (exponent? rest).map fun e =>
      ofDecimal (Numeral.value (whole ++ part)) (e - part.length)

/-- A number behind an optional sign. -/
def ofText? : List Char → Option Float
  | '+' :: cs => unsigned? cs
  | '-' :: cs => (unsigned? cs).map Float.neg
  | cs => unsigned? cs

end Binary64

end DarjaLang
