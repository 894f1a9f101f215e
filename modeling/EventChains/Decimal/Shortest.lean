/-!
# Shortest decimals

A finite binary64 number other than zero is a sign and a magnitude `m * 2 ^ q`. Its rounding
interval holds the reals that round to it; the ends belong to it exactly when `m` is even.
`Magnitude.shortest` is the decimal with the fewest digits in that interval, and of several such
the one nearest to the magnitude; a `Tie` decides between two that are equally near. All arithmetic
is exact, on natural numbers.
-/

namespace EventChains

/-- A decimal `digits * 10 ^ exponent`. -/
structure Decimal where
  digits : Nat
  exponent : Int
  deriving DecidableEq, Repr

namespace Decimal

/-- Which of two neighbouring decimals stands for a magnitude half way between them. -/
inductive Tie where
  /-- The greater one. -/
  | up
  /-- The one with the even last digit. -/
  | even
  deriving DecidableEq, Repr

/-- Whether the lower one of two neighbours, with the digits `below`, wins a tie. -/
def Tie.takesBelow (tie : Tie) (below : Nat) : Bool :=
  match tie with
  | up => false
  | even => below % 2 = 0

/-- A magnitude `m * 2 ^ q`. In the smallest normal significand the next smaller number is only
half as far away as the next greater one; `narrowBelow` says so. -/
structure Magnitude where
  m : Nat
  q : Int
  narrowBelow : Bool
  deriving DecidableEq, Repr

namespace Magnitude

/-- The magnitude of the finite number with the bits `bits`. -/
def ofBits (bits : UInt64) : Magnitude :=
  -- the leading bit, which is not stored
  let hidden := 0x10000000000000
  let fraction := bits.toNat % hidden
  let exponent := bits.toNat / hidden % 0x800
  if exponent = 0 then ⟨fraction, -1074, false⟩
  else ⟨hidden + fraction, Int.ofNat exponent - 1075, fraction = 0 && exponent ≠ 1⟩

/-- On the grid of the multiples of `10 ^ k`, a quarter of `2 ^ q` is `scale.1` parts and a step
is `scale.2` parts. -/
def scale (x : Magnitude) (k : Int) : Nat × Nat :=
  (Nat.pow 2 (x.q - 2).toNat * Nat.pow 10 (-k).toNat,
    Nat.pow 2 (2 - x.q).toNat * Nat.pow 10 k.toNat)

/-- The lower end of the rounding interval, in quarters of `2 ^ q`. -/
def lower (x : Magnitude) : Nat :=
  4 * x.m - if x.narrowBelow then 1 else 2

/-- The upper end of the rounding interval, in quarters of `2 ^ q`. -/
def upper (x : Magnitude) : Nat :=
  4 * x.m + 2

/-- Whether `d * 10 ^ k` lies in the rounding interval. -/
def holds (x : Magnitude) (k : Int) (d : Nat) : Bool :=
  let (quarter, unit) := x.scale k
  if x.m % 2 = 0 then x.lower * quarter ≤ d * unit && d * unit ≤ x.upper * quarter
  else x.lower * quarter < d * unit && d * unit < x.upper * quarter

/-- The multiple of `10 ^ k` in the rounding interval that is nearest to the magnitude, if there
is one. It is one of the two neighbours of the magnitude on the grid. -/
def onGrid? (x : Magnitude) (tie : Tie) (k : Int) : Option Decimal :=
  let (quarter, unit) := x.scale k
  let below := 4 * x.m * quarter / unit
  let above := below + 1
  match x.holds k below, x.holds k above with
  | false, false => none
  | true, false => some ⟨below, k⟩
  | false, true => some ⟨above, k⟩
  | true, true =>
      let twice := 8 * x.m * quarter
      let middle := (2 * below + 1) * unit
      some ⟨if twice < middle || (twice = middle && tie.takesBelow below) then below else above, k⟩

/-- An exponent of ten that is greater than the magnitude: `log 2 < 0.30103`. -/
def topExponent (x : Magnitude) : Int :=
  ((x.m.log2 : Int) + 1 + x.q) * 30103 / 100000 + 2

/-- The magnitude itself as a decimal, with all its digits. -/
def exact (x : Magnitude) : Decimal :=
  if 0 ≤ x.q then ⟨x.m * Nat.pow 2 x.q.toNat, 0⟩ else ⟨x.m * Nat.pow 5 (-x.q).toNat, x.q⟩

/-- The shortest decimal in the rounding interval. The grids are tried from the coarsest on;
seventeen digits are always enough. -/
def shortest (x : Magnitude) (tie : Tie) : Decimal :=
  ((List.range 24).findSome? fun i => x.onGrid? tie (x.topExponent - Int.ofNat i)).getD x.exact

end Magnitude

end Decimal

end EventChains
