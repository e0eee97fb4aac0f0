/-!
# Shortest decimal digits of a binary64

A finite binary64 is `m · 2^q`. Every real number in the interval around it, up to the midpoints
between it and its two neighbours, reads back as the same binary64; the midpoints belong to the
interval exactly when `m` is even. The shortest digits of a number are those of the coarsest
decimal grid that has a point in this interval, and on that grid the point nearest to the number.
-/

namespace MetricLayer.Decimal

/-- A positive binary64 `m · 2^q` as its significand and its exponent. -/
structure Binary where
  /-- The significand `m`. -/
  significand : Nat
  /-- The exponent `q`. -/
  exponent : Int
  /-- The neighbour below is half as far away as the one above. -/
  closeBelow : Bool

/-- The magnitude that the bits of a finite binary64 stand for. -/
def Binary.ofBits (bits : UInt64) : Binary :=
  let fraction : Nat := bits.toNat % Nat.pow 2 52
  let biased : Nat := bits.toNat / Nat.pow 2 52 % Nat.pow 2 11
  if biased = 0 then ⟨fraction, -1074, false⟩
  else ⟨Nat.pow 2 52 + fraction, (biased : Int) - 1075, fraction = 0 && biased ≠ 1⟩

/-- Decimal digits together with the place of the decimal point: `0.d₁d₂… · 10^point`. -/
structure Digits where
  /-- The digits, read as one natural number. -/
  digits : Nat
  /-- The place of the decimal point, counted from before the first digit. -/
  point : Int
deriving DecidableEq, Repr

/-- A positive rational with its two interval ends over one denominator. -/
structure Interval where
  /-- Lower end. -/
  low : Nat
  /-- The number itself. -/
  value : Nat
  /-- Upper end. -/
  high : Nat
  /-- Common denominator. -/
  scale : Nat
  /-- Whether the two ends belong to the interval. -/
  closed : Bool

/-- The interval of reals that read back as the given number. -/
def Binary.interval (b : Binary) : Interval :=
  let up := Nat.pow 2 (b.exponent - 2).toNat
  { low := (4 * b.significand - (if b.closeBelow then 1 else 2)) * up
    value := 4 * b.significand * up
    high := (4 * b.significand + 2) * up
    scale := Nat.pow 2 (2 - b.exponent).toNat
    closed := b.significand % 2 = 0 }

/-- The least `k ≤ fuel` with `value · 10^k ≥ scale`, so that the number has `k - 1` zeros after
its decimal point. -/
def zerosBelowOne (value scale : Nat) : Nat → Nat
  | 0 => 0
  | fuel + 1 => if scale ≤ value then 0 else zerosBelowOne (value * 10) scale fuel + 1

/-- The place of the decimal point of a positive number, counted from before its first digit. -/
def Interval.point (i : Interval) : Int :=
  if i.scale ≤ i.value then ((Nat.toDigits 10 (i.value / i.scale)).length : Int)
  else 1 - (zerosBelowOne i.value i.scale 400 : Int)

/-- Whether `n / d`, scaled like the interval, lies in it. -/
def Interval.contains (i : Interval) (n d : Nat) : Bool :=
  if i.closed then i.low * d ≤ n && n ≤ i.high * d else i.low * d < n && n < i.high * d

/-- The point of the grid of `count` digits that lies in the interval and is nearest to its
number; of two points equally near the even one. -/
def Interval.onGrid (i : Interval) (point : Int) (count : Nat) : Option Digits :=
  let step := point - count
  let num := i.scale * Nat.pow 10 step.toNat
  let den := Nat.pow 10 (-step).toNat
  let below := i.value * den / num
  let fits (k : Nat) : Bool := i.contains (k * num) den
  let chosen : Option Nat :=
    if fits below && fits (below + 1) then
      let down := i.value * den - below * num
      let up := (below + 1) * num - i.value * den
      some (if down < up || (down = up && below % 2 = 0) then below else below + 1)
    else if fits below then some below
    else if fits (below + 1) then some (below + 1)
    else none
  chosen.map fun k => if k = Nat.pow 10 count then ⟨1, point + 1⟩ else ⟨k, point⟩

/-- The shortest digits that read back as the number, for a number other than zero. Seventeen
digits always suffice. -/
def Binary.shortest (b : Binary) : Digits :=
  let i := b.interval
  let point := i.point
  ((List.range 17).findSome? fun k => i.onGrid point (k + 1)).getD ⟨0, 0⟩

end MetricLayer.Decimal
