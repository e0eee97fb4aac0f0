import MetricLayer.Decimal.Shortest

/-!
# Text of a binary64

The decisions that turn shortest digits into text, kept in one record.
-/

namespace MetricLayer.Decimal

/-- How the digits of a number are laid out. -/
structure Layout where
  /-- Least exponent of the leading digit that is still written without an exponent. -/
  leastPlain : Int
  /-- Greatest exponent of the leading digit that is still written without an exponent. -/
  greatestPlain : Int
  /-- The mark before an exponent. -/
  mark : String
  /-- Sign written before an exponent that is not negative. -/
  plus : String

/-- Plain notation from `10^-5` to below `10^16`, otherwise `d.ddde+16` and `d.ddde-6`. -/
def Layout.standard : Layout :=
  ⟨-5, 15, "e", "+"⟩

/-- Drop the zeros at the end of a digit list. -/
def dropTrailingZeros (cs : List Char) : List Char :=
  (cs.reverse.dropWhile (· = '0')).reverse

/-- Digits without an exponent, with at least one digit on each side of the point. -/
def plainText (cs : List Char) (point : Int) : String :=
  if point ≤ 0 then
    String.ofList ('0' :: '.' :: List.replicate (-point).toNat '0' ++ cs)
  else if cs.length ≤ point.toNat then
    String.ofList (cs ++ List.replicate (point.toNat - cs.length) '0' ++ ['.', '0'])
  else
    String.ofList (cs.take point.toNat ++ '.' :: cs.drop point.toNat)

/-- Digits with an exponent; a single digit has no point. -/
def exponentText (layout : Layout) (cs : List Char) (exponent : Int) : String :=
  let lead := String.ofList (cs.take 1)
  let tail := if cs.length ≤ 1 then "" else "." ++ String.ofList (cs.drop 1)
  let sign := if exponent < 0 then "-" else layout.plus
  lead ++ tail ++ layout.mark ++ sign ++ Nat.repr exponent.natAbs

/-- The text of a magnitude given by its digits. -/
def Digits.text (layout : Layout) (d : Digits) : String :=
  let cs := dropTrailingZeros (Nat.toDigits 10 d.digits)
  let exponent := d.point - 1
  if layout.leastPlain ≤ exponent && exponent ≤ layout.greatestPlain then plainText cs d.point
  else exponentText layout cs exponent

/-- The text of a finite binary64 given by its bits. The sign of zero is kept. -/
def textOfBits (layout : Layout) (bits : UInt64) : String :=
  let b := Binary.ofBits bits
  let magnitude := if b.significand = 0 then "0.0" else b.shortest.text layout
  if UInt64.size / 2 ≤ bits.toNat then "-" ++ magnitude else magnitude

end MetricLayer.Decimal
