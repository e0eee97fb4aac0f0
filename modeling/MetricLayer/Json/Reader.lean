import MetricLayer.Json.Basic

/-!
# Reading JSON text

A strict reader: no text before or after the value, no trailing comma, no unescaped control
character, no unpaired surrogate, at most 127 nested containers. Fields are kept in the order of
the text, repeated keys included.

A number with a fraction, an exponent or more digits than 64 bits hold is a binary64. It is the
significand, taken from as many digits as 64 bits hold, converted and then scaled once by a power
of ten, which is not always the nearest binary64 to the decimal text.
-/

namespace MetricLayer.Json

/-- Drop the spaces, tabs and line ends that may stand between tokens. -/
def skipSpace (cs : List Char) : List Char :=
  cs.dropWhile fun c => c = ' ' || c = '\n' || c = '\t' || c = '\r'

/-- The value of a hexadecimal digit. -/
def hexValue? (c : Char) : Option Nat :=
  if '0' ≤ c && c ≤ '9' then some (c.toNat - '0'.toNat)
  else if 'a' ≤ c && c ≤ 'f' then some (c.toNat - 'a'.toNat + 10)
  else if 'A' ≤ c && c ≤ 'F' then some (c.toNat - 'A'.toNat + 10)
  else none

/-- The value of four hexadecimal digits. -/
def hex4? (a b c d : Char) : Option Nat := do
  return ((← hexValue? a) * 16 + (← hexValue? b)) * 256 + (← hexValue? c) * 16 + (← hexValue? d)

/-- The character that a single escaped character stands for. -/
def simpleEscape? (c : Char) : Option Char :=
  if c = '"' || c = '\\' || c = '/' then some c
  else if c = 'b' then some '\x08'
  else if c = 'f' then some '\x0c'
  else if c = 'n' then some '\n'
  else if c = 'r' then some '\r'
  else if c = 't' then some '\t'
  else none

/-- Whether a UTF-16 unit is the first half of a pair. -/
def isHighSurrogate (n : Nat) : Bool := 0xD800 ≤ n && n ≤ 0xDBFF

/-- Whether a UTF-16 unit is the second half of a pair. -/
def isLowSurrogate (n : Nat) : Bool := 0xDC00 ≤ n && n ≤ 0xDFFF

/-- The characters of a string up to its closing quote, and the text after the quote. -/
def stringBody : List Char → Option (List Char × List Char)
  | [] => none
  | '"' :: rest => some ([], rest)
  | '\\' :: 'u' :: a :: b :: c :: d :: rest => do
    let unit ← hex4? a b c d
    if isHighSurrogate unit then
      match rest with
      | '\\' :: 'u' :: e :: f :: g :: h :: more =>
        let second ← hex4? e f g h
        if isLowSurrogate second then
          let (body, after) ← stringBody more
          return (Char.ofNat (0x10000 + (unit - 0xD800) * 0x400 + (second - 0xDC00)) :: body, after)
        else none
      | _ => none
    else if isLowSurrogate unit then none
    else
      let (body, after) ← stringBody rest
      return (Char.ofNat unit :: body, after)
  | '\\' :: c :: rest => do
    let escaped ← simpleEscape? c
    let (body, after) ← stringBody rest
    return (escaped :: body, after)
  | c :: rest =>
    if c.toNat < 0x20 || c = '\\' then none
    else do
      let (body, after) ← stringBody rest
      return (c :: body, after)

/-- The value of a decimal digit. -/
def digitValue (c : Char) : Nat := c.toNat - '0'.toNat

/-- Whether one more digit would push a significand over 64 bits. -/
def overflows (significand digit : Nat) : Bool :=
  UInt64.size ≤ significand * 10 + digit

/-- Digits before the point: the significand that 64 bits hold, and how many digits were left
out. -/
def integerDigits (significand dropped : Nat) : List Char → Nat × Nat
  | [] => (significand, dropped)
  | c :: rest =>
    if 0 < dropped || overflows significand (digitValue c) then
      integerDigits significand (dropped + 1) rest
    else integerDigits (significand * 10 + digitValue c) 0 rest

/-- Digits after the point: the significand extended by as many as fit, and their number. -/
def fractionDigits (significand taken : Nat) : List Char → Nat × Nat
  | [] => (significand, taken)
  | c :: rest =>
    if overflows significand (digitValue c) then (significand, taken)
    else fractionDigits (significand * 10 + digitValue c) (taken + 1) rest

/-- The power of ten with the given exponent as a binary64. -/
def powerOfTen (exponent : Nat) : Float := Float.ofScientific 1 false exponent

/-- Divide by powers of ten no greater than `10^308` until the exponent is used up or nothing is
left. -/
def scaleDown (f : Float) (exponent : Nat) : Nat → Float
  | 0 => f
  | steps + 1 =>
    if exponent ≤ 308 then f / powerOfTen exponent
    else if f == 0.0 then f
    else scaleDown (f / powerOfTen 308) (exponent - 308) steps

/-- `significand · 10^exponent` as a binary64 magnitude, or nothing where it is too great. -/
def scaled? (significand : Nat) (exponent : Int) : Option Float :=
  let f := significand.toUInt64.toFloat
  if exponent < 0 then some (scaleDown f exponent.natAbs 4)
  else if 308 < exponent then if f == 0.0 then some f else none
  else
    let g := f * powerOfTen exponent.toNat
    if g.isInf then none else some g

/-- A binary64 with the given sign. -/
def signed (negative : Bool) (f : Float) : Number :=
  .float (if negative then -f else f).toBits

/-- An exponent: its mark, an optional sign and at least one digit. The text before it is returned
unchanged where no mark stands. -/
def exponentPart (cs : List Char) : Option (Option Int × List Char) :=
  match cs with
  | c :: rest =>
    if c = 'e' || c = 'E' then
      let (negative, rest) := match rest with
        | '-' :: more => (true, more)
        | '+' :: more => (false, more)
        | _ => (false, rest)
      let digits := rest.takeWhile Char.isDigit
      if digits.isEmpty then none
      else
        let n : Nat := digits.foldl (fun n c => n * 10 + digitValue c) 0
        some (some (if negative then -(n : Int) else n), rest.dropWhile Char.isDigit)
    else some (none, cs)
  | [] => some (none, cs)

/-- An unsigned number: digits without a superfluous leading zero, then optionally a point with
digits and an exponent. -/
def numberBody (negative : Bool) (cs : List Char) : Option (Number × List Char) := do
  let whole := cs.takeWhile Char.isDigit
  let rest := cs.dropWhile Char.isDigit
  if whole.isEmpty || (whole.head? = some '0' && 1 < whole.length) then none
  else
    let (significand, dropped) := integerDigits 0 0 whole
    let (fraction, rest) ← match rest with
      | '.' :: more =>
        let digits := more.takeWhile Char.isDigit
        if digits.isEmpty then none else some (some digits, more.dropWhile Char.isDigit)
      | _ => some (none, rest)
    let (exponent, rest) ← exponentPart rest
    if fraction.isNone && exponent.isNone && dropped = 0 then
      if negative then
        if significand = 0 || UInt64.size / 2 < significand then
          return (signed true significand.toUInt64.toFloat, rest)
        else return (.int (-(significand : Int)), rest)
      else return (.int significand, rest)
    else
      let (significand, taken) := fractionDigits significand 0 (fraction.getD [])
      let f ← scaled? significand ((dropped : Int) - taken + exponent.getD 0)
      return (signed negative f, rest)

/-- A number with an optional minus sign. -/
def number? : List Char → Option (Number × List Char)
  | '-' :: rest => numberBody true rest
  | cs => numberBody false cs

/-- Entries divided by commas up to the closing bracket. The first argument reads one entry; the
second bounds the number of entries. -/
def entries {α : Type} (entry : List Char → Option (α × List Char)) (closing : Char) :
    Nat → List Char → Option (List α × List Char)
  | 0, _ => none
  | fuel + 1, cs => do
    let (first, rest) ← entry (skipSpace cs)
    match skipSpace rest with
    | ',' :: more =>
      let (others, after) ← entries entry closing fuel more
      return (first :: others, after)
    | c :: more => if c = closing then return ([first], more) else none
    | [] => none

/-- The inside of a container, which may be empty. -/
def container {α : Type} (entry : List Char → Option (α × List Char)) (closing : Char)
    (cs : List Char) : Option (List α × List Char) :=
  match skipSpace cs with
  | c :: rest => if c = closing then some ([], rest) else entries entry closing cs.length cs
  | [] => none

/-- One field of an object, its value read by the given reader. -/
def fieldEntry (value : List Char → Option (Json × List Char)) (cs : List Char) :
    Option ((String × Json) × List Char) :=
  match cs with
  | '"' :: rest => do
    let (key, rest) ← stringBody rest
    match skipSpace rest with
    | ':' :: more =>
      let (json, after) ← value (skipSpace more)
      return ((String.ofList key, json), after)
    | _ => none
  | _ => none

/-- A literal word, and the value it stands for. -/
def literal? (word : String) (json : Json) (cs : List Char) : Option (Json × List Char) :=
  if word.toList.isPrefixOf cs then some (json, cs.drop word.length) else none

/-- A value that is not a container. -/
def scalar (cs : List Char) : Option (Json × List Char) :=
  match cs with
  | '"' :: rest => (stringBody rest).map fun (body, after) => (.string (String.ofList body), after)
  | 'n' :: _ => literal? "null" .null cs
  | 't' :: _ => literal? "true" (.bool true) cs
  | 'f' :: _ => literal? "false" (.bool false) cs
  | _ => (number? cs).map fun (n, after) => (.number n, after)

/-- A value with at most `depth` nested containers, starting at its first character. -/
def value : (depth : Nat) → List Char → Option (Json × List Char)
  | 0, cs => scalar cs
  | depth + 1, cs =>
    match cs with
    | '[' :: rest =>
      (container (value depth) ']' rest).map fun (items, after) => (.array items, after)
    | '\x7b' :: rest =>
      (container (fieldEntry (value depth)) '\x7d' rest).map fun (fields, after) =>
        (.object fields, after)
    | _ => scalar cs

/-- How many containers may enclose a value. -/
def depthLimit : Nat := 127

/-- Read a text that holds one value. -/
def parse? (text : String) : Option Json := do
  let (json, rest) ← value depthLimit (skipSpace text.toList)
  if (skipSpace rest).isEmpty then some json else none

end MetricLayer.Json
