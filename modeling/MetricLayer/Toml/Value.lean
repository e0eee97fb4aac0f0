/-!
# TOML values

The values of a configuration text. No setting and no part of a schema is a number or a date, so a
date is kept as it is written and of a floating-point number only its magnitude is kept.
-/

namespace MetricLayer.Toml

/-- The magnitude of a floating-point number as written. -/
inductive Magnitude
  | infinite
  | notANumber
  /-- `significand · 10^exponent`. -/
  | finite (significand : Nat) (exponent : Int)
deriving DecidableEq, Repr

namespace Magnitude

/-- The least number that is too large for binary64: half a unit above its largest number. -/
def tooLarge : Nat := Nat.pow 2 1024 - Nat.pow 2 970

/-- Whether binary64 has a number for it. A number of 310 digits is too large and one of 308 digits
is not; only in between are the numbers compared. -/
def isRepresentable : Magnitude → Bool
  | .infinite | .notANumber => true
  | .finite significand exponent =>
    let digits : Int := (Nat.toDigits 10 significand).length + exponent
    if significand = 0 || digits < 309 then true
    else if 309 < digits then false
    else significand * Nat.pow 10 exponent.toNat < tooLarge * Nat.pow 10 (-exponent).toNat

end Magnitude

/-- A TOML value. -/
inductive Value
  | string (text : String)
  | boolean (value : Bool)
  | integer (value : Int)
  | float (magnitude : Magnitude)
  | datetime (text : String)
  | array (items : List Value)
  | table (entries : List (String × Value))
deriving Repr, Inhabited

/-- Values under their names. -/
abbrev Record := List (String × Value)

namespace Record

/-- A field that must be present, read by the given reader. -/
def required? {α : Type} (fields : Record) (name : String) (read : Value → Option α) : Option α :=
  fields.lookup name >>= read

/-- A field that may be missing. -/
def optional? {α : Type} (fields : Record) (name : String) (read : Value → Option α) :
    Option (Option α) :=
  match fields.lookup name with
  | none => some none
  | some value => (read value).map some

/-- A field that has a default. -/
def orDefault? {α : Type} (fields : Record) (name : String) (default : α)
    (read : Value → Option α) : Option α :=
  (fields.optional? name read).map (·.getD default)

end Record

namespace Value

/-- A string. -/
def text? : Value → Option String
  | .string s => some s
  | _ => none

/-- A truth value. -/
def bool? : Value → Option Bool
  | .boolean b => some b
  | _ => none

/-- An array of which every item is read by the given reader. -/
def list? {α : Type} (item : Value → Option α) : Value → Option (List α)
  | .array items => items.mapM item
  | _ => none

/-- Whether a value is an array or a table without entries. -/
def isEmptyContainer : Value → Bool
  | .array [] | .table [] => true
  | _ => false

/-- A name, also in the form of a table with that key and an empty container. -/
def name? : Value → Option String
  | .string s => some s
  | .table [(name, value)] => if value.isEmptyContainer then some name else none
  | _ => none

/-- The key under which a date counts as a table with one entry; no record has a field of that
name. -/
def datetimeKey : String := "datetime"

/-- The entries of a table, or the items of an array under the given names in order; further items
are dropped. -/
def record? (names : List String) : Value → Option Record
  | .table entries => some entries
  | .array items => some (names.zip items)
  | .datetime text => some [(datetimeKey, .string text)]
  | _ => none

mutual

/-- Whether every number in a value can be represented: an integer in 128 bits with or without a
sign, a floating-point number in binary64. -/
def isRepresentable : Value → Bool
  | .integer n => -(Nat.pow 2 127 : Int) ≤ n && n < (Nat.pow 2 128 : Int)
  | .float magnitude => magnitude.isRepresentable
  | .array items => areRepresentable items
  | .table entries => entriesRepresentable entries
  | .string _ | .boolean _ | .datetime _ => true

/-- Whether every number in several values can be represented. -/
def areRepresentable : List Value → Bool
  | [] => true
  | value :: rest => value.isRepresentable && areRepresentable rest

/-- Whether every number in the entries of a table can be represented. -/
def entriesRepresentable : List (String × Value) → Bool
  | [] => true
  | (_, value) :: rest => value.isRepresentable && entriesRepresentable rest

end

/-- As `record?`, where keys outside of the given names are ignored as long as their values can be
represented. -/
def looseRecord? (names : List String) (value : Value) : Option Record := do
  let fields ← value.record? names
  if fields.all fun (name, v) => names.contains name || v.isRepresentable then some fields else none

/-- As `record?`, where no key outside of the given names is allowed and an array has at least
`least` items. -/
def strictRecord? (names : List String) (least : Nat) (value : Value) : Option Record := do
  let entries ← value.record? names
  match value with
  | .array items => if items.length < least then none else some entries
  | _ => if entries.all fun (key, _) => names.contains key then some entries else none

end Value

end MetricLayer.Toml
