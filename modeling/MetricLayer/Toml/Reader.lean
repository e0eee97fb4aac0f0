import MetricLayer.Calendar.Reader
import MetricLayer.Json.Reader
import MetricLayer.Toml.Value

/-!
# Reading TOML values

Keys, strings, numbers, dates, arrays and inline tables. Every function reads from the front of a
text and returns what follows.
-/

namespace MetricLayer.Toml

/-- Drop spaces and tabs. -/
def skipSpace (cs : List Char) : List Char :=
  cs.dropWhile fun c => c = ' ' || c = '\t'

/-- Whether a character may stand in a string or a comment. -/
def isPrintable (c : Char) : Bool :=
  c = '\t' || (0x20 ≤ c.toNat && c.toNat ≠ 0x7F)

/-- A line end. -/
def lineEnd? : List Char → Option (List Char)
  | '\n' :: rest => some rest
  | '\r' :: '\n' :: rest => some rest
  | _ => none

/-- Drop a comment up to the end of its line. -/
def skipComment? (cs : List Char) : Option (List Char) :=
  match cs with
  | '#' :: rest =>
    let after := rest.dropWhile isPrintable
    if after.isEmpty || (lineEnd? after).isSome then some after else none
  | _ => some cs

/-- Drop spaces, comments and line ends. The first argument bounds the number of lines. -/
def skipLines? : (bound : Nat) → List Char → Option (List Char)
  | 0, cs => some cs
  | bound + 1, cs => do
    let rest ← skipComment? (skipSpace cs)
    match lineEnd? rest with
    | some after => skipLines? bound after
    | none => return rest

/-- Drop spaces, comments and line ends, as many as there are. -/
def skipAll? (cs : List Char) : Option (List Char) :=
  skipLines? (cs.length + 1) cs

/-- The value of hexadecimal digits. -/
def hexDigits? (cs : List Char) : Option Nat :=
  cs.foldlM (fun n c => (Json.hexValue? c).map fun d => n * 16 + d) 0

/-- The character with the given code, where there is one. -/
def codePoint? (n : Nat) : Option Char :=
  if n.isValidChar then some (Char.ofNat n) else none

/-- The character that an escape without digits stands for. -/
def simpleEscape? (c : Char) : Option Char :=
  if c = '"' || c = '\\' then some c
  else if c = 'b' then some '\x08'
  else if c = 't' then some '\t'
  else if c = 'n' then some '\n'
  else if c = 'f' then some '\x0c'
  else if c = 'r' then some '\r'
  else if c = 'e' then some '\x1b'
  else none

/-- The character whose code is given by the first `count` characters, and what follows. -/
def codeEscape? (count : Nat) (cs : List Char) : Option (Char × List Char) := do
  if cs.length < count then none
  return (← codePoint? (← hexDigits? (cs.take count)), cs.drop count)

/-- An escape without its backslash. -/
def escape? (cs : List Char) : Option (Char × List Char) :=
  match cs with
  | 'x' :: rest => codeEscape? 2 rest
  | 'u' :: rest => codeEscape? 4 rest
  | 'U' :: rest => codeEscape? 8 rest
  | c :: rest => (simpleEscape? c).map fun e => (e, rest)
  | [] => none

/-- A string with escapes on one line, up to its closing quote. -/
def basicBody? : (bound : Nat) → List Char → Option (List Char × List Char)
  | 0, _ => none
  | _ + 1, [] => none
  | _ + 1, '"' :: rest => some ([], rest)
  | bound + 1, '\\' :: rest => do
    let (c, rest) ← escape? rest
    let (body, after) ← basicBody? bound rest
    return (c :: body, after)
  | bound + 1, c :: rest =>
    if isPrintable c then do
      let (body, after) ← basicBody? bound rest
      return (c :: body, after)
    else none

/-- A string without escapes on one line, up to its closing quote. -/
def literalBody? : List Char → Option (List Char × List Char)
  | [] => none
  | '\'' :: rest => some ([], rest)
  | c :: rest =>
    if isPrintable c then do
      let (body, after) ← literalBody? rest
      return (c :: body, after)
    else none

/-- The quotes at the front of a text that close a string over lines: up to two more than three
belong to the string. -/
def closing? (q : Char) (cs : List Char) : Option (List Char × List Char) :=
  let quotes := (cs.take 5).takeWhile (· = q)
  if quotes.length < 3 then none
  else some (List.replicate (quotes.length - 3) q, cs.drop quotes.length)

/-- Drop spaces and line ends. The first argument bounds the number of lines. -/
def skipBlank : (bound : Nat) → List Char → List Char
  | 0, cs => skipSpace cs
  | bound + 1, cs =>
    match lineEnd? (skipSpace cs) with
    | some rest => skipBlank bound rest
    | none => skipSpace cs

/-- Drop white space and line ends after a backslash at the end of a line; there must be one line
end at least. -/
def continuation? (cs : List Char) : Option (List Char) :=
  (lineEnd? (skipSpace cs)).map (skipBlank cs.length)

/-- A string over lines with the given quote, up to its closing quotes. Escapes are read only where
they are allowed. -/
def linesBody? (q : Char) (escapes : Bool) : (bound : Nat) → List Char →
    Option (List Char × List Char)
  | 0, _ => none
  | _ + 1, [] => none
  | bound + 1, c :: rest =>
    match closing? q (c :: rest) with
    | some result => some result
    | none =>
      if escapes && c = '\\' then
        match continuation? rest with
        | some after => linesBody? q escapes bound after
        | none => do
          let (e, rest) ← escape? rest
          let (body, after) ← linesBody? q escapes bound rest
          return (e :: body, after)
      else if isPrintable c || c = '\n' then do
        let (body, after) ← linesBody? q escapes bound rest
        return (c :: body, after)
      else if c = '\r' then
        match rest with
        | '\n' :: more => do
          let (body, after) ← linesBody? q escapes bound more
          return ('\r' :: '\n' :: body, after)
        | _ => none
      else none

/-- Drop the line end right after the opening quotes. -/
def dropFirstLineEnd (cs : List Char) : List Char :=
  (lineEnd? cs).getD cs

/-- A string in quotes on one line. -/
def quoted? (cs : List Char) : Option (String × List Char) :=
  match cs with
  | '"' :: rest =>
    (basicBody? (rest.length + 1) rest).map fun (b, after) => (String.ofList b, after)
  | '\'' :: rest => (literalBody? rest).map fun (b, after) => (String.ofList b, after)
  | _ => none

/-- A string of any kind. -/
def string? (cs : List Char) : Option (String × List Char) :=
  match cs with
  | '"' :: '"' :: '"' :: rest =>
    (linesBody? '"' true (rest.length + 1) (dropFirstLineEnd rest)).map fun (b, after) =>
      (String.ofList b, after)
  | '\'' :: '\'' :: '\'' :: rest =>
    (linesBody? '\'' false (rest.length + 1) (dropFirstLineEnd rest)).map fun (b, after) =>
      (String.ofList b, after)
  | _ => quoted? cs

/-- Whether a character may stand in a key without quotes. -/
def isKeyChar (c : Char) : Bool :=
  c.isAlphanum || c = '_' || c = '-'

/-- A key without points. -/
def simpleKey? (cs : List Char) : Option (String × List Char) :=
  match cs with
  | '"' :: _ | '\'' :: _ => quoted? cs
  | _ =>
    let key := cs.takeWhile isKeyChar
    if key.isEmpty then none else some (String.ofList key, cs.dropWhile isKeyChar)

/-- How many keys may stand between points. -/
def keyLimit : Nat := 80

/-- Keys with points between them. -/
def keys? : (bound : Nat) → List Char → Option (List String × List Char)
  | 0, _ => none
  | bound + 1, cs => do
    let (key, rest) ← simpleKey? (skipSpace cs)
    match skipSpace rest with
    | '.' :: more => do
      let (keys, after) ← keys? bound more
      return (key :: keys, after)
    | after => return ([key], after)

/-- Keys with points between them, no more than allowed. -/
def keyPath? (cs : List Char) : Option (List String × List Char) := do
  let (path, after) ← keys? (cs.length + 1) cs
  if path.length ≤ keyLimit then some (path, after) else none

/-- Digits of a kind with single underscores between them. -/
def isDigitRun (digit : Char → Bool) : List Char → Bool
  | [] => false
  | [c] => digit c
  | c :: '_' :: rest => digit c && isDigitRun digit rest
  | c :: rest => digit c && isDigitRun digit rest

/-- A decimal integer without a sign and without a superfluous leading zero. -/
def isDecimal (cs : List Char) : Bool :=
  isDigitRun Char.isDigit cs && (cs.head? ≠ some '0' || cs.length = 1)

/-- Drop a sign. -/
def dropSign : List Char → List Char
  | '+' :: rest | '-' :: rest => rest
  | cs => cs

/-- The value of digits in a base; underscores do not count. -/
def digitsIn (base : Nat) (cs : List Char) : Nat :=
  cs.foldl (fun n c => ((Json.hexValue? c).map (n * base + ·)).getD n) 0

/-- A word as an integer. -/
def integer? (cs : List Char) : Option Int :=
  let unsigned (base : Nat) (digit : Char → Bool) (cs : List Char) : Option Int :=
    if isDigitRun digit cs then some (digitsIn base cs) else none
  match cs with
  | '0' :: 'x' :: rest => unsigned 16 (fun c => (Json.hexValue? c).isSome) rest
  | '0' :: 'o' :: rest => unsigned 8 (fun c => '0' ≤ c && c ≤ '7') rest
  | '0' :: 'b' :: rest => unsigned 2 (fun c => c = '0' || c = '1') rest
  | '-' :: rest => if isDecimal rest then some (-(digitsIn 10 rest : Int)) else none
  | _ => if isDecimal (dropSign cs) then some (digitsIn 10 (dropSign cs)) else none

/-- A word as the exponent of a float; no word stands for zero. -/
def exponent? : List Char → Option Int
  | [] => some 0
  | c :: rest =>
    if (c = 'e' || c = 'E') && isDigitRun Char.isDigit (dropSign rest) then
      let value : Int := digitsIn 10 (dropSign rest)
      some (if rest.head? = some '-' then -value else value)
    else none

/-- Whether a character is a digit or an underscore between digits. -/
def isMantissa (c : Char) : Bool :=
  c.isDigit || c = '_'

/-- A word as a float. -/
def float? (cs : List Char) : Option Magnitude :=
  let cs := dropSign cs
  if cs = "inf".toList then some .infinite
  else if cs = "nan".toList then some .notANumber
  else
    let whole := cs.takeWhile isMantissa
    if !isDecimal whole then none
    else
      match cs.dropWhile isMantissa with
      | '.' :: rest => do
        let fraction := rest.takeWhile isMantissa
        if !isDigitRun Char.isDigit fraction then none
        let exponent ← exponent? (rest.dropWhile isMantissa)
        return .finite (digitsIn 10 (whole ++ fraction)) (exponent - fraction.countP Char.isDigit)
      | [] => none
      | rest => return .finite (digitsIn 10 whole) (← exponent? rest)

/-- A day with full digits, at the front of a text. -/
def fullDate? (cs : List Char) : Option (List Char) := do
  let (year, cs) ← Calendar.digits? 4 4 cs
  let (month, cs) ← Calendar.twoDigits? (← Calendar.char? '-' cs)
  let (day, cs) ← Calendar.twoDigits? (← Calendar.char? '-' cs)
  let _ ← Calendar.Date.ofParts? (Calendar.digitsValue year) month day
  return cs

/-- A time of day with full digits, at the front of a text. The second may be left out. -/
def fullTime? (cs : List Char) : Option (List Char) := do
  let (hour, cs) ← Calendar.twoDigits? cs
  let (minute, cs) ← Calendar.twoDigits? (← Calendar.char? ':' cs)
  match cs with
  | ':' :: rest =>
    let (second, cs) ← Calendar.twoDigits? rest
    let (nanosecond, cs) ← Calendar.fraction? cs
    let _ ← Calendar.Time.ofParts? hour minute second nanosecond
    return cs
  | _ =>
    let _ ← Calendar.Time.ofParts? hour minute 0 0
    return cs

/-- Drop an offset from universal time, where there is one. -/
def skipOffset (cs : List Char) : List Char :=
  match cs with
  | c :: _ => if c.toNat < 128 then ((Calendar.offset? cs).map (·.2)).getD cs else cs
  | [] => []

/-- A date, a time of day, or both with an optional offset; returns what follows. -/
def datetime? (cs : List Char) : Option (List Char) :=
  match fullDate? cs with
  | some rest =>
    match rest with
    | c :: more =>
      if c = 'T' || c = 't' then do
        return skipOffset (← fullTime? more)
      else if c = ' ' then
        match fullTime? more with
        | some after => some (skipOffset after)
        | none => some rest
      else some rest
    | [] => some rest
  | none => fullTime? cs

/-- Whether a character may stand in a number, a date or a truth value. -/
def isWordChar (c : Char) : Bool :=
  c.isAlphanum || c = '_' || c = '-' || c = '+' || c = '.' || c = ':'

/-- A truth value, a number or a date. -/
def word? (cs : List Char) : Option (Value × List Char) :=
  let word := cs.takeWhile isWordChar
  let rest := cs.dropWhile isWordChar
  if word = "true".toList then some (.boolean true, rest)
  else if word = "false".toList then some (.boolean false, rest)
  else
    match integer? word, float? word, datetime? cs with
    | some n, _, _ => some (.integer n, rest)
    | none, some magnitude, _ => some (.float magnitude, rest)
    | none, none, some after =>
      if after.head?.any isWordChar then none
      else some (.datetime (String.ofList (cs.take (cs.length - after.length))), after)
    | none, none, none => none

/-- Items of an array up to its closing bracket, with commas between them and optionally after the
last one. -/
def items? (item : List Char → Option (Value × List Char)) : (bound : Nat) → List Char →
    Option (List Value × List Char)
  | 0, _ => none
  | bound + 1, cs => do
    match ← skipAll? cs with
    | ']' :: rest => return ([], rest)
    | cs =>
      let (value, rest) ← item cs
      match ← skipAll? rest with
      | ',' :: more =>
        let (values, after) ← items? item bound more
        return (value :: values, after)
      | ']' :: after => return ([value], after)
      | _ => none

/-- A key, an equals sign and a value, given what may stand around the equals sign. -/
def keyValue? (skip : List Char → Option (List Char))
    (value : List Char → Option (Value × List Char)) (cs : List Char) :
    Option ((List String × Value) × List Char) := do
  let (path, rest) ← keyPath? cs
  match ← skip rest with
  | '=' :: more =>
    let (v, after) ← value (← skip more)
    return ((path, v), after)
  | _ => none

/-- Entries of an inline table up to its closing brace, with commas between them and optionally
after the last one. -/
def inlineEntries? (value : List Char → Option (Value × List Char)) : (bound : Nat) → List Char →
    Option (List (List String × Value) × List Char)
  | 0, _ => none
  | bound + 1, cs => do
    match ← skipAll? cs with
    | '\x7d' :: after => return ([], after)
    | cs =>
      let (entry, rest) ← keyValue? skipAll? value cs
      match ← skipAll? rest with
      | ',' :: more =>
        let (entries, after) ← inlineEntries? value bound more
        return (entry :: entries, after)
      | '\x7d' :: after => return ([entry], after)
      | _ => none

end MetricLayer.Toml
