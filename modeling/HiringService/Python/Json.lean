import HiringService.Python.Text
import Mathlib.Data.Nat.Notation

/-!
# `json.dumps` and `json.loads`

`dumps` writes with the defaults of Python 3.11: characters outside of ASCII are escaped, and items
are separated by `, ` and `: `. `loads` is the scanner of `_json.c`.

Strings hold no lone surrogates here, so an escape of one is read as an error. A float is its
literal.
-/

namespace Python

/-- What `json` reads and writes. The fields of an object are in the order of the `dict`. -/
inductive Json
  | null
  | bool (b : Bool)
  | int (n : ℤ)
  | float (literal : String)
  | str (s : String)
  | arr (items : List Json)
  | obj (fields : List (String × Json))

namespace Json

/-! ## Writing -/

/-- `\uXXXX` for a code unit. -/
def unicodeEscape (unit : ℕ) : List Char :=
  ['\\', 'u', Nat.digitChar (unit / 4096), Nat.digitChar (unit / 256 % 16),
    Nat.digitChar (unit / 16 % 16), Nat.digitChar (unit % 16)]

/-- The escapes of two characters. -/
def shortEscapes : List (Char × Char) :=
  [('"', '"'), ('\\', '\\'), ('n', '\n'), ('r', '\r'), ('t', '\t'), ('f', '\x0c'), ('b', '\x08')]

/-- A character in a string literal. -/
def escapeChar (c : Char) : List Char :=
  match shortEscapes.find? fun e => e.2 = c with
  | some e => ['\\', e.1]
  | none =>
      let n := c.toNat
      if 0x20 ≤ n ∧ n ≤ 0x7E then [c]
      else if n < 0x10000 then unicodeEscape n
      else
        let v := n - 0x10000
        unicodeEscape (0xD800 + v / 0x400) ++ unicodeEscape (0xDC00 + v % 0x400)

/-- A string literal. -/
def stringText (s : String) : List Char := '"' :: s.toList.flatMap escapeChar ++ ['"']

/-- The numeral of an integer. -/
def intText : ℤ → List Char
  | .ofNat n => Nat.toDigits 10 n
  | .negSucc n => '-' :: Nat.toDigits 10 (n + 1)

mutual

/-- The text of a value. -/
def text : Json → List Char
  | .null => "null".toList
  | .bool b => if b then "true".toList else "false".toList
  | .int n => intText n
  | .float literal => literal.toList
  | .str s => stringText s
  | .arr items => '[' :: itemsText items ++ [']']
  | .obj fields => '{' :: fieldsText fields ++ ['}']

/-- The items of a list, separated by commas. -/
def itemsText : List Json → List Char
  | [] => []
  | [item] => text item
  | item :: items => text item ++ ',' :: ' ' :: itemsText items

/-- The fields of an object, separated by commas. -/
def fieldsText : List (String × Json) → List Char
  | [] => []
  | [(key, value)] => stringText key ++ ':' :: ' ' :: text value
  | (key, value) :: fields => stringText key ++ ':' :: ' ' :: text value ++ ',' :: ' ' :: fieldsText fields

end

mutual

/-- `str` converts all integers of the value. -/
def convertible : Json → Bool
  | .int n => n.natAbs.repr.length ≤ maxStrDigits
  | .arr items => itemsConvertible items
  | .obj fields => fieldsConvertible fields
  | _ => true

/-- `str` converts all integers of the items. -/
def itemsConvertible : List Json → Bool
  | [] => true
  | item :: items => convertible item && itemsConvertible items

/-- `str` converts all integers of the fields. -/
def fieldsConvertible : List (String × Json) → Bool
  | [] => true
  | (_, value) :: fields => convertible value && fieldsConvertible fields

end

/-- `json.dumps(value)`; `none` is a `ValueError`. -/
def dumps (value : Json) : Option String :=
  if value.convertible then some (String.ofList value.text) else none

/-! ## Reading -/

/-- The whitespace of JSON. -/
def isSpace (c : Char) : Bool := c = ' ' ∨ c = '\t' ∨ c = '\n' ∨ c = '\r'

/-- The text from the next character that is no whitespace. -/
def skipSpace (text : List Char) : List Char := text.dropWhile isSpace

/-- The value of a hexadecimal digit. -/
def hexValue (c : Char) : Option ℕ :=
  let n := c.toNat
  if 0x30 ≤ n ∧ n ≤ 0x39 then some (n - 0x30)
  else if 0x61 ≤ n ∧ n ≤ 0x66 then some (n - 0x61 + 10)
  else if 0x41 ≤ n ∧ n ≤ 0x46 then some (n - 0x41 + 10)
  else none

/-- A code unit of four hexadecimal digits. -/
def hexUnit (a b c d : Char) : Option ℕ := do
  return (16 * (16 * (16 * (← hexValue a) + (← hexValue b)) + (← hexValue c)) + (← hexValue d))

/-- What a backslash and a character other than `u` stand for. -/
def shortEscape (c : Char) : Option Char :=
  if c = '/' then some '/' else (shortEscapes.find? fun e => e.1 = c).map Prod.snd

/-- A string literal behind its opening quote: code points and escaped code units, and what is left. -/
def scanUnits : List Char → Option (List ℕ × List Char)
  | [] => none
  | c :: rest =>
      if c = '"' then some ([], rest)
      else if c = '\\' then
        match rest with
        | 'u' :: a :: b :: c :: d :: rest => do
            let unit ← hexUnit a b c d
            let (units, rest) ← scanUnits rest
            return (unit :: units, rest)
        | e :: rest => do
            let c ← shortEscape e
            let (units, rest) ← scanUnits rest
            return (c.toNat :: units, rest)
        | [] => none
      else if c.toNat < 0x20 then none
      else do
        let (units, rest) ← scanUnits rest
        return (c.toNat :: units, rest)

/-- Join the surrogates that belong together. -/
def joinUnits : List ℕ → Option (List Char)
  | [] => some []
  | unit :: units =>
      if 0xD800 ≤ unit ∧ unit ≤ 0xDBFF then
        match units with
        | low :: units =>
            if 0xDC00 ≤ low ∧ low ≤ 0xDFFF then do
              let chars ← joinUnits units
              return Char.ofNat (0x10000 + (unit - 0xD800) * 0x400 + (low - 0xDC00)) :: chars
            else none
        | [] => none
      else if 0xDC00 ≤ unit ∧ unit ≤ 0xDFFF then none
      else do
        let chars ← joinUnits units
        return Char.ofNat unit :: chars

/-- A string literal behind its opening quote. -/
def scanString (text : List Char) : Option (String × List Char) := do
  let (units, rest) ← scanUnits text
  let chars ← joinUnits units
  return (String.ofList chars, rest)

/-- The words that are values. -/
def constants : List (List Char × Json) :=
  [("null".toList, .null), ("true".toList, .bool true), ("false".toList, .bool false),
    ("NaN".toList, .float "NaN"), ("Infinity".toList, .float "Infinity"),
    ("-Infinity".toList, .float "-Infinity")]

/-- A word that is a value. -/
def scanConstant (text : List Char) : Option (Json × List Char) :=
  (constants.find? fun c => c.1.isPrefixOf text).map fun c => (c.2, text.drop c.1.length)

/-- The digits of the integer part: a single zero, or digits that do not begin with one. -/
def integerPart (text : List Char) : List Char :=
  if text.head? = some '0' then ['0'] else text.takeWhile Char.isDigit

/-- The fraction, if there is one. -/
def fractionPart : List Char → List Char
  | '.' :: rest => if rest.takeWhile Char.isDigit = [] then [] else '.' :: rest.takeWhile Char.isDigit
  | _ => []

/-- The exponent, if there is one. -/
def exponentPart : List Char → List Char
  | [] => []
  | e :: rest =>
      let sign := if rest.head? = some '+' ∨ rest.head? = some '-' then rest.take 1 else []
      let digits := (rest.drop sign.length).takeWhile Char.isDigit
      if (e = 'e' ∨ e = 'E') ∧ digits ≠ [] then e :: sign ++ digits else []

/-- A number. -/
def scanNumber (text : List Char) : Option (Json × List Char) :=
  let sign := if text.head? = some '-' then ['-'] else []
  let digits := integerPart (text.drop sign.length)
  let rest := text.drop (sign.length + digits.length)
  let fraction := fractionPart rest
  let rest := rest.drop fraction.length
  let exponent := exponentPart rest
  let rest := rest.drop exponent.length
  if digits = [] then none
  else if fraction = [] ∧ exponent = [] then
    if digits.length ≤ maxStrDigits then
      let n := Nat.ofDigitChars 10 digits 0
      some (.int (if sign = [] then n else -n), rest)
    else none
  else some (.float (String.ofList (sign ++ digits ++ fraction ++ exponent)), rest)

/-- `d[key] = value`. -/
def setField (fields : List (String × Json)) (field : String × Json) : List (String × Json) :=
  if field.1 ∈ fields.map Prod.fst then
    fields.map fun f => if f.1 = field.1 then field else f
  else fields ++ [field]

mutual

/-- A value, and what is left. -/
def scanValue : (fuel : ℕ) → List Char → Option (Json × List Char)
  | 0, _ => none
  | _, [] => none
  | fuel + 1, c :: rest =>
      if c = '"' then (scanString rest).map fun r => (.str r.1, r.2)
      else if c = '[' then
        if (skipSpace rest).head? = some ']' then some (.arr [], (skipSpace rest).drop 1)
        else (scanItems fuel (skipSpace rest)).map fun r => (.arr r.1, r.2)
      else if c = '{' then
        if (skipSpace rest).head? = some '}' then some (.obj [], (skipSpace rest).drop 1)
        else (scanFields fuel (skipSpace rest)).map fun r => (.obj (r.1.foldl setField []), r.2)
      else (scanConstant (c :: rest)).or (scanNumber (c :: rest))

/-- The items of a list up to its end. -/
def scanItems : (fuel : ℕ) → List Char → Option (List Json × List Char)
  | 0, _ => none
  | fuel + 1, text => do
      let (item, rest) ← scanValue fuel text
      match skipSpace rest with
      | ']' :: rest => return ([item], rest)
      | ',' :: rest =>
          let (items, rest) ← scanItems fuel (skipSpace rest)
          return (item :: items, rest)
      | _ => none

/-- The fields of an object up to its end. -/
def scanFields : (fuel : ℕ) → List Char → Option (List (String × Json) × List Char)
  | 0, _ => none
  | _, [] => none
  | fuel + 1, c :: rest =>
      if c = '"' then do
        let (key, rest) ← scanString rest
        match skipSpace rest with
        | ':' :: rest =>
            let (value, rest) ← scanValue fuel (skipSpace rest)
            match skipSpace rest with
            | '}' :: rest => return ([(key, value)], rest)
            | ',' :: rest =>
                let (fields, rest) ← scanFields fuel (skipSpace rest)
                return ((key, value) :: fields, rest)
            | _ => none
        | _ => none
      else none

end

/-- `json.loads(text)`; `none` is an exception. Of two calls, one inside the other, at least the
second consumes a character. -/
def loads (text : String) : Option Json :=
  let chars := text.toList
  if chars.head? = some '\uFEFF' then none
  else do
    let (value, rest) ← scanValue (2 * chars.length) (skipSpace chars)
    if skipSpace rest = [] then some value else none

end Json

end Python
