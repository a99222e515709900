import Mathlib.Data.List.Basic
import Mathlib.Data.Int.Notation

/-!
# Text in Python: decoding bytes, integers

`bytes.decode()` is strict UTF-8 and `int(text)` reads a decimal numeral in any Unicode script. Both
follow Python 3.11, whose character tables are those of Unicode 14.
-/

namespace Python

/-! ## Strict UTF-8 -/

/-- A decoder between two bytes: the characters so far, latest first, the number of continuation
bytes that are still owed, the value read for the current character, and the range in which the next
continuation byte has to lie. -/
structure Utf8State where
  out : List Char
  owed : ℕ
  value : ℕ
  low : ℕ
  high : ℕ

/-- Between two characters. -/
def Utf8State.between (out : List Char) : Utf8State := ⟨out, 0, 0, 0x80, 0xBF⟩

/-- One byte; `none` where no UTF-8 text continues like this. -/
def Utf8State.step (s : Utf8State) (byte : UInt8) : Option Utf8State :=
  let b := byte.toNat
  if s.owed = 0 then
    if b ≤ 0x7F then some (.between (Char.ofNat b :: s.out))
    else if 0xC2 ≤ b ∧ b ≤ 0xDF then some ⟨s.out, 1, b - 0xC0, 0x80, 0xBF⟩
    -- the narrower ranges exclude overlong forms, surrogates and values above 10FFFF
    else if 0xE0 ≤ b ∧ b ≤ 0xEF then
      some ⟨s.out, 2, b - 0xE0, if b = 0xE0 then 0xA0 else 0x80, if b = 0xED then 0x9F else 0xBF⟩
    else if 0xF0 ≤ b ∧ b ≤ 0xF4 then
      some ⟨s.out, 3, b - 0xF0, if b = 0xF0 then 0x90 else 0x80, if b = 0xF4 then 0x8F else 0xBF⟩
    else none
  else if s.low ≤ b ∧ b ≤ s.high then
    let value := 64 * s.value + (b - 0x80)
    if s.owed = 1 then some (.between (Char.ofNat value :: s.out))
    else some ⟨s.out, s.owed - 1, value, 0x80, 0xBF⟩
  else none

/-- `raw.decode()`; `none` is a `UnicodeDecodeError`. -/
def decode (raw : List UInt8) : Option (List Char) := do
  let s ← raw.foldlM Utf8State.step (.between [])
  if s.owed = 0 then some s.out.reverse else none

/-! ## `int(text)` -/

/-- The zeros of the decimal digits of Unicode 14; each is followed by the other nine digits. -/
def decimalZeros : List ℕ :=
  [0x30, 0x660, 0x6F0, 0x7C0, 0x966, 0x9E6, 0xA66, 0xAE6, 0xB66, 0xBE6, 0xC66, 0xCE6, 0xD66, 0xDE6,
    0xE50, 0xED0, 0xF20, 0x1040, 0x1090, 0x17E0, 0x1810, 0x1946, 0x19D0, 0x1A80, 0x1A90, 0x1B50,
    0x1BB0, 0x1C40, 0x1C50, 0xA620, 0xA8D0, 0xA900, 0xA9D0, 0xA9F0, 0xAA50, 0xABF0, 0xFF10, 0x104A0,
    0x10D30, 0x11066, 0x110F0, 0x11136, 0x111D0, 0x112F0, 0x11450, 0x114D0, 0x11650, 0x116C0,
    0x11730, 0x118E0, 0x11950, 0x11C50, 0x11D50, 0x11DA0, 0x16A60, 0x16AC0, 0x16B50, 0x1D7CE,
    0x1D7D8, 0x1D7E2, 0x1D7EC, 0x1D7F6, 0x1E140, 0x1E2F0, 0x1E950, 0x1FBF0]

/-- The value of a decimal digit. -/
def digitValue (c : Char) : Option ℕ :=
  (decimalZeros.find? fun z => z ≤ c.toNat ∧ c.toNat < z + 10).map fun z => c.toNat - z

/-- The whitespace that `int` strips: in ASCII text only that of C's `isspace`. -/
def isSpace (ascii : Bool) (c : Char) : Bool :=
  c.toNat ∈ [0x9, 0xA, 0xB, 0xC, 0xD, 0x20] ||
    !ascii && c.toNat ∈ [0x85, 0xA0, 0x1680, 0x2000, 0x2001, 0x2002, 0x2003, 0x2004, 0x2005, 0x2006,
      0x2007, 0x2008, 0x2009, 0x200A, 0x2028, 0x2029, 0x202F, 0x205F, 0x3000]

/-- The digits of a numeral, in which single underscores may stand between digits. -/
def numeralDigits : List Char → Option (List ℕ)
  | [] => none
  | [c] => (digitValue c).map fun d => [d]
  | c :: '_' :: rest => do
      let d ← digitValue c
      let ds ← numeralDigits rest
      return d :: ds
  | c :: rest => do
      let d ← digitValue c
      let ds ← numeralDigits rest
      return d :: ds

/-- The number of digits from which `int` refuses to convert. -/
def maxStrDigits : ℕ := 4300

/-- An unsigned numeral. -/
def parseNumeral (text : List Char) : Option ℕ := do
  let ds ← numeralDigits text
  if ds.length ≤ maxStrDigits then some (ds.foldl (fun n d => 10 * n + d) 0) else none

/-- `int(text)`; `none` is a `ValueError`. -/
def int (text : String) : Option ℤ :=
  let chars := text.toList
  let ascii := chars.all fun c => c.toNat < 0x80
  let stripped := ((chars.dropWhile (isSpace ascii)).reverse.dropWhile (isSpace ascii)).reverse
  match stripped with
  | '-' :: digits => (parseNumeral digits).map fun n => -(n : ℤ)
  | '+' :: digits => (parseNumeral digits).map fun n => (n : ℤ)
  | digits => (parseNumeral digits).map fun n => (n : ℤ)

end Python
