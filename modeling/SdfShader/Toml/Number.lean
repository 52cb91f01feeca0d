import SdfShader.Decimal.Numeral
import SdfShader.Text.Digits
import SdfShader.Text.Parser
import SdfShader.Toml.Value

/-!
# Numbers and dates of TOML

Integers in four bases, floats, and the four forms of dates and times. Underscores may stand between
digits. An integer must fit into 64 bits with a sign; a float must not be too large for a positive
double.
-/

namespace SdfShader.Toml

open Text Parser

/-! ## Digits -/

/-- A digit that an underscore may precede. -/
def laterDigit (isDigit : Char → Bool) : Parser Char :=
  satisfy isDigit <|> (char '_' *> satisfy isDigit)

/-- Digits with underscores between them, which are left out. -/
def digitGroups (isDigit : Char → Bool) : Parser (List Char) := do
  let first ← satisfy isDigit
  let rest ← many (laterDigit isDigit)
  return first :: rest

/-- True for a minus. -/
def sign : Parser Bool := do
  let c ← optional? (char '+' <|> char '-')
  return c = some '-'

/-- Decimal digits without a superfluous leading zero. -/
def wholeDigits : Parser (List Char) := do
  let first ← satisfy Char.isDigit
  if first = '0' then return ['0']
  else
    let rest ← many (laterDigit Char.isDigit)
    return first :: rest

/-! ## Integers -/

/-- Integers are words of 64 bits with a sign. -/
def boundedInteger (n : Int) : Parser Toml :=
  if Int64.minValue.toInt ≤ n ∧ n ≤ Int64.maxValue.toInt then pure (.integer n) else failure

/-- An integer in another base behind the lead of that base. -/
def basedInteger (lead : String) (base : Nat) : Parser Toml := do
  literal lead
  let ds ← digitGroups (isDigitIn base)
  boundedInteger (numberOfDigits base ds)

def decimalInteger : Parser Toml := do
  let negative ← sign
  let ds ← wholeDigits
  let magnitude : Int := numberOfDigits 10 ds
  boundedInteger (if negative then -magnitude else magnitude)

def integerValue : Parser Toml :=
  basedInteger "0x" 16 <|> basedInteger "0o" 8 <|> basedInteger "0b" 2 <|> decimalInteger

/-! ## Floats -/

def fraction : Parser (List Char) :=
  char '.' *> digitGroups Char.isDigit

def exponent : Parser Int := do
  let _ ← char 'e' <|> char 'E'
  let negative ← sign
  let ds ← digitGroups Char.isDigit
  let magnitude : Int := numberOfDigits 10 ds
  return if negative then -magnitude else magnitude

/-- A number with a fraction, an exponent or both. -/
def floatNumeral : Parser Numeral := do
  let negative ← sign
  let whole ← wholeDigits
  let fraction ← optional? fraction
  let exponent ← optional? exponent
  let n : Numeral := ⟨negative, whole, fraction, exponent⟩
  if n.isInteger then failure else return n

def finiteFloat : Parser Toml := do
  let n ← floatNumeral
  let x := n.nearest .double
  if x = .infinity false then failure else return .float x

def specialFloat : Parser Toml := do
  let negative ← sign
  (literal "inf" *> pure (.float (.infinity negative))) <|> (literal "nan" *> pure (.float .nan))

def floatValue : Parser Toml :=
  finiteFloat <|> specialFloat

/-! ## Dates and times -/

def twoDigits (least greatest : Nat) : Parser Nat := do
  let a ← satisfy Char.isDigit
  let b ← satisfy Char.isDigit
  let n := numberOfDigits 10 [a, b]
  if least ≤ n ∧ n ≤ greatest then return n else failure

def isLeapYear (year : Nat) : Bool :=
  year % 4 = 0 && (year % 100 ≠ 0 || year % 400 = 0)

def daysOfMonth (year month : Nat) : Nat :=
  if month = 2 then (if isLeapYear year then 29 else 28)
  else if month = 4 ∨ month = 6 ∨ month = 9 ∨ month = 11 then 30
  else 31

def date : Parser Unit := do
  let a ← satisfy Char.isDigit
  let b ← satisfy Char.isDigit
  let c ← satisfy Char.isDigit
  let d ← satisfy Char.isDigit
  let _ ← char '-'
  let month ← twoDigits 1 12
  let _ ← char '-'
  let _ ← twoDigits 1 (daysOfMonth (numberOfDigits 10 [a, b, c, d]) month)

def time : Parser Unit := do
  let _ ← twoDigits 0 23
  let _ ← char ':'
  let _ ← twoDigits 0 59
  let _ ← char ':'
  let _ ← twoDigits 0 60
  let _ ← optional? do
    let _ ← char '.'
    let _ ← satisfy Char.isDigit
    takeWhile Char.isDigit

def timeOffset : Parser Unit := do
  let mark ← satisfy ("Zz+-".toList.contains ·)
  if mark = '+' ∨ mark = '-' then
    let _ ← twoDigits 0 23
    let _ ← char ':'
    let _ ← twoDigits 0 59

/-- A date, a time, or a date with a time and perhaps an offset. -/
def dateTimeValue : Parser Toml :=
  (do
    date
    let _ ← optional? do
      let _ ← satisfy ("Tt ".toList.contains ·)
      time
      optional? timeOffset
    return .dateTime) <|> (time *> pure .dateTime)

end SdfShader.Toml
