import Uci.Settings.Toml.Scan

/-!
# TOML values that are no strings

Truth values, numbers, days and times. They are not evaluated any further than it takes
to tell whether they are values at all: a number has to be within the range of whole
numbers or of doubles, and a day has to be in the calendar.

* `isInteger`, `isFloat` — numbers.
* `isMoment` — a day, a time of day, or both.
* `isScalar` — any of these, or a truth value.
* `scalarText` — what is written for one.
-/

namespace Uci
namespace Toml

/-! ### Numbers -/

/-- Digits with single underscores between them. -/
def isDigits (isDigit : Char → Bool) : Text → Bool
  | [] => false
  | [c] => isDigit c
  | c :: '_' :: t => isDigit c && isDigits isDigit t
  | c :: t => isDigit c && isDigits isDigit t

/-- The text behind a sign, if there is one. -/
def unsigned : Text → Text
  | '+' :: t => t
  | '-' :: t => t
  | t => t

/-- A decimal number without sign and without a needless zero in front. -/
def isDecimal (t : Text) : Bool :=
  isDigits Char.isDigit t && (t.head? ≠ some '0' || t.length = 1)

/-- The number that digits stand for, without the underscores between them. -/
def number (base : Nat) (t : Text) : Nat :=
  t.foldl (fun n c => ((hexValue? c).map fun d => n * base + d).getD n) 0

/-- Whether digits make a number of at most 128 bits. -/
def fits (base : Nat) (t : Text) : Bool := number base t < Nat.pow 2 128

/-- A whole number, in the range of the signed and the unsigned numbers of 128 bits. -/
def isInteger : Text → Bool
  | '0' :: 'x' :: t => isDigits (fun c => (hexValue? c).isSome) t && fits 16 t
  | '0' :: 'o' :: t => isDigits (fun c => '0' ≤ c ∧ c ≤ '7') t && fits 8 t
  | '0' :: 'b' :: t => isDigits (fun c => c = '0' || c = '1') t && fits 2 t
  | '-' :: t => isDecimal t && number 10 t ≤ Nat.pow 2 127
  | t => isDecimal (unsigned t) && fits 10 t

/-- The least number that is too large for a double: it lies half way between the
largest double and the power of two that would be next. -/
def doubleBound : Nat := Nat.pow 2 1024 - Nat.pow 2 970

/-- Whether a decimal fraction is within the range of doubles: `m` times the power of
ten with exponent `e`. How many digits it has before the point decides, unless they are
as many as those of the bound. -/
def isDouble (m : Nat) (e : Int) : Bool :=
  let places : Int := (Nat.toDigits 10 m).length + e
  m = 0 || places < 309 ||
    (places = 309 && m * Nat.pow 10 e.toNat < doubleBound * Nat.pow 10 (-e).toNat)

/-- A number with a fraction or an exponent, or one that is none. -/
def isFloat (t : Text) : Bool :=
  let u := unsigned t
  let isExponent := fun c : Char => c = 'e' || c = 'E'
  let mantissa := u.takeWhile fun c => !isExponent c
  let exponent := (u.dropWhile fun c => !isExponent c).tail
  let whole := mantissa.takeWhile (· ≠ '.')
  let fraction := (mantissa.dropWhile (· ≠ '.')).tail
  let power : Int :=
    (if exponent.head? = some '-' then -(number 10 exponent : Int) else number 10 exponent) -
      (fraction.filter (· ≠ '_')).length
  u = "inf".toList || u = "nan".toList ||
    (isDecimal whole && (u.contains '.' || u.any isExponent) &&
      (!mantissa.contains '.' || isDigits Char.isDigit fraction) &&
      (!u.any isExponent || isDigits Char.isDigit (unsigned exponent)) &&
      isDouble (number 10 (whole ++ fraction)) power)

/-! ### Days and times -/

/-- Whether a year has a day more. -/
def isLeap (year : Nat) : Bool := year % 4 = 0 && (year % 100 ≠ 0 || year % 400 = 0)

/-- Number of days of a month. -/
def daysOf (year month : Nat) : Nat :=
  if month = 2 then if isLeap year then 29 else 28
  else if month ∈ [4, 6, 9, 11] then 30
  else 31

/-- A day. -/
def isDate : Text → Bool
  | [y, y', y'', y''', '-', m, m', '-', d, d'] =>
    [y, y', y'', y''', m, m', d, d'].all Char.isDigit &&
      let month := number 10 [m, m']
      let day := number 10 [d, d']
      1 ≤ month && month ≤ 12 && 1 ≤ day && day ≤ daysOf (number 10 [y, y', y'', y''']) month
  | _ => false

/-- An hour and a minute. -/
def isClock (h h' m m' : Char) : Bool :=
  [h, h', m, m'].all Char.isDigit && number 10 [h, h'] ≤ 23 && number 10 [m, m'] ≤ 59

/-- The seconds of a time of day, which may be left out, with their fraction. -/
def isSeconds : Text → Bool
  | [] => true
  | ':' :: s :: s' :: t =>
    [s, s'].all Char.isDigit && number 10 [s, s'] ≤ 60 &&
      match t with
      | [] => true
      | '.' :: t => !t.isEmpty && t.all Char.isDigit
      | _ => false
  | _ => false

/-- A time of day. -/
def isTime : Text → Bool
  | h :: h' :: ':' :: m :: m' :: t => isClock h h' m m' && isSeconds t
  | _ => false

/-- A time of day with the distance of a time zone behind it. -/
def isZonedTime (t : Text) : Bool :=
  let isZone := fun c : Char => c ∈ ['Z', 'z', '+', '-']
  isTime (t.takeWhile fun c => !isZone c) &&
    match t.dropWhile fun c => !isZone c with
    | [] => true
    | ['Z'] => true
    | ['z'] => true
    | [sign, h, h', ':', m, m'] => (sign = '+' || sign = '-') && isClock h h' m m'
    | _ => false

/-- A day, a time of day, or both. -/
def isMoment (t : Text) : Bool :=
  isDate t || isTime t ||
    (isDate (t.take 10) && (t[10]?).any (· ∈ ['T', 't', ' ']) && isZonedTime (t.drop 11))

/-- **A value that is no string**: a truth value, a number or a moment. -/
def isScalar (t : Text) : Bool :=
  t = "true".toList || t = "false".toList || isInteger t || isFloat t || isMoment t

/-- Characters of which such values are made. -/
def isScalarChar (c : Char) : Bool :=
  c.isDigit || c.isAlpha || c ∈ ['+', '-', '_', '.', ':']

/-- What is written for a value that is no string. A date and a time of day belong
together across a space. -/
def scalarText (t : Text) : Text × Text :=
  let first := t.takeWhile isScalarChar
  match t.dropWhile isScalarChar with
  | ' ' :: c :: rest =>
    if isDate first && c.isDigit then
      (first ++ ' ' :: (c :: rest).takeWhile isScalarChar, (c :: rest).dropWhile isScalarChar)
    else (first, ' ' :: c :: rest)
  | rest => (first, rest)

end Toml
end Uci
