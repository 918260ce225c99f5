import Mathlib.Data.Rat.Floor
import RakshaQuant.Domain.Errors

/-! Numbers in texts as Python reads them, and the reset durations of rate-limit
headers. Doubles are exact rationals here, besides the infinities and NaN. -/

namespace RakshaQuant

/-- What Python knows of characters: `str.isspace`, `str.isdigit`, and the value
of a decimal digit. -/
structure Unicode where
  isSpace : Char → Bool
  isDigit : Char → Bool
  decimal : Char → Option ℕ

/-- The ASCII part of it. -/
def Unicode.ascii : Unicode where
  isSpace c := c = ' ' ∨ ('\t' ≤ c ∧ c ≤ '\r')
  isDigit c := c.isDigit
  decimal c := if c.isDigit then some (c.toNat - '0'.toNat) else none

inductive Seconds
  | finite (value : ℚ)
  | infinite (negative : Bool)
  | nan
deriving DecidableEq

namespace Unicode

variable (u : Unicode)

/-- `str.strip`. -/
def strip (text : List Char) : List Char :=
  ((text.dropWhile u.isSpace).reverse.dropWhile u.isSpace).reverse

/-! ### `float` -/

def isDecimal (c : Char) : Bool := (u.decimal c).isSome

/-- The number that decimal digits stand for. -/
def ofDigits (digits : List Char) : ℕ :=
  digits.foldl (fun n c => 10 * n + (u.decimal c).getD 0) 0

/-- Digits with at most one point between or beside them. -/
def mantissa (text : List Char) : Option ℚ :=
  let whole := text.takeWhile u.isDecimal
  match text.dropWhile u.isDecimal with
  | [] => if whole = [] then none else some (u.ofDigits whole)
  | '.' :: frac =>
    if frac.all u.isDecimal ∧ whole ++ frac ≠ [] then
      some (u.ofDigits (whole ++ frac) / 10 ^ frac.length)
    else none
  | _ => none

def sign (text : List Char) : Bool × List Char :=
  match text with
  | '-' :: rest => (true, rest)
  | '+' :: rest => (false, rest)
  | _ => (false, text)

/-- What follows the `e`. -/
def exponent (text : List Char) : Option ℤ :=
  let (negative, digits) := sign text
  if digits ≠ [] ∧ digits.all u.isDecimal then
    some (if negative then -(u.ofDigits digits : ℤ) else u.ofDigits digits)
  else none

/-- Underscores may stand between digits. -/
def ungroup : Bool → List Char → Option (List Char)
  | _, [] => some []
  | afterDigit, c :: rest =>
    if c = '_' then
      if afterDigit ∧ (rest.head?.map u.isDecimal) = some true then ungroup false rest else none
    else (ungroup (u.isDecimal c) rest).map (c :: ·)

/-- `float(text)`; none is a `ValueError`. -/
def float (text : List Char) : Option Seconds :=
  let (negative, body) := sign (u.strip text)
  let lower := String.ofList (body.map Char.toLower)
  if lower = "inf" ∨ lower = "infinity" then some (.infinite negative)
  else if lower = "nan" then some .nan
  else
    (u.ungroup false body).bind fun digits =>
      let isE (c : Char) : Bool := c = 'e' ∨ c = 'E'
      let scale := match digits.dropWhile (fun c => !isE c) with
        | [] => some 0
        | _ :: rest => u.exponent rest
      (u.mantissa (digits.takeWhile fun c => !isE c)).bind fun m =>
        scale.map fun e => .finite (if negative then -(m * 10 ^ e) else m * 10 ^ e)

/-! ### `_duration_s` -/

/-- The seconds of a unit, none of an unknown one. -/
def unitSeconds (unit : String) : Option ℚ :=
  if unit = "h" then some 3600
  else if unit = "m" then some 60
  else if unit = "s" then some 1
  else if unit = "ms" then some (1 / 1000)
  else none

/-- The `while` of `_duration_s`, with the total (none is NaN) and the number
read so far. A number is a text of digits and points. -/
def scan : List Char → Option ℚ → List Char → Except Exc (Option ℚ)
  | [], total, number =>
    if number = [] then .ok total
    else match u.mantissa number with
      | none => .error (.valueError "could not convert string to float")
      | some value => .ok (total.map (· + value))
  | ch :: rest, total, number =>
    if u.isDigit ch ∨ ch = '.' then scan rest total (number ++ [ch])
    else if number = [] then .ok none
    else match u.mantissa number with
      | none => .error (.valueError "could not convert string to float")
      | some value =>
        let after (unit : String) := total.bind fun t => (unitSeconds unit).map (t + · * value)
        if ch = 'm' then
          match rest with
          | 's' :: rest' => scan rest' (after "ms") []
          | [] => scan [] (after "m") []
          | c :: rest' => scan (c :: rest') (after "m") []
        else scan rest (after (String.ofList [ch])) []

/-- `_duration_s`: none of an empty text and of an unknown unit. -/
def durationS (text : String) : Except Exc (Option Seconds) :=
  let body := u.strip text.toList
  if body = [] then .ok none
  else match u.float body with
    | some seconds => .ok (some seconds)
    | none => (u.scan body (some 0) []).map fun total => total.map Seconds.finite

end Unicode

end RakshaQuant
