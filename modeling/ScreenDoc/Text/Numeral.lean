import ScreenDoc.Binary64.Basic

/-!
# Numbers in text

The integers and doubles that a text may stand for by itself, outside JSON: a sign of either kind,
a point at either end, and words for what is not finite. Doubles are rounded to nearest.
-/

namespace ScreenDoc.Text

/-- The number that decimal digits write, after the digits of `start`. -/
def digitsValue (start : Nat) (digits : List Char) : Nat :=
  digits.foldl (fun n c => n * 10 + (c.toNat - '0'.toNat)) start

/-- A sign, if there is one, and what follows it. -/
def splitSign : List Char → Bool × List Char
  | '+' :: cs => (false, cs)
  | '-' :: cs => (true, cs)
  | cs => (false, cs)

def int64? (s : String) : Option Int64 :=
  let (negative, digits) := splitSign s.toList
  if digits.isEmpty || !digits.all Char.isDigit then none
  else
    let magnitude := digitsValue 0 digits
    let value : Int := if negative then -(magnitude : Int) else magnitude
    if Int64.minValue.toInt ≤ value ∧ value ≤ Int64.maxValue.toInt then some (Int64.ofInt value)
    else none

/-- The double nearest to `± mantissa * 10 ^ exponent`. Far outside the range of doubles the
power is not computed. -/
def decimalValue (negative : Bool) (mantissa : Nat) (exponent : Int) : Binary64.Extended :=
  let magnitude := exponent + (Nat.toDigits 10 mantissa).length
  if mantissa = 0 ∨ magnitude < -400 then .finite (.zero negative)
  else if 400 < magnitude then .infinite negative
  else .ofRatio negative (mantissa * tenPow exponent.toNat) (tenPow (-exponent).toNat)

/-- The power of ten behind a mantissa; nothing, or a whole exponent. -/
def exponent? : List Char → Option Int
  | [] => some 0
  | c :: cs =>
    if c = 'e' ∨ c = 'E' then
      let (negative, digits) := splitSign cs
      if digits.isEmpty || !digits.all Char.isDigit then none
      else if negative then some (-(digitsValue 0 digits : Int))
      else some (digitsValue 0 digits)
    else none

/-- A decimal number without its sign. -/
def decimal? (negative : Bool) (cs : List Char) : Option Binary64.Extended :=
  let whole := cs.takeWhile Char.isDigit
  let rest := cs.dropWhile Char.isDigit
  let (fraction, rest) := match rest with
    | '.' :: rest => (rest.takeWhile Char.isDigit, rest.dropWhile Char.isDigit)
    | rest => ([], rest)
  if whole.isEmpty && fraction.isEmpty then none
  else do
    let exponent ← exponent? rest
    some (decimalValue negative (digitsValue 0 (whole ++ fraction)) (exponent - fraction.length))

/-- A double, or a word for infinity or for what is not a number, in either case. -/
def float? (s : String) : Option Binary64.Extended :=
  let (negative, cs) := splitSign s.toList
  let word := String.ofList (cs.map Char.toLower)
  if word = "inf" ∨ word = "infinity" then some (.infinite negative)
  else if word = "nan" then some .nan
  else decimal? negative cs

end ScreenDoc.Text
