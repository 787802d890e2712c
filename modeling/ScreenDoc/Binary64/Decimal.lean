import ScreenDoc.Binary64.Basic

/-!
# Shortest decimal text of a double

`Decimal.shortest` finds the fewest significant digits that read back as the same double and,
among those, the nearest. All comparisons are between natural numbers: the value and the two ends
of the interval that rounds to it are brought to one denominator. `Layout` says how digits become
text, and each kind of output of the library is one value of it.
-/

namespace ScreenDoc

/-- The number `digits * 10 ^ exponent`. -/
structure Decimal where
  digits : Nat
  exponent : Int
  deriving DecidableEq

namespace Decimal

/-- Moves trailing zeros of the digits into the exponent. -/
def trim : Nat → Decimal → Decimal
  | 0, d => d
  | fuel + 1, d =>
    if d.digits ≠ 0 ∧ d.digits % 10 = 0 then trim fuel ⟨d.digits / 10, d.exponent + 1⟩ else d

/-- Four times the magnitude, and the ends of the interval of reals that round to it, in units of
the least positive double. -/
def interval (x : Binary64) : Nat × Nat × Nat :=
  let unit := twoPow x.scale
  let value := 4 * x.units
  let below := if x.mantissa = twoPow 52 ∧ 0 < x.scale then unit else 2 * unit
  (value - below, value, value + 2 * unit)

/-- The count of digits before the decimal point, negative for leading zeros behind it. -/
def magnitude (x : Binary64) : Int :=
  (Nat.toDigits 10 (x.units * tenPow 400 / twoPow 1074)).length - 400

/-- The neighbour of the value on the grid of `count` significant digits that lies in the
interval, the nearer one if both do. -/
def onGrid (tieUp : Bool) (x : Binary64) (count : Nat) : Option Decimal :=
  let exponent := magnitude x - count
  let (low, value, high) := interval x
  let up := tenPow exponent.toNat
  let down := tenPow (-exponent).toNat
  let step := 4 * twoPow 1074 * up
  let floor := value * down / step
  let inside (d : Nat) : Bool :=
    if x.mantissa % 2 = 0 then low * down ≤ d * step && d * step ≤ high * down
    else low * down < d * step && d * step < high * down
  let ceilingNearer :=
    let below := value * down - floor * step
    let above := (floor + 1) * step - value * down
    above < below || (above == below && (tieUp || floor % 2 == 1))
  match inside floor, inside (floor + 1) with
  | true, true => some ⟨if ceilingNearer then floor + 1 else floor, exponent⟩
  | true, false => some ⟨floor, exponent⟩
  | false, true => some ⟨floor + 1, exponent⟩
  | false, false => none

/-- The shortest decimal that reads back as the magnitude of `x`; `tieUp` says whether the greater
of two equally near ones is taken, otherwise the even one is. -/
def shortest (tieUp : Bool) (x : Binary64) : Decimal :=
  if x.isZero then ⟨0, 0⟩
  else
    match (List.range 17).findSome? fun i => onGrid tieUp x (i + 1) with
    | some d => trim 400 d
    | none => ⟨0, 0⟩

/-- How digits become text. -/
structure Layout where
  /-- Bounds on the count of digits before the point within which no exponent is written;
  none when an exponent is never written. -/
  positional : Option (Int × Int)
  /-- Whether a whole number keeps `.0`. -/
  pointed : Bool
  /-- Whether an exponent that is not negative has a plus sign. -/
  plus : Bool
  /-- Whether of two equally near decimals the greater one is taken. -/
  tieUp : Bool

/-- JSON text: positional from 0.00001 to below 10^16, a whole number keeps its point. -/
def Layout.json : Layout := ⟨some (-4, 16), true, true, false⟩

/-- Plain text: never an exponent, a whole number has no point. -/
def Layout.plain : Layout := ⟨none, false, false, true⟩

/-- Diagnostic text: positional from 0.0001 to below 10^16, a whole number keeps its point. -/
def Layout.diagnostic : Layout := ⟨some (-3, 16), true, false, true⟩

/-- The digits with the point behind the first `point` of them, zeros filled in. -/
def positionalText (pointed : Bool) (digits : List Char) (point : Int) : List Char :=
  let whole := if point ≤ 0 then ['0'] else
    digits.take point.toNat ++ List.replicate (point.toNat - digits.length) '0'
  let rest := List.replicate (-point).toNat '0' ++ digits.drop point.toNat
  if rest.isEmpty || digits == ['0'] then (if pointed then whole ++ ['.', '0'] else whole)
  else whole ++ '.' :: rest

/-- One digit, the others behind a point, and the exponent. -/
def exponentText (plus : Bool) (digits : List Char) (point : Int) : List Char :=
  let exponent := point - 1
  let sign := if exponent < 0 then ['-'] else if plus then ['+'] else []
  let fraction := if digits.length ≤ 1 then [] else '.' :: digits.drop 1
  digits.take 1 ++ fraction ++ 'e' :: sign ++ Nat.toDigits 10 exponent.natAbs

end Decimal

def Binary64.text (layout : Decimal.Layout) (x : Binary64) : List Char :=
  let decimal := Decimal.shortest layout.tieUp x
  let digits := Nat.toDigits 10 decimal.digits
  let point : Int := if x.isZero then 1 else decimal.exponent + digits.length
  let positional := match layout.positional with
    | none => true
    | some (least, most) => x.isZero || (least ≤ point && point ≤ most)
  let body := if positional then Decimal.positionalText layout.pointed digits point
    else Decimal.exponentText layout.plus digits point
  if x.negative then '-' :: body else body

def Binary64.Extended.text (layout : Decimal.Layout) : Extended → List Char
  | .finite x => x.text layout
  | .infinite negative => if negative then ['-', 'i', 'n', 'f'] else ['i', 'n', 'f']
  | .nan => ['N', 'a', 'N']

end ScreenDoc
