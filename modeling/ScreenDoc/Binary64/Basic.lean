/-!
# Double-precision numbers

A finite binary64 number as exact integers, so that every rounding in the library is a statement
about natural numbers. `ofRatio` is the only rounding: to nearest, ties to even. Products and
quotients are exact ratios that are rounded once. `Extended` adds what is not finite.
-/

namespace ScreenDoc

def twoPow (exponent : Nat) : Nat :=
  Nat.pow 2 exponent

def tenPow (exponent : Nat) : Nat :=
  Nat.pow 10 exponent

/-- A mantissa and scale that one double, and only one, is written with. -/
def Binary64.Canonical (mantissa scale : Nat) : Prop :=
  mantissa < twoPow 53 ∧ scale ≤ 2045 ∧ (scale = 0 ∨ twoPow 52 ≤ mantissa)

instance (mantissa scale : Nat) : Decidable (Binary64.Canonical mantissa scale) := by
  unfold Binary64.Canonical; infer_instance

/-- The number `± mantissa * 2 ^ scale / 2 ^ 1074`. Both zeros are kept. -/
structure Binary64 where
  negative : Bool
  mantissa : Nat
  scale : Nat
  canonical : Binary64.Canonical mantissa scale
  deriving DecidableEq

namespace Binary64

/-- The number with these parts, unless they lie outside the format. -/
def make? (negative : Bool) (mantissa scale : Nat) : Option Binary64 :=
  if h : Canonical mantissa scale then some ⟨negative, mantissa, scale, h⟩ else none

def zero (negative : Bool) : Binary64 :=
  ⟨negative, 0, 0, by decide⟩

instance : Inhabited Binary64 := ⟨zero false⟩

/-- The integer nearest to `num / den`; a tie goes to the even one. -/
def roundDiv (num den : Nat) : Nat :=
  let q := num / den
  let r := num % den
  if 2 * r < den then q
  else if den < 2 * r then q + 1
  else if q % 2 = 0 then q else q + 1

/-- The double nearest to `± num / den`, ties to even; none when the ratio is too large. -/
def ofRatio (negative : Bool) (num den : Nat) : Option Binary64 :=
  let scaled := num * twoPow 1074
  let scale := (scaled / den).log2 - 52
  let mantissa := roundDiv scaled (den * twoPow scale)
  if mantissa = twoPow 53 then make? negative (twoPow 52) (scale + 1)
  else make? negative mantissa scale

def ofInt (n : Int) : Option Binary64 :=
  ofRatio (n < 0) n.natAbs 1

/-- The magnitude in units of the least positive double. -/
def units (x : Binary64) : Nat :=
  x.mantissa * twoPow x.scale

def isZero (x : Binary64) : Bool :=
  x.mantissa == 0

def neg (x : Binary64) : Binary64 :=
  { x with negative := !x.negative }

def mul (x y : Binary64) : Option Binary64 :=
  ofRatio (x.negative != y.negative) (x.units * y.units) (twoPow 1074 * twoPow 1074)

def div (x y : Binary64) : Option Binary64 :=
  ofRatio (x.negative != y.negative) x.units y.units

def sameValue (x y : Binary64) : Bool :=
  x == y || (x.isZero && y.isZero)

def inUnitInterval (x : Binary64) : Bool :=
  x.isZero || (!x.negative && x.units ≤ twoPow 1074)

/-- A double of any kind: finite, infinite or not a number. -/
inductive Extended where
  | finite (x : Binary64)
  | infinite (negative : Bool)
  | nan
  deriving DecidableEq, Inhabited

namespace Extended

/-- Rounds a ratio; one that is too large becomes infinite. -/
def ofRatio (negative : Bool) (num den : Nat) : Extended :=
  match Binary64.ofRatio negative num den with
  | some x => finite x
  | none => infinite negative

def sameValue : Extended → Extended → Bool
  | finite x, finite y => x.sameValue y
  | infinite m, infinite n => m == n
  | _, _ => false

def isFinite : Extended → Bool
  | finite _ => true
  | _ => false

def inUnitInterval : Extended → Bool
  | finite x => x.inUnitInterval
  | _ => false

end Extended

end Binary64

end ScreenDoc
