import ScreenDoc.Json.Basic
import ScreenDoc.Json.Fault

/-!
# Number literals

A literal without fraction and exponent is an integer if 64 bits hold it. Any other literal is a
double, computed the quick way: its leading digits form a significand below `2 ^ 64`, the position
of the point and the exponent are one power of ten, and the rounded significand is multiplied or
divided by that rounded power. The result may differ from the nearest double in its last place.
-/

namespace ScreenDoc

/-- The parts of a number literal; digit lists are not empty. -/
structure Numeral where
  negative : Bool
  whole : List Char
  fraction : Option (List Char)
  /-- Whether the exponent is negative, and its digits. -/
  exponent : Option (Bool × List Char)
  deriving DecidableEq

namespace Numeral

/-- Where a digit is due but none stands: a literal that ends with the text is cut short when it
is read, but wrong when it is skipped. -/
def digitDue : List Char → Break
  | [] => ⟨.truncated, .malformed, .malformed⟩
  | _ :: _ => .all .malformed

/-- One or more digits, and what follows them. -/
def scanDigits (cs : List Char) : Except Break (List Char × List Char) :=
  let digits := cs.takeWhile Char.isDigit
  if digits.isEmpty then .error (digitDue cs) else .ok (digits, cs.dropWhile Char.isDigit)

/-- The digits before the point; a zero stands alone. -/
def scanWhole (cs : List Char) : Except Break (List Char × List Char) :=
  match scanDigits cs with
  | .ok ('0' :: _ :: _, _) => .error (.all .malformed)
  | result => result

def scanFraction : List Char → Except Break (Option (List Char) × List Char)
  | '.' :: cs => (scanDigits cs).map fun (digits, rest) => (some digits, rest)
  | cs => .ok (none, cs)

def scanExponent : List Char → Except Break (Option (Bool × List Char) × List Char)
  | [] => .ok (none, [])
  | c :: cs =>
    if c = 'e' ∨ c = 'E' then
      let (negative, digits) := match cs with
        | '+' :: rest => (false, rest)
        | '-' :: rest => (true, rest)
        | _ => (false, cs)
      (scanDigits digits).map fun (digits, rest) => (some (negative, digits), rest)
    else .ok (none, c :: cs)

/-- The literal at the beginning of a text, and what follows it. -/
def scan (cs : List Char) : Except Break (Numeral × List Char) := do
  let (negative, cs) := match cs with
    | '-' :: rest => (true, rest)
    | _ => (false, cs)
  let (whole, cs) ← scanWhole cs
  let (fraction, cs) ← scanFraction cs
  let (exponent, cs) ← scanExponent cs
  .ok (⟨negative, whole, fraction, exponent⟩, cs)

def digitValue (c : Char) : Nat :=
  c.toNat - '0'.toNat

/-- The natural number that digits write, after the digits of `start`. -/
def natOf (start : Nat) (digits : List Char) : Nat :=
  digits.foldl (fun n c => n * 10 + digitValue c) start

/-- Takes digits into a significand as long as it stays below `2 ^ 64`; also says how many. -/
def gather (significand : Nat) : List Char → Nat × Nat
  | [] => (significand, 0)
  | c :: cs =>
    let next := significand * 10 + digitValue c
    if next < UInt64.size then
      let (result, taken) := gather next cs
      (result, taken + 1)
    else (significand, 0)

/-- The double nearest to a power of ten up to `10 ^ 308`. -/
def powerOfTen (exponent : Nat) : Binary64 :=
  (Binary64.ofRatio false (tenPow exponent) 1).getD (.zero false)

/-- Multiplies or divides by a power of ten, in steps of at most `10 ^ 308`; none on overflow. A
number below `2 ^ 64` has become zero after two such divisions, so three steps are enough. -/
def scaleByTen (steps : Nat) (x : Binary64) (exponent : Int) : Option Binary64 :=
  match steps with
  | 0 => some x
  | steps + 1 =>
    if exponent.natAbs ≤ 308 then
      if 0 ≤ exponent then x.mul (powerOfTen exponent.natAbs)
      else x.div (powerOfTen exponent.natAbs)
    else if x.isZero then some x
    else if 0 ≤ exponent then none
    else do scaleByTen steps (← x.div (powerOfTen 308)) (exponent + 308)

/-- The significand, and the power of ten that it is to be multiplied by. -/
def parts (n : Numeral) : Nat × Int :=
  let (significand, taken) := gather 0 n.whole
  let (significand, behind) := gather significand (n.fraction.getD [])
  let exponent : Int := match n.exponent with
    | none => 0
    | some (true, digits) => -(natOf 0 digits : Int)
    | some (false, digits) => natOf 0 digits
  (significand, (n.whole.length : Int) - taken - behind + exponent)

/-- The literal as a double; none when it is out of range. -/
def toBinary64 (n : Numeral) : Option Binary64 := do
  let (significand, exponent) := n.parts
  let magnitude ← scaleByTen 3 (← Binary64.ofRatio false significand 1) exponent
  some (if n.negative then magnitude.neg else magnitude)

/-- The number that a literal stands for; none when it is out of range. Minus zero is a double. -/
def value (n : Numeral) : Option Number :=
  let magnitude := natOf 0 n.whole
  if n.fraction.isNone && n.exponent.isNone && magnitude < UInt64.size
      && (!n.negative || (0 < magnitude && magnitude ≤ twoPow 63)) then
    some (.int (if n.negative then -(magnitude : Int) else magnitude))
  else n.toBinary64.map .float

end Numeral

end ScreenDoc
