import ScreenDoc.Json.Fault

/-!
# String literals

A literal is scanned into characters and `\u` units up to its closing quote; this much is asked
of a string that is skipped. A string that is read is then decoded: a unit in the surrogate range
counts only as half of a pair of neighbouring escapes.
-/

namespace ScreenDoc

/-- A part of a string literal: a character, or the unit that a `\u` escape names. -/
inductive Piece where
  | char (c : Char)
  | unit (value : Nat)
  deriving DecidableEq

namespace StringLiteral

def hexValue (c : Char) : Option Nat :=
  if '0' ≤ c ∧ c ≤ '9' then some (c.toNat - '0'.toNat)
  else if 'a' ≤ c ∧ c ≤ 'f' then some (c.toNat - 'a'.toNat + 10)
  else if 'A' ≤ c ∧ c ≤ 'F' then some (c.toNat - 'A'.toNat + 10)
  else none

def hexUnit (a b c d : Char) : Option Nat := do
  let a ← hexValue a
  let b ← hexValue b
  let c ← hexValue c
  let d ← hexValue d
  some (((a * 16 + b) * 16 + c) * 16 + d)

/-- The character that a one-letter escape stands for. -/
def escaped : Char → Option Char
  | '"' => some '"'
  | '\\' => some '\\'
  | '/' => some '/'
  | 'b' => some '\x08'
  | 'f' => some '\x0c'
  | 'n' => some '\n'
  | 'r' => some '\r'
  | 't' => some '\t'
  | _ => none

/-- A `\u` with fewer than four bytes behind it is cut short. -/
def shortUnit (cs : List Char) : Fault :=
  if (String.ofList cs).utf8ByteSize < 4 then .truncated else .malformed

/-- The pieces behind an opening quote, and what follows the closing one. -/
def scan : List Char → List Piece × Except Fault (List Char)
  | [] => ([], .error .truncated)
  | '"' :: cs => ([], .ok cs)
  | ['\\'] => ([], .error .truncated)
  | '\\' :: 'u' :: a :: b :: c :: d :: cs =>
    match hexUnit a b c d with
    | some unit =>
      let (pieces, rest) := scan cs
      (.unit unit :: pieces, rest)
    | none => ([], .error .malformed)
  | '\\' :: 'u' :: cs => ([], .error (shortUnit cs))
  | '\\' :: c :: cs =>
    match escaped c with
    | some c =>
      let (pieces, rest) := scan cs
      (.char c :: pieces, rest)
    | none => ([], .error .malformed)
  | c :: cs =>
    if c.toNat < 0x20 then ([], .error .malformed)
    else
      let (pieces, rest) := scan cs
      (.char c :: pieces, rest)

/-- The text of pieces; none if a surrogate stands alone. -/
def decode : List Piece → Option (List Char)
  | [] => some []
  | .char c :: pieces => (decode pieces).map (c :: ·)
  | .unit high :: .unit low :: pieces =>
    if 0xD800 ≤ high ∧ high ≤ 0xDBFF then
      if 0xDC00 ≤ low ∧ low ≤ 0xDFFF then
        (decode pieces).map (Char.ofNat (0x10000 + (high - 0xD800) * 0x400 + (low - 0xDC00)) :: ·)
      else none
    else if 0xDC00 ≤ high ∧ high ≤ 0xDFFF then none
    else (decode (.unit low :: pieces)).map (Char.ofNat high :: ·)
  | .unit unit :: pieces =>
    if 0xD800 ≤ unit ∧ unit ≤ 0xDFFF then none
    else (decode pieces).map (Char.ofNat unit :: ·)

/-- Whether the pieces before a fault already hold a surrogate that stands alone. One at their
very end might still have found its other half. -/
def lone : List Piece → Bool
  | [] => false
  | .char _ :: pieces => lone pieces
  | [.unit unit] => 0xDC00 ≤ unit && unit ≤ 0xDFFF
  | .unit high :: .unit low :: pieces =>
    if 0xD800 ≤ high ∧ high ≤ 0xDBFF then
      !(0xDC00 ≤ low && low ≤ 0xDFFF) || lone pieces
    else (0xDC00 ≤ high && high ≤ 0xDFFF) || lone (.unit low :: pieces)
  | .unit unit :: .char _ :: pieces => (0xD800 ≤ unit && unit ≤ 0xDFFF) || lone pieces

/-- Reads a literal behind its opening quote: its text, none inside if a surrogate stands alone,
and what follows it. -/
def read (cs : List Char) : Except Break (Option String × List Char) :=
  match scan cs with
  | (pieces, .ok rest) => .ok ((decode pieces).map String.ofList, rest)
  | (pieces, .error fault) =>
    let read := if lone pieces then .malformed else fault
    .error ⟨read, fault, read⟩

end StringLiteral

end ScreenDoc
