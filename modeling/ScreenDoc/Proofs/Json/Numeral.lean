import Mathlib.Data.List.TakeWhile
import Mathlib.Tactic.IntervalCases
import ScreenDoc.Json.Printer
import ScreenDoc.Json.Numeral
import ScreenDoc.Proofs.Except

/-!
# Reading back number literals

A literal is read alike whatever follows it, as long as no digit, point or exponent does. Integers
of 64 bits are read back as they were written. Whether a double is depends on its last place, so
`Number.ReadsBack` says it of one number.
-/

namespace ScreenDoc

/-- Nothing that continues a number literal stands here. -/
def Numeral.Ends (rest : List Char) : Prop :=
  ∀ c ∈ rest.head?, c.isDigit = false ∧ c ≠ '.' ∧ c ≠ 'e' ∧ c ≠ 'E'

/-- The number that a text gives when all of it is one literal. -/
def Number.ofText? (cs : List Char) : Option Number :=
  match Numeral.scan cs with
  | .ok (numeral, []) => numeral.value
  | _ => none

/-- The reader of numbers gives back the number that was written. -/
def Number.ReadsBack (n : Number) : Prop :=
  Number.ofText? (Json.renderNumber n []) = some n

namespace Numeral

theorem ends_nil : Ends [] := by
  simp [Ends]

private theorem takeWhile_isDigit_append {rest : List Char} (h : Ends rest) (cs : List Char) :
    (cs ++ rest).takeWhile Char.isDigit = cs.takeWhile Char.isDigit := by
  have hrest : rest.takeWhile Char.isDigit = [] := by
    cases rest with
    | nil => rfl
    | cons c rest => simp [(h c rfl).1]
  induction cs with
  | nil => exact hrest
  | cons c cs ih => rw [List.cons_append, List.takeWhile_cons, List.takeWhile_cons, ih]

private theorem dropWhile_isDigit_append {rest : List Char} (h : Ends rest) (cs : List Char) :
    (cs ++ rest).dropWhile Char.isDigit = cs.dropWhile Char.isDigit ++ rest := by
  have hrest : rest.dropWhile Char.isDigit = rest := by
    cases rest with
    | nil => rfl
    | cons c rest => simp [(h c rfl).1]
  induction cs with
  | nil => exact hrest
  | cons c cs ih =>
    rw [List.cons_append, List.dropWhile_cons, List.dropWhile_cons, ih]
    split <;> rfl

/-! ## What follows a literal does not matter to it -/

theorem scanDigits_append {cs digits r rest : List Char} (hrest : Ends rest)
    (h : scanDigits cs = .ok (digits, r)) : scanDigits (cs ++ rest) = .ok (digits, r ++ rest) := by
  unfold scanDigits at h ⊢
  rw [takeWhile_isDigit_append hrest, dropWhile_isDigit_append hrest]
  dsimp only at h ⊢
  split at h
  · cases h
  · rename_i hdigits
    cases h
    rw [if_neg hdigits]

private theorem scanWhole_append {cs digits r rest : List Char} (hrest : Ends rest)
    (h : scanWhole cs = .ok (digits, r)) : scanWhole (cs ++ rest) = .ok (digits, r ++ rest) := by
  unfold scanWhole at h ⊢
  split at h
  · cases h
  · rename_i hzero
    rw [scanDigits_append hrest h]
    split
    · rename_i heq
      cases heq
      exact absurd h (hzero _ _ _)
    · rfl

private theorem scanFraction_append {cs r rest : List Char} {fraction : Option (List Char)}
    (hrest : Ends rest) (h : scanFraction cs = .ok (fraction, r)) :
    scanFraction (cs ++ rest) = .ok (fraction, r ++ rest) := by
  unfold scanFraction at h
  split at h
  · rename_i cs
    obtain ⟨⟨digits, r'⟩, hdigits, heq⟩ := map_eq_ok.mp h
    cases heq
    rw [List.cons_append, scanFraction, scanDigits_append hrest hdigits]
    rfl
  · rename_i hpoint
    cases h
    unfold scanFraction
    split
    · rename_i heq
      cases cs with
      | nil => exact absurd rfl (hrest '.' (by rw [← List.nil_append rest, heq]; rfl)).2.1
      | cons c cs =>
        cases heq
        exact absurd rfl (hpoint cs)
    · rfl

def scanPower (negative : Bool) (cs : List Char) :
    Except Break (Option (Bool × List Char) × List Char) :=
  (scanDigits cs).map fun (digits, rest) => (some (negative, digits), rest)

theorem scanExponent_plus {c : Char} (hc : c = 'e' ∨ c = 'E') (cs : List Char) :
    scanExponent (c :: '+' :: cs) = scanPower false cs := by
  simp [scanExponent, scanPower, hc]

theorem scanExponent_minus {c : Char} (hc : c = 'e' ∨ c = 'E') (cs : List Char) :
    scanExponent (c :: '-' :: cs) = scanPower true cs := by
  simp [scanExponent, scanPower, hc]

theorem scanExponent_unsigned {c : Char} (hc : c = 'e' ∨ c = 'E') {cs : List Char}
    (hplus : cs.head? ≠ some '+') (hminus : cs.head? ≠ some '-') :
    scanExponent (c :: cs) = scanPower false cs := by
  unfold scanExponent
  dsimp only
  rw [if_pos hc]
  split
  · exact absurd rfl hplus
  · exact absurd rfl hminus
  · rfl

theorem scanPower_append {negative : Bool} {cs r rest : List Char}
    {exponent : Option (Bool × List Char)} (hrest : Ends rest)
    (h : scanPower negative cs = .ok (exponent, r)) :
    scanPower negative (cs ++ rest) = .ok (exponent, r ++ rest) := by
  obtain ⟨⟨digits, r'⟩, hdigits, heq⟩ := map_eq_ok.mp h
  cases heq
  rw [scanPower, scanDigits_append hrest hdigits]
  rfl

private theorem scanExponent_append {cs r rest : List Char} {exponent : Option (Bool × List Char)}
    (hrest : Ends rest) (h : scanExponent cs = .ok (exponent, r)) :
    scanExponent (cs ++ rest) = .ok (exponent, r ++ rest) := by
  match cs with
  | [] =>
    cases h
    cases rest with
    | nil => rfl
    | cons c rest =>
      obtain ⟨-, -, he, hE⟩ := hrest c rfl
      simp [scanExponent, he, hE]
  | [c] =>
    by_cases hc : c = 'e' ∨ c = 'E'
    · rw [scanExponent_unsigned hc (by simp) (by simp)] at h
      cases h
    · simp only [scanExponent, if_neg hc] at h
      cases h
      simp only [List.cons_append, scanExponent, if_neg hc]
  | c :: d :: cs =>
    by_cases hc : c = 'e' ∨ c = 'E'
    · by_cases hplus : d = '+'
      · subst hplus
        rw [scanExponent_plus hc] at h
        exact (scanExponent_plus hc _).trans (scanPower_append hrest h)
      · by_cases hminus : d = '-'
        · subst hminus
          rw [scanExponent_minus hc] at h
          exact (scanExponent_minus hc _).trans (scanPower_append hrest h)
        · rw [scanExponent_unsigned hc (by simpa) (by simpa)] at h
          exact (scanExponent_unsigned hc (by simpa) (by simpa)).trans (scanPower_append hrest h)
    · simp only [scanExponent, if_neg hc] at h
      cases h
      simp only [List.cons_append, scanExponent, if_neg hc]

def scanUnsigned (negative : Bool) (cs : List Char) : Except Break (Numeral × List Char) := do
  let (whole, cs) ← scanWhole cs
  let (fraction, cs) ← scanFraction cs
  let (exponent, cs) ← scanExponent cs
  .ok (⟨negative, whole, fraction, exponent⟩, cs)

theorem scan_minus (cs : List Char) : scan ('-' :: cs) = scanUnsigned true cs := rfl

theorem scan_of_head_ne {cs : List Char} (h : cs.head? ≠ some '-') :
    scan cs = scanUnsigned false cs := by
  unfold scan
  split
  rename_i heq
  split at heq
  · exact absurd rfl h
  · cases heq
    rfl

theorem scanUnsigned_append {negative : Bool} {cs r rest : List Char} {n : Numeral}
    (hrest : Ends rest) (h : scanUnsigned negative cs = .ok (n, r)) :
    scanUnsigned negative (cs ++ rest) = .ok (n, r ++ rest) := by
  obtain ⟨⟨whole, r₁⟩, hwhole, h⟩ := bind_eq_ok.mp h
  obtain ⟨⟨fraction, r₂⟩, hfraction, h⟩ := bind_eq_ok.mp h
  obtain ⟨⟨exponent, r₃⟩, hexponent, h⟩ := bind_eq_ok.mp h
  cases h
  refine bind_eq_ok.mpr ⟨_, scanWhole_append hrest hwhole, ?_⟩
  refine bind_eq_ok.mpr ⟨_, scanFraction_append hrest hfraction, ?_⟩
  exact bind_eq_ok.mpr ⟨_, scanExponent_append hrest hexponent, rfl⟩

theorem scan_append {cs r rest : List Char} {n : Numeral} (hrest : Ends rest)
    (h : scan cs = .ok (n, r)) : scan (cs ++ rest) = .ok (n, r ++ rest) := by
  match cs with
  | [] => cases h
  | c :: cs =>
    by_cases hminus : c = '-'
    · subst hminus
      rw [scan_minus] at h
      exact (scan_minus _).trans (scanUnsigned_append hrest h)
    · rw [scan_of_head_ne (by simpa)] at h
      exact (scan_of_head_ne (by simpa)).trans (scanUnsigned_append hrest h)

private theorem exists_digit_of_scanWhole {cs digits r : List Char}
    (h : scanWhole cs = .ok (digits, r)) : ∃ c rest, cs = c :: rest ∧ c.isDigit = true := by
  match cs with
  | [] => cases h
  | c :: rest =>
    refine ⟨c, rest, rfl, ?_⟩
    by_contra hc
    have : scanDigits (c :: rest) = .error (digitDue (c :: rest)) := by
      simp [scanDigits, hc]
    rw [scanWhole, this] at h
    cases h

theorem exists_of_scan {cs r : List Char} {n : Numeral} (h : scan cs = .ok (n, r)) :
    ∃ c rest, cs = c :: rest ∧ (c = '-' ∨ c.isDigit = true) := by
  by_cases hminus : cs.head? = some '-'
  · obtain ⟨rest, rfl⟩ := List.head?_eq_some_iff.mp hminus
    exact ⟨_, _, rfl, .inl rfl⟩
  · rw [scan_of_head_ne hminus] at h
    obtain ⟨⟨whole, r₁⟩, hwhole, -⟩ := bind_eq_ok.mp h
    obtain ⟨c, rest, hcs, hc⟩ := exists_digit_of_scanWhole hwhole
    exact ⟨c, rest, hcs, .inr hc⟩

/-! ## Written integers -/

private theorem natOf_toDigits (n : Nat) : natOf 0 (Nat.toDigits 10 n) = n := by
  have h : ∀ digits start, natOf start digits = Nat.ofDigitChars 10 digits start := by
    intro digits start
    simp only [natOf, digitValue, Nat.ofDigitChars_eq_foldl, Nat.mul_comm]
  rw [h, Nat.ofDigitChars_ten_toDigits]

private theorem head?_toDigits_ne {n : Nat} (hn : 0 < n) :
    (Nat.toDigits 10 n).head? ≠ some '0' := by
  induction n using Nat.strong_induction_on with
  | _ n ih =>
    rw [Nat.toDigits_eq_if (by decide)]
    split
    · rename_i hlt
      interval_cases n <;> decide
    · have hdigits := ih (n / 10) (by omega) (by omega)
      have hlength : 0 < (Nat.toDigits 10 (n / 10)).length := Nat.length_toDigits_pos
      cases hcs : Nat.toDigits 10 (n / 10) with
      | nil => simp [hcs] at hlength
      | cons c cs => simpa [hcs] using hdigits

private theorem scanWhole_toDigits (n : Nat) :
    scanWhole (Nat.toDigits 10 n) = .ok (Nat.toDigits 10 n, []) := by
  have hall : ∀ c ∈ Nat.toDigits 10 n, c.isDigit = true := fun c hc =>
    Nat.isDigit_of_mem_toDigits (by decide) (by decide) hc
  have hlength : 0 < (Nat.toDigits 10 n).length := Nat.length_toDigits_pos
  have hscan : scanDigits (Nat.toDigits 10 n) = .ok (Nat.toDigits 10 n, []) := by
    have htake : (Nat.toDigits 10 n).takeWhile Char.isDigit = Nat.toDigits 10 n :=
      List.takeWhile_eq_self_iff.mpr hall
    have hdrop : (Nat.toDigits 10 n).dropWhile Char.isDigit = [] :=
      List.dropWhile_eq_nil_iff.mpr hall
    simp only [scanDigits, htake, hdrop]
    rw [if_neg (by simp)]
  rw [scanWhole, hscan]
  split
  · rename_i heq
    cases Nat.eq_zero_or_pos n with
    | inl hzero => simp [hzero] at heq
    | inr hpos =>
      have hhead := head?_toDigits_ne hpos
      simp only [Except.ok.injEq, Prod.mk.injEq] at heq
      simp [heq.1] at hhead
  · rfl

theorem scanUnsigned_toDigits (negative : Bool) (n : Nat) :
    scanUnsigned negative (Nat.toDigits 10 n)
      = .ok (⟨negative, Nat.toDigits 10 n, none, none⟩, []) := by
  refine bind_eq_ok.mpr ⟨_, scanWhole_toDigits n, ?_⟩
  rfl

theorem value_toDigits {negative : Bool} {n : Nat} (hsize : n < 2 ^ 64)
    (hnegative : negative = true → 0 < n ∧ n ≤ 2 ^ 63) :
    value ⟨negative, Nat.toDigits 10 n, none, none⟩
      = some (.int (if negative then -(n : Int) else n)) := by
  have hpow : twoPow 63 = 2 ^ 63 := rfl
  have hsize' : n < UInt64.size := by simpa [UInt64.size] using hsize
  simp only [value, natOf_toDigits, hpow]
  rw [if_pos]
  cases negative with
  | false => simp [hsize']
  | true =>
    obtain ⟨hpos, hmost⟩ := hnegative rfl
    simpa [hsize', hpos] using hmost

end Numeral

/-- An integer that the type of numbers holds: 64 bits, signed or not. -/
def Number.InRange : Number → Prop
  | .int n => -(2 ^ 63) ≤ n ∧ n < 2 ^ 64
  | .float _ => True

theorem Number.readsBack_int {n : Int} (h : (Number.int n).InRange) : (Number.int n).ReadsBack := by
  obtain ⟨hleast, hmost⟩ := h
  rw [ReadsBack, ofText?, Json.renderNumber, List.append_nil, Json.integerText]
  by_cases hneg : n < 0
  · rw [if_pos hneg, Numeral.scan_minus, Numeral.scanUnsigned_toDigits]
    change Numeral.value _ = _
    rw [Numeral.value_toDigits (by omega) (by omega), if_pos rfl]
    congr 2
    omega
  · have hhead : (Nat.toDigits 10 n.natAbs).head? ≠ some '-' := by
      intro hhead
      have := Nat.isDigit_of_mem_toDigits (by decide) (by decide) (List.mem_of_mem_head? hhead)
      exact absurd this (by decide)
    rw [if_neg hneg, Numeral.scan_of_head_ne hhead, Numeral.scanUnsigned_toDigits]
    change Numeral.value _ = _
    rw [Numeral.value_toDigits (by omega) (by simp), if_neg (by simp)]
    congr 2
    omega

end ScreenDoc
