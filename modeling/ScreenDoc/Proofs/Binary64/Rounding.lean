import ScreenDoc.Binary64.Basic

/-!
# Rounding to doubles

The nearest integer to a ratio is its quotient or the next one. So the mantissa that a ratio is
rounded to has 53 bits, or is the power of two that makes the next scale, and the only ratios
without a double are those that are too large.
-/

namespace ScreenDoc

theorem twoPow_pos (exponent : Nat) : 0 < twoPow exponent :=
  Nat.two_pow_pos exponent

theorem twoPow_add (a b : Nat) : twoPow (a + b) = twoPow a * twoPow b :=
  Nat.pow_add 2 a b

private theorem twoPow_log2_le {n : Nat} (hn : n ≠ 0) : twoPow n.log2 ≤ n :=
  Nat.log2_self_le hn

private theorem lt_twoPow_log2 (n : Nat) : n < twoPow (n.log2 + 1) :=
  Nat.lt_log2_self

private theorem log2_lt_of_lt_twoPow {n k : Nat} (hk : 0 < k) (h : n < twoPow k) : n.log2 < k := by
  by_cases hn : n = 0
  · rwa [hn, Nat.log2_zero]
  · exact (Nat.log2_lt hn).mpr h

theorem twoPow_le_twoPow {a b : Nat} (h : a ≤ b) : twoPow a ≤ twoPow b :=
  Nat.pow_le_pow_right (by decide) h

namespace Binary64

private theorem roundDiv_bounds (num den : Nat) :
    num / den ≤ roundDiv num den ∧ roundDiv num den ≤ num / den + 1 := by
  unfold roundDiv
  dsimp only
  split
  · omega
  · split
    · omega
    · split <;> omega

/-- With its scale, the quotient of a ratio has 53 bits, or fewer and the least scale. -/
theorem scaled_quotient_bounds (q : Nat) :
    q / twoPow (q.log2 - 52) < twoPow 53 ∧
      (q.log2 - 52 = 0 ∨ twoPow 52 ≤ q / twoPow (q.log2 - 52)) := by
  have hunit : 0 < twoPow (q.log2 - 52) := twoPow_pos _
  constructor
  · rw [Nat.div_lt_iff_lt_mul hunit, ← twoPow_add]
    calc q
      _ < twoPow (q.log2 + 1) := lt_twoPow_log2 q
      _ ≤ twoPow (53 + (q.log2 - 52)) := twoPow_le_twoPow (by omega)
  · by_cases hscale : q.log2 - 52 = 0
    · exact .inl hscale
    · right
      have hq : q ≠ 0 := by
        rintro rfl
        exact hscale (by decide)
      rw [Nat.le_div_iff_mul_le hunit, ← twoPow_add]
      have hsum : 52 + (q.log2 - 52) = q.log2 := by omega
      rw [hsum]
      exact twoPow_log2_le hq

theorem exists_make? (negative : Bool) {mantissa scale : Nat} (h : Canonical mantissa scale) :
    ∃ x, make? negative mantissa scale = some x :=
  ⟨⟨negative, mantissa, scale, h⟩, dif_pos h⟩

private theorem exists_ofRatio (negative : Bool) {num den : Nat}
    (h : (num * twoPow 1074 / den).log2 < 2097) : ∃ x, ofRatio negative num den = some x := by
  generalize hq : num * twoPow 1074 / den = q at h
  have hquotient : num * twoPow 1074 / (den * twoPow (q.log2 - 52)) =
      q / twoPow (q.log2 - 52) := by
    rw [← Nat.div_div_eq_div_mul, hq]
  obtain ⟨hlow, hhigh⟩ := roundDiv_bounds (num * twoPow 1074) (den * twoPow (q.log2 - 52))
  obtain ⟨hlt, hnormal⟩ := scaled_quotient_bounds q
  rw [hquotient] at hlow hhigh
  have hcarry : Canonical (twoPow 52) (q.log2 - 52 + 1) :=
    ⟨by decide, by omega, .inr (Nat.le_refl _)⟩
  rw [ofRatio]
  simp only [hq]
  split
  · exact exists_make? negative hcarry
  · rename_i hne
    exact exists_make? negative ⟨by omega, by omega, hnormal.imp_right fun h => Nat.le_trans h hlow⟩

section Extended

-- Opened under a case distinction, the rounding of a ratio would be computed with literals of
-- more than a thousand bits.
attribute [local irreducible] Binary64.ofRatio

private theorem Extended.ofRatio_eq : Extended.ofRatio = fun negative num den =>
    match Binary64.ofRatio negative num den with
    | some x => .finite x
    | none => .infinite negative := rfl

private theorem Extended.ofRatio_of_eq_some {negative : Bool} {num den : Nat} {x : Binary64}
    (h : Binary64.ofRatio negative num den = some x) :
    Extended.ofRatio negative num den = .finite x := by
  rw [Extended.ofRatio_eq]
  simp only [h]

end Extended

theorem exists_finite_ofRatio_one (negative : Bool) {n : Nat} (hn : n < twoPow 64) :
    ∃ x, Extended.ofRatio negative n 1 = .finite x := by
  have hbits : (n * twoPow 1074 / 1).log2 < 2097 := by
    apply log2_lt_of_lt_twoPow (by decide)
    calc n * twoPow 1074 / 1
      _ = n * twoPow 1074 := Nat.div_one _
      _ < twoPow 64 * twoPow 1074 := Nat.mul_lt_mul_of_pos_right hn (twoPow_pos 1074)
      _ = twoPow (64 + 1074) := (twoPow_add 64 1074).symm
      _ ≤ twoPow 2097 := twoPow_le_twoPow (by decide)
  obtain ⟨x, hx⟩ := exists_ofRatio negative hbits
  exact ⟨x, Extended.ofRatio_of_eq_some hx⟩

end Binary64

end ScreenDoc
