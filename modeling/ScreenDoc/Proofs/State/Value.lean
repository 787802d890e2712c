import ScreenDoc.Proofs.Binary64.Rounding
import ScreenDoc.Proofs.Json.Canonical
import ScreenDoc.Proofs.Json.Numeral
import ScreenDoc.State.Value

/-!
# State values written and read back

The form that a JSON value takes as state is its last: written as JSON and read back it is the same,
unless it is a double that is not finite. Those have no form in JSON but `null`, and of all values
that a text can hold only strings become one.
-/

namespace ScreenDoc

namespace StateValue

def isFinite : StateValue → Bool
  | float x => x.isFinite
  | _ => true

/-- What is left of a value after it was written as JSON and read back. -/
def restored (v : StateValue) : StateValue :=
  if v.isFinite then v else null

/-- The forms that a JSON value takes. A string is one that reads as nothing more specific. -/
inductive Settled : StateValue → Prop where
  | bool (flag : Bool) : Settled (bool flag)
  | int (n : Int64) : Settled (int n)
  | float (x : Binary64.Extended) : Settled (float x)
  | string {s : String} (hs : ofContent s = string s) : Settled (string s)
  | null : Settled null
  | array {v : Json.Value} {items : List Json} (hv : v.json = .array items) : Settled (json v)
  | object {v : Json.Value} {fields : List (String × Json)} (hv : v.json = .object fields) :
    Settled (json v)

/-! ## Reading -/

/-- A text stands for something more specific or for itself, and never for nothing. -/
theorem ofContent_cases (s : String) :
    (∃ flag, ofContent s = bool flag) ∨ (∃ n, ofContent s = int n) ∨
      (∃ x, ofContent s = float x) ∨ ofContent s = string s := by
  unfold ofContent
  split
  · exact .inl ⟨true, rfl⟩
  · split
    · exact .inl ⟨false, rfl⟩
    · split
      · exact .inr (.inl ⟨_, rfl⟩)
      · split
        · exact .inr (.inr (.inl ⟨_, rfl⟩))
        · exact .inr (.inr (.inr rfl))

private theorem settled_ofContent (s : String) : Settled (ofContent s) := by
  obtain ⟨flag, h⟩ | ⟨n, h⟩ | ⟨x, h⟩ | h := ofContent_cases s
  · exact h ▸ .bool flag
  · exact h ▸ .int n
  · exact h ▸ .float x
  · rw [h]
    exact .string h

theorem settled_ofJson (j : Json) : Settled (ofJson j) := by
  cases j with
  | null => exact .null
  | bool flag => exact .bool flag
  | number n =>
    cases n with
    | int n =>
      rw [ofJson]
      split
      · exact .int _
      · exact .float _
    | float x => exact .float _
  | string s => exact settled_ofContent s
  | array items => exact .array (Json.canonical_array items)
  | object fields => exact .object (Json.canonical_object fields)

private theorem ofJson_eq_null_iff {j : Json} : ofJson j = null ↔ j = .null := by
  cases j with
  | null => simp [ofJson]
  | bool flag => simp [ofJson]
  | number n =>
    cases n with
    | int n =>
      rw [ofJson]
      split <;> simp
    | float x => simp [ofJson]
  | string s =>
    rw [ofJson]
    obtain ⟨flag, h⟩ | ⟨n, h⟩ | ⟨x, h⟩ | h := ofContent_cases s <;> simp [h]
  | array items => simp [ofJson]
  | object fields => simp [ofJson]

private theorem isFinite_ofJson_int {n : Int} (hn : (Number.int n).InRange) :
    (ofJson (.number (.int n))).isFinite = true := by
  obtain ⟨hleast, hmost⟩ := hn
  have hsize : n.natAbs < twoPow 64 := by
    have hpow : twoPow 64 = 2 ^ 64 := rfl
    omega
  obtain ⟨x, hx⟩ := Binary64.exists_finite_ofRatio_one (n < 0) hsize
  rw [ofJson]
  split
  · rfl
  · rw [hx]
    rfl

private theorem isFinite_ofJson_eq_false_iff {j : Json} (hj : ∀ n, j = .number n → n.InRange) :
    (ofJson j).isFinite = false ↔ ∃ s, j = .string s ∧ (ofContent s).isFinite = false := by
  cases j with
  | string s => simp [ofJson]
  | number n =>
    have hfinite : (ofJson (.number n)).isFinite = true := by
      cases n with
      | int n => exact isFinite_ofJson_int (hj _ rfl)
      | float x => rfl
    simp [hfinite]
  | _ => simp [ofJson, isFinite]

/-! ## Writing -/

theorem Settled.ofJson_toJson {v : StateValue} (h : v.Settled) : ofJson v.toJson = v.restored := by
  cases h with
  | int n =>
    have hrange : Int64.minValue.toInt ≤ n.toInt ∧ n.toInt ≤ Int64.maxValue.toInt :=
      ⟨n.minValue_le_toInt, n.toInt_le⟩
    rw [toJson, ofJson, if_pos hrange, Int64.ofInt_toInt]
    rfl
  | float x => cases x <;> rfl
  | string hs => exact hs
  | array hv =>
    rename_i v items
    rw [toJson, hv, ofJson, ← hv, Json.Value.ofJson_json]
    rfl
  | object hv =>
    rename_i v fields
    rw [toJson, hv, ofJson, ← hv, Json.Value.ofJson_json]
    rfl
  | _ => rfl

private theorem Settled.toJson_eq_null_iff {v : StateValue} (h : v.Settled) :
    v.toJson = .null ↔ v = .null ∨ v.isFinite = false := by
  cases h with
  | float x => cases x <;> simp [toJson, Json.ofExtended, isFinite, Binary64.Extended.isFinite]
  | array hv => simp [toJson, isFinite, hv]
  | object hv => simp [toJson, isFinite, hv]
  | _ => simp [toJson, isFinite]

/-- What is written as `null` was `null`, or was a string that reads as a double that is not
finite. -/
theorem toJson_ofJson_eq_null_iff {j : Json} (hj : ∀ n, j = .number n → n.InRange) :
    (ofJson j).toJson = .null ↔
      j = .null ∨ ∃ s, j = .string s ∧ (ofContent s).isFinite = false := by
  rw [(settled_ofJson j).toJson_eq_null_iff, ofJson_eq_null_iff, isFinite_ofJson_eq_false_iff hj]

end StateValue

end ScreenDoc
