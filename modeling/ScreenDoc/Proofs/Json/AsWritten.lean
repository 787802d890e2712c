import ScreenDoc.DecodeError
import ScreenDoc.Proofs.Json.Reader

/-!
# Values as texts write them

The value of a text before its fields are sorted. A text that has one is not blank, and it is the
draft of that value with nothing broken, marked or left over.
-/

namespace ScreenDoc

/-! ## Blank texts -/

private theorem Reader.scalarValue_of_isSpace {c : Char} (h : Text.isSpace c = true)
    (cs : List Char) : scalarValue (c :: cs) = scalar (.error (.all .malformed)) := by
  have hne (d : Char) (hd : Text.isSpace d = false) : c ≠ d := by
    rintro rfl
    rw [h] at hd
    cases hd
  have hdigit : c.isDigit = false := by
    by_contra hdigit
    simp only [Bool.not_eq_false, Char.isDigit, Bool.and_eq_true, decide_eq_true_eq, ge_iff_le,
      UInt32.le_iff_toNat_le] at hdigit
    have hzero : '0'.val.toNat = 48 := rfl
    have hnine : '9'.val.toNat = 57 := rfl
    simp only [Text.isSpace, Char.toNat, Bool.or_eq_true, Bool.and_eq_true, decide_eq_true_eq,
      beq_iff_eq] at h
    omega
  rw [scalarValue]
  · rw [if_neg]
    simp [hne '-' (by decide), hdigit]
  all_goals exact fun heq => hne _ (by decide) heq

private theorem Reader.value_of_isSpace {cs : List Char} (h : ∀ c ∈ cs, Text.isSpace c = true)
    (fuel : Nat) : ∃ place, value (fuel + 1) cs = scalar (.error place) := by
  rw [value]
  have hrest : ∀ c ∈ skipBlank cs, Text.isSpace c = true := fun c hc =>
    h c ((List.dropWhile_sublist isBlank).subset hc)
  cases hskip : skipBlank cs with
  | nil => exact ⟨.all .truncated, rfl⟩
  | cons c rest =>
    rw [hskip] at hrest
    have hspace := hrest c List.mem_cons_self
    split
    · rename_i heq
      rw [(List.cons.inj heq).1] at hspace
      cases hspace
    · rename_i heq
      rw [(List.cons.inj heq).1] at hspace
      cases hspace
    · exact ⟨.all .malformed, scalarValue_of_isSpace hspace rest⟩

/-- The value of a text with its fields as they stand there. -/
def Json.asWritten (text : String) : Except Failure Json :=
  Draft.readText (Draft.value Draft.roomAtTop) text

namespace Json

theorem ofText_eq (text : String) : ofText text = (asWritten text).map canonical := rfl

theorem asWritten_text {j : Json} (h : j.ReadsBack) (hdepth : j.depth ≤ Draft.roomAtTop) :
    asWritten j.text = .ok j := by
  rw [asWritten, Draft.readText_text h, Draft.value_toDraft hdepth]

theorem draft_of_asWritten {text : String} {j : Json} (h : asWritten text = .ok j) :
    Draft.ofText text = (j.toDraft, true) ∧ j.depth ≤ Draft.roomAtTop := by
  cases htext : Draft.ofText text with
  | mk draft ended =>
    simp only [asWritten, Draft.readText, htext] at h
    obtain ⟨value, hvalue, hended⟩ := bind_eq_ok.mp h
    obtain ⟨rfl, hdepth⟩ := Draft.eq_toDraft_of_value hvalue
    cases ended with
    | false => cases hended
    | true =>
      cases hended
      exact ⟨rfl, hdepth⟩

theorem isBlank_of_asWritten {text : String} {j : Json} (h : asWritten text = .ok j) :
    Text.isBlank text = false := by
  by_contra hblank
  rw [Bool.not_eq_false, Text.isBlank, List.all_eq_true] at hblank
  obtain ⟨place, hplace⟩ :=
    Reader.value_of_isSpace hblank (2 * text.toList.length + 1)
  have hdraft : Draft.ofText text = (.broken place, false) := by
    simp only [Draft.ofText, hplace]
    rfl
  rw [(draft_of_asWritten h).1] at hdraft
  cases congrArg Prod.snd hdraft

end Json

end ScreenDoc
