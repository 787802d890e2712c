import ScreenDoc.Proofs.Json.Fits

/-!
# Numbers in texts

An integer that a text gives has 64 bits: a literal that is too long for that is a double. So the
numbers in the draft of a text, and in every value that is read from it, are in range.
-/

namespace ScreenDoc

private theorem Numeral.inRange_value {n : Numeral} {m : Number} (h : n.value = some m) :
    m.InRange := by
  unfold value at h
  dsimp only at h
  split at h
  · rename_i hinteger
    have hsize : UInt64.size = 2 ^ 64 := rfl
    have hpow : twoPow 63 = 2 ^ 63 := by decide
    simp only [Bool.and_eq_true, Bool.or_eq_true, Bool.not_eq_true', decide_eq_true_eq, hsize,
      hpow] at hinteger
    obtain ⟨⟨-, hmost⟩, hsign⟩ := hinteger
    cases h
    cases hnegative : n.negative with
    | false =>
      rw [if_neg (by simp)]
      constructor <;> omega
    | true =>
      have hleast : natOf 0 n.whole ≤ 2 ^ 63 := by
        simpa [hnegative] using hsign.imp_right And.right
      rw [if_pos rfl]
      constructor <;> omega
  · obtain ⟨x, -, rfl⟩ := Option.map_eq_some_iff.mp h
    trivial

mutual

def Draft.InRange : Draft → Prop
  | .number (some n) => n.InRange
  | .array items => items.InRange
  | .object members => members.InRange
  | _ => True

def Items.InRange : Items → Prop
  | .item value rest => value.InRange ∧ rest.InRange
  | _ => True

def Members.InRange : Members → Prop
  | .member _ value rest => value.InRange ∧ rest.InRange
  | _ => True

end

/-! ## Drafts of texts -/

namespace Reader

theorem inRange_scalar {read : Except Break (Draft × List Char)}
    (h : ∀ result, read = .ok result → result.1.InRange) : (scalar read).1.InRange := by
  cases read with
  | error place => trivial
  | ok result => exact h result rfl

private theorem inRange_number (n : Numeral) : (Draft.number n.value).InRange := by
  cases hvalue : n.value with
  | none => trivial
  | some m => exact Numeral.inRange_value hvalue

private theorem inRange_scalarValue (cs : List Char) : (scalarValue cs).1.InRange := by
  have hword (draft : Draft) (hdraft : draft.InRange) (rest : Rest) :
      (scalar (rest.map (draft, ·))).1.InRange := by
    refine inRange_scalar fun result hresult => ?_
    obtain ⟨_, -, rfl⟩ := map_eq_ok.mp hresult
    exact hdraft
  unfold scalarValue
  split
  · trivial
  · exact hword .null trivial _
  · exact hword (.bool true) trivial _
  · exact hword (.bool false) trivial _
  · refine inRange_scalar fun result hresult => ?_
    obtain ⟨_, -, rfl⟩ := map_eq_ok.mp hresult
    trivial
  · split
    · refine inRange_scalar fun result hresult => ?_
      obtain ⟨scanned, -, rfl⟩ := map_eq_ok.mp hresult
      exact inRange_number scanned.1
    · trivial

section Containers

variable {readValue : List Char → Draft × Rest} (hvalue : ∀ cs, (readValue cs).1.InRange)

include hvalue in
theorem inRange_item {readMore : List Char → Items × Rest}
    (hmore : ∀ cs, (readMore cs).1.InRange) (cs : List Char) :
    (item readValue readMore cs).1.InRange := by
  have hfirst := hvalue cs
  unfold item
  split
  · rename_i heq
    rw [heq] at hfirst
    exact ⟨hfirst, trivial⟩
  · rename_i heq
    rw [heq] at hfirst
    exact ⟨hfirst, hmore _⟩

include hvalue in
theorem inRange_member {readMore : List Char → Members × Rest}
    (hmore : ∀ cs, (readMore cs).1.InRange) (cs : List Char) :
    (member readValue readMore cs).1.InRange := by
  unfold member
  split
  · split
    · trivial
    · split
      rename_i value rest heq
      have hfirst : value.InRange := by
        split at heq
        · rename_i behind _
          have hread := hvalue behind
          rwa [heq] at hread
        · cases heq
          trivial
        · cases heq
          trivial
      split
      · exact ⟨hfirst, trivial⟩
      · exact ⟨hfirst, hmore _⟩
  · trivial

end Containers

theorem inRange (fuel : Nat) (cs : List Char) :
    (value fuel cs).1.InRange ∧ (items fuel cs).1.InRange ∧ (moreItems fuel cs).1.InRange
      ∧ (members fuel cs).1.InRange ∧ (moreMembers fuel cs).1.InRange := by
  -- Induction on the fuel: each reader of containers hands the text on with less of it.
  induction fuel generalizing cs with
  | zero => exact ⟨trivial, trivial, trivial, trivial, trivial⟩
  | succ fuel ih =>
    refine ⟨?_, ?_, ?_, ?_, ?_⟩
    · rw [value]
      split
      · exact (ih _).2.1
      · exact (ih _).2.2.2.1
      · exact inRange_scalarValue _
    · rw [items]
      split
      · trivial
      · exact inRange_item (fun cs => (ih cs).1) (fun cs => (ih cs).2.2.1) _
    · rw [moreItems]
      split
      · trivial
      · exact inRange_item (fun cs => (ih cs).1) (fun cs => (ih cs).2.2.1) _
      · trivial
      · trivial
    · rw [members]
      split
      · trivial
      · exact inRange_member (fun cs => (ih cs).1) (fun cs => (ih cs).2.2.2.2) _
    · rw [moreMembers]
      split
      · trivial
      · exact inRange_member (fun cs => (ih cs).1) (fun cs => (ih cs).2.2.2.2) _
      · trivial
      · trivial

end Reader

theorem Draft.inRange_ofText (text : String) : (ofText text).1.InRange := by
  have hvalue := (Reader.inRange (2 * text.toList.length + 2) text.toList).1
  unfold ofText
  dsimp only
  split
  · rename_i heq
    rwa [heq] at hvalue
  · rename_i heq
    rwa [heq] at hvalue

/-! ## Values in drafts -/

theorem Items.forall_inRange {items : List Json} (h : (Json.toItems items).InRange) :
    ∀ item ∈ items, item.toDraft.InRange := by
  induction items with
  | nil => exact List.forall_mem_nil _
  | cons item items ih => exact List.forall_mem_cons.mpr ⟨h.1, ih h.2⟩

theorem Members.forall_inRange {fields : List (String × Json)}
    (h : (Json.toMembers fields).InRange) : ∀ field ∈ fields, field.2.toDraft.InRange := by
  induction fields with
  | nil => exact List.forall_mem_nil _
  | cons field fields ih => exact List.forall_mem_cons.mpr ⟨h.1, ih h.2⟩

theorem Json.inRange_of_toDraft {j : Json} (h : j.toDraft.InRange) :
    ∀ n ∈ j.numbers, n.InRange := by
  induction j using Json.induction with
  | number n =>
    intro m hm
    rw [List.mem_singleton.mp hm]
    exact h
  | array items ih =>
    intro n hn
    obtain ⟨item, hitem, hn⟩ := mem_numbers_array.mp hn
    exact ih item hitem (Items.forall_inRange h item hitem) n hn
  | object fields ih =>
    intro n hn
    obtain ⟨field, hfield, hn⟩ := mem_numbers_object.mp hn
    exact ih field hfield (Members.forall_inRange h field hfield) n hn
  | _ => exact List.forall_mem_nil _

end ScreenDoc
