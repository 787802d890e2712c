import Mathlib.Data.List.Induction
import ScreenDoc.Proofs.Node.Ids
import ScreenDoc.Validate.Path

/-!
# Written paths

The written form of a path names one path only, as long as the keys on the way hold neither points
nor brackets. The paths of nodes are made of the places on the way from the root, and two addresses
have the same path only if they are the same.
-/

namespace ScreenDoc.Path

open Text (append_cons_inj_of_not_mem not_mem_toDigits toDigits_injective)

/-- A key that reads as one step of a written path. -/
def IsPlainKey (key : String) : Prop :=
  '.' ∉ key.toList ∧ ']' ∉ key.toList

instance (key : String) : Decidable (IsPlainKey key) :=
  inferInstanceAs (Decidable ('.' ∉ key.toList ∧ ']' ∉ key.toList))

/-- The path leads from the root through plain keys. -/
def IsPlain : Path → Prop
  | root => True
  | top _ => False
  | field parent key => parent.IsPlain ∧ IsPlainKey key
  | item parent _ => parent.IsPlain

theorem toList_text_field (parent : Path) (key : String) :
    (parent.field key).text.toList = parent.text.toList ++ '.' :: key.toList := by
  simp [text]

theorem toList_text_item (parent : Path) (index : Nat) :
    (parent.item index).text.toList =
      parent.text.toList ++ '[' :: (Nat.toDigits 10 index ++ [']']) := by
  simp [text]

theorem root_text_ne_field {parent : Path} {key : String} :
    root.text ≠ (parent.field key).text := by
  intro h
  have hmem : '.' ∈ root.text.toList := by
    rw [h, toList_text_field]
    simp
  revert hmem
  decide

theorem root_text_ne_item {parent : Path} {index : Nat} :
    root.text ≠ (parent.item index).text := by
  intro h
  have hmem : ']' ∈ root.text.toList := by
    rw [h, toList_text_item]
    simp
  revert hmem
  decide

/-- A path that ends in an index ends in a bracket, which no plain key holds. -/
theorem field_text_ne_item {parent other : Path} {key : String} {index : Nat}
    (hkey : IsPlainKey key) : (parent.field key).text ≠ (other.item index).text := by
  intro h
  have hlast := congrArg (fun s => s.toList.getLast?) h
  simp only [toList_text_field, toList_text_item] at hlast
  rw [List.getLast?_append, ← List.cons_append, ← List.append_assoc, List.getLast?_concat] at hlast
  have hmem : ']' ∈ '.' :: key.toList := by
    apply List.mem_of_getLast?
    simpa using hlast
  rcases List.mem_cons.mp hmem with hdot | hmem
  · exact absurd hdot (by decide)
  · exact hkey.2 hmem

theorem text_injective {p q : Path} (hp : p.IsPlain) (hq : q.IsPlain) (h : p.text = q.text) :
    p = q := by
  induction p generalizing q with
  | root =>
    cases q with
    | root => rfl
    | top key => exact hq.elim
    | field parent key => exact absurd h root_text_ne_field
    | item parent index => exact absurd h root_text_ne_item
  | top key => exact hp.elim
  | field parent key ih =>
    cases q with
    | root => exact absurd h.symm root_text_ne_field
    | top key => exact hq.elim
    | field other key' =>
      have hlist := congrArg String.toList h
      rw [toList_text_field, toList_text_field] at hlist
      obtain ⟨hparent, hkey⟩ := append_cons_inj_of_not_mem hp.2.1 hq.2.1 hlist
      rw [ih hp.1 hq.1 (String.toList_injective hparent), String.toList_injective hkey]
    | item other index => exact absurd h (field_text_ne_item hp.2)
  | item parent index ih =>
    cases q with
    | root => exact absurd h.symm root_text_ne_item
    | top key => exact hq.elim
    | field other key => exact absurd h.symm (field_text_ne_item hq.2)
    | item other index' =>
      have hlist := congrArg String.toList h
      rw [toList_text_item, toList_text_item] at hlist
      have hopen : ∀ n, '[' ∉ Nat.toDigits 10 n ++ [']'] := by
        intro n hmem
        rcases List.mem_append.mp hmem with hmem | hmem
        · exact not_mem_toDigits (by decide) n hmem
        · exact absurd (List.mem_singleton.mp hmem) (by decide)
      obtain ⟨hparent, hdigits⟩ := append_cons_inj_of_not_mem (hopen index) (hopen index') hlist
      have hother : other.IsPlain := hq
      rw [ih hp hother (String.toList_injective hparent),
        toDigits_injective (List.append_cancel_right hdigits)]

/-! ## Paths of addresses -/

def ofAddress (address : List ChildPlace) : Path :=
  address.foldl (fun path place => path.properties.child place) root

theorem ofAddress_concat (address : List ChildPlace) (place : ChildPlace) :
    ofAddress (address ++ [place]) = (ofAddress address).properties.child place := by
  rw [ofAddress, List.foldl_append]
  rfl

theorem child_ne_root {p : Path} {place : ChildPlace} : p.properties.child place ≠ root := by
  unfold child
  split <;> simp

private theorem child_inj {p q : Path} {a b : ChildPlace}
    (h : p.properties.child a = q.properties.child b) : p = q ∧ a = b := by
  obtain ⟨field, index⟩ := a
  obtain ⟨field', index'⟩ := b
  cases index <;> cases index' <;> simp_all [child, properties]

theorem ofAddress_injective {a b : List ChildPlace} (h : ofAddress a = ofAddress b) : a = b := by
  induction a using List.reverseRecOn generalizing b with
  | nil =>
    cases b using List.reverseRecOn with
    | nil => rfl
    | append_singleton b place =>
      rw [ofAddress_concat] at h
      exact absurd h.symm child_ne_root
  | append_singleton a place ih =>
    cases b using List.reverseRecOn with
    | nil =>
      rw [ofAddress_concat] at h
      exact absurd h child_ne_root
    | append_singleton b place' =>
      rw [ofAddress_concat, ofAddress_concat] at h
      obtain ⟨haddress, hplace⟩ := child_inj h
      rw [ih haddress, hplace]

theorem isPlainKey_properties : IsPlainKey "properties" := by
  decide

private theorem isPlain_child {p : Path} {place : ChildPlace} (hp : p.IsPlain)
    (hfield : IsPlainKey place.field) : (p.properties.child place).IsPlain := by
  unfold child
  split
  · exact ⟨⟨hp, isPlainKey_properties⟩, hfield⟩
  · exact ⟨⟨hp, isPlainKey_properties⟩, hfield⟩

theorem isPlain_ofAddress {address : List ChildPlace}
    (h : ∀ place ∈ address, IsPlainKey place.field) : (ofAddress address).IsPlain := by
  induction address using List.reverseRecOn with
  | nil => trivial
  | append_singleton address place ih =>
    rw [ofAddress_concat]
    exact isPlain_child (ih fun p hp => h p (List.mem_append_left _ hp))
      (h place (List.mem_append_right _ (List.mem_singleton_self _)))

end ScreenDoc.Path
