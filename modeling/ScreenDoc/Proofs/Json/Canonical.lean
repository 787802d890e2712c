import ScreenDoc.Json.Value
import ScreenDoc.Proofs.KeyMap

/-!
# Canonical JSON values

`Json.canonical` gives a value whose objects are sorted, leaves a sorted value alone, and, as long
as no object repeats a key, changes no look-up. `Json.induction` is the principle of proof for
values: what holds of a container as soon as it holds of what the container holds.
-/

namespace ScreenDoc.Json

theorem induction {motive : Json → Prop} (null : motive null) (bool : ∀ b, motive (bool b))
    (number : ∀ n, motive (number n)) (string : ∀ s, motive (string s))
    (array : ∀ items, (∀ item ∈ items, motive item) → motive (array items))
    (object : ∀ fields, (∀ field ∈ fields, motive field.2) → motive (object fields))
    (j : Json) : motive j :=
  match j with
  | .null => null
  | .bool b => bool b
  | .number n => number n
  | .string s => string s
  | .array items => array items fun item _ => induction null bool number string array object item
  | .object fields =>
    object fields fun field _ => induction null bool number string array object field.2
termination_by j.size
decreasing_by
  · exact size_lt_of_mem_items ‹_›
  · exact size_lt_of_mem_fields ‹_›

/-! ## The mutual recursions as maps and quantifiers -/

private theorem canonicalItems_eq (items : List Json) :
    canonicalItems items = items.map canonical := by
  induction items with
  | nil => rfl
  | cons item items ih => rw [canonicalItems, ih, List.map_cons]

private theorem canonicalFields_eq (fields : List (String × Json)) :
    canonicalFields fields = KeyMap.mapValues canonical fields := by
  induction fields with
  | nil => rfl
  | cons field fields ih => rw [canonicalFields, ih, KeyMap.mapValues, KeyMap.mapValues,
      List.map_cons]

@[simp] theorem canonical_array (items : List Json) :
    (array items).canonical = array (items.map canonical) := by
  rw [canonical, canonicalItems_eq]

@[simp] theorem canonical_object (fields : List (String × Json)) :
    (object fields).canonical = object (KeyMap.ofList (KeyMap.mapValues canonical fields)) := by
  rw [canonical, canonicalFields_eq]

@[simp] theorem canonical_null : null.canonical = null := by
  rw [canonical]

@[simp] theorem canonical_bool (b : Bool) : (bool b).canonical = bool b := by
  rw [canonical]

@[simp] theorem canonical_number (n : Number) : (number n).canonical = number n := by
  rw [canonical]

@[simp] theorem canonical_string (s : String) : (string s).canonical = string s := by
  rw [canonical]

theorem sorted_array {items : List Json} :
    (array items).Sorted ↔ ∀ item ∈ items, item.Sorted := by
  rw [Sorted]
  induction items with
  | nil => simp [SortedItems]
  | cons item items ih => simp [SortedItems, ih]

theorem sorted_object {fields : List (String × Json)} :
    (object fields).Sorted ↔ KeyMap.Sorted fields ∧ ∀ field ∈ fields, field.2.Sorted := by
  rw [Sorted, sortedFields_iff]

mutual

def decidableSorted : (j : Json) → Decidable j.Sorted
  | array items => decidableSortedItems items
  | object fields =>
    have := decidableSortedFields fields
    inferInstanceAs (Decidable ((KeyMap.keys fields).Pairwise (· < ·) ∧ SortedFields fields))
  | null => inferInstanceAs (Decidable True)
  | bool _ => inferInstanceAs (Decidable True)
  | number _ => inferInstanceAs (Decidable True)
  | string _ => inferInstanceAs (Decidable True)

def decidableSortedItems : (items : List Json) → Decidable (SortedItems items)
  | [] => inferInstanceAs (Decidable True)
  | item :: items =>
    have := decidableSorted item
    have := decidableSortedItems items
    inferInstanceAs (Decidable (item.Sorted ∧ SortedItems items))

def decidableSortedFields : (fields : List (String × Json)) → Decidable (SortedFields fields)
  | [] => inferInstanceAs (Decidable True)
  | (_, value) :: fields =>
    have := decidableSorted value
    have := decidableSortedFields fields
    inferInstanceAs (Decidable (value.Sorted ∧ SortedFields fields))

end

instance : DecidablePred Sorted := decidableSorted

theorem depth_array {items : List Json} {room : Nat} :
    (array items).depth ≤ room + 1 ↔ ∀ item ∈ items, item.depth ≤ room := by
  rw [depth, Nat.add_le_add_iff_right]
  induction items with
  | nil => simp [depthItems]
  | cons item items ih => simp [depthItems, ih]

theorem depth_object {fields : List (String × Json)} {room : Nat} :
    (object fields).depth ≤ room + 1 ↔ ∀ field ∈ fields, field.2.depth ≤ room := by
  rw [depth, Nat.add_le_add_iff_right]
  induction fields with
  | nil => simp [depthFields]
  | cons field fields ih => simp [depthFields, ih]

theorem depth_array_pos (items : List Json) : 0 < (array items).depth := by
  rw [depth]
  omega

theorem depth_object_pos (fields : List (String × Json)) : 0 < (object fields).depth := by
  rw [depth]
  omega

/-! ## Objects without repeated keys -/

inductive Distinct : Json → Prop where
  | null : Distinct null
  | bool (b : Bool) : Distinct (bool b)
  | number (n : Number) : Distinct (number n)
  | string (s : String) : Distinct (string s)
  | array {items : List Json} (hitems : ∀ item ∈ items, Distinct item) : Distinct (array items)
  | object {fields : List (String × Json)} (hkeys : (KeyMap.keys fields).Nodup)
    (hfields : ∀ field ∈ fields, Distinct field.2) : Distinct (object fields)

theorem Distinct.items {items : List Json} (h : Distinct (.array items)) :
    ∀ item ∈ items, Distinct item := by
  cases h
  assumption

theorem Distinct.nodup {fields : List (String × Json)} (h : Distinct (.object fields)) :
    (KeyMap.keys fields).Nodup := by
  cases h
  assumption

theorem Distinct.fields {fields : List (String × Json)} (h : Distinct (.object fields)) :
    ∀ field ∈ fields, Distinct field.2 := by
  cases h
  assumption

theorem Sorted.distinct {j : Json} (h : j.Sorted) : j.Distinct := by
  induction j using Json.induction with
  | null => exact .null
  | bool b => exact .bool b
  | number n => exact .number n
  | string s => exact .string s
  | array items ih => exact .array fun item hitem => ih item hitem (sorted_array.mp h item hitem)
  | object fields ih =>
    obtain ⟨hkeys, hfields⟩ := sorted_object.mp h
    exact .object hkeys.nodup fun field hfield => ih field hfield (hfields field hfield)

/-! ## Canonical values -/

theorem canonical_of_sorted {j : Json} (h : j.Sorted) : j.canonical = j := by
  induction j using Json.induction with
  | null => rw [canonical_null]
  | bool b => rw [canonical_bool]
  | number n => rw [canonical_number]
  | string s => rw [canonical_string]
  | array items ih =>
    have hitems : items.map canonical = items :=
      (List.map_congr_left fun item hitem =>
        ih item hitem (sorted_array.mp h item hitem)).trans (List.map_id items)
    rw [canonical_array, hitems]
  | object fields ih =>
    obtain ⟨hkeys, hfields⟩ := sorted_object.mp h
    have hvalues : KeyMap.mapValues canonical fields = fields := by
      refine (List.map_congr_left fun field hfield => ?_).trans (List.map_id fields)
      rw [ih field hfield (hfields field hfield)]
      rfl
    rw [canonical_object, hvalues, KeyMap.ofList_of_sorted hkeys]

theorem canonical_canonical (j : Json) : j.canonical.canonical = j.canonical :=
  canonical_of_sorted (sorted_canonical j)

theorem object_ofFields (fields : List (String × Json)) :
    object (Map.ofFields fields).fields = (object fields).canonical := by
  rw [canonical, Map.ofFields]

@[simp] theorem Map.ofFields_fields (m : Map) : ofFields m.fields = m :=
  Map.ext (object.inj ((object_ofFields m.fields).trans (canonical_of_sorted m.sorted)))

@[simp] theorem Value.ofJson_json (v : Value) : ofJson v.json = v :=
  Value.ext (canonical_of_sorted v.sorted)

theorem field?_canonical {fields : List (String × Json)} (h : (KeyMap.keys fields).Nodup)
    (key : String) :
    (object fields).canonical.field? key = (KeyMap.get? fields key).map canonical := by
  rw [canonical_object, field?, KeyMap.get?_ofList_mapValues h]

theorem string?_canonical (j : Json) : j.canonical.string? = j.string? := by
  cases j <;> simp [string?]

end ScreenDoc.Json
