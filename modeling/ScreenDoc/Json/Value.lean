import ScreenDoc.Json.Basic

/-!
# JSON values as the types hold them

A value that a document, an action or a state cell holds is canonical: its objects are maps. The
two types carry that, and a value or a list of fields that is put where one of them is expected is
made canonical on the way.
-/

namespace ScreenDoc

namespace Json

theorem sortedFields_iff {fields : List (String × Json)} :
    SortedFields fields ↔ ∀ field ∈ fields, field.2.Sorted := by
  induction fields with
  | nil => simp [SortedFields]
  | cons field fields ih => simp [SortedFields, ih]

mutual

theorem sorted_canonical : (j : Json) → j.canonical.Sorted
  | array items => by
    rw [canonical, Sorted]
    exact sorted_canonicalItems items
  | object fields => by
    rw [canonical, Sorted]
    have hfields := sortedFields_iff.mp (sorted_canonicalFields fields)
    exact ⟨KeyMap.sorted_ofList _, sortedFields_iff.mpr fun field hfield =>
      hfields field (KeyMap.mem_of_mem_ofList hfield)⟩
  | null => by simp [canonical, Sorted]
  | bool _ => by simp [canonical, Sorted]
  | number _ => by simp [canonical, Sorted]
  | string _ => by simp [canonical, Sorted]

theorem sorted_canonicalItems : (items : List Json) → SortedItems (canonicalItems items)
  | [] => by simp [canonicalItems, SortedItems]
  | item :: items => by
    rw [canonicalItems, SortedItems]
    exact ⟨sorted_canonical item, sorted_canonicalItems items⟩

theorem sorted_canonicalFields : (fields : List (String × Json)) →
    SortedFields (canonicalFields fields)
  | [] => by simp [canonicalFields, SortedFields]
  | (key, value) :: fields => by
    rw [canonicalFields, SortedFields]
    exact ⟨sorted_canonical value, sorted_canonicalFields fields⟩

end

@[ext]
structure Value where
  json : Json
  sorted : json.Sorted

@[ext]
structure Map where
  fields : KeyMap Json
  sorted : (object fields).Sorted

namespace Value

def ofJson (j : Json) : Value :=
  ⟨j.canonical, sorted_canonical j⟩

instance : Inhabited Value := ⟨ofJson null⟩

instance : Coe Json Value := ⟨ofJson⟩

end Value

namespace Map

/-- The object of a list of fields, of which the last with a key wins. -/
def ofFields (fields : List (String × Json)) : Map where
  fields := KeyMap.ofList (canonicalFields fields)
  sorted := by
    have hsorted := sorted_canonical (object fields)
    rwa [canonical] at hsorted

instance : EmptyCollection Map := ⟨⟨[], by simp [Sorted, SortedFields, KeyMap.Sorted]⟩⟩

instance : Inhabited Map := ⟨∅⟩

instance : Coe (List (String × Json)) Map := ⟨ofFields⟩

instance : Coe Map (List (String × Json)) := ⟨Map.fields⟩

/-- An empty list stands for the empty object, whatever it is a list of. -/
instance {α : Type} : CoeT (List α) [] Map := ⟨∅⟩

def isEmpty (m : Map) : Bool :=
  m.fields.isEmpty

@[simp] theorem isEmpty_empty : (∅ : Map).isEmpty = true := rfl

theorem eq_empty {m : Map} (h : m.isEmpty) : m = ∅ :=
  Map.ext (List.isEmpty_iff.mp h)

theorem sorted_fields (m : Map) : m.fields.Sorted := by
  have hsorted := m.sorted
  rw [Sorted] at hsorted
  exact hsorted.1

def insert (m : Map) (key : String) (value : Value) : Map where
  fields := m.fields.insert key value.json
  sorted := by
    rw [Sorted, sortedFields_iff]
    refine ⟨KeyMap.sorted_insert key value.json m.sorted_fields, fun field hfield => ?_⟩
    have hsorted := m.sorted
    rw [Sorted, sortedFields_iff] at hsorted
    rcases KeyMap.mem_of_mem_insert hfield with rfl | hfield
    · exact value.sorted
    · exact hsorted.2 field hfield

end Map

end Json

end ScreenDoc
