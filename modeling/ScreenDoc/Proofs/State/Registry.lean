import ScreenDoc.Proofs.Json.Canonical
import ScreenDoc.State.Registry

/-!
# New cells and snapshots

A registry of new cells numbers its entries on from the cells that were there, so that no two of its
keys and no key from before name one of them. The cells that were there keep their values. A
snapshot of a registry has its keys, each with its value as JSON.
-/

namespace ScreenDoc

namespace Cells

variable {cells : Cells}

theorem get?_eq_none_iff {cell : CellId} : cells.get? cell = none ↔ cells.values.length ≤ cell :=
  List.getElem?_eq_none_iff

theorem length_set (cells : Cells) (cell : CellId) (value : StateValue) :
    (cells.set cell value).values.length = cells.values.length :=
  List.length_set

end Cells

namespace Registry

def Made (r : Registry) (cells : Cells) : Prop :=
  ∀ key cell, KeyMap.get? r key = some cell → cell < cells.values.length

theorem Made.mono {r : Registry} {cells cells' : Cells} (h : r.Made cells)
    (hle : cells.values.length ≤ cells'.values.length) : r.Made cells' :=
  fun key cell hcell => (h key cell hcell).trans_le hle

def numbered (cells : Cells) (entries : List (String × StateValue)) : List (String × CellId) :=
  entries.mapIdx fun i entry => (entry.1, cells.values.length + i)

private theorem numbered_cons (cells : Cells) (key : String) (value : StateValue)
    (entries : List (String × StateValue)) :
    numbered cells ((key, value) :: entries) =
      (key, cells.values.length) :: numbered (cells.add value).1 entries := by
  simp [numbered, List.mapIdx_cons, Cells.add, Nat.add_assoc, Nat.add_comm 1]

private theorem foldl_insertNew (r : Registry) (cells : Cells)
    (entries : List (String × StateValue)) :
    entries.foldl (fun (r, cells) (key, value) => insertNew r cells key value) (r, cells) =
      (KeyMap.insertAll r (numbered cells entries), ⟨cells.values ++ entries.map Prod.snd⟩) := by
  induction entries generalizing r cells with
  | nil => simp [numbered, KeyMap.insertAll]
  | cons entry entries ih =>
    obtain ⟨key, value⟩ := entry
    rw [List.foldl_cons, numbered_cons]
    refine (ih _ _).trans ?_
    simp [Cells.add, KeyMap.insertAll]

theorem ofValues_eq (cells : Cells) (entries : List (String × StateValue)) :
    ofValues cells entries =
      (KeyMap.ofList (numbered cells entries), ⟨cells.values ++ entries.map Prod.snd⟩) :=
  foldl_insertNew [] cells entries

theorem keys_numbered (cells : Cells) (entries : List (String × StateValue)) :
    KeyMap.keys (numbered cells entries) = KeyMap.keys entries := by
  refine List.ext_getElem? fun i => ?_
  simp [KeyMap.keys, numbered, Function.comp_def]

section OfValues

variable {cells : Cells} {entries : List (String × StateValue)} {key : String} {cell : CellId}

theorem get?_ofValues (hentries : (KeyMap.keys entries).Nodup) :
    KeyMap.get? (ofValues cells entries).1 key = some cell ↔
      ∃ i value, entries[i]? = some (key, value) ∧ cells.values.length + i = cell := by
  have hnumbered : (KeyMap.keys (numbered cells entries)).Nodup := by
    rwa [keys_numbered]
  rw [ofValues_eq, KeyMap.get?_ofList hnumbered, KeyMap.get?_eq_some_iff hnumbered, numbered,
    List.mem_mapIdx]
  constructor
  · rintro ⟨i, hi, heq⟩
    obtain ⟨hkey, hcell⟩ := Prod.mk.inj heq
    exact ⟨i, entries[i].2, by rw [List.getElem?_eq_getElem hi, ← hkey], hcell⟩
  · rintro ⟨i, value, hentry, hcell⟩
    obtain ⟨hi, heq⟩ := List.getElem?_eq_some_iff.mp hentry
    exact ⟨i, hi, by rw [heq, hcell]⟩

theorem get?_ofValues_eq_none_iff (hentries : (KeyMap.keys entries).Nodup) :
    KeyMap.get? (ofValues cells entries).1 key = none ↔ key ∉ KeyMap.keys entries := by
  rw [ofValues_eq, KeyMap.get?_ofList (by rwa [keys_numbered]), KeyMap.get?_eq_none_iff,
    keys_numbered]

theorem get?_cells_ofValues_lt (hcell : cell < cells.values.length) :
    (ofValues cells entries).2.get? cell = cells.get? cell := by
  rw [ofValues_eq]
  exact List.getElem?_append_left hcell

theorem exists_get?_ofValues (cells : Cells) (hentries : (KeyMap.keys entries).Nodup)
    {value : StateValue} (h : KeyMap.get? entries key = some value) :
    ∃ cell, KeyMap.get? (ofValues cells entries).1 key = some cell ∧ cells.get? cell = none ∧
      (ofValues cells entries).2.get? cell = some value := by
  obtain ⟨i, hi⟩ := List.getElem?_of_mem (KeyMap.mem_of_get? h)
  refine ⟨cells.values.length + i, (get?_ofValues hentries).mpr ⟨i, value, hi, rfl⟩,
    Cells.get?_eq_none_iff.mpr (Nat.le_add_right _ i), ?_⟩
  rw [ofValues_eq, Cells.get?, List.getElem?_append_right (Nat.le_add_right _ i),
    Nat.add_sub_cancel_left, List.getElem?_map, hi]
  rfl

theorem eq_of_get?_ofValues (hentries : (KeyMap.keys entries).Nodup) {other : String}
    (hkey : KeyMap.get? (ofValues cells entries).1 key = some cell)
    (hother : KeyMap.get? (ofValues cells entries).1 other = some cell) : other = key := by
  obtain ⟨i, value, hi, rfl⟩ := (get?_ofValues hentries).mp hkey
  obtain ⟨j, value', hj, heq⟩ := (get?_ofValues hentries).mp hother
  obtain rfl : j = i := Nat.add_left_cancel heq
  exact congrArg Prod.fst (Option.some.inj (hj.symm.trans hi))

theorem le_and_lt_of_get?_ofValues (hentries : (KeyMap.keys entries).Nodup)
    (h : KeyMap.get? (ofValues cells entries).1 key = some cell) :
    cells.values.length ≤ cell ∧ cell < (ofValues cells entries).2.values.length := by
  obtain ⟨i, value, hi, rfl⟩ := (get?_ofValues hentries).mp h
  obtain ⟨hlt, _⟩ := List.getElem?_eq_some_iff.mp hi
  rw [ofValues_eq]
  simp [hlt]

end OfValues

/-! ## Snapshots -/

section Snapshot

variable {r : Registry} {cells : Cells}

theorem exists_get?_of_made (hr : r.Made cells) {key : String} {cell : CellId}
    (h : KeyMap.get? r key = some cell) : ∃ value, cells.get? cell = some value :=
  ⟨_, List.getElem?_eq_getElem (hr key cell h)⟩

private theorem sorted_toJson (v : StateValue) : v.toJson.Sorted := by
  cases v with
  | float x => cases x <;> simp [StateValue.toJson, Json.ofExtended, Json.Sorted]
  | json value => exact value.sorted
  | _ => simp [StateValue.toJson, Json.Sorted]

theorem fields_snapshot (hsorted : KeyMap.Sorted r) (hr : r.Made cells) :
    (r.snapshot cells).fields =
      KeyMap.mapValues (fun cell => ((cells.get? cell).getD .null).toJson) r := by
  let entries := KeyMap.mapValues (fun cell => ((cells.get? cell).getD .null).toJson) r
  have hentry : ∀ entry ∈ r, ((cells.get? entry.2).map fun value => (entry.1, value.toJson)) =
      some (entry.1, ((cells.get? entry.2).getD .null).toJson) := by
    intro entry hmem
    obtain ⟨value, hvalue⟩ := exists_get?_of_made hr (KeyMap.get?_of_mem hsorted.nodup hmem)
    rw [hvalue]
    rfl
  have hentries : (Json.object entries).Sorted := by
    refine Json.sorted_object.mpr ⟨?_, List.forall_mem_map.mpr fun _ _ => sorted_toJson _⟩
    rw [KeyMap.Sorted, KeyMap.keys_mapValues]
    exact hsorted
  rw [snapshot, List.filterMap_congr hentry, List.filterMap_eq_map']
  exact congrArg Json.Map.fields (Json.Map.ofFields_fields ⟨entries, hentries⟩)

theorem keys_snapshot (hsorted : KeyMap.Sorted r) (hr : r.Made cells) :
    KeyMap.keys (r.snapshot cells).fields = KeyMap.keys r := by
  rw [fields_snapshot hsorted hr, KeyMap.keys_mapValues]

theorem get?_snapshot (hsorted : KeyMap.Sorted r) (hr : r.Made cells) (key : String) :
    KeyMap.get? (r.snapshot cells).fields key = (r.value? cells key).map StateValue.toJson := by
  rw [fields_snapshot hsorted hr, KeyMap.get?_mapValues, value?]
  cases hcell : KeyMap.get? r key with
  | none => rfl
  | some cell =>
    obtain ⟨value, hvalue⟩ := exists_get?_of_made hr hcell
    rw [Option.map_some, Option.bind_some, hvalue]
    rfl

end Snapshot

end Registry

end ScreenDoc
