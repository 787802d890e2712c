import ScreenDoc.Proofs.Json.Draft
import ScreenDoc.Proofs.Json.Reader

/-!
# Values that fit

A value fits into some room if it nests no deeper than there is room and its integers have 64 bits.
What is taken out of a value that fits, fits into what room is left there.
-/

namespace ScreenDoc.Json

/-- A value with at most `room` containers one inside the other, whose integers have 64 bits. -/
structure Fits (room : Nat) (j : Json) : Prop where
  depth : j.depth ≤ room
  inRange : ∀ n ∈ j.numbers, n.InRange

section Fits

variable {room : Nat}

theorem fits_array {items : List Json} :
    (array items).Fits (room + 1) ↔ ∀ item ∈ items, item.Fits room := by
  constructor
  · intro h item hitem
    exact ⟨depth_array.mp h.depth item hitem, fun n hn =>
      h.inRange n (mem_numbers_array.mpr ⟨item, hitem, hn⟩)⟩
  · intro h
    refine ⟨depth_array.mpr fun item hitem => (h item hitem).depth, fun n hn => ?_⟩
    obtain ⟨item, hitem, hn⟩ := mem_numbers_array.mp hn
    exact (h item hitem).inRange n hn

theorem fits_object {fields : List (String × Json)} :
    (object fields).Fits (room + 1) ↔ ∀ field ∈ fields, field.2.Fits room := by
  constructor
  · intro h field hfield
    exact ⟨depth_object.mp h.depth field hfield, fun n hn =>
      h.inRange n (mem_numbers_object.mpr ⟨field, hfield, hn⟩)⟩
  · intro h
    refine ⟨depth_object.mpr fun field hfield => (h field hfield).depth, fun n hn => ?_⟩
    obtain ⟨field, hfield, hn⟩ := mem_numbers_object.mp hn
    exact (h field hfield).inRange n hn

theorem Fits.items {items : List Json} (h : (array items).Fits room) :
    ∃ inner, room = inner + 1 ∧ ∀ item ∈ items, item.Fits inner := by
  obtain ⟨inner, rfl, -⟩ := Draft.depth_items h.depth
  exact ⟨inner, rfl, fits_array.mp h⟩

theorem Fits.fields {fields : List (String × Json)} (h : (object fields).Fits room) :
    ∃ inner, room = inner + 1 ∧ ∀ field ∈ fields, field.2.Fits inner := by
  obtain ⟨inner, rfl, -⟩ := Draft.depth_fields h.depth
  exact ⟨inner, rfl, fits_object.mp h⟩

theorem Fits.canonical {j : Json} (h : j.Fits room) : j.canonical.Fits room := by
  induction j using Json.induction generalizing room with
  | array items ih =>
    obtain ⟨inner, rfl, hitems⟩ := h.items
    rw [canonical_array, fits_array]
    intro item hitem
    obtain ⟨source, hsource, rfl⟩ := List.mem_map.mp hitem
    exact ih source hsource (hitems source hsource)
  | object fields ih =>
    obtain ⟨inner, rfl, hfields⟩ := h.fields
    rw [canonical_object, fits_object]
    intro field hfield
    obtain ⟨source, hsource, rfl⟩ := List.mem_map.mp (KeyMap.mem_of_mem_ofList hfield)
    exact ih source hsource (hfields source hsource)
  | null => rwa [canonical_null]
  | bool b => rwa [canonical_bool]
  | number n => rwa [canonical_number]
  | string s => rwa [canonical_string]

theorem Fits.record? {names : List String} {j : Json} {fields : KeyMap Json} (h : j.Fits room)
    (hrecord : j.record? names = some fields) :
    ∃ inner, room = inner + 1 ∧ ∀ field ∈ fields, field.2.Fits inner := by
  cases j with
  | object all =>
    obtain ⟨inner, rfl, hall⟩ := h.fields
    rw [record?_object] at hrecord
    split at hrecord
    · cases hrecord
      exact ⟨inner, rfl, fun field hfield => hall field (List.mem_filter.mp hfield).1⟩
    · cases hrecord
  | array items =>
    obtain ⟨inner, rfl, hitems⟩ := h.items
    rw [Json.record?] at hrecord
    split at hrecord
    · cases hrecord
      exact ⟨inner, rfl, fun field hfield => hitems field.2 (List.of_mem_zip hfield).2⟩
    · cases hrecord
  | _ => cases hrecord

theorem Fits.tagged? {tags : List String} {buffered : Bool} {j content : Json} {tag : String}
    (h : j.Fits room) (htagged : j.tagged? tags buffered = some (tag, content)) :
    content.Fits room := by
  unfold Json.tagged? at htagged
  split at htagged
  · split at htagged
    · simp only [Option.bind_eq_bind, Option.bind_eq_some_iff] at htagged
      obtain ⟨_, -, heq⟩ := htagged
      cases heq
      obtain ⟨inner, rfl, hfields⟩ := h.fields
      exact fits_object.mpr fun field hfield => hfields field (List.mem_filter.mp hfield).1
    · cases htagged
  · simp only [Option.bind_eq_bind, Option.bind_eq_some_iff] at htagged
    obtain ⟨_, -, heq⟩ := htagged
    cases heq
    obtain ⟨inner, rfl, hitems⟩ := h.items
    exact fits_array.mpr fun item hitem => hitems item (List.mem_cons_of_mem _ hitem)
  · cases htagged

theorem Fits.list? {α : Type} {read : Json → Option α} {j : Json} {results : List α}
    (h : j.Fits room) (hlist : j.list? read = some results) :
    ∃ inner, room = inner + 1 ∧ ∀ result ∈ results, ∃ item : Json, item.Fits inner
      ∧ item.size < j.size ∧ read item = some result := by
  cases j with
  | array items =>
    obtain ⟨inner, rfl, hitems⟩ := h.items
    refine ⟨inner, rfl, fun result hresult => ?_⟩
    obtain ⟨item, hitem, hread⟩ := exists_of_mem_mapM hlist hresult
    exact ⟨item, hitems item hitem, size_lt_of_mem_items hitem, hread⟩
  | _ => cases hlist

theorem Fits.map? {j : Json} {m : Map} (h : j.Fits room) (hmap : j.map? = some m) :
    (object m.fields).Fits room := by
  cases j with
  | object fields =>
    cases hmap
    rw [object_ofFields]
    exact h.canonical
  | _ => cases hmap

end Fits

end ScreenDoc.Json
