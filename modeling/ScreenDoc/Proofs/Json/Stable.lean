import ScreenDoc.Proofs.Json.Record
import ScreenDoc.Proofs.Node.Traverse

/-!
# Readers that do not mind the order of fields

Where no object repeats a key, the canonical value has the same fields with canonical values in
them. A reader is stable below a size if it reads canonical values of that size as the values
themselves; readers that are built from stable ones are stable.
-/

namespace ScreenDoc

namespace Json

/-- A reader that cannot tell values below a size from their canonical ones. -/
def Stable {α : Type} (bound : Nat) (read : Json → Option α) : Prop :=
  ∀ j : Json, j.Distinct → j.size < bound → read j.canonical = read j

section Stable

variable {bound : Nat}

theorem stable_string? : Stable bound string? :=
  fun j _ _ => string?_canonical j

theorem stable_bool? : Stable bound bool? := by
  intro j _ _
  cases j <;> simp [bool?]

theorem stable_int32? : Stable bound int32? := by
  intro j _ _
  cases j <;> simp [int32?]

theorem stable_uint32? : Stable bound uint32? := by
  intro j _ _
  cases j <;> simp [uint32?]

theorem stable_extended? : Stable bound extended? := by
  intro j _ _
  cases j <;> simp [extended?]

theorem stable_ofJson : Stable bound fun j => some (Value.ofJson j) :=
  fun j _ _ => congrArg some (Value.ext (canonical_canonical j))

theorem stable_map? : Stable bound map? := by
  intro j _ _
  cases j with
  | object fields =>
    rw [← object_ofFields]
    exact congrArg some (Map.ofFields_fields _)
  | _ => simp [map?]

theorem tag?_canonical (tags : List String) (buffered : Bool) (j : Json) :
    j.canonical.tag? tags buffered = j.tag? tags buffered := by
  cases j <;> simp [tag?]

theorem stable_list? {α : Type} {read : Json → Option α} (h : Stable bound read) :
    Stable bound (list? read) := by
  intro j hj hsize
  cases j with
  | array items =>
    have hitems : (items.map canonical).mapM read = items.mapM read := by
      exact mapM_map_congr fun item hitem =>
        h item (hj.items item hitem) ((size_lt_of_mem_items hitem).trans hsize)
    rw [canonical_array]
    exact hitems
  | _ => simp [list?]

theorem name?_of_length {α : Type} (named? : String → Option α) (buffered : Bool)
    {fields : List (String × Json)} (h : 2 ≤ fields.length) :
    (object fields).name? named? buffered = none := by
  match fields with
  | first :: second :: fields => simp [name?]

theorem name?_of_filled {α : Type} (named? : String → Option α) (buffered : Bool) (key : String)
    {inner : List (String × Json)} (h : 0 < inner.length) :
    (object [(key, object inner)]).name? named? buffered = none := by
  match inner with
  | first :: inner => simp [name?]

theorem length_ofList_canonical {fields : List (String × Json)} (h : (object fields).Distinct) :
    (KeyMap.ofList (KeyMap.mapValues canonical fields)).length = fields.length := by
  rw [(KeyMap.perm_ofList (by simpa using h.nodup)).length_eq]
  exact List.length_map _

theorem stable_name? {α : Type} (named? : String → Option α) (buffered : Bool) :
    Stable bound (name? named? buffered) := by
  intro j hj _
  cases j with
  | object fields =>
    match fields with
    | [] => rfl
    | [(key, value)] =>
      have hsingle : (object [(key, value)]).canonical = object [(key, value.canonical)] := by
        simp [KeyMap.mapValues, KeyMap.ofList, KeyMap.insertAll, KeyMap.insert]
      rw [hsingle]
      cases value with
      | object inner =>
        cases inner with
        | nil => rfl
        | cons field inner =>
          have hlength := length_ofList_canonical (hj.fields _ List.mem_cons_self)
          rw [canonical_object, name?_of_filled _ _ _ (by simp [hlength]),
            name?_of_filled _ _ _ (by simp)]
      | _ => simp [name?]
    | first :: second :: fields =>
      have hlength := length_ofList_canonical hj
      rw [canonical_object, name?_of_length _ _ (by simp [hlength]), name?_of_length _ _ (by simp)]
  | _ => simp [name?]

/-! ## Records -/

/-- Fields below a size, and others that answer every look-up with the canonical value. -/
structure Sorts (bound : Nat) (fields sorted : KeyMap Json) : Prop where
  get? : ∀ key, sorted.get? key = (fields.get? key).map canonical
  distinct : ∀ field ∈ fields, field.2.Distinct
  size : ∀ field ∈ fields, field.2.size < bound

section Sorts

variable {α : Type} {fields sorted : KeyMap Json} {read : Json → Option α}

theorem Sorts.read_canonical (h : Sorts bound fields sorted) (hread : Stable bound read)
    {key : String} {value : Json} (hget : fields.get? key = some value) :
    read value.canonical = read value :=
  hread value (h.distinct _ (KeyMap.mem_of_get? hget)) (h.size _ (KeyMap.mem_of_get? hget))

theorem Sorts.defaulted (h : Sorts bound fields sorted) (hread : Stable bound read) (key : String)
    (absent : α) : sorted.defaulted key absent read = fields.defaulted key absent read := by
  unfold KeyMap.defaulted
  rw [h.get?]
  cases hget : fields.get? key with
  | none => rfl
  | some value => exact h.read_canonical hread hget

private theorem stable_nullable? (hread : Stable bound read) : Stable bound (nullable? read) := by
  intro j hj hsize
  have := hread j hj hsize
  cases j <;> simp_all [nullable?]

theorem Sorts.optional (h : Sorts bound fields sorted) (hread : Stable bound read) (key : String) :
    sorted.optional key read = fields.optional key read := by
  rw [KeyMap.optional_eq_defaulted, KeyMap.optional_eq_defaulted,
    h.defaulted (stable_nullable? hread)]

theorem Sorts.required (h : Sorts bound fields sorted) (hread : Stable bound read) (key : String) :
    sorted.required key read = fields.required key read := by
  unfold KeyMap.required
  rw [h.get?]
  cases hget : fields.get? key with
  | none => rfl
  | some value => exact h.read_canonical hread hget

end Sorts

private theorem record?_canonical {j : Json} (h : j.Distinct) (hsize : j.size ≤ bound)
    (names : List String) :
    (j.record? names = none ∧ j.canonical.record? names = none)
      ∨ ∃ fields sorted, j.record? names = some fields
        ∧ j.canonical.record? names = some sorted ∧ Sorts bound fields sorted := by
  cases j with
  | object all =>
    -- A canonical object repeats no key either, so both are read or none is.
    refine .inr ⟨known names all, known names (KeyMap.ofList (KeyMap.mapValues canonical all)),
      record?_of_nodup h.nodup, ?_, ?_, ?_, ?_⟩
    · rw [canonical_object]
      exact record?_of_nodup (KeyMap.sorted_ofList _).nodup
    · intro key
      rw [known, known, KeyMap.get?_filter names.contains, KeyMap.get?_filter names.contains,
        KeyMap.get?_ofList_mapValues h.nodup]
      split <;> rfl
    · exact fun field hfield => h.fields field (List.mem_filter.mp hfield).1
    · exact fun field hfield =>
        (size_lt_of_mem_fields (List.mem_filter.mp hfield).1).trans_le hsize
  | array items =>
    by_cases hlength : items.length ≤ names.length
    · refine .inr ⟨names.zip items, names.zip (items.map canonical), ?_, ?_, ?_, ?_, ?_⟩
      · rw [record?, if_pos hlength]
      · rw [canonical_array, record?, if_pos (by simpa using hlength)]
      · intro key
        have hzip : names.zip (items.map canonical)
            = KeyMap.mapValues canonical (names.zip items) := by
          rw [List.zip_map_right]
          rfl
        rw [hzip, KeyMap.get?_mapValues]
      · exact fun field hfield => h.items field.2 (List.of_mem_zip hfield).2
      · exact fun field hfield =>
          (size_lt_of_mem_items (List.of_mem_zip hfield).2).trans_le hsize
    · refine .inl ⟨?_, ?_⟩
      · rw [record?, if_neg hlength]
      · rw [canonical_array, record?, if_neg (by simpa using hlength)]
  | _ => exact .inl ⟨rfl, by simp [record?]⟩

/-! ## Tagged objects -/

private theorem filter_key_of_nodup {fields : List (String × Json)} (h : (KeyMap.keys fields).Nodup)
    (key : String) : fields.filter (fun field => field.1 == key)
      = ((KeyMap.get? fields key).map fun value => (key, value)).toList := by
  induction fields with
  | nil => rfl
  | cons field fields ih =>
    obtain ⟨k, v⟩ := field
    obtain ⟨hk, hfields⟩ := List.nodup_cons.mp h
    rw [List.filter_cons, KeyMap.get?_cons, ih hfields]
    by_cases heq : key = k
    · subst heq
      simp [KeyMap.get?_eq_none_iff.mpr hk]
    · have hne : (k == key) = false := beq_eq_false_iff_ne.mpr (Ne.symm heq)
      simp [heq, hne]

theorem tagged?_object_of_nodup {fields : List (String × Json)} (h : (KeyMap.keys fields).Nodup)
    (tags : List String) (buffered : Bool) :
    (object fields).tagged? tags buffered
      = (KeyMap.get? fields "type").bind fun value =>
          (value.tag? tags buffered).map fun tag =>
            (tag, object (fields.filter fun field => field.1 != "type")) := by
  rw [tagged?, filter_key_of_nodup h]
  cases KeyMap.get? fields "type" with
  | none => rfl
  | some value =>
    simp only [Option.map_some, Option.toList_some, Option.bind_eq_bind, Option.bind_some]
    cases value.tag? tags buffered <;> rfl

private theorem filter_ofList_canonical {fields : List (String × Json)}
    (h : (KeyMap.keys fields).Nodup) (keep : String → Bool) :
    (KeyMap.ofList (KeyMap.mapValues canonical fields)).filter (fun field => keep field.1)
      = KeyMap.ofList (KeyMap.mapValues canonical (fields.filter fun field => keep field.1)) := by
  have hfilter : (KeyMap.keys (fields.filter fun field => keep field.1)).Nodup :=
    h.sublist (List.filter_sublist.map Prod.fst)
  have hsorted := KeyMap.sorted_ofList (KeyMap.mapValues canonical fields)
  refine KeyMap.eq_of_get? (hsorted.sublist (List.filter_sublist.map Prod.fst))
    (KeyMap.sorted_ofList _) fun key => ?_
  rw [KeyMap.get?_filter keep, KeyMap.get?_ofList (by simpa using h),
    KeyMap.get?_ofList (by simpa using hfilter), KeyMap.get?_mapValues, KeyMap.get?_mapValues,
    KeyMap.get?_filter keep]
  split <;> rfl

private theorem tagged?_canonical {j : Json} (h : j.Distinct) (tags : List String)
    (buffered : Bool) : j.canonical.tagged? tags buffered
      = (j.tagged? tags buffered).map fun tagged => (tagged.1, tagged.2.canonical) := by
  cases j with
  | object fields =>
    rw [canonical_object, tagged?_object_of_nodup (KeyMap.sorted_ofList _).nodup,
      tagged?_object_of_nodup h.nodup, KeyMap.get?_ofList_mapValues h.nodup,
      filter_ofList_canonical h.nodup (· != "type")]
    cases KeyMap.get? fields "type" with
    | none => rfl
    | some value =>
      simp only [Option.map_some, Option.bind_some, tag?_canonical]
      cases value.tag? tags buffered <;> simp
  | array items =>
    cases items with
    | nil => rfl
    | cons first items =>
      rw [canonical_array, List.map_cons, tagged?, tagged?, tag?_canonical]
      cases first.tag? tags buffered <;> simp
  | _ => simp [tagged?]

private theorem distinct_of_tagged? {j content : Json} {tags : List String} {buffered : Bool}
    {tag : String} (h : j.Distinct) (htagged : j.tagged? tags buffered = some (tag, content)) :
    content.Distinct := by
  cases j with
  | object fields =>
    rw [tagged?_object_of_nodup h.nodup] at htagged
    simp only [Option.bind_eq_some_iff, Option.map_eq_some_iff] at htagged
    obtain ⟨value, -, _, -, heq⟩ := htagged
    cases heq
    exact .object (h.nodup.sublist (List.filter_sublist.map Prod.fst)) fun field hfield =>
      h.fields field (List.mem_filter.mp hfield).1
  | array items =>
    cases items with
    | nil => cases htagged
    | cons first items =>
      simp only [tagged?, Option.bind_eq_bind, Option.bind_eq_some_iff] at htagged
      obtain ⟨_, -, heq⟩ := htagged
      cases heq
      exact .array fun item hitem => h.items item (List.mem_cons_of_mem _ hitem)
  | _ => cases htagged

theorem stable_tagged {α : Type} {content? : String → Json → Option α} (tags : List String)
    (buffered : Bool) (h : ∀ tag, Stable bound (content? tag)) :
    Stable bound fun j =>
      (j.tagged? tags buffered).bind fun tagged => content? tagged.1 tagged.2 := by
  intro j hj hsize
  dsimp only
  rw [tagged?_canonical hj]
  cases htagged : j.tagged? tags buffered with
  | none => rfl
  | some tagged =>
    exact h tagged.1 tagged.2 (distinct_of_tagged? hj htagged)
      ((size_le_of_tagged? htagged).trans_lt hsize)

/-- Reading a record is stable if it looks its fields up. -/
theorem stable_record {α : Type} {names : List String} {fields? : KeyMap Json → Option α}
    (h : ∀ fields sorted, Sorts bound fields sorted → fields? sorted = fields? fields) :
    Stable (bound + 1) fun j => (j.record? names).bind fields? := by
  intro j hj hsize
  dsimp only
  rcases record?_canonical hj (Nat.le_of_lt_succ hsize) names with
    ⟨hnone, hnone'⟩ | ⟨fields, sorted, hfields, hsorted, hs⟩
  · rw [hnone, hnone']
  · rw [hfields, hsorted]
    exact h fields sorted hs

theorem Stable.mono {α : Type} {read : Json → Option α} {small : Nat} (h : Stable bound read)
    (hle : small ≤ bound) : Stable small read :=
  fun j hj hsize => h j hj (hsize.trans_le hle)

end Stable

end Json

end ScreenDoc
