import ScreenDoc.Proofs.Json.Record

/-!
# Written fields

How the parts of records are written and how each of them is read again: numbers of 32 bits,
fields that are left out when they have no value, maps, and tags with the fields beside them.
-/

namespace ScreenDoc

namespace Json

theorem int32?_ofInt32 (n : Int32) : int32? (ofInt32 n) = some n := by
  rw [ofInt32, int32?, if_pos ⟨n.minValue_le_toInt, n.toInt_le⟩, Int32.ofInt_toInt]

private theorem uint32?_ofUInt32 (n : UInt32) : uint32? (ofUInt32 n) = some n := by
  have hsize : (n.toNat : Int).toNat < UInt32.size := n.toNat_lt_size
  rw [ofUInt32, uint32?, if_pos ⟨Int.natCast_nonneg _, hsize⟩, Int.toNat_natCast,
    UInt32.ofNat_toNat]

/-- What a look-up that may find nothing or `null` gives. -/
def optional? {α : Type} (read : Json → Option α) : Option Json → Option (Option α)
  | none => some none
  | some value => value.nullable? read

theorem optional?_map {α : Type} {read : Json → Option α} {write : α → Json}
    (h : ∀ a, (write a).nullable? read = some (some a)) (value : Option α) :
    optional? read (value.map write) = some value := by
  cases value with
  | none => rfl
  | some a => exact h a

@[simp] theorem optional?_string (s : Option String) : optional? string? (s.map string) = some s :=
  optional?_map (fun _ => rfl) s

@[simp] theorem optional?_bool (b : Option Bool) : optional? bool? (b.map bool) = some b :=
  optional?_map (fun _ => rfl) b

@[simp] theorem optional?_ofInt32 (n : Option Int32) :
    optional? int32? (n.map ofInt32) = some n := by
  have h (n : Int32) : (ofInt32 n).nullable? int32? = some (some n) :=
    congrArg (Option.map some) (int32?_ofInt32 n)
  exact optional?_map h n

@[simp] theorem optional?_ofUInt32 (n : Option UInt32) :
    optional? uint32? (n.map ofUInt32) = some n := by
  have h (n : UInt32) : (ofUInt32 n).nullable? uint32? = some (some n) :=
    congrArg (Option.map some) (uint32?_ofUInt32 n)
  exact optional?_map h n

theorem map?_fields (m : Map) : (object m.fields).map? = some m :=
  congrArg some m.ofFields_fields

theorem tagged?_tagged {tags : List String} {tag : String} {fields : List (String × Json)}
    (htag : tag ∈ tags) (hfields : "type" ∉ KeyMap.keys fields) (buffered : Bool) :
    (tagged tag fields).tagged? tags buffered = some (tag, object fields) := by
  have hne : ∀ field ∈ fields, field.1 ≠ "type" := fun field hfield heq =>
    hfields (heq ▸ List.mem_map_of_mem hfield)
  have hnone : fields.filter (fun field => field.1 == "type") = [] :=
    List.filter_eq_nil_iff.mpr fun field hfield => by simpa using hne field hfield
  have hall : fields.filter (fun field => field.1 != "type") = fields :=
    List.filter_eq_self.mpr fun field hfield => by simpa using hne field hfield
  simp [tagged, tagged?, hnone, hall, tag?, htag]

end Json

namespace KeyMap

variable {α : Type}

@[simp] theorem get?_optionalField (k : String) (write : α → Json) (value : Option α)
    (key : String) :
    get? (Json.optionalField k write value) key = if key = k then value.map write else none := by
  cases value <;> simp [Json.optionalField, get?_cons]

theorem forall_mem_optionalField {k : String} {write : α → Json} {value : Option α}
    {P : String × Json → Prop} :
    (∀ field ∈ Json.optionalField k write value, P field) ↔ ∀ a ∈ value, P (k, write a) := by
  cases value <;> simp [Json.optionalField]

theorem keys_optionalField_sublist (k : String) (write : α → Json) (value : Option α) :
    (keys (Json.optionalField k write value)).Sublist [k] := by
  cases value <;> simp [Json.optionalField]

theorem keys_optionalField_append {k : String} {names : List String} {m : KeyMap Json}
    (write : α → Json) (value : Option α) (h : (keys m).Sublist names) :
    (keys (Json.optionalField k write value ++ m)).Sublist (k :: names) := by
  rw [keys_append]
  exact (keys_optionalField_sublist k write value).append h

theorem optional_eq (fields : KeyMap Json) (key : String) (read : Json → Option α) :
    fields.optional key read = Json.optional? read (fields.get? key) := by
  rw [optional_eq_defaulted, defaulted]
  cases fields.get? key <;> rfl

end KeyMap

end ScreenDoc
