import ScreenDoc.Proofs.Validate.Unrecognized
import ScreenDoc.Proofs.Wire.Properties

/-!
# What decoding passes over

Which values in a payload are decoded, and as what: a relation that follows the readers and knows
nothing of validation. A record is an object or, by position, an array; a tagged object gives its
tag as a string or as the number of the tag. A key of an object that its reader does not take is
ignored.
-/

namespace ScreenDoc

/-- What a reader looks for in a value. -/
structure Layout where
  /-- The fields that it takes, in the order in which an array gives them. -/
  names : List String
  /-- How parts stand in some of these fields. -/
  holds : KeyMap Holding

/-- The value of a field, and the step that leads to it. -/
def Layout.entry? (layout : Layout) (key : String) : Json → Option (Step × Json)
  | .object fields => (KeyMap.get? fields key).map fun value => (.field key, value)
  | .array items =>
    items[layout.names.idxOf key]?.map fun item => (.item (layout.names.idxOf key), item)
  | _ => none

theorem Layout.entry?_object (layout : Layout) {fields : List (String × Json)} {key : String}
    {value : Json} (h : KeyMap.get? fields key = some value) :
    layout.entry? key (.object fields) = some (.field key, value) :=
  Option.map_eq_some_iff.mpr ⟨value, h, rfl⟩

namespace Role

/-- What the reader of a role looks for in a value. The tag of a tagged object is its first field.
A number is taken for a tag wherever it stands: where it may not stand, decoding fails. -/
def layout? (role : Role) (j : Json) : Option Layout :=
  match role with
  | document => some ⟨Document.fieldNames, [("actions", .scripts), ("root", .whole .node)]⟩
  | node =>
    some ⟨Node.fieldNames, [("properties", .whole .payload), ("composeModifier", .whole .modifier)]⟩
  | modifier => some ⟨Modifier.fieldNames, [("operations", .items .operation)]⟩
  | operation =>
    (j.tagged? Operation.tags true).map fun (tag, _) =>
      ⟨"type" :: Operation.fieldsOf tag,
        if tag = "Clip" ∨ tag = "Background" then [("shape", .whole .shape)] else []⟩
  | shape =>
    (j.tagged? Shape.tags true).map fun (tag, _) => ⟨"type" :: Shape.fieldsOf tag, []⟩
  | payload => do
    let (tag, _) ← j.tagged? Properties.tags true
    let type ← NodeType.ofPayloadTag? tag
    some ⟨"type" :: type.payloadFields,
      (Properties.slotKeys type).map (fun key => (key, .whole .node))
        ++ (Properties.listKeys type).map fun key => (key, .items .node)⟩
  | action =>
    (j.tagged? Action.tags true).map fun (tag, _) =>
      ⟨"type" :: Action.fieldsOf tag,
        if tag = "Sequence" then [("actions", .items .action)] else []⟩

/-- The parts of a value that are decoded with it. -/
def readParts (role : Role) (j : Json) : List Part :=
  (role.layout? j).elim [] fun layout =>
    layout.holds.flatMap fun (key, holding) =>
      (layout.entry? key j).elim [] fun (step, value) =>
        (holding.parts value).map (Part.below step)

/-- The keys of an object that its reader does not take. -/
def ignored (role : Role) (j : Json) : List String :=
  (role.layout? j).elim [] fun layout =>
    (KeyMap.keys (j.fields?.getD [])).filter fun key => !layout.names.contains key

theorem mem_ignored {role : Role} {j : Json} {key : String} (h : key ∈ role.ignored j) :
    ∃ layout, role.layout? j = some layout ∧ key ∈ KeyMap.keys (j.fields?.getD [])
      ∧ key ∉ layout.names := by
  unfold ignored at h
  cases hlayout : role.layout? j with
  | none => simp [hlayout] at h
  | some layout =>
    rw [hlayout, Option.elim_some, List.mem_filter] at h
    exact ⟨layout, rfl, h.1, by simpa using h.2⟩

theorem mem_readParts {role : Role} {j : Json} {part : Part} (h : part ∈ role.readParts j) :
    ∃ layout key holding step value inner, role.layout? j = some layout
      ∧ (key, holding) ∈ layout.holds ∧ layout.entry? key j = some (step, value)
      ∧ inner ∈ holding.parts value ∧ part = inner.below step := by
  unfold readParts at h
  cases hlayout : role.layout? j with
  | none => simp [hlayout] at h
  | some layout =>
    rw [hlayout, Option.elim_some] at h
    obtain ⟨⟨key, holding⟩, hholding, h⟩ := List.mem_flatMap.mp h
    cases hentry : layout.entry? key j with
    | none => simp [hentry] at h
    | some entry =>
      simp only [hentry, Option.elim_some] at h
      obtain ⟨inner, hinner, rfl⟩ := List.mem_map.mp h
      exact ⟨layout, key, holding, entry.1, entry.2, inner, rfl, hholding, hentry, hinner, rfl⟩

theorem below_mem_readParts {role : Role} {j value : Json} {layout : Layout} {key : String}
    {holding : Holding} {step : Step} {inner : Part} (hlayout : role.layout? j = some layout)
    (hholding : (key, holding) ∈ layout.holds) (hentry : layout.entry? key j = some (step, value))
    (hinner : inner ∈ holding.parts value) : inner.below step ∈ role.readParts j := by
  rw [readParts, hlayout, Option.elim_some]
  refine List.mem_flatMap.mpr ⟨(key, holding), hholding, ?_⟩
  simp only [hentry, Option.elim_some]
  exact List.mem_map_of_mem hinner

/-- Where `j` is decoded in a role, what stands at the address is decoded as `inner`. -/
inductive Reads : Role → Json → Address → Role → Json → Prop where
  | here (role : Role) (j : Json) : Reads role j [] role j
  | part {role : Role} {j : Json} {part : Part} {address : Address} {inner : Role} {value : Json}
    (hpart : part ∈ role.readParts j) (h : Reads part.role part.value address inner value) :
    Reads role j (part.address ++ address) inner value

theorem Reads.trans {role middle inner : Role} {j value c : Json} {front rest : Address}
    (hfront : Reads role j front middle value) (hrest : Reads middle value rest inner c) :
    Reads role j (front ++ rest) inner c := by
  induction hfront with
  | here => exact hrest
  | part hpart _ ih =>
    rw [List.append_assoc]
    exact .part hpart (ih hrest)

theorem Reads.nth {role inner : Role} {j value : Json} {part : Part} {rest address : Address}
    (i : Nat) (hpart : (role.readParts j)[i]? = some part)
    (h : Reads part.role part.value rest inner value) (haddress : part.address ++ rest = address) :
    Reads role j address inner value :=
  haddress ▸ .part (List.mem_of_getElem? hpart) h

/-- A value that is written out: an object, and with a string under `type` if there is a tag. -/
def IsSpelled : Role → Json → Prop
  | document, j => j.fields?.isSome
  | node, j => j.fields?.isSome
  | modifier, j => j.fields?.isSome
  | operation, j => j.typeName?.isSome
  | shape, j => j.typeName?.isSome
  | payload, j => j.typeName?.isSome
  | action, j => j.typeName?.isSome

/-- Everything that is decoded on the way down to an address is written out. -/
def SpelledTo (role : Role) (j : Json) (address : Address) : Prop :=
  ∀ front inner value, role.Reads j front inner value → front <+: address → inner.IsSpelled value

theorem IsSpelled.object {role : Role} {j : Json} (h : role.IsSpelled j) :
    ∃ fields, j = .object fields := by
  have hfields (h : j.fields?.isSome) : ∃ fields, j = .object fields := by
    cases j with
    | object fields => exact ⟨fields, rfl⟩
    | _ => cases h
  have htype (h : j.typeName?.isSome) : ∃ fields, j = .object fields := by
    obtain ⟨tag, htag⟩ := Option.isSome_iff_exists.mp h
    exact Json.object_of_typeName? htag
  cases role with
  | document => exact hfields h
  | node => exact hfields h
  | modifier => exact hfields h
  | operation => exact htype h
  | shape => exact htype h
  | payload => exact htype h
  | action => exact htype h

theorem SpelledTo.here {role : Role} {j : Json} {address : Address}
    (h : role.SpelledTo j address) : role.IsSpelled j :=
  h [] role j (.here role j) (List.nil_prefix)

theorem SpelledTo.part {role : Role} {j : Json} {part : Part} {address : Address}
    (h : role.SpelledTo j (part.address ++ address)) (hpart : part ∈ role.readParts j) :
    part.role.SpelledTo part.value address :=
  fun front inner value hreads hfront =>
    h (part.address ++ front) inner value (.part hpart hreads)
      ((List.prefix_append_right_inj part.address).mpr hfront)

theorem SpelledTo.of_parts {role : Role} {j : Json} {address : Address} (h : role.IsSpelled j)
    (hparts : ∀ part ∈ role.readParts j, ∀ rest, address = part.address ++ rest →
      part.role.SpelledTo part.value rest) : role.SpelledTo j address := by
  rintro front inner value hreads ⟨behind, rfl⟩
  cases hreads with
  | here => exact h
  | part hpart hreads =>
    exact hparts _ hpart _ (List.append_assoc _ _ _) _ _ _ hreads (List.prefix_append _ _)

end Role

/-- A field of a payload that decoding ignores: a key of an object that is decoded, but not with
it. -/
def Json.Ignores (j : Json) (address : Address) (key : String) : Prop :=
  ∃ role value, j.role.Reads j address role value ∧ key ∈ role.ignored value

end ScreenDoc
