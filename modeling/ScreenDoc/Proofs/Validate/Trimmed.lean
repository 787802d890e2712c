import ScreenDoc.Proofs.Json.Without
import ScreenDoc.Proofs.Validate.Unrecognized

/-!
# Values without their unrecognized fields

A value is trimmed by taking out every field that the search for unrecognized fields names. What
is left has the known keys, and under them the same parts, trimmed; so a second search finds
nothing.
-/

namespace ScreenDoc

/-- The value without its unrecognized fields. -/
def Role.trim (role : Role) (j : Json) : Json :=
  j.without fun address key => decide ((address, key) ∈ role.unrecognized j)

def Holding.trim (holding : Holding) (j : Json) : Json :=
  j.without fun address key => decide ((address, key) ∈ holding.unrecognized j)

def trimFields (places : KeyMap Holding) (fields : KeyMap Json) : KeyMap Json :=
  fields.map fun field => (field.1, ((places.get? field.1).elim id Holding.trim) field.2)

private theorem KeyMap.get?_map_entries {α β : Type} (f : String → α → β) (m : KeyMap α)
    (key : String) :
    get? (m.map fun entry => (entry.1, f entry.1 entry.2)) key = (get? m key).map (f key) := by
  induction m with
  | nil => rfl
  | cons entry m ih =>
    obtain ⟨k, v⟩ := entry
    rw [List.map_cons, get?_cons, get?_cons, ih]
    by_cases h : key = k
    · subst h
      simp
    · simp [h]

theorem get?_trimFields (places : KeyMap Holding) (fields : KeyMap Json) (key : String) :
    (trimFields places fields).get? key
      = (fields.get? key).map ((places.get? key).elim id Holding.trim) :=
  KeyMap.get?_map_entries (fun key => (places.get? key).elim id Holding.trim) fields key

@[simp] theorem keys_trimFields (places : KeyMap Holding) (fields : KeyMap Json) :
    (trimFields places fields).keys = fields.keys := by
  simp [trimFields, KeyMap.keys, Function.comp_def]

namespace Role

variable {role : Role} {known : List String} {j : Json}

theorem trim_of_none (h : role.known? j = none) : role.trim j = j := by
  refine Json.without_of_none fun address key => ?_
  rw [unrecognized_of_none h]
  simp

theorem nodup_places (role : Role) (known : List String) : (role.places known).keys.Nodup := by
  cases role with
  | payload =>
    have hkeys : Rules.childKeys.Nodup := by decide
    simpa [places, KeyMap.keys, Function.comp_def] using hkeys.filter _
  | _ => simp [places]

theorem mem_unrecognized_nil (h : role.known? j = some known) {key : String} :
    ([], key) ∈ role.unrecognized j ↔ key ∈ j.unknownNames known := by
  rw [unrecognized_of_some h, List.mem_append, List.mem_map, List.mem_flatMap]
  constructor
  · rintro (⟨_, hkey, heq⟩ | ⟨place, -, hfield⟩)
    · cases heq
      exact hkey
    · cases hvalue : j.field? place.1 with
      | none => simp [hvalue] at hfield
      | some value =>
        rw [hvalue, Option.elim_some] at hfield
        obtain ⟨field, -, heq⟩ := List.mem_map.mp hfield
        cases heq
  · exact fun hkey => .inl ⟨key, hkey, rfl⟩

private theorem mem_unrecognized_cons (h : role.known? j = some known) {name key : String}
    {value : Json} (hvalue : j.field? name = some value) {address : Address} :
    (.field name :: address, key) ∈ role.unrecognized j
      ↔ ∃ holding, (role.places known).get? name = some holding
        ∧ (address, key) ∈ holding.unrecognized value := by
  rw [unrecognized_of_some h, List.mem_append, List.mem_map, List.mem_flatMap]
  constructor
  · rintro (⟨_, -, heq⟩ | ⟨⟨name', holding⟩, hplace, hfield⟩)
    · cases heq
    · cases hvalue' : j.field? name' with
      | none => simp [hvalue'] at hfield
      | some value' =>
        simp only [hvalue', Option.elim_some] at hfield
        obtain ⟨field, hinner, heq⟩ := List.mem_map.mp hfield
        cases heq
        rw [hvalue] at hvalue'
        cases hvalue'
        exact ⟨holding, KeyMap.get?_of_mem (role.nodup_places known) hplace, hinner⟩
  · rintro ⟨holding, hplace, hfield⟩
    refine .inr ⟨(name, holding), KeyMap.mem_of_get? hplace, ?_⟩
    rw [hvalue, Option.elim_some]
    exact List.mem_map.mpr ⟨(address, key), hfield, rfl⟩

/-- What is left of an object: the tag and the known fields, with their parts trimmed. -/
theorem trim_object {fields : List (String × Json)} (h : role.known? (.object fields) = some known)
    (hkeys : (KeyMap.keys fields).Nodup) :
    role.trim (.object fields)
      = .object (trimFields (role.places known)
          (fields.filter fun field => field.1 == "type" || known.contains field.1)) := by
  have hgone : ∀ field ∈ fields,
      (!decide (([], field.1) ∈ role.unrecognized (.object fields)))
        = (field.1 == "type" || known.contains field.1) := by
    intro field hfield
    have hmem : field.1 ∈ KeyMap.keys fields := List.mem_map_of_mem hfield
    simp only [mem_unrecognized_nil h, Json.unknownNames, Json.fields?, Option.getD_some,
      List.mem_filter, hmem, true_and]
    cases (field.1 == "type" || known.contains field.1) <;> rfl
  rw [trim, Json.without_object, List.filter_congr hgone, trimFields]
  refine congrArg Json.object (List.map_congr_left fun field hfield => ?_)
  have hvalue : (Json.object fields).field? field.1 = some field.2 :=
    KeyMap.get?_of_mem hkeys (List.mem_filter.mp hfield).1
  simp only [mem_unrecognized_cons h hvalue]
  cases hplace : (role.places known).get? field.1 with
  | none =>
    simp only [reduceCtorEq, false_and, exists_false, decide_false, Option.elim_none, id_eq]
    rw [Json.without_of_none fun _ _ => rfl]
  | some holding =>
    simp only [Option.some.injEq, exists_eq_left', Option.elim_some, Holding.trim]

end Role

namespace Holding

variable {role : Role}

private theorem unrecognized_whole (role : Role) (j : Json) :
    (whole role).unrecognized j = role.unrecognized j := by
  rw [unrecognized, parts, List.flatMap_singleton, Part.unrecognized]
  exact List.map_id _

theorem trim_whole (role : Role) (j : Json) : (whole role).trim j = role.trim j := by
  rw [trim, Role.trim, unrecognized_whole]

private theorem mem_unrecognized_items {items : List Json} {field : Address × String} :
    field ∈ (Holding.items role).unrecognized (.array items)
      ↔ ∃ i item inner, items[i]? = some item ∧ inner ∈ role.unrecognized item
        ∧ field = below (.item i) inner := by
  simp only [unrecognized, parts, Part.ofItems, Json.items?, Option.getD_some, List.flatMap_map,
    List.mem_flatMap, Part.unrecognized, List.mem_map, List.mem_zipIdx_iff_getElem?]
  constructor
  · rintro ⟨⟨item, i⟩, hitem, inner, hinner, rfl⟩
    exact ⟨i, item, inner, hitem, hinner, rfl⟩
  · rintro ⟨i, item, inner, hitem, hinner, rfl⟩
    exact ⟨(item, i), hitem, inner, hinner, rfl⟩

theorem trim_items (role : Role) (items : List Json) :
    (Holding.items role).trim (.array items) = .array (items.map role.trim) := by
  rw [trim, Json.without_array]
  refine congrArg Json.array (List.ext_getElem (by simp) fun i hleft hright => ?_)
  have hi : i < items.length := by simpa using hleft
  rw [List.getElem_mapIdx, List.getElem_map, Role.trim]
  refine congrArg (Json.without · items[i]) (funext₂ fun address key => ?_)
  simp only [mem_unrecognized_items, below, Prod.mk.injEq, List.cons.injEq, Step.item.injEq,
    decide_eq_decide]
  constructor
  · rintro ⟨_, item, inner, hitem, hinner, ⟨rfl, rfl⟩, rfl⟩
    rw [List.getElem?_eq_getElem hi] at hitem
    cases hitem
    exact hinner
  · exact fun hinner =>
      ⟨i, items[i], (address, key), List.getElem?_eq_getElem hi, hinner, ⟨rfl, rfl⟩, rfl⟩

theorem trim_of_nil {holding : Holding} {j : Json} (h : holding.parts j = []) :
    holding.trim j = j := by
  refine Json.without_of_none fun address key => ?_
  simp [unrecognized, h]

theorem trim_children_object (fields : List (String × Json)) :
    children.trim (.object fields) = Role.node.trim (.object fields) :=
  trim_whole .node (.object fields)

theorem trim_children_array (items : List Json) :
    children.trim (.array items) = .array (items.map Role.node.trim) :=
  trim_items .node items

theorem mem_unrecognized_scripts {scripts : List (String × Json)} {field : Address × String} :
    field ∈ Holding.scripts.unrecognized (.object scripts)
      ↔ ∃ script ∈ scripts, ∃ inner ∈ (Holding.items .action).unrecognized script.2,
        field = below (.field script.1) inner := by
  simp only [unrecognized, parts, Json.fields?, Option.getD_some, List.flatMap_assoc,
    List.flatMap_map, List.mem_flatMap, Part.unrecognized, Part.below, List.mem_map]
  constructor
  · rintro ⟨script, hscript, part, hpart, inner, hinner, rfl⟩
    exact ⟨script, hscript, _, ⟨part, hpart, inner, hinner, rfl⟩, rfl⟩
  · rintro ⟨script, hscript, _, ⟨part, hpart, inner, hinner, rfl⟩, rfl⟩
    exact ⟨script, hscript, part, hpart, inner, hinner, rfl⟩

theorem trim_scripts {scripts : List (String × Json)} (h : (KeyMap.keys scripts).Nodup) :
    Holding.scripts.trim (.object scripts)
      = .object (KeyMap.mapValues (Holding.items .action).trim scripts) := by
  have hkept : (scripts.filter fun script =>
      !decide (([], script.1) ∈ Holding.scripts.unrecognized (.object scripts))) = scripts := by
    refine List.filter_eq_self.mpr fun script _ => ?_
    simp [mem_unrecognized_scripts, below]
  rw [trim, Json.without_object, hkept, KeyMap.mapValues]
  refine congrArg Json.object (List.map_congr_left fun script hscript => ?_)
  refine congrArg (Prod.mk script.1) (congrArg (Json.without · script.2)
    (funext₂ fun address key => ?_))
  simp only [mem_unrecognized_scripts, below, Prod.mk.injEq, List.cons.injEq, Step.field.injEq,
    decide_eq_decide]
  constructor
  · rintro ⟨other, hother, inner, hinner, ⟨hname, rfl⟩, rfl⟩
    have hsame : other.2 = script.2 := by
      have hget := KeyMap.get?_of_mem h (show (other.1, other.2) ∈ scripts from hother)
      rw [← hname, KeyMap.get?_of_mem h (show (script.1, script.2) ∈ scripts from hscript)] at hget
      exact (Option.some.inj hget).symm
    rwa [← hsame]
  · exact fun hinner => ⟨script, hscript, (address, key), hinner, ⟨rfl, rfl⟩, rfl⟩

end Holding

/-! ## What is left -/

namespace Role

variable {role : Role} {known : List String} {j : Json}

theorem exists_trim_object (role : Role) (fields : List (String × Json)) :
    ∃ rest, role.trim (.object fields) = .object rest :=
  ⟨_, Json.without_object fields⟩

private theorem get?_places_type (role : Role) (known : List String) :
    (role.places known).get? "type" = none := by
  rw [KeyMap.get?_eq_none_iff]
  cases role with
  | payload =>
    have htype : "type" ∉ Rules.childKeys := by decide
    simp [places, KeyMap.keys, Function.comp_def, htype]
  | _ => simp [places]

theorem field?_trim {fields : List (String × Json)} (h : role.known? (.object fields) = some known)
    (hkeys : (KeyMap.keys fields).Nodup) (key : String) :
    (role.trim (.object fields)).field? key
      = if key == "type" || known.contains key then
          (KeyMap.get? fields key).map (((role.places known).get? key).elim id Holding.trim)
        else none := by
  rw [trim_object h hkeys, Json.field?, get?_trimFields,
    KeyMap.get?_filter fun key => key == "type" || known.contains key]
  split <;> rfl

theorem typeName?_trim (role : Role) (hj : j.Distinct) :
    (role.trim j).typeName? = j.typeName? := by
  cases hknown : role.known? j with
  | none => rw [trim_of_none hknown]
  | some known =>
    obtain ⟨fields, rfl⟩ := object_of_known? hknown
    rw [Json.typeName?, field?_trim hknown hj.nodup, get?_places_type]
    simp [Json.typeName?, Json.field?]

private theorem known?_trim (role : Role) (hj : j.Distinct) :
    role.known? (role.trim j) = role.known? j := by
  have htype := role.typeName?_trim hj
  have hfields : (role.trim j).fields?.isSome = j.fields?.isSome := by
    cases hj with
    | object _ _ =>
      obtain ⟨rest, hrest⟩ := role.exists_trim_object _
      rw [hrest]
      rfl
    | array _ => rw [trim_of_none (by cases role <;> rfl)]
    | _ => rfl
  have hmap (names : List String) : ((role.trim j).fields?.map fun _ => names)
      = j.fields?.map fun _ => names := by
    cases hleft : (role.trim j).fields? <;> cases hright : j.fields? <;> simp_all
  cases role <;> simp only [known?, hmap, htype]

end Role

def Part.trim (part : Part) : Part :=
  { part with value := part.role.trim part.value }

private theorem Holding.parts_trim (holding : Holding) {j : Json} (hj : j.Distinct) :
    holding.parts (holding.trim j) = (holding.parts j).map Part.trim := by
  have hitems (role : Role) (items : List Json) :
      Part.ofItems role (.array (items.map role.trim))
        = (Part.ofItems role (.array items)).map Part.trim := by
    simp [Part.ofItems, Json.items?, List.zipIdx_map, Part.trim, Function.comp_def]
  cases holding with
  | whole role => rw [trim_whole, parts, parts, List.map_singleton, Part.trim]
  | items role =>
    cases j with
    | array items => rw [trim_items, parts, parts, hitems]
    | _ => rfl
  | children =>
    cases j with
    | object fields =>
      obtain ⟨rest, hrest⟩ := Role.node.exists_trim_object fields
      rw [trim_children_object, hrest, parts, parts, List.map_singleton, Part.trim, hrest]
    | array items =>
      rw [trim_children_array]
      exact hitems .node items
    | _ => rfl
  | scripts =>
    cases j with
    | object scripts =>
      rw [trim_scripts hj.nodup]
      simp only [parts, Json.fields?, Option.getD_some, KeyMap.mapValues, List.flatMap_map,
        List.map_flatMap]
      refine List.flatMap_congr fun script hscript => ?_
      cases hvalue : script.2 with
      | array items =>
        rw [trim_items, hitems, List.map_map, List.map_map]
        rfl
      | _ => rfl
    | _ => rfl

theorem Holding.distinct_of_parts {holding : Holding} {j : Json} (hj : j.Distinct) {part : Part}
    (h : part ∈ holding.parts j) : part.value.Distinct := by
  have hitems {role : Role} {j : Json} (hj : j.Distinct) {part : Part}
      (h : part ∈ Part.ofItems role j) : part.value.Distinct := by
    obtain ⟨⟨item, i⟩, hitem, rfl⟩ := List.mem_map.mp h
    have hmem := List.fst_mem_of_mem_zipIdx hitem
    cases j with
    | array items => exact hj.items item hmem
    | _ => cases hmem
  cases holding with
  | whole role =>
    rw [List.mem_singleton.mp h]
    exact hj
  | items role => exact hitems hj h
  | children =>
    cases j with
    | object fields =>
      rw [List.mem_singleton.mp h]
      exact hj
    | _ => exact hitems hj h
  | scripts =>
    obtain ⟨script, hscript, h⟩ := List.mem_flatMap.mp h
    obtain ⟨inner, hinner, rfl⟩ := List.mem_map.mp h
    change inner.value.Distinct
    cases j with
    | object scripts => exact hitems (hj.fields script hscript) hinner
    | _ => cases hscript

private theorem Holding.at?_of_parts {holding : Holding} {j : Json} (hj : j.Distinct) {part : Part}
    (h : part ∈ holding.parts j) : j.at? part.address = some part.value := by
  have hitems {role : Role} {j : Json} {part : Part} (h : part ∈ Part.ofItems role j) :
      j.at? part.address = some part.value := by
    obtain ⟨⟨item, i⟩, hitem, rfl⟩ := List.mem_map.mp h
    cases j with
    | array items =>
      have hget : items[i]? = some item := List.mem_zipIdx_iff_getElem?.mp hitem
      rw [Json.at?, Json.item?, hget]
      rfl
    | _ => cases hitem
  cases holding with
  | whole role =>
    rw [List.mem_singleton.mp h]
    rfl
  | items role => exact hitems h
  | children =>
    cases j with
    | object fields =>
      rw [List.mem_singleton.mp h]
      rfl
    | _ => exact hitems h
  | scripts =>
    obtain ⟨script, hscript, h⟩ := List.mem_flatMap.mp h
    obtain ⟨inner, hinner, rfl⟩ := List.mem_map.mp h
    cases j with
    | object scripts =>
      have hget : KeyMap.get? scripts script.1 = some script.2 :=
        KeyMap.get?_of_mem hj.nodup hscript
      change (KeyMap.get? scripts script.1).bind _ = _
      rw [hget]
      exact hitems hinner
    | _ => cases hscript

theorem Role.exists_of_mem_unrecognized (role : Role) {j : Json} (hj : j.Distinct)
    {field : Address × String} (h : field ∈ role.unrecognized j) :
    ∃ fields, j.at? field.1 = some (.object fields) ∧ field.2 ∈ KeyMap.keys fields := by
  induction hsize : j.size using Nat.strong_induction_on generalizing role j field with
  | h size ih =>
    cases hknown : role.known? j with
    | none =>
      rw [unrecognized_of_none hknown] at h
      cases h
    | some known =>
      obtain ⟨fields, rfl⟩ := object_of_known? hknown
      rw [unrecognized_of_some hknown, List.mem_append, List.mem_map, List.mem_flatMap] at h
      rcases h with ⟨key, hkey, rfl⟩ | ⟨⟨key, holding⟩, -, h⟩
      · exact ⟨fields, rfl, (List.mem_filter.mp hkey).1⟩
      · cases hvalue : (Json.object fields).field? key with
        | none => simp [hvalue] at h
        | some value =>
          simp only [hvalue, Option.elim_some] at h
          obtain ⟨inner, hinner, rfl⟩ := List.mem_map.mp h
          obtain ⟨part, hpart, hmem⟩ := List.mem_flatMap.mp hinner
          obtain ⟨last, hlast, rfl⟩ := List.mem_map.mp hmem
          have hdistinct := hj.fields _ (KeyMap.mem_of_get? hvalue)
          have hlt : part.value.size < size :=
            hsize ▸ (Holding.size_le_of_parts hpart).trans_lt (Json.size_lt_of_field? hvalue)
          obtain ⟨found, hfound, hkeys⟩ :=
            ih _ hlt part.role (Holding.distinct_of_parts hdistinct hpart) hlast rfl
          refine ⟨found, ?_, hkeys⟩
          rw [below, Json.at?, hvalue, Option.bind_some, Json.at?_append,
            Holding.at?_of_parts hdistinct hpart, Option.bind_some, hfound]

theorem Role.unrecognized_trim (role : Role) {j : Json} (hj : j.Distinct) :
    role.unrecognized (role.trim j) = [] := by
  -- Induction on the size: parts are smaller than what they stand in, and what is left of a value
  -- has the trimmed parts.
  induction hsize : j.size using Nat.strong_induction_on generalizing role j with
  | h size ih =>
    cases hknown : role.known? j with
    | none => rw [trim_of_none hknown, unrecognized_of_none hknown]
    | some known =>
      obtain ⟨fields, rfl⟩ := object_of_known? hknown
      have htrim := trim_object hknown hj.nodup
      rw [unrecognized_of_some ((role.known?_trim hj).trans hknown), List.append_eq_nil_iff]
      -- The keys that are left are known, and the parts that are left are trimmed.
      constructor
      · rw [List.map_eq_nil_iff, Json.unknownNames, htrim, List.filter_eq_nil_iff]
        intro key hkey
        simp only [Json.fields?, Option.getD_some, keys_trimFields] at hkey
        obtain ⟨value, hvalue⟩ := KeyMap.mem_keys.mp hkey
        simpa [or_iff_not_imp_left] using (List.mem_filter.mp hvalue).2
      · rw [List.flatMap_eq_nil_iff]
        rintro ⟨key, holding⟩ hplace
        have hget := KeyMap.get?_of_mem (role.nodup_places known) hplace
        simp only [field?_trim hknown hj.nodup, hget, Option.elim_some]
        split
        · cases hvalue : KeyMap.get? fields key with
          | none => rfl
          | some value =>
            have hmem := KeyMap.mem_of_get? hvalue
            have hvalueDistinct := hj.fields _ hmem
            have hnil : holding.unrecognized (holding.trim value) = [] := by
              rw [Holding.unrecognized, holding.parts_trim hvalueDistinct, List.flatMap_map,
                List.flatMap_eq_nil_iff]
              intro part hpart
              have hlt : part.value.size < size :=
                hsize ▸ (Holding.size_le_of_parts hpart).trans_lt (Json.size_lt_of_mem_fields hmem)
              rw [Part.unrecognized, List.map_eq_nil_iff]
              exact ih _ hlt part.role (Holding.distinct_of_parts hvalueDistinct hpart) rfl
            simp [hnil]
        · rfl

end ScreenDoc
