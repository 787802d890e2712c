import ScreenDoc.Proofs.Wire.Encoding
import ScreenDoc.Validate.Typed

/-!
# What is written repeats no key

A written object lists its fields as they are declared, so it is no map, but none of its keys occur
twice.
-/

namespace ScreenDoc

open Json

theorem Json.distinct_tagged {tag : String} {fields : List (String × Json)}
    (htype : "type" ∉ KeyMap.keys fields) (hkeys : (KeyMap.keys fields).Nodup)
    (h : ∀ field ∈ fields, field.2.Distinct) : (tagged tag fields).Distinct :=
  .object (List.nodup_cons.mpr ⟨htype, hkeys⟩) (List.forall_mem_cons.mpr ⟨.string tag, h⟩)

private theorem Json.distinct_ofExtended (x : Binary64.Extended) : (ofExtended x).Distinct := by
  cases x with
  | finite x => exact .number _
  | infinite negative => exact .null
  | nan => exact .null

theorem Shape.distinct_toJson (s : Shape) : s.toJson.Distinct := by
  cases s with
  | rectangle => exact distinct_tagged (by simp) (by simp) (List.forall_mem_nil _)
  | circle => exact distinct_tagged (by simp) (by simp) (List.forall_mem_nil _)
  | roundedCorner radii =>
    have hkeys := radii.keys_fields_sublist
    refine distinct_tagged (fun h => absurd (hkeys.subset h) (by decide))
      (List.Nodup.sublist hkeys (by decide)) ?_
    have hfield (k : String) (r : Option Int32) :
        ∀ field ∈ optionalField k ofInt32 r, field.2.Distinct :=
      KeyMap.forall_mem_optionalField.mpr fun n _ => .number _
    simp only [CornerRadii.fields, List.forall_mem_append]
    exact ⟨⟨⟨⟨hfield _ _, hfield _ _⟩, hfield _ _⟩, hfield _ _⟩, hfield _ _⟩

theorem Operation.distinct_toJson (o : Operation) : o.toJson.Distinct := by
  obtain ⟨htype, hkeys⟩ := List.nodup_cons.mp o.nodup_keys
  refine distinct_tagged htype hkeys ?_
  cases o <;> simp [fields, ofInt32, Distinct.number, Distinct.string, distinct_ofExtended,
    Shape.distinct_toJson]

theorem Modifier.distinct_toJson (m : Modifier) : m.toJson.Distinct := by
  have hoperations : (array (m.operations.map Operation.toJson)).Distinct :=
    .array (List.forall_mem_map.mpr fun o _ => o.distinct_toJson)
  exact .object (by simp) (by simpa using hoperations)

theorem Properties.distinct_toJson {p : Properties Json}
    (hchildren : ∀ c ∈ p.children, c.Distinct) : p.toJson.Distinct := by
  obtain ⟨htype, hkeys⟩ := List.nodup_cons.mp p.nodup_keys
  have hplaced {place : ChildPlace} {c : Json} (h : (place, c) ∈ p.placedChildren) :
      c.Distinct := by
    refine hchildren c ?_
    rw [← map_snd_placedChildren]
    exact List.mem_map_of_mem h
  refine distinct_tagged htype hkeys fun field hfield => ?_
  cases p.writes_of_mem field hfield with
  | string key s => exact .string s
  | bool key b => exact .bool b
  | int32 key n => exact .number _
  | uint32 key n => exact .number _
  | slot h => exact hplaced h
  | list h =>
    refine .array fun item hitem => ?_
    rename_i key items
    rw [← map_snd_listed key items] at hitem
    obtain ⟨⟨place, c⟩, hc, rfl⟩ := List.mem_map.mp hitem
    exact hplaced (h _ hc)
  | data h => exact (Map.sorted _).distinct

theorem Node.distinct_toJson (n : Node) : n.toJson.Distinct := by
  induction n using Node.induction with
  | node n ih =>
    rw [toJson_eq_object]
    refine .object n.nodup_keys ?_
    simp only [fields, List.cons_append, List.forall_mem_cons, List.forall_mem_append]
    refine ⟨.string _, KeyMap.forall_mem_optionalField.mpr fun p hp => ?_, ?_⟩
    · refine Properties.distinct_toJson ?_
      rw [Properties.children_map, List.forall_mem_map]
      intro source hsource
      exact ih source (by simpa [children, Option.mem_def.mp hp] using hsource)
    · split
      · exact List.forall_mem_nil _
      · exact List.forall_mem_singleton.mpr n.modifier.distinct_toJson

theorem Action.distinct_toJson (a : Action) : a.toJson.Distinct := by
  induction a using Action.induction with
  | leaf a hleaf =>
    cases a with
    | sequence actions => exact absurd rfl (hleaf actions)
    | setState key value =>
      exact distinct_tagged (by simp) (by simp) (by simp [Distinct.string, value.sorted.distinct])
    | toggleState key => exact distinct_tagged (by simp) (by simp) (by simp [Distinct.string])
    | log message => exact distinct_tagged (by simp) (by simp) (by simp [Distinct.string])
    | custom customType params =>
      exact distinct_tagged (by simp) (by simp) (by simp [Distinct.string, params.sorted.distinct])
  | sequence actions ih =>
    have hlist : (array (toJsonList actions)).Distinct := by
      rw [toJsonList_eq]
      exact .array (List.forall_mem_map.mpr ih)
    exact distinct_tagged (by simp) (by simp) (by simp [hlist])

theorem Document.distinct_toJson (d : Document) : d.toJson.Distinct := by
  refine .object d.nodup_keys ?_
  simp only [List.forall_mem_append, List.forall_mem_singleton]
  refine ⟨⟨?_, ?_⟩, d.root.distinct_toJson⟩
  · split
    · exact List.forall_mem_nil _
    · exact List.forall_mem_singleton.mpr d.initialState.sorted.distinct
  · split
    · exact List.forall_mem_nil _
    · refine List.forall_mem_singleton.mpr (.object ?_ (List.forall_mem_map.mpr ?_))
      · simpa [KeyMap.keys, Function.comp_def] using d.actions.nodup_keys
      · intro script _
        rw [Action.toJsonList_eq]
        exact .array (List.forall_mem_map.mpr fun a _ => a.distinct_toJson)

end ScreenDoc
