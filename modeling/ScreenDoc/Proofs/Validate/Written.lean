import ScreenDoc.Proofs.Validate.Positions
import ScreenDoc.Proofs.Wire.Encoding

/-!
# What the checks see in written values

The text of a node gives the value that is written for it, with its keys in order. Its tags are
known, none of its fields is unrecognized, and what stands under its child keys are its children:
a string under such a key is no child, and there is nothing else.
-/

namespace ScreenDoc

open Json

namespace Json

variable {fields : List (String × Json)}

theorem fields?_canonical_object :
    (object fields).canonical.fields?
      = some (KeyMap.ofList (KeyMap.mapValues canonical fields)) := by
  rw [canonical_object]
  rfl

theorem exists_of_mem_ofList {field : String × Json}
    (h : field ∈ KeyMap.ofList (KeyMap.mapValues canonical fields)) :
    ∃ value, (field.1, value) ∈ fields ∧ value.canonical = field.2 := by
  obtain ⟨source, hsource, rfl⟩ := List.mem_map.mp (KeyMap.mem_of_mem_ofList h)
  exact ⟨source.2, hsource, rfl⟩

theorem mem_keys_of_mem_ofList {key : String}
    (h : key ∈ KeyMap.keys (KeyMap.ofList (KeyMap.mapValues canonical fields))) :
    key ∈ KeyMap.keys fields := by
  obtain ⟨value, hvalue⟩ := KeyMap.mem_keys.mp h
  obtain ⟨source, hsource, -⟩ := exists_of_mem_ofList hvalue
  exact KeyMap.mem_keys.mpr ⟨source, hsource⟩

theorem unknownKeys_eq_nil {m : KeyMap Json} {known : List String} {place : String → Path}
    (h : ∀ key ∈ m.keys, key = "type" ∨ key ∈ known) : unknownKeys m known place = [] := by
  rw [unknownKeys, List.map_eq_nil_iff, List.filter_eq_nil_iff]
  intro key hkey
  simpa [or_iff_not_imp_left] using h key hkey

variable {tag : String} (hnodup : ("type" :: KeyMap.keys fields).Nodup)
include hnodup

theorem field?_canonical_tagged (key : String) :
    (tagged tag fields).canonical.field? key
      = if key = "type" then some (string tag) else (KeyMap.get? fields key).map canonical := by
  rw [tagged, field?_canonical (by simpa using hnodup), KeyMap.get?_cons]
  split <;> simp

theorem typeName?_canonical_tagged : (tagged tag fields).canonical.typeName? = some tag := by
  rw [typeName?, field?_canonical_tagged hnodup, if_pos rfl]
  rfl

theorem unknownTagged_canonical_tagged {fieldsOf? : String → Option (List String)}
    {known : List String} {path : Path} (hknown : fieldsOf? tag = some known)
    (hfields : KeyMap.keys fields ⊆ known) :
    unknownTagged fieldsOf? (tagged tag fields).canonical path = [] := by
  rw [unknownTagged, typeName?_canonical_tagged hnodup, tagged, fields?_canonical_object,
    Option.bind_some, hknown]
  refine unknownKeys_eq_nil fun key hkey => ?_
  exact (List.mem_cons.mp (mem_keys_of_mem_ofList hkey)).imp_right fun h => hfields h

end Json

/-! ## Modifiers -/

private theorem Shape.unknownTagged_written (s : Shape) (path : Path) :
    unknownTagged shapeFields? s.toJson.canonical path = [] := by
  cases s with
  | rectangle => exact unknownTagged_canonical_tagged (by simp) rfl (by simp)
  | circle => exact unknownTagged_canonical_tagged (by simp) rfl (by simp)
  | roundedCorner radii =>
    have hkeys := radii.keys_fields_sublist
    have hnames : ("type" :: Shape.fieldsOf "RoundedCorner").Nodup := by decide
    exact unknownTagged_canonical_tagged (hnames.sublist (hkeys.cons_cons _)) rfl hkeys.subset

namespace Operation

theorem typeName?_written (o : Operation) : o.toJson.canonical.typeName? = some o.tag :=
  typeName?_canonical_tagged o.nodup_keys

private theorem shape_of_get? {o : Operation} {value : Json}
    (h : KeyMap.get? o.fields "shape" = some value) : ∃ shape : Shape, value = shape.toJson := by
  cases o <;> simp [fields, KeyMap.get?_cons] at h
  all_goals exact ⟨_, h.symm⟩

theorem unknown_written (o : Operation) (path : Path) :
    unknownInOperation o.toJson.canonical path = [] := by
  have htag : operationFields? o.tag = some (fieldsOf o.tag) := by
    cases o <;> rfl
  have hself : unknownTagged operationFields? o.toJson.canonical path = [] :=
    unknownTagged_canonical_tagged o.nodup_keys htag (o.keys_fields ▸ List.Subset.refl _)
  rw [unknownInOperation, typeName?_written, Option.bind_some, htag, Option.isSome_some,
    if_pos rfl, hself, toJson, field?_canonical_tagged o.nodup_keys, if_neg (by decide)]
  cases hshape : KeyMap.get? o.fields "shape" with
  | none => rfl
  | some value =>
    obtain ⟨shape, rfl⟩ := shape_of_get? hshape
    exact shape.unknownTagged_written _

end Operation

namespace Modifier

theorem canonical_toJson (m : Modifier) :
    m.toJson.canonical
      = .object [("operations", .array (m.operations.map fun o => o.toJson.canonical))] := by
  simp [toJson, KeyMap.ofList, KeyMap.insertAll, KeyMap.insert, KeyMap.mapValues,
    Function.comp_def]

theorem unknown_written (m : Modifier) (path : Path) :
    unknownInModifier m.toJson.canonical path = [] := by
  have hoperations : ∀ o ∈ (m.operations.map fun o => o.toJson.canonical).zipIdx,
      unknownInOperation o.1 ((path.field "operations").item o.2) = [] := by
    intro o ho
    obtain ⟨source, -, heq⟩ := List.mem_map.mp (List.fst_mem_of_mem_zipIdx ho)
    rw [← heq]
    exact source.unknown_written _
  rw [canonical_toJson]
  simp only [unknownInModifier, fields?, field?, KeyMap.get?_cons, if_true, Option.bind_some,
    items?, Option.getD_some]
  rw [List.flatMap_eq_nil_iff.mpr hoperations, unknownKeys_eq_nil (by simp [modifierFields])]
  rfl

end Modifier

/-! ## Payloads -/

namespace Json

private theorem exists_underChildKeys {m : KeyMap Json} {key : String}
    (h : firstChildKey? m = some key) : ∃ child, child ∈ underChildKeys m := by
  have hkey := List.mem_of_find?_eq_some h
  have hholds := List.find?_some h
  cases hvalue : m.get? key with
  | none => simp [hvalue] at hholds
  | some value =>
    rw [hvalue, Option.any_some] at hholds
    cases value with
    | object fields => exact ⟨_, mem_underChildKeys hkey hvalue (List.mem_singleton_self _)⟩
    | array items =>
      cases items with
      | nil => simp [holdsChild] at hholds
      | cons item items => exact ⟨_, mem_underChildKeys hkey hvalue List.mem_cons_self⟩
    | _ => simp [holdsChild] at hholds

/-- Decoding goes to no other children than the checks. -/
theorem mem_childNodes_of_decoded {j : Json} {child : ChildPlace × Json}
    (h : child ∈ j.decodedChildNodes) : child ∈ j.childNodes := by
  unfold decodedChildNodes at h
  split at h
  · cases h
  · rename_i payload hpayload
    split at h
    · cases h
    · rename_i known _
      rw [childNodes, hpayload]
      obtain ⟨key, hkey, h⟩ := List.mem_flatMap.mp h
      refine List.mem_flatMap.mpr ⟨key, hkey, ?_⟩
      rw [KeyMap.get?_filter] at h
      by_cases hknown : known.contains key = true
      · rwa [if_pos hknown] at h
      · rw [if_neg hknown] at h
        cases h

end Json

namespace Node

theorem fields?_written (n : Node) :
    n.toJson.canonical.fields? = some (KeyMap.ofList (KeyMap.mapValues canonical n.fields)) := by
  rw [toJson_eq_object, fields?_canonical_object]

theorem typeName?_written (n : Node) : n.toJson.canonical.typeName? = some n.type.name := by
  rw [typeName?, field?_written, get?_type]
  simp [string?]

end Node

namespace Properties

/-- The fields of a payload as they are in the text of its node. -/
def written (p : Properties Node) : KeyMap Json :=
  KeyMap.ofList (KeyMap.mapValues canonical
    (("type", .string (p.map Node.toJson).tag) :: (p.map Node.toJson).fields))

theorem canonical_toJson (p : Properties Node) :
    (p.map Node.toJson).toJson.canonical = .object p.written := by
  rw [toJson, tagged, canonical_object, written]

theorem placed_of_underChildKeys {p : Properties Node} {child : ChildPlace × Json}
    (h : child ∈ underChildKeys p.written) :
    ∃ c ∈ p.placedChildren, child = (c.1, c.2.toJson.canonical) := by
  obtain ⟨key, hkey, h⟩ := of_mem_underChildKeys h
  have hsource {value : Json} (hvalue : p.written.get? key = some value) :
      ∃ source, (p.map Node.toJson).Writes (key, source) ∧ source.canonical = value := by
    obtain ⟨source, hmem, hcanonical⟩ := exists_of_mem_ofList (KeyMap.mem_of_get? hvalue)
    refine ⟨source, writes_of_mem _ _ (List.mem_of_ne_of_mem (fun heq => ?_) hmem), hcanonical⟩
    cases heq
    revert hkey
    decide
  have hplaced {place : ChildPlace} {source : Json}
      (hmem : (place, source) ∈ (p.map Node.toJson).placedChildren) :
      ∃ c, (place, c) ∈ p.placedChildren ∧ source = c.toJson := by
    rw [placedChildren_map] at hmem
    obtain ⟨⟨_, c⟩, hc, heq⟩ := List.mem_map.mp hmem
    cases heq
    exact ⟨c, hc, rfl⟩
  -- A plain value is neither an object nor a list, and no child key is the one of opaque data.
  rcases h with ⟨fields, hvalue, rfl⟩ | ⟨items, hvalue, hlisted⟩
  · obtain ⟨source, hwrites, hcanonical⟩ := hsource hvalue
    cases hwrites with
    | slot hslot =>
      obtain ⟨c, hc, rfl⟩ := hplaced hslot
      exact ⟨_, hc, by rw [hcanonical]⟩
    | data _ => exact absurd hkey (by decide)
    | _ => simp [ofInt32, ofUInt32] at hcanonical
  · obtain ⟨source, hwrites, hcanonical⟩ := hsource hvalue
    cases hwrites with
    | slot hslot =>
      obtain ⟨c, hc, rfl⟩ := hplaced hslot
      rw [Node.toJson_eq_object, canonical_object] at hcanonical
      cases hcanonical
    | list hlist =>
      rw [canonical_array, array.injEq] at hcanonical
      rw [← hcanonical, listed, List.zipIdx_map, List.map_map] at hlisted
      obtain ⟨⟨item, i⟩, hitem, rfl⟩ := List.mem_map.mp hlisted
      obtain ⟨c, hc, rfl⟩ := hplaced (hlist _ (List.mem_map_of_mem hitem))
      exact ⟨_, hc, rfl⟩
    | _ => simp [ofInt32, ofUInt32] at hcanonical

private theorem hasChildren_of_firstChildKey? {p : Properties Node} {key : String}
    (h : firstChildKey? p.written = some key) : p.hasChildren = true := by
  obtain ⟨child, hchild⟩ := exists_underChildKeys h
  obtain ⟨c, hc, -⟩ := placed_of_underChildKeys hchild
  have hmem : c.2 ∈ p.children := by
    rw [← map_snd_placedChildren]
    exact List.mem_map_of_mem hc
  simpa [hasChildren] using List.ne_nil_of_mem hmem

end Properties

namespace Node

theorem payload?_written (n : Node) :
    n.toJson.canonical.payload? = n.properties.map Properties.written := by
  rw [Json.payload?, field?_written, get?_properties]
  cases n.properties with
  | none => rfl
  | some p => simp [Properties.canonical_toJson, fields?]

theorem placed_of_childNodes {n : Node} {child : ChildPlace × Json}
    (h : child ∈ n.toJson.canonical.childNodes) :
    ∃ c ∈ n.placedChildren, child = (c.1, c.2.toJson.canonical) := by
  rw [childNodes, payload?_written] at h
  rw [placedChildren]
  cases hp : n.properties with
  | none => simp [hp] at h
  | some p => exact Properties.placed_of_underChildKeys (by simpa [hp] using h)

private theorem operationItems_written (n : Node) :
    n.toJson.canonical.operationItems
      = n.modifier.operations.map fun o => o.toJson.canonical := by
  rw [operationItems, field?_written, get?_modifier]
  by_cases hempty : n.modifier.isEmpty
  · simp [hempty, List.isEmpty_iff.mp hempty]
  · simp [hempty, Modifier.canonical_toJson, field?, KeyMap.get?_cons, items?]

/-! ## The walks -/

private theorem checkOwnTags_written (n : Node) (path : Path) :
    n.toJson.canonical.checkOwnTags path = [] := by
  have hobject : n.toJson.canonical
      = object (KeyMap.ofList (KeyMap.mapValues canonical n.fields)) := by
    rw [toJson_eq_object, canonical_object]
  have hoperations : ∀ o ∈ n.toJson.canonical.operationItems.zipIdx,
      o.1.checkOperationTag (path.operation o.2) = [] := by
    intro o ho
    have hmem := List.fst_mem_of_mem_zipIdx ho
    rw [operationItems_written] at hmem
    obtain ⟨source, -, heq⟩ := List.mem_map.mp hmem
    rw [← heq, checkOperationTag, source.typeName?_written]
    exact if_pos (List.contains_iff_mem.mpr source.tag_mem_tags)
  have htype := n.typeName?_written
  rw [hobject] at hoperations htype ⊢
  rw [checkOwnTags, htype, List.flatMap_eq_nil_iff.mpr hoperations]
  simp [NodeType.named?_name]

theorem checkTags_written (n : Node) (path : Path) : n.toJson.canonical.checkTags path = [] := by
  induction n using placedChildren_induction generalizing path with
  | node n ih =>
    rw [checkTags_eq, checkOwnTags_written, List.nil_append, List.flatMap_eq_nil_iff]
    intro child hchild
    obtain ⟨c, hc, rfl⟩ := placed_of_childNodes hchild
    exact ih c hc _

private theorem unknownInNode_written (n : Node) (path : Path) :
    n.toJson.canonical.unknownInNode path = [] := by
  have hkeys : unknownKeys (KeyMap.ofList (KeyMap.mapValues canonical n.fields)) nodeFields
      path.field = [] :=
    unknownKeys_eq_nil fun key hkey =>
      .inr (n.keys_fields_sublist.subset (mem_keys_of_mem_ofList hkey))
  rw [unknownInNode, fields?_written]
  simp only [hkeys, List.nil_append, List.append_eq_nil_iff]
  constructor
  · rw [field?_written, get?_modifier]
    by_cases hempty : n.modifier.isEmpty
    · simp [hempty]
    · simp [hempty, n.modifier.unknown_written]
  · rw [payload?_written]
    cases n.properties with
    | none => rfl
    | some p =>
      have htag : payloadFields? (p.map toJson).tag = some (p.map toJson).type.payloadFields := by
        rw [Properties.tag]
        cases (p.map toJson).type <;> rfl
      change unknownTagged payloadFields? (object p.written) path.properties = []
      rw [← p.canonical_toJson]
      exact unknownTagged_canonical_tagged (Properties.nodup_keys _) htag
        (Properties.keys_fields_sublist _).subset

theorem unknownInTree_written (n : Node) (path : Path) :
    n.toJson.canonical.unknownInTree path = [] := by
  induction n using placedChildren_induction generalizing path with
  | node n ih =>
    rw [unknownInTree_eq, unknownInNode_written, List.nil_append, List.flatMap_eq_nil_iff]
    intro child hchild
    obtain ⟨c, hc, rfl⟩ := placed_of_childNodes (mem_childNodes_of_decoded hchild)
    exact ih c hc _

private theorem firstChildKey?_fields (n : Node) :
    firstChildKey? (KeyMap.ofList (KeyMap.mapValues canonical n.fields)) = none := by
  have hdisjoint : ∀ key ∈ Rules.childKeys, key ∉ fieldNames := by decide
  refine List.find?_eq_none.mpr fun key hkey => ?_
  have hnone : KeyMap.get? (KeyMap.ofList (KeyMap.mapValues canonical n.fields)) key = none :=
    KeyMap.get?_eq_none_iff.mpr fun hmem =>
      hdisjoint key hkey (n.keys_fields_sublist.subset (mem_keys_of_mem_ofList hmem))
  simp [hnone]

/-- A leaf in the text holds children in its payload, and the rules on nodes say so as well. -/
theorem key_checkOwnLeaf_written (n : Node) (path : Path) :
    ∀ f ∈ n.toJson.canonical.checkOwnLeaf path, f.key ∈ (n.checkSelf path).map Finding.key := by
  intro f hf
  rw [checkOwnLeaf, typeName?_written, Option.bind_some, NodeType.named?_name, fields?_written,
    Option.bind_some, firstChildKey?_fields, Option.or_none, payload?_written] at hf
  cases hp : n.properties with
  | none => simp [hp] at hf
  | some p =>
    rw [hp, Option.map_some, Option.bind_some] at hf
    by_cases hleaf : n.type.isLeaf = true
    · cases hkey : firstChildKey? p.written with
      | none => simp [hleaf, hkey] at hf
      | some key =>
        have hchildren := Properties.hasChildren_of_firstChildKey? hkey
        obtain rfl : f = .error path.text .childrenOnLeafNode
            (n.type.name ++ " is a leaf but carries '" ++ key ++ "'") := by
          simpa [hleaf, hkey] using hf
        rw [checkSelf, hp]
        simp [hleaf, hchildren, Finding.key, Finding.error]
    · simp [hleaf] at hf

theorem key_checkLeaves_written (n : Node) (path : Path) :
    ∀ f ∈ n.toJson.canonical.checkLeaves path, f.key ∈ (n.check path).map Finding.key := by
  induction n using placedChildren_induction generalizing path with
  | node n ih =>
    intro f hf
    rw [checkLeaves_eq, List.mem_append, List.mem_flatMap] at hf
    rw [check_eq, List.map_append, List.mem_append]
    rcases hf with hf | ⟨child, hchild, hf⟩
    · exact .inl (n.key_checkOwnLeaf_written path f hf)
    · obtain ⟨c, hc, rfl⟩ := placed_of_childNodes hchild
      rw [List.map_flatMap]
      exact .inr (List.mem_flatMap.mpr ⟨c, hc, ih c hc _ f hf⟩)

end Node

end ScreenDoc
