import ScreenDoc.Proofs.Validate.Follow
import ScreenDoc.Proofs.Wire.Buffered
import ScreenDoc.Proofs.Wire.Trimmed

/-!
# Children that are decoded and children that are searched

The search for nodes goes through twelve child keys, whatever the payload is, and decoding through
the slots and lists that its tag has. A child of the search that the payload has is decoded, and an
object that is decoded as a child of an object is found by the search. So a node can only fail to
decode in its own content or in a child that the search comes to, as long as its payload is no
array.
-/

namespace ScreenDoc

namespace Json

/-- The payload of the node has a child at this place: its tag names a type with a slot or a list
there. -/
def ReadsChild (j : Json) (place : ChildPlace) : Prop :=
  ∃ payload layout, j.field? "properties" = some payload ∧
    Role.payload.layout? payload = some layout ∧
    (place.field, if place.index.isNone then Holding.whole .node else .items .node) ∈ layout.holds

theorem payload_mem_readParts {j payload : Json} (h : j.field? "properties" = some payload) :
    ⟨[.field "properties"], .payload, payload⟩ ∈ Role.node.readParts j := by
  cases j with
  | object fields =>
    have hlayout : Role.node.layout? (object fields) = some _ := rfl
    have hmem := Role.below_mem_readParts hlayout List.mem_cons_self
      (Layout.entry?_object _ h) (List.mem_singleton_self _)
    exact hmem
  | _ => cases h

theorem reads_child {j : Json} {child : ChildPlace × Json} (hchild : child ∈ j.childNodes)
    (hreads : j.ReadsChild child.1) :
    Role.node.Reads j (.field "properties" :: child.1.steps) .node child.2 := by
  obtain ⟨payload, layout, hpayload, hlayout, hholding⟩ := hreads
  rw [childNodes] at hchild
  split at hchild
  · rename_i fields hfields
    obtain rfl : payload = object fields :=
      Option.some.inj (hpayload.symm.trans (payload?_eq_some_iff.mp hfields))
    have hpart : ⟨child.1.steps, .node, child.2⟩ ∈ Role.payload.readParts (object fields) := by
      obtain ⟨key, -, ⟨inner, hslot, rfl⟩ | ⟨items, hlist, hitem⟩⟩ := of_mem_underChildKeys hchild
      · have hmem := Role.below_mem_readParts hlayout hholding (layout.entry?_object hslot)
          (List.mem_singleton_self _)
        exact hmem
      · obtain ⟨item, hzip, rfl⟩ := List.mem_map.mp hitem
        have hmem := Role.below_mem_readParts hlayout hholding (layout.entry?_object hlist)
          (List.mem_map_of_mem hzip)
        exact hmem
    have hinside := Role.Reads.part hpart (.here .node child.2)
    rw [List.append_nil] at hinside
    exact .part (payload_mem_readParts hpayload) hinside
  · cases hchild

end Json

namespace Role

/-- The roles of a modifier and of what is in it. -/
def styling : List Role :=
  [.modifier, .operation, .shape]

private theorem styling_of_mem_readParts {role : Role} {j : Json} {part : Part}
    (hrole : role ∈ styling) (h : part ∈ role.readParts j) : part.role ∈ styling := by
  obtain ⟨layout, key, holding, step, value, inner, hlayout, hholding, -, hinner, rfl⟩ :=
    mem_readParts h
  simp only [styling, List.mem_cons, List.not_mem_nil, or_false] at hrole
  rcases hrole with rfl | rfl | rfl
  · cases hlayout
    cases List.mem_singleton.mp hholding
    obtain ⟨item, -, rfl⟩ := List.mem_map.mp hinner
    exact List.mem_cons_of_mem _ List.mem_cons_self
  · obtain ⟨tagged, -, rfl⟩ := Option.map_eq_some_iff.mp hlayout
    dsimp only at hholding
    split at hholding
    · cases List.mem_singleton.mp hholding
      rw [List.mem_singleton.mp hinner]
      exact List.mem_cons_of_mem _ (List.mem_cons_of_mem _ List.mem_cons_self)
    · cases hholding
  · obtain ⟨tagged, -, rfl⟩ := Option.map_eq_some_iff.mp hlayout
    cases hholding

theorem Reads.styling {role inner : Role} {j value : Json} {steps : Address}
    (h : role.Reads j steps inner value) (hrole : role ∈ styling) : inner ∈ styling := by
  induction h with
  | here => exact hrole
  | part hpart _ ih => exact ih (styling_of_mem_readParts hrole hpart)

theorem mem_readParts_node {fields : List (String × Json)} {part : Part}
    (h : part ∈ node.readParts (.object fields)) :
    (∃ payload, KeyMap.get? fields "properties" = some payload ∧
      part = ⟨[.field "properties"], .payload, payload⟩) ∨ part.role = .modifier := by
  obtain ⟨layout, key, holding, step, value, inner, hlayout, hholding, hentry, hinner, rfl⟩ :=
    mem_readParts h
  cases hlayout
  rcases List.mem_pair.mp hholding with heq | heq <;> cases heq
  · obtain ⟨payload, hpayload, heq⟩ := Option.map_eq_some_iff.mp hentry
    cases heq
    rw [List.mem_singleton.mp hinner]
    exact .inl ⟨_, hpayload, rfl⟩
  · rw [List.mem_singleton.mp hinner]
    exact .inr rfl

theorem mem_readParts_payload {fields : List (String × Json)} {part : Part}
    (h : part ∈ payload.readParts (.object fields)) :
    part.role = .node ∧ ∀ inner, part.value = .object inner →
      ∃ place, (place, part.value) ∈ Json.underChildKeys fields := by
  obtain ⟨layout, key, holding, step, value, inner, hlayout, hholding, hentry, hinner, rfl⟩ :=
    mem_readParts h
  obtain ⟨tagged, -, hlayout⟩ := Option.bind_eq_some_iff.mp hlayout
  obtain ⟨type, -, heq⟩ := Option.bind_eq_some_iff.mp hlayout
  cases heq
  obtain ⟨found, hvalue, heq⟩ := Option.map_eq_some_iff.mp hentry
  cases heq
  rcases List.mem_append.mp hholding with hholding | hholding
  · obtain ⟨_, hslot, heq⟩ := List.mem_map.mp hholding
    cases heq
    rw [List.mem_singleton.mp hinner]
    refine ⟨rfl, fun object hobject => ⟨⟨key, none⟩, ?_⟩⟩
    obtain rfl : value = .object object := hobject
    exact Json.mem_underChildKeys (Node.childKeys_of_slotKeys type key hslot) hvalue
      (List.mem_singleton_self _)
  · obtain ⟨_, hlist, heq⟩ := List.mem_map.mp hholding
    cases heq
    obtain ⟨item, hitem, rfl⟩ := List.mem_map.mp hinner
    refine ⟨rfl, fun object _ => ⟨⟨key, some item.2⟩, ?_⟩⟩
    cases value with
    | array items =>
      exact Json.mem_underChildKeys (Node.childKeys_of_listKeys type key hlist) hvalue
        (Json.mem_childrenUnder_item (List.mem_zipIdx_iff_getElem?.mp hitem))
    | _ => cases hitem

end Role

/-! ## Own content -/

namespace Node

/-- The payload of a value, its children read by `read`. -/
def payloadWith? {α : Type} (read : Json → Option α) (j : Json) : Option (Properties α) :=
  (j.tagged? Properties.tags false).bind fun tagged =>
    (Properties.ofContent? tagged.1 tagged.2).bind (Properties.traverse read)

/-- The own content of a node decodes alone: its type, its modifier, and its payload with any
objects for children. -/
def OwnDecodes (j : Json) : Prop :=
  ∃ fields, j.record? fieldNames = some fields ∧
    (fields.required "type" (Json.name? NodeType.named? false)).isSome ∧
    (fields.defaulted "composeModifier" {} (Modifier.ofJson? false)).isSome ∧
    (fields.optional "properties" (payloadWith? Json.fields?)).isSome

private theorem exists_place_of_content {fields : List (String × Json)} {tags : List String}
    {tag : String} {content : Json} {p : Properties Json}
    (htagged : (Json.object fields).tagged? tags false = some (tag, content))
    (hp : Properties.ofContent? tag content = some p) :
    ∀ c ∈ p.children, ∀ inner, c = .object inner →
      ∃ place, (place, c) ∈ Json.underChildKeys fields := by
  obtain ⟨type, -, hcontent⟩ := Option.bind_eq_some_iff.mp hp
  obtain ⟨known, hrecord, hfields⟩ := Option.bind_eq_some_iff.mp hcontent
  have hget {key : String} {value : Json} (h : known.get? key = some value) :
      KeyMap.get? fields key = some value := by
    rw [Json.content_of_tagged?_object htagged] at hrecord
    have hget := Json.get?_of_record?_object hrecord h
    rw [KeyMap.get?_filter (· != "type")] at hget
    split at hget
    · exact hget
    · cases hget
  refine Properties.forall_children_of_ofFields? (fun key hkey c hc inner hobject => ?_)
    (fun key hkey items hlist c hc inner _ => ?_) hfields
  · subst hobject
    exact ⟨⟨key, none⟩, Json.mem_underChildKeys (childKeys_of_slotKeys type key hkey)
      (hget (Properties.mem_childSlot (Option.mem_toList.mpr hc))) (List.mem_singleton_self _)⟩
  · obtain ⟨place, hplace⟩ := Json.exists_place_of_mem hc key
    exact ⟨place, Json.mem_underChildKeys (childKeys_of_listKeys type key hkey)
      (hget (Properties.mem_childItems? hlist hc)) hplace⟩

/-- A payload is decoded if it can be read with any objects for children, and those under its child
keys decode alone. -/
theorem isSome_propertiesOfJson? {fields : List (String × Json)}
    (h : (payloadWith? Json.fields? (.object fields)).isSome)
    (hchildren : ∀ child ∈ Json.underChildKeys fields, (ofJson? false child.2).isSome) :
    (propertiesOfJson? false (.object fields)).isSome := by
  obtain ⟨read, hread⟩ := Option.isSome_iff_exists.mp h
  obtain ⟨⟨tag, content⟩, htagged, hread⟩ := Option.bind_eq_some_iff.mp hread
  obtain ⟨p, hp, htraverse⟩ := Option.bind_eq_some_iff.mp hread
  have hdecoded : ∀ c ∈ p.children, (ofJson? true c).isSome := by
    intro c hc
    obtain ⟨inner, hinner⟩ := Option.isSome_iff_exists.mp
      (Properties.isSome_of_traverse htraverse c hc)
    have hobject : c = .object inner := by
      cases c <;> cases hinner
      rfl
    obtain ⟨place, hplace⟩ := exists_place_of_content htagged hp c hc inner hobject
    exact isSome_ofJson?_buffered (hchildren _ hplace)
  rw [propertiesOfJson?, htagged, Option.bind_some, payload?, hp]
  exact Option.isSome_iff_exists.mpr ⟨_, Properties.traverse_eq_some_map hdecoded⟩

/-- A node decodes alone if its own content does and its children in the search do. -/
theorem isSome_of_ownDecodes {j : Json} (hown : OwnDecodes j)
    (hobject : ∃ fields, j = .object fields)
    (harray : ∀ items, j.field? "properties" ≠ some (.array items))
    (hchildren : ∀ child ∈ j.childNodes, (ofJson? false child.2).isSome) :
    (ofJson? false j).isSome := by
  obtain ⟨all, rfl⟩ := hobject
  obtain ⟨fields, hrecord, htype, hmodifier, hproperties⟩ := hown
  obtain ⟨type, htype⟩ := Option.isSome_iff_exists.mp htype
  obtain ⟨modifier, hmodifier⟩ := Option.isSome_iff_exists.mp hmodifier
  have hpayload : (fields.optional "properties" (propertiesOfJson? false)).isSome := by
    cases hvalue : fields.get? "properties" with
    | none =>
      rw [KeyMap.optional_of_none hvalue]
      rfl
    | some value =>
      by_cases hnull : value = .null
      · rw [KeyMap.optional_of_null (hnull ▸ hvalue)]
        rfl
      rw [KeyMap.optional_of_get? hvalue hnull, Option.isSome_map] at hproperties ⊢
      have hfield := Json.get?_of_record?_object hrecord hvalue
      cases value with
      | object inside =>
        refine isSome_propertiesOfJson? hproperties fun child hchild => hchildren child ?_
        rw [Json.childNodes, Json.payload?_eq_some_iff (j := .object all) |>.mpr hfield]
        exact hchild
      | array items => exact absurd hfield (harray items)
      | _ => cases hproperties
  obtain ⟨properties, hpayload⟩ := Option.isSome_iff_exists.mp hpayload
  rw [ofJson?_eq]
  simp only [hrecord, Option.bind_eq_bind, Option.bind_some, htype, hmodifier, hpayload]
  rfl

end Node

end ScreenDoc
