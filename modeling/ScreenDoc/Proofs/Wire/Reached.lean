import ScreenDoc.Proofs.Wire.Action
import ScreenDoc.Proofs.Wire.Ignored
import ScreenDoc.Proofs.Wire.Node

/-!
# What decoding reaches

The relation that says what is decoded in a payload keeps to the readers: what it reaches in a
payload that decodes is decoded, and the keys that it calls ignored make no difference there.
-/

namespace ScreenDoc

/-! ## Fields by their place -/

private theorem KeyMap.get?_zip {names : List String} {key : String} (hkey : key ∈ names)
    (items : List Json) : get? (names.zip items) key = items[names.idxOf key]? := by
  induction names generalizing items with
  | nil => cases hkey
  | cons name names ih =>
    cases items with
    | nil => simp
    | cons item items =>
      rw [List.zip_cons_cons, get?_cons, List.idxOf_cons]
      by_cases heq : name = key
      · simp [heq]
      · have htail : key ∈ names := (List.mem_cons.mp hkey).resolve_left (Ne.symm heq)
        have hne : (name == key) = false := by simpa using heq
        simp [Ne.symm heq, hne, ih htail]

section Entry

variable {names : List String} {holds : KeyMap Holding} {key : String} {step : Step} {value : Json}

theorem Layout.get?_of_entry? {j : Json} {fields : KeyMap Json} (hkey : key ∈ names)
    (hrecord : j.record? names = some fields)
    (hentry : Layout.entry? (.mk names holds) key j = some (step, value)) :
    fields.get? key = some value := by
  cases j with
  | object all =>
    obtain ⟨found, hfound, heq⟩ := Option.map_eq_some_iff.mp hentry
    cases heq
    rw [Json.record?_object] at hrecord
    split at hrecord
    · cases hrecord
      rw [Json.get?_known (List.contains_iff_mem.mpr hkey), hfound]
    · cases hrecord
  | array items =>
    obtain ⟨found, hfound, heq⟩ := Option.map_eq_some_iff.mp hentry
    cases heq
    rw [Json.record?] at hrecord
    split at hrecord
    · cases hrecord
      rw [KeyMap.get?_zip hkey, hfound]
    · cases hrecord
  | _ => cases hentry

private theorem Layout.entry?_of_tagged? {tags : List String} {buffered : Bool} {j content : Json}
    {tag : String} (hkey : key ≠ "type") (htagged : j.tagged? tags buffered = some (tag, content))
    (hentry : Layout.entry? (.mk ("type" :: names) holds) key j = some (step, value)) :
    ∃ inner, Layout.entry? (.mk names holds) key content = some (inner, value) := by
  cases j with
  | object all =>
    obtain ⟨found, hfound, heq⟩ := Option.map_eq_some_iff.mp hentry
    cases heq
    refine ⟨.field key, ?_⟩
    rw [Json.content_of_tagged?_object htagged, Layout.entry?, KeyMap.get?_filter (· != "type"),
      if_pos (by simpa using hkey), hfound]
    rfl
  | array items =>
    cases items with
    | nil => cases htagged
    | cons first rest =>
      obtain ⟨_, -, heq⟩ := Option.bind_eq_some_iff.mp htagged
      cases heq
      have hplace : ("type" :: names).idxOf key = names.idxOf key + 1 := by
        simp [hkey.symm]
      simp only [Layout.entry?, hplace, List.getElem?_cons_succ] at hentry ⊢
      obtain ⟨found, hfound, heq⟩ := Option.map_eq_some_iff.mp hentry
      cases heq
      exact ⟨_, by rw [hfound]; rfl⟩
  | _ => cases htagged

theorem Json.tagged?_buffered {tags : List String} {buffered : Bool} {j : Json}
    {tagged : String × Json} (h : j.tagged? tags buffered = some tagged) :
    j.tagged? tags true = some tagged := by
  refine Json.tagged?_mono (fun value rest tag _ htag => ?_) h
  cases buffered with
  | true => exact htag
  | false =>
    cases value with
    | string s => exact htag
    | number n => cases n <;> simp [Json.tag?] at htag
    | _ => cases htag

end Entry

/-! ## What is decoded -/

namespace Properties

theorem payloadFields_of_holding (type : NodeType) :
    ∀ key ∈ slotKeys type ++ listKeys type, key ∈ type.payloadFields ∧ key ≠ "type" := by
  cases type <;> decide

private theorem mem_children_of_slot {type : NodeType} {fields : KeyMap Json} {p : Properties Json}
    {key : String} {value : Json} (h : ofFields? type fields = some p) (hkey : key ∈ slotKeys type)
    (hget : fields.get? key = some value) (hnull : value ≠ .null) : value ∈ p.children := by
  have hslot : childSlot fields key = some value :=
    childSlot_of_get? hget fun c hc => by
      cases hc
      exact hnull
  cases type <;> simp only [slotKeys, List.mem_cons, List.not_mem_nil, or_false] at hkey <;>
    simp only [ofFields?, Option.bind_eq_bind, Option.bind_eq_some_iff, Option.some.injEq] at h
  case button =>
    subst hkey
    obtain ⟨_, -, _, -, rfl⟩ := h
    simp [children, hslot]
  case card =>
    subst hkey
    obtain ⟨_, -, _, -, rfl⟩ := h
    simp [children, hslot]
  case scaffold =>
    subst h
    rcases hkey with rfl | rfl | rfl <;> simp [children, hslot]
  case topAppBar =>
    obtain ⟨_, -, rfl⟩ := h
    rcases hkey with rfl | rfl <;> simp [children, hslot]
  case alertDialog =>
    obtain ⟨_, -, rfl⟩ := h
    rcases hkey with rfl | rfl | rfl | rfl <;> simp [children, hslot]

private theorem mem_children_of_list {type : NodeType} {fields : KeyMap Json} {p : Properties Json}
    {key : String} {value : Json} (h : ofFields? type fields = some p) (hkey : key ∈ listKeys type)
    (hget : fields.get? key = some value) : ∀ item ∈ value.items?.getD [], item ∈ p.children := by
  have hitems {items : List Json} (h : childItems? fields key = some items) :
      value.items?.getD [] = items := by
    rw [childItems?, hget] at h
    cases value <;> cases h
    rfl
  cases type <;> simp only [listKeys, List.mem_cons, List.not_mem_nil, or_false] at hkey <;>
    simp only [ofFields?, Option.bind_eq_bind, Option.bind_eq_some_iff, Option.some.injEq] at h <;>
    subst hkey
  case column =>
    obtain ⟨_, hread, _, -, _, -, rfl⟩ := h
    simp [children, hitems hread]
  case row =>
    obtain ⟨_, hread, _, -, _, -, rfl⟩ := h
    simp [children, hitems hread]
  case box =>
    obtain ⟨_, hread, _, -, rfl⟩ := h
    simp [children, hitems hread]
  case topAppBar =>
    obtain ⟨_, hread, rfl⟩ := h
    intro item hitem
    rw [hitems hread] at hitem
    simp [children, hitem]

end Properties

namespace Role

def Result : Role → Type
  | document => Document
  | node => Node
  | modifier => Modifier
  | operation => Operation
  | shape => Shape
  | payload => Properties Node
  | action => Action

/-- The reader of a role. A document is never buffered, and a shape always is. -/
def ofJson? : (role : Role) → Bool → Json → Option role.Result
  | document, _, j => Document.ofJson? j
  | node, buffered, j => Node.ofJson? buffered j
  | modifier, buffered, j => Modifier.ofJson? buffered j
  | operation, buffered, j => Operation.ofJson? buffered j
  | shape, _, j => Shape.ofJson? j
  | payload, buffered, j => Node.propertiesOfJson? buffered j
  | action, buffered, j => Action.ofJson? buffered j

/-- The value is decoded in the role. Payloads and children may also be absent as `null`. -/
def Decodes (role : Role) (j : Json) : Prop :=
  j = .null ∨ ∃ buffered, (role.ofJson? buffered j).isSome

theorem decodes_of_some (role : Role) (buffered : Bool) {j : Json} {result : role.Result}
    (h : role.ofJson? buffered j = some result) : role.Decodes j :=
  .inr ⟨buffered, Option.isSome_iff_exists.mpr ⟨result, h⟩⟩

theorem decodes_items (role : Role) {buffered : Bool} {j : Json} {results : List role.Result}
    (h : j.list? (role.ofJson? buffered) = some results) :
    ∀ part ∈ Part.ofItems role j, part.role.Decodes part.value := by
  cases j with
  | array items =>
    intro part hpart
    obtain ⟨⟨item, i⟩, hitem, rfl⟩ := List.mem_map.mp hpart
    have hsome := Properties.isSome_of_mapM h item (List.fst_mem_of_mem_zipIdx hitem)
    exact .inr ⟨buffered, hsome⟩
  | _ => cases h

theorem get?_of_tagged {tags names : List String} {holds : KeyMap Holding} {buffered : Bool}
    {j content value : Json} {tag key : String} {fields : KeyMap Json} {step : Step}
    (htagged : j.tagged? tags buffered = some (tag, content))
    (hrecord : content.record? names = some fields) (hkey : key ∈ names) (htype : key ≠ "type")
    (hentry : Layout.entry? (.mk ("type" :: names) holds) key j = some (step, value)) :
    fields.get? key = some value := by
  obtain ⟨inner, hinner⟩ := Layout.entry?_of_tagged? htype htagged hentry
  exact Layout.get?_of_entry? hkey hrecord hinner

end Role

/-- All parts in a value that stands under a key are decoded. -/
def Holding.Decodes (holding : Holding) (value : Json) : Prop :=
  ∀ part ∈ holding.parts value, part.role.Decodes part.value

theorem Holding.decodes_whole {role : Role} {value : Json} :
    (whole role).Decodes value ↔ role.Decodes value :=
  List.forall_mem_singleton

section Entries

-- One lemma for each reader: whatever its layout finds under a key, it has decoded.

variable {j value : Json} {key : String} {holding : Holding} {step : Step} {layout : Layout}
  {buffered : Bool}

private theorem Document.decodes_scripts {actions : SortedMap (List Action)}
    (h : actionsOfJson? j = some actions) : Holding.scripts.Decodes j := by
  cases j with
  | object fields =>
    rw [actionsOfJson?_object] at h
    obtain ⟨scripts, hscripts, -⟩ := Option.map_eq_some_iff.mp h
    intro part hpart
    obtain ⟨field, hfield, hpart⟩ := List.mem_flatMap.mp hpart
    obtain ⟨inner, hinner, rfl⟩ := List.mem_map.mp hpart
    have hread := Properties.isSome_of_mapM hscripts field hfield
    rw [Option.isSome_map] at hread
    obtain ⟨script, hscript⟩ := Option.isSome_iff_exists.mp hread
    exact Role.decodes_items .action hscript inner hinner
  | _ => cases h

theorem Document.decodes_entry {d : Document} (h : ofJson? j = some d)
    (hlayout : Role.document.layout? j = some layout) (hholding : (key, holding) ∈ layout.holds)
    (hentry : layout.entry? key j = some (step, value)) : holding.Decodes value := by
  cases hlayout
  obtain ⟨fields, hrecord, h⟩ := Option.bind_eq_some_iff.mp h
  obtain ⟨_, -, h⟩ := Option.bind_eq_some_iff.mp h
  obtain ⟨actions, hactions, h⟩ := Option.bind_eq_some_iff.mp h
  obtain ⟨root, hroot, -⟩ := Option.bind_eq_some_iff.mp h
  rcases List.mem_pair.mp hholding with heq | heq <;> cases heq
  · rw [KeyMap.defaulted, Layout.get?_of_entry? (by decide) hrecord hentry] at hactions
    exact decodes_scripts hactions
  · rw [KeyMap.required, Layout.get?_of_entry? (by decide) hrecord hentry] at hroot
    exact Holding.decodes_whole.mpr (Role.decodes_of_some .node false hroot)

theorem Node.decodes_entry {n : Node} (h : ofJson? buffered j = some n)
    (hlayout : Role.node.layout? j = some layout) (hholding : (key, holding) ∈ layout.holds)
    (hentry : layout.entry? key j = some (step, value)) : holding.Decodes value := by
  cases hlayout
  rw [ofJson?_eq] at h
  obtain ⟨fields, hrecord, h⟩ := Option.bind_eq_some_iff.mp h
  obtain ⟨_, -, h⟩ := Option.bind_eq_some_iff.mp h
  obtain ⟨modifier, hmodifier, h⟩ := Option.bind_eq_some_iff.mp h
  obtain ⟨properties, hproperties, -⟩ := Option.bind_eq_some_iff.mp h
  rcases List.mem_pair.mp hholding with heq | heq <;> cases heq
  · have hget := Layout.get?_of_entry? (by decide) hrecord hentry
    refine Holding.decodes_whole.mpr ?_
    by_cases hnull : value = .null
    · exact .inl hnull
    · rw [KeyMap.optional_of_get? hget hnull] at hproperties
      obtain ⟨p, hp, -⟩ := Option.map_eq_some_iff.mp hproperties
      exact Role.decodes_of_some .payload buffered hp
  · rw [KeyMap.defaulted, Layout.get?_of_entry? (by decide) hrecord hentry] at hmodifier
    exact Holding.decodes_whole.mpr (Role.decodes_of_some .modifier buffered hmodifier)

theorem Modifier.decodes_entry {m : Modifier} (h : ofJson? buffered j = some m)
    (hlayout : Role.modifier.layout? j = some layout) (hholding : (key, holding) ∈ layout.holds)
    (hentry : layout.entry? key j = some (step, value)) : holding.Decodes value := by
  cases hlayout
  obtain ⟨fields, hrecord, h⟩ := Option.bind_eq_some_iff.mp h
  obtain ⟨operations, hoperations, -⟩ := Option.bind_eq_some_iff.mp h
  cases List.mem_singleton.mp hholding
  rw [KeyMap.defaulted, Layout.get?_of_entry? (by decide) hrecord hentry] at hoperations
  exact Role.decodes_items .operation hoperations

theorem Operation.decodes_entry {o : Operation} (h : ofJson? buffered j = some o)
    (hlayout : Role.operation.layout? j = some layout) (hholding : (key, holding) ∈ layout.holds)
    (hentry : layout.entry? key j = some (step, value)) : holding.Decodes value := by
  obtain ⟨⟨tag, content⟩, htagged, hcontent⟩ := Option.bind_eq_some_iff.mp h
  simp only [Role.layout?, Json.tagged?_buffered htagged, Option.map_some,
    Option.some.injEq] at hlayout
  subst hlayout
  dsimp only at hholding
  split at hholding
  · rename_i htag
    cases List.mem_singleton.mp hholding
    refine Holding.decodes_whole.mpr ?_
    have hshape {fields : KeyMap Json} {shape : Shape}
        (hrecord : content.record? (fieldsOf tag) = some fields)
        (hread : fields.required "shape" Shape.ofJson? = some shape) :
        Role.shape.Decodes value := by
      have hkey : "shape" ∈ fieldsOf tag := by
        rcases htag with rfl | rfl <;> decide
      rw [KeyMap.required,
        Role.get?_of_tagged htagged hrecord hkey (by decide) hentry] at hread
      exact Role.decodes_of_some .shape true hread
    rcases htag with rfl | rfl
    · obtain ⟨fields, hrecord, hread⟩ := Option.bind_eq_some_iff.mp hcontent
      obtain ⟨shape, hread, -⟩ := Option.map_eq_some_iff.mp hread
      exact hshape hrecord hread
    · obtain ⟨fields, hrecord, hread⟩ := Option.bind_eq_some_iff.mp hcontent
      obtain ⟨_, -, hread⟩ := Option.bind_eq_some_iff.mp hread
      obtain ⟨shape, hread, -⟩ := Option.bind_eq_some_iff.mp hread
      exact hshape hrecord hread
  · cases hholding

theorem Action.decodes_entry {a : Action} (h : ofJson? buffered j = some a)
    (hlayout : Role.action.layout? j = some layout) (hholding : (key, holding) ∈ layout.holds)
    (hentry : layout.entry? key j = some (step, value)) : holding.Decodes value := by
  obtain ⟨⟨tag, content⟩, htagged, hcontent⟩ := Option.bind_eq_some_iff.mp h
  simp only [Role.layout?, Json.tagged?_buffered htagged, Option.map_some,
    Option.some.injEq] at hlayout
  subst hlayout
  replace hcontent : ofContent? tag content = some a := hcontent
  dsimp only at hholding
  split at hholding
  · rename_i hsequence
    subst hsequence
    cases List.mem_singleton.mp hholding
    rw [ofContent?_sequence] at hcontent
    obtain ⟨fields, hrecord, h⟩ := Option.bind_eq_some_iff.mp hcontent
    obtain ⟨actions, hactions, -⟩ := Option.map_eq_some_iff.mp h
    rw [KeyMap.required,
      Role.get?_of_tagged htagged hrecord (by decide) (by decide) hentry] at hactions
    exact Role.decodes_items .action hactions
  · cases hholding

theorem Properties.decodes_entry {p : Properties Node}
    (h : Node.propertiesOfJson? buffered j = some p)
    (hlayout : Role.payload.layout? j = some layout) (hholding : (key, holding) ∈ layout.holds)
    (hentry : layout.entry? key j = some (step, value)) : holding.Decodes value := by
  obtain ⟨⟨tag, content⟩, htagged, hpayload⟩ := Option.bind_eq_some_iff.mp h
  obtain ⟨read, hread, htraverse⟩ := Option.bind_eq_some_iff.mp hpayload
  obtain ⟨type, htype, hcontent⟩ := Option.bind_eq_some_iff.mp hread
  obtain ⟨fields, hrecord, hfields⟩ := Option.bind_eq_some_iff.mp hcontent
  simp only [Role.layout?, Json.tagged?_buffered htagged, htype, Option.bind_eq_bind,
    Option.bind_some, Option.some.injEq] at hlayout
  subst hlayout
  have hchildren := Properties.isSome_of_traverse htraverse
  rcases List.mem_append.mp hholding with hholding | hholding
  · obtain ⟨_, hslot, heq⟩ := List.mem_map.mp hholding
    cases heq
    refine Holding.decodes_whole.mpr ?_
    by_cases hnull : value = .null
    · exact .inl hnull
    · obtain ⟨hfield, hkey⟩ := payloadFields_of_holding type key (List.mem_append_left _ hslot)
      have hget := Role.get?_of_tagged htagged hrecord hfield hkey hentry
      exact .inr ⟨true, hchildren value (mem_children_of_slot hfields hslot hget hnull)⟩
  · obtain ⟨_, hlist, heq⟩ := List.mem_map.mp hholding
    cases heq
    obtain ⟨hfield, hkey⟩ := payloadFields_of_holding type key (List.mem_append_right _ hlist)
    have hget := Role.get?_of_tagged htagged hrecord hfield hkey hentry
    intro part hpart
    obtain ⟨⟨item, i⟩, hitem, rfl⟩ := List.mem_map.mp hpart
    exact .inr ⟨true, hchildren item
      (mem_children_of_list hfields hlist hget item (List.fst_mem_of_mem_zipIdx hitem))⟩

end Entries

namespace Role

theorem decodes_entry {role : Role} {j value : Json} {key : String} {holding : Holding}
    {step : Step} {layout : Layout} (h : role.Decodes j) (hlayout : role.layout? j = some layout)
    (hholding : (key, holding) ∈ layout.holds)
    (hentry : layout.entry? key j = some (step, value)) : holding.Decodes value := by
  rcases h with rfl | ⟨buffered, h⟩
  · cases hentry
  · obtain ⟨result, hresult⟩ := Option.isSome_iff_exists.mp h
    cases role with
    | document => exact Document.decodes_entry hresult hlayout hholding hentry
    | node => exact Node.decodes_entry hresult hlayout hholding hentry
    | modifier => exact Modifier.decodes_entry hresult hlayout hholding hentry
    | operation => exact Operation.decodes_entry hresult hlayout hholding hentry
    | shape =>
      obtain ⟨tagged, -, rfl⟩ := Option.map_eq_some_iff.mp hlayout
      cases hholding
    | payload => exact Properties.decodes_entry hresult hlayout hholding hentry
    | action => exact Action.decodes_entry hresult hlayout hholding hentry

private theorem decodes_of_mem_readParts {role : Role} {j : Json} {part : Part} (h : role.Decodes j)
    (hpart : part ∈ role.readParts j) : part.role.Decodes part.value := by
  obtain ⟨layout, key, holding, step, value, inner, hlayout, hholding, hentry, hinner, rfl⟩ :=
    mem_readParts hpart
  exact decodes_entry h hlayout hholding hentry inner hinner

theorem Reads.decodes {role inner : Role} {j value : Json} {address : Address}
    (hreads : role.Reads j address inner value) (h : role.Decodes j) : inner.Decodes value := by
  induction hreads with
  | here => exact h
  | part hpart _ ih => exact ih (decodes_of_mem_readParts h hpart)

end Role

/-! ## What is ignored -/

def Json.erase (key : String) : Json → Json
  | object fields => object (fields.filter fun field => field.1 != key)
  | j => j

section Erase

variable {key : String} {names : List String} {j : Json}

theorem Json.record?_erase (hkey : key ∉ names) :
    (j.erase key).record? names = j.record? names := by
  cases j with
  | object fields =>
    have hknown : known names (fields.filter fun field => field.1 != key)
        = known names fields := by
      rw [known, known, List.filter_filter]
      refine List.filter_congr fun field _ => ?_
      by_cases hfield : field.1 = key
      · simp [hfield, hkey]
      · simp [hfield]
    rw [erase, record?_object, record?_object, hknown]
  | _ => rfl

theorem Json.tagged?_erase {tags : List String} {buffered : Bool} {content : Json} {tag : String}
    (hkey : key ≠ "type") (h : j.tagged? tags buffered = some (tag, content)) :
    (j.erase key).tagged? tags buffered = some (tag, content.erase key) := by
  cases j with
  | object fields =>
    have htype : ((fields.filter fun field => field.1 != key).filter fun field =>
        field.1 == "type") = fields.filter fun field => field.1 == "type" := by
      rw [List.filter_filter]
      refine List.filter_congr fun field _ => ?_
      by_cases hfield : field.1 = "type"
      · simp [hfield, hkey.symm]
      · simp [hfield]
    have hrest : ((fields.filter fun field => field.1 != key).filter fun field =>
        field.1 != "type") = (fields.filter fun field => field.1 != "type").filter fun field =>
          field.1 != key := List.filter_comm ..
    unfold tagged? at h ⊢
    dsimp only [erase] at h ⊢
    rw [htype, hrest]
    split at h
    · obtain ⟨found, hfound, heq⟩ := Option.bind_eq_some_iff.mp h
      cases heq
      rw [hfound]
      rfl
    · cases h
  | array items =>
    cases items with
    | nil => cases h
    | cons first rest =>
      obtain ⟨found, hfound, heq⟩ := Option.bind_eq_some_iff.mp h
      cases heq
      exact h
  | _ => cases h

theorem Shape.bare_erase {α : Type} (j : Json) (a : α) : bare (j.erase key) a = bare j a := by
  cases j <;> rfl

theorem Shape.ofContent?_erase {tag : String} (hkey : key ∉ fieldsOf tag) :
    ofContent? tag (j.erase key) = ofContent? tag j := by
  unfold ofContent?
  split
  · exact bare_erase j _
  · exact bare_erase j _
  · rw [CornerRadii.ofContent?, CornerRadii.ofContent?, Json.record?_erase hkey]
  · rfl

theorem Operation.ofContent?_erase {tag : String} (hkey : key ∉ fieldsOf tag) :
    ofContent? tag (j.erase key) = ofContent? tag j := by
  unfold ofContent?
  split
  · exact Shape.bare_erase j _
  · exact Shape.bare_erase j _
  · exact Shape.bare_erase j _
  · rw [Json.record?_erase hkey]

theorem Action.ofContent?_erase {tag : String} (hkey : key ∉ fieldsOf tag) :
    ofContent? tag (j.erase key) = ofContent? tag j := by
  by_cases hsequence : tag = "Sequence"
  · subst hsequence
    rw [ofContent?_sequence, ofContent?_sequence, Json.record?_erase hkey]
  · rw [ofContent?_of_ne hsequence, ofContent?_of_ne hsequence, Json.record?_erase hkey]

theorem Properties.ofContent?_erase {tag : String} {type : NodeType}
    (htype : NodeType.ofPayloadTag? tag = some type) (hkey : key ∉ type.payloadFields) :
    ofContent? tag (j.erase key) = ofContent? tag j := by
  simp only [ofContent?, htype, Option.bind_eq_bind, Option.bind_some, Json.record?_erase hkey]

/-- Decoding a value in a role takes no notice of a key that the role ignores in it. -/
theorem Role.ofJson?_erase {role : Role} {buffered : Bool} {result : role.Result}
    (h : role.ofJson? buffered j = some result) (hkey : key ∈ role.ignored j) :
    role.ofJson? buffered (j.erase key) = some result := by
  obtain ⟨layout, hlayout, -, hnames⟩ := mem_ignored hkey
  cases role with
  | document =>
    cases hlayout
    change Document.ofJson? (j.erase key) = _
    rw [Document.ofJson?, Json.record?_erase hnames]
    exact h
  | node =>
    cases hlayout
    change Node.ofJson? buffered (j.erase key) = _
    rw [Node.ofJson?_eq, Json.record?_erase hnames, ← Node.ofJson?_eq]
    exact h
  | modifier =>
    cases hlayout
    change Modifier.ofJson? buffered (j.erase key) = _
    rw [Modifier.ofJson?, Json.record?_erase hnames]
    exact h
  | operation =>
    obtain ⟨⟨tag, content⟩, htagged, hcontent⟩ := Option.bind_eq_some_iff.mp h
    simp only [layout?, Json.tagged?_buffered htagged, Option.map_some,
      Option.some.injEq] at hlayout
    subst hlayout
    obtain ⟨htype, hfields⟩ := not_or.mp (List.mem_cons.not.mp hnames)
    exact Option.bind_eq_some_iff.mpr ⟨_, Json.tagged?_erase htype htagged,
      (Operation.ofContent?_erase hfields).trans hcontent⟩
  | shape =>
    obtain ⟨⟨tag, content⟩, htagged, hcontent⟩ := Option.bind_eq_some_iff.mp h
    simp only [layout?, htagged, Option.map_some, Option.some.injEq] at hlayout
    subst hlayout
    obtain ⟨htype, hfields⟩ := not_or.mp (List.mem_cons.not.mp hnames)
    exact Option.bind_eq_some_iff.mpr ⟨_, Json.tagged?_erase htype htagged,
      (Shape.ofContent?_erase hfields).trans hcontent⟩
  | payload =>
    obtain ⟨⟨tag, content⟩, htagged, hpayload⟩ := Option.bind_eq_some_iff.mp h
    obtain ⟨read, hread, htraverse⟩ := Option.bind_eq_some_iff.mp hpayload
    obtain ⟨type, hpayloadTag, hcontent⟩ := Option.bind_eq_some_iff.mp hread
    simp only [layout?, Json.tagged?_buffered htagged, hpayloadTag, Option.bind_eq_bind,
      Option.bind_some, Option.some.injEq] at hlayout
    subst hlayout
    obtain ⟨htype, hfields⟩ := not_or.mp (List.mem_cons.not.mp hnames)
    exact Option.bind_eq_some_iff.mpr ⟨_, Json.tagged?_erase htype htagged,
      Option.bind_eq_some_iff.mpr
        ⟨read, (Properties.ofContent?_erase hpayloadTag hfields).trans hread, htraverse⟩⟩
  | action =>
    obtain ⟨⟨tag, content⟩, htagged, hcontent⟩ := Option.bind_eq_some_iff.mp h
    simp only [layout?, Json.tagged?_buffered htagged, Option.map_some,
      Option.some.injEq] at hlayout
    subst hlayout
    obtain ⟨htype, hfields⟩ := not_or.mp (List.mem_cons.not.mp hnames)
    exact Option.bind_eq_some_iff.mpr ⟨_, Json.tagged?_erase htype htagged,
      (Action.ofContent?_erase hfields).trans hcontent⟩

/-- Where a key of a payload is ignored, the value that has it is decoded, and decoded to the same
without the key. -/
theorem Json.Ignores.decoded {p : Payload} {address : Address} (hp : Payload.ofJson? j = some p)
    (h : j.Ignores address key) : ∃ role value, j.role.Reads j address role value
      ∧ key ∈ KeyMap.keys (value.fields?.getD []) ∧ ∃ buffered result,
        role.ofJson? buffered value = some result
          ∧ role.ofJson? buffered (value.erase key) = some result := by
  obtain ⟨role, value, hreads, hkey⟩ := h
  have hroot : j.role.Decodes j := by
    unfold Payload.ofJson? at hp
    rw [Json.role]
    split at hp
    · rename_i hdocument
      obtain ⟨d, hd, -⟩ := Option.map_eq_some_iff.mp hp
      rw [if_pos hdocument]
      exact Role.decodes_of_some .document false hd
    · rename_i hdocument
      obtain ⟨n, hn, -⟩ := Option.map_eq_some_iff.mp hp
      rw [if_neg hdocument]
      exact Role.decodes_of_some .node false hn
  obtain ⟨-, -, hmem, -⟩ := Role.mem_ignored hkey
  rcases hreads.decodes hroot with rfl | ⟨buffered, hsome⟩
  · cases hmem
  · obtain ⟨result, hresult⟩ := Option.isSome_iff_exists.mp hsome
    exact ⟨role, value, hreads, hmem, buffered, result, hresult, Role.ofJson?_erase hresult hkey⟩

end Erase

end ScreenDoc
