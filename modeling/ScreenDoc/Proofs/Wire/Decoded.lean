import ScreenDoc.Proofs.Json.Fits
import ScreenDoc.Proofs.Wire.Encoding

/-!
# Room for what was decoded

What is decoded from a value that fits has finite doubles, and its encoding needs at most one level
more than there was room: a list of children and the parameters of an action are written even if
they were absent. Everything else is written where it stood.
-/

namespace ScreenDoc

open Json

/-! ## Modifiers -/

namespace Json

variable {room : Nat}

theorem fits_string (s : String) : (string s).Fits room :=
  ⟨Nat.zero_le room, List.forall_mem_nil _⟩

private theorem fits_bool (b : Bool) : (bool b).Fits room :=
  ⟨Nat.zero_le room, List.forall_mem_nil _⟩

theorem fits_number {n : Number} (h : n.InRange) : (number n).Fits room :=
  ⟨Nat.zero_le room, List.forall_mem_singleton.mpr h⟩

theorem fits_ofInt32 (n : Int32) : (ofInt32 n).Fits room := by
  have hleast := n.le_toInt
  have hmost := n.toInt_lt
  exact fits_number ⟨by omega, by omega⟩

private theorem fits_ofUInt32 (n : UInt32) : (ofUInt32 n).Fits room := by
  have hmost := n.toNat_lt
  exact fits_number ⟨by omega, by omega⟩

private theorem fits_ofExtended (x : Binary64.Extended) : (ofExtended x).Fits room := by
  cases x with
  | finite x => exact fits_number trivial
  | _ => exact ⟨Nat.zero_le room, List.forall_mem_nil _⟩

theorem fits_object_nil : (object []).Fits (room + 1) :=
  fits_object.mpr (List.forall_mem_nil _)

theorem fits_tagged {tag : String} {fields : List (String × Json)} :
    (tagged tag fields).Fits (room + 1) ↔ ∀ field ∈ fields, field.2.Fits room := by
  rw [tagged, fits_object, List.forall_mem_cons]
  exact and_iff_right (fits_string tag)

theorem Fits.mono {j : Json} {more : Nat} (h : j.Fits room) (hle : room ≤ more) : j.Fits more :=
  ⟨h.depth.trans hle, h.inRange⟩

private theorem isFinite_of_extended? {j : Json} {x : Binary64.Extended} (h : j.extended? = some x)
    : x.isFinite := by
  cases j with
  | number n =>
    obtain ⟨value, -, rfl⟩ := Option.map_eq_some_iff.mp h
    rfl
  | _ => cases h

end Json

theorem Shape.fits_toJson (s : Shape) : s.toJson.Fits 1 := by
  cases s with
  | rectangle => exact fits_tagged.mpr (List.forall_mem_nil _)
  | circle => exact fits_tagged.mpr (List.forall_mem_nil _)
  | roundedCorner radii =>
    have hfield (k : String) (r : Option Int32) :
        ∀ field ∈ optionalField k ofInt32 r, field.2.Fits 0 :=
      KeyMap.forall_mem_optionalField.mpr fun n _ => fits_ofInt32 n
    refine fits_tagged.mpr ?_
    simp only [CornerRadii.fields, List.forall_mem_append]
    exact ⟨⟨⟨⟨hfield _ _, hfield _ _⟩, hfield _ _⟩, hfield _ _⟩, hfield _ _⟩

theorem Json.Fits.pos_of_tagged? {room : Nat} {j : Json} {tags : List String} {buffered : Bool}
    {tagged : String × Json} (h : j.Fits room) (htagged : j.tagged? tags buffered = some tagged) :
    0 < room := by
  cases j with
  | object fields =>
    obtain ⟨inner, rfl, -⟩ := h.fields
    exact Nat.succ_pos inner
  | array items =>
    obtain ⟨inner, rfl, -⟩ := h.items
    exact Nat.succ_pos inner
  | _ => cases htagged

namespace Operation

theorem fits_fields {room : Nat} {tag : String} {fields : KeyMap Json} {o : Operation}
    (hfields : ∀ field ∈ fields, field.2.Fits room) (h : ofFields? tag fields = some o) :
    ∀ field ∈ o.fields, field.2.Fits room := by
  have hshape {s : Shape} (h : fields.required "shape" Shape.ofJson? = some s) :
      s.toJson.Fits room := by
    obtain ⟨value, hvalue, hread⟩ := KeyMap.exists_of_required h
    obtain ⟨tagged, htagged, -⟩ := Option.bind_eq_some_iff.mp hread
    exact s.fits_toJson.mono ((hfields _ hvalue).pos_of_tagged? htagged)
  unfold ofFields? at h
  split at h
  case h_5 =>
    obtain ⟨thickness, -, h⟩ := Option.bind_eq_some_iff.mp h
    obtain ⟨color, -, h⟩ := Option.bind_eq_some_iff.mp h
    cases h
    simp [Operation.fields, fits_ofInt32, fits_string]
  case h_8 =>
    obtain ⟨color, -, h⟩ := Option.bind_eq_some_iff.mp h
    obtain ⟨shape, hread, h⟩ := Option.bind_eq_some_iff.mp h
    cases h
    simp [Operation.fields, fits_string, hshape hread]
  case h_7 =>
    obtain ⟨shape, hread, rfl⟩ := Option.map_eq_some_iff.mp h
    simp [Operation.fields, hshape hread]
  case h_11 => cases h
  all_goals
    obtain ⟨value, -, rfl⟩ := Option.map_eq_some_iff.mp h
    simp [Operation.fields, fits_ofInt32, fits_string, fits_ofExtended]

private theorem isFinite_of_ofFields? {tag : String} {fields : KeyMap Json} {o : Operation}
    (h : ofFields? tag fields = some o) : o.isFinite := by
  have hfinite {key : String} {x : Binary64.Extended}
      (h : fields.required key extended? = some x) : x.isFinite := by
    obtain ⟨value, -, hread⟩ := KeyMap.exists_of_required h
    exact isFinite_of_extended? hread
  unfold ofFields? at h
  split at h
  case h_9 | h_10 =>
    obtain ⟨value, hread, rfl⟩ := Option.map_eq_some_iff.mp h
    exact hfinite hread
  case h_11 => cases h
  case h_5 | h_8 =>
    obtain ⟨_, -, h⟩ := Option.bind_eq_some_iff.mp h
    obtain ⟨_, -, h⟩ := Option.bind_eq_some_iff.mp h
    cases h
    rfl
  all_goals
    obtain ⟨value, -, rfl⟩ := Option.map_eq_some_iff.mp h
    rfl

theorem bare_or_ofFields? {tag : String} {content : Json} {o : Operation}
    (h : ofContent? tag content = some o) :
    o ∈ [fillMaxSize, fillMaxWidth, fillMaxHeight] ∨
      ∃ fields, content.record? (fieldsOf tag) = some fields ∧ ofFields? tag fields = some o := by
  have hbare {made : Operation} (h : Shape.bare content made = some o) : made = o := by
    unfold Shape.bare at h
    split at h
    · exact Option.some.inj h
    · cases h
  unfold ofContent? at h
  split at h
  · exact .inl (by simp [← hbare h])
  · exact .inl (by simp [← hbare h])
  · exact .inl (by simp [← hbare h])
  · exact .inr (Option.bind_eq_some_iff.mp h)

theorem isFinite_of_ofJson? {buffered : Bool} {j : Json} {o : Operation}
    (h : ofJson? buffered j = some o) : o.isFinite := by
  obtain ⟨⟨tag, content⟩, -, hcontent⟩ := Option.bind_eq_some_iff.mp h
  obtain hbare | ⟨fields, -, hread⟩ := bare_or_ofFields? hcontent
  · simp only [List.mem_cons, List.not_mem_nil, or_false] at hbare
    obtain rfl | rfl | rfl := hbare <;> rfl
  · exact isFinite_of_ofFields? hread

theorem fits_toJson {room : Nat} {buffered : Bool} {j : Json} {o : Operation} (hj : j.Fits room)
    (h : ofJson? buffered j = some o) : o.toJson.Fits room := by
  obtain ⟨⟨tag, content⟩, htagged, hcontent⟩ := Option.bind_eq_some_iff.mp h
  obtain ⟨inner, rfl⟩ : ∃ inner, room = inner + 1 :=
    ⟨room - 1, (Nat.succ_pred_eq_of_pos (hj.pos_of_tagged? htagged)).symm⟩
  refine fits_tagged.mpr ?_
  obtain hbare | ⟨fields, hrecord, hread⟩ := bare_or_ofFields? hcontent
  · simp only [List.mem_cons, List.not_mem_nil, or_false] at hbare
    obtain rfl | rfl | rfl := hbare <;> exact List.forall_mem_nil _
  · obtain ⟨_, heq, hfields⟩ := (hj.tagged? htagged).record? hrecord
    cases heq
    exact fits_fields hfields hread

end Operation

theorem Modifier.isFinite_of_ofJson? {buffered : Bool} {j : Json} {m : Modifier}
    (h : ofJson? buffered j = some m) : ∀ o ∈ m.operations, o.isFinite := by
  obtain ⟨fields, -, h⟩ := Option.bind_eq_some_iff.mp h
  obtain ⟨operations, hoperations, heq⟩ := Option.bind_eq_some_iff.mp h
  cases heq
  rcases KeyMap.exists_of_defaulted hoperations with rfl | ⟨value, -, hread⟩
  · exact List.forall_mem_nil _
  · intro o ho
    cases value with
    | array items =>
      obtain ⟨item, -, hitem⟩ := exists_of_mem_mapM hread ho
      exact Operation.isFinite_of_ofJson? hitem
    | _ => cases hread

theorem Modifier.fits_toJson {room : Nat} {buffered : Bool} {j : Json} {m : Modifier}
    (hj : j.Fits room) (h : ofJson? buffered j = some m) (hm : m.isEmpty = false) :
    m.toJson.Fits room := by
  obtain ⟨fields, hrecord, h⟩ := Option.bind_eq_some_iff.mp h
  obtain ⟨operations, hoperations, heq⟩ := Option.bind_eq_some_iff.mp h
  cases heq
  obtain ⟨inner, rfl, hfields⟩ := hj.record? hrecord
  rcases KeyMap.exists_of_defaulted hoperations with rfl | ⟨value, hvalue, hread⟩
  · cases hm
  · obtain ⟨room, rfl, hitems⟩ := (hfields _ hvalue).list? hread
    refine fits_object.mpr (List.forall_mem_singleton.mpr (fits_array.mpr fun item hitem => ?_))
    obtain ⟨o, ho, rfl⟩ := List.mem_map.mp hitem
    obtain ⟨item, hfits, -, hitem⟩ := hitems o ho
    exact Operation.fits_toJson hfits hitem

/-! ## Nodes -/

namespace Properties

theorem fits_of_placedChildren {room : Nat} {type : NodeType} {fields : KeyMap Json}
    {p : Properties Json} (hfields : ∀ field ∈ fields, field.2.Fits room)
    (h : ofFields? type fields = some p) :
    ∀ placed ∈ p.placedChildren, placed.2.Fits room
      ∧ (placed.1.index ≠ none → ∃ inner, room = inner + 1 ∧ placed.2.Fits inner) := by
  refine forall_placed_of_ofFields? (fun key _ c hc => ?_) (fun key _ items hi c hc i => ?_) h
  · have hget := mem_childSlot (Option.mem_toList.mpr hc)
    exact ⟨hfields _ (KeyMap.mem_of_get? hget), fun hplace => absurd rfl hplace⟩
  · have hget := mem_childItems? hi hc
    obtain ⟨inner, rfl, hitems⟩ := (hfields _ (KeyMap.mem_of_get? hget)).items
    have hc := hitems c hc
    exact ⟨hc.mono (Nat.le_succ inner), fun _ => ⟨inner, rfl, hc⟩⟩

private theorem fits_of_children {room : Nat} {type : NodeType} {fields : KeyMap Json}
    {p : Properties Json} (hfields : ∀ field ∈ fields, field.2.Fits room)
    (h : ofFields? type fields = some p) : ∀ c ∈ p.children, c.Fits room := by
  rw [← map_snd_placedChildren, List.forall_mem_map]
  exact fun placed hplaced => (fits_of_placedChildren hfields h placed hplaced).1

private theorem fits_data {room : Nat} {type : NodeType} {fields : KeyMap Json} {q : CustomProps}
    (hfields : ∀ field ∈ fields, field.2.Fits room)
    (h : ofFields? type fields = some (custom q)) : (object q.data.fields).Fits (room + 1) := by
  have hdata (h : fields.defaulted "data" ∅ map? = some q.data) :
      (object q.data.fields).Fits (room + 1) := by
    rcases KeyMap.exists_of_defaulted h with hempty | ⟨value, hvalue, hread⟩
    · rw [hempty]
      exact fits_object_nil
    · exact ((hfields _ hvalue).map? hread).mono (Nat.le_succ room)
  cases type <;>
    simp only [ofFields?, Option.bind_eq_bind, Option.bind_eq_some_iff, Option.some.injEq,
      Option.map_eq_some_iff, reduceCtorEq, and_false, exists_false] at h
  obtain ⟨_, -, data, hread, heq⟩ := h
  cases heq
  exact hdata hread

/-- The fields of a payload that was read need at most one level more than they had, if its
children do. -/
theorem fits_fields {room : Nat} {type : NodeType} {fields : KeyMap Json} {p : Properties Json}
    {f : Json → Json} (hfields : ∀ field ∈ fields, field.2.Fits room)
    (h : ofFields? type fields = some p)
    (hf : ∀ c ∈ p.children, ∀ inner, c.Fits inner → (f c).Fits (inner + 1)) :
    ∀ field ∈ (p.map f).fields, field.2.Fits (room + 1) := by
  have hplaced {place : ChildPlace} {c : Json} (hc : (place, c) ∈ (p.map f).placedChildren) :
      ∃ source ∈ p.children, c = f source ∧ source.Fits room
        ∧ (place.index ≠ none → ∃ inner, room = inner + 1 ∧ source.Fits inner) := by
    rw [placedChildren_map] at hc
    obtain ⟨⟨place, source⟩, hsource, heq⟩ := List.mem_map.mp hc
    cases heq
    refine ⟨source, ?_, rfl, fits_of_placedChildren hfields h _ hsource⟩
    rw [← map_snd_placedChildren]
    exact List.mem_map_of_mem hsource
  intro field hfield
  cases (p.map f).writes_of_mem field hfield with
  | string key s => exact fits_string s
  | bool key b => exact fits_bool b
  | int32 key n => exact fits_ofInt32 n
  | uint32 key n => exact fits_ofUInt32 n
  | slot hc =>
    obtain ⟨source, hmem, rfl, hfits, -⟩ := hplaced hc
    exact hf source hmem room hfits
  | list hitems =>
    rename_i key items
    -- The list may be empty and new; its brackets alone take the level that is added.
    refine fits_array.mpr fun item hitem => ?_
    obtain ⟨i, hi⟩ := List.mem_iff_getElem?.mp hitem
    have hlisted : (⟨key, some i⟩, item) ∈ listed key items :=
      List.mem_map.mpr ⟨(item, i), List.mem_zipIdx_iff_getElem?.mpr hi, rfl⟩
    obtain ⟨source, hmem, rfl, -, hinner⟩ := hplaced (hitems _ hlisted)
    obtain ⟨inner, rfl, hfits⟩ := hinner (Option.some_ne_none i)
    exact hf source hmem inner hfits
  | data hq =>
    rename_i q
    obtain rfl : p = custom q := by
      cases p <;> cases hq
      rfl
    exact fits_data hfields h

end Properties

namespace Node

def DecodesWithin (room : Nat) (n : Node) : Prop :=
  n.Finite ∧ n.toJson.Fits (room + 1)

private theorem payload_decodesWithin {room : Nat} {buffered : Bool} {j : Json}
    {p : Properties Node} (hj : j.Fits room) (h : propertiesOfJson? buffered j = some p)
    (ih : ∀ c n room, c.size < j.size → c.Fits room → ofJson? true c = some n →
      n.DecodesWithin room) :
    (∀ c ∈ p.children, c.Finite) ∧ (p.map toJson).toJson.Fits (room + 1) := by
  obtain ⟨⟨tag, content⟩, htagged, hpayload⟩ := Option.bind_eq_some_iff.mp h
  obtain ⟨read, hread, htraverse⟩ := Option.bind_eq_some_iff.mp hpayload
  have hsmall {c : Json} (hc : c ∈ read.children) : c.size < j.size :=
    (Properties.size_child_lt hread hc).trans_le (size_le_of_tagged? htagged)
  obtain ⟨type, -, hcontent⟩ := Option.bind_eq_some_iff.mp hread
  obtain ⟨fields, hrecord, hfields⟩ := Option.bind_eq_some_iff.mp hcontent
  obtain ⟨inner, rfl, hfits⟩ := (hj.tagged? htagged).record? hrecord
  obtain ⟨make, hmake, rfl⟩ := Properties.exists_map_of_traverse htraverse
  refine ⟨fun c hc => ?_, ?_⟩
  · rw [Properties.children_map] at hc
    obtain ⟨source, hsource, rfl⟩ := List.mem_map.mp hc
    have hroom := Properties.fits_of_children hfits hfields source hsource
    exact (ih source _ inner (hsmall hsource) hroom (hmake source hsource)).1
  · rw [Properties.map_map]
    refine fits_tagged.mpr (Properties.fits_fields hfits hfields fun c hc room hroom => ?_)
    exact (ih c _ room (hsmall hc) hroom (hmake c hc)).2

theorem decodesWithin {room : Nat} {buffered : Bool} {j : Json} {n : Node} (hj : j.Fits room)
    (h : ofJson? buffered j = some n) : n.DecodesWithin room := by
  -- Induction on the size: children are smaller than their parents, and have less room.
  induction hsize : j.size using Nat.strong_induction_on generalizing room buffered j n with
  | h size ih =>
    rw [ofJson?_eq] at h
    obtain ⟨fields, hrecord, h⟩ := Option.bind_eq_some_iff.mp h
    obtain ⟨type, -, h⟩ := Option.bind_eq_some_iff.mp h
    obtain ⟨modifier, hmodifier, h⟩ := Option.bind_eq_some_iff.mp h
    obtain ⟨properties, hproperties, heq⟩ := Option.bind_eq_some_iff.mp h
    cases heq
    obtain ⟨inner, rfl, hfits⟩ := hj.record? hrecord
    have hoperations : (∀ o ∈ modifier.operations, o.isFinite) ∧
        (modifier.isEmpty = false → modifier.toJson.Fits inner) := by
      rcases KeyMap.exists_of_defaulted hmodifier with rfl | ⟨value, hvalue, hread⟩
      · exact ⟨List.forall_mem_nil _, fun hempty => nomatch hempty⟩
      · exact ⟨Modifier.isFinite_of_ofJson? hread, Modifier.fits_toJson (hfits _ hvalue) hread⟩
    have hpayload : ∀ p, properties = some p →
        (∀ c ∈ p.children, c.Finite) ∧ (p.map toJson).toJson.Fits (inner + 1) := by
      rintro p rfl
      rw [KeyMap.optional_eq_defaulted] at hproperties
      rcases KeyMap.exists_of_defaulted hproperties with hnone | ⟨value, hvalue, hread⟩
      · cases hnone
      · have hread : propertiesOfJson? buffered value = some p := by
          cases value with
          | null => cases hread
          | _ => simpa only [nullable?, Option.map_id', Option.map_eq_some_iff,
              Option.some.injEq, exists_eq_right] using hread
        have hlt := size_lt_of_record? hrecord hvalue
        exact payload_decodesWithin (hfits _ hvalue) hread fun c n room hc hroom hn =>
          ih c.size (hsize ▸ hc.trans hlt) hroom hn rfl
    refine ⟨.node hoperations.1 fun c hc => ?_, ?_⟩
    · cases properties with
      | none => cases hc
      | some p => exact (hpayload p rfl).1 c hc
    · rw [toJson_eq_object]
      refine fits_object.mpr ?_
      simp only [Node.fields, List.cons_append, List.forall_mem_cons, List.forall_mem_append]
      refine ⟨fits_string _, KeyMap.forall_mem_optionalField.mpr fun p hp => (hpayload p hp).2, ?_⟩
      split
      · exact List.forall_mem_nil _
      · rename_i hempty
        exact List.forall_mem_singleton.mpr
          ((hoperations.2 (by simpa using hempty)).mono (Nat.le_succ inner))

end Node

/-! ## Scripts and documents -/

namespace Action

private theorem fits_of_ofFields? {room : Nat} {tag : String} {fields : KeyMap Json} {a : Action}
    (hfields : ∀ field ∈ fields, field.2.Fits room) (h : ofFields? tag fields = some a) :
    a.toJson.Fits (room + 2) := by
  unfold ofFields? at h
  split at h
  · obtain ⟨key, -, h⟩ := Option.bind_eq_some_iff.mp h
    obtain ⟨value, hvalue, h⟩ := Option.bind_eq_some_iff.mp h
    cases h
    obtain ⟨source, hsource, heq⟩ := KeyMap.exists_of_required hvalue
    cases heq
    have hfits : (Json.Value.ofJson source).json.Fits (room + 1) :=
      (hfields _ hsource).canonical.mono (Nat.le_succ room)
    rw [toJson, fits_tagged]
    simpa [fits_string] using hfits
  · obtain ⟨key, -, rfl⟩ := Option.map_eq_some_iff.mp h
    rw [toJson, fits_tagged]
    simp [fits_string]
  · obtain ⟨message, -, rfl⟩ := Option.map_eq_some_iff.mp h
    rw [toJson, fits_tagged]
    simp [fits_string]
  · obtain ⟨customType, -, h⟩ := Option.bind_eq_some_iff.mp h
    obtain ⟨params, hparams, h⟩ := Option.bind_eq_some_iff.mp h
    cases h
    -- Parameters that were absent are written as an empty object.
    have hparams : (object params.fields).Fits (room + 1) := by
      rcases KeyMap.exists_of_defaulted hparams with rfl | ⟨value, hvalue, hread⟩
      · exact fits_object_nil
      · exact ((hfields _ hvalue).map? hread).mono (Nat.le_succ room)
    rw [toJson, fits_tagged]
    simpa [fits_string] using hparams
  · cases h

theorem fits_toJson {room : Nat} {buffered : Bool} {j : Json} {a : Action} (hj : j.Fits room)
    (h : ofJson? buffered j = some a) : a.toJson.Fits (room + 1) := by
  -- Induction on the size: the actions of a sequence are smaller than what it stands in.
  induction hsize : j.size using Nat.strong_induction_on generalizing room buffered j a with
  | h size ih =>
    obtain ⟨⟨tag, content⟩, htagged, hcontent⟩ := Option.bind_eq_some_iff.mp h
    replace hcontent : ofContent? tag content = some a := hcontent
    have hfits := hj.tagged? htagged
    by_cases hsequence : tag = "Sequence"
    · subst hsequence
      rw [ofContent?_sequence] at hcontent
      obtain ⟨fields, hrecord, h⟩ := Option.bind_eq_some_iff.mp hcontent
      obtain ⟨actions, hactions, rfl⟩ := Option.map_eq_some_iff.mp h
      obtain ⟨inner, rfl, hfields⟩ := hfits.record? hrecord
      obtain ⟨value, hvalue, hread⟩ := KeyMap.exists_of_required hactions
      have hlt : value.size < size := hsize ▸
        (size_lt_of_record? hrecord hvalue).trans_le (size_le_of_tagged? htagged)
      obtain ⟨room, rfl, hitems⟩ := (hfields _ hvalue).list? hread
      rw [toJson, fits_tagged, List.forall_mem_singleton, toJsonList_eq]
      refine fits_array.mpr fun item hitem => ?_
      obtain ⟨a, ha, rfl⟩ := List.mem_map.mp hitem
      obtain ⟨source, hroom, hsmall, hsource⟩ := hitems a ha
      exact ih source.size (hsmall.trans hlt) hroom hsource rfl
    · rw [ofContent?_of_ne hsequence] at hcontent
      obtain ⟨fields, hrecord, hread⟩ := Option.bind_eq_some_iff.mp hcontent
      obtain ⟨inner, rfl, hfields⟩ := hfits.record? hrecord
      exact fits_of_ofFields? hfields hread

end Action

namespace Document

def DecodesWithin (room : Nat) (d : Document) : Prop :=
  d.root.Finite ∧ d.toJson.Fits (room + 1)

private theorem fits_actionsOfJson? {room : Nat} {j : Json} {actions : SortedMap (List Action)}
    (hj : j.Fits room) (h : actionsOfJson? j = some actions) :
    ∃ inner, room = inner + 1 ∧ ∀ script ∈ actions.entries,
      ∃ room, inner = room + 1 ∧ ∀ a ∈ script.2, a.toJson.Fits (room + 1) := by
  cases j with
  | object fields =>
    rw [actionsOfJson?_object] at h
    obtain ⟨scripts, hscripts, rfl⟩ := Option.map_eq_some_iff.mp h
    obtain ⟨inner, rfl, hfields⟩ := hj.fields
    refine ⟨inner, rfl, fun script hscript => ?_⟩
    obtain ⟨field, hfield, hread⟩ :=
      exists_of_mem_mapM hscripts (KeyMap.mem_of_mem_ofList hscript)
    obtain ⟨read, hlist, rfl⟩ := Option.map_eq_some_iff.mp hread
    obtain ⟨room, rfl, hitems⟩ := (hfields field hfield).list? hlist
    refine ⟨room, rfl, fun a ha => ?_⟩
    obtain ⟨item, hitem, -, ha⟩ := hitems a ha
    exact Action.fits_toJson hitem ha
  | _ => cases h

theorem decodesWithin {room : Nat} {j : Json} {d : Document} (hj : j.Fits room)
    (h : ofJson? j = some d) : d.DecodesWithin room := by
  obtain ⟨fields, hrecord, h⟩ := Option.bind_eq_some_iff.mp h
  obtain ⟨state, hstate, h⟩ := Option.bind_eq_some_iff.mp h
  obtain ⟨actions, hactions, h⟩ := Option.bind_eq_some_iff.mp h
  obtain ⟨root, hroot, heq⟩ := Option.bind_eq_some_iff.mp h
  cases heq
  obtain ⟨inner, rfl, hfits⟩ := hj.record? hrecord
  obtain ⟨source, hsource, hread⟩ := KeyMap.exists_of_required hroot
  have hroot := Node.decodesWithin (hfits _ hsource) hread
  -- A section is written only if it is not empty, and then it was there and had its room.
  refine ⟨hroot.1, fits_object.mpr ?_⟩
  simp only [List.forall_mem_append, List.forall_mem_singleton]
  refine ⟨⟨?_, ?_⟩, hroot.2⟩
  · rcases KeyMap.exists_of_defaulted hstate with rfl | ⟨value, hvalue, hread⟩
    · exact List.forall_mem_nil _
    · have hstate := ((hfits _ hvalue).map? hread).mono (Nat.le_succ inner)
      split
      · exact List.forall_mem_nil _
      · exact List.forall_mem_singleton.mpr hstate
  · rcases KeyMap.exists_of_defaulted hactions with rfl | ⟨value, hvalue, hread⟩
    · exact List.forall_mem_nil _
    · obtain ⟨middle, rfl, hscripts⟩ := fits_actionsOfJson? (hfits _ hvalue) hread
      split
      · exact List.forall_mem_nil _
      · refine List.forall_mem_singleton.mpr (fits_object.mpr (List.forall_mem_map.mpr ?_))
        intro script hscript
        obtain ⟨room, rfl, hread⟩ := hscripts script hscript
        rw [Action.toJsonList_eq]
        exact fits_array.mpr (List.forall_mem_map.mpr hread)

end Document

end ScreenDoc
