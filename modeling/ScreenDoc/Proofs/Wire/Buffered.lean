import ScreenDoc.Proofs.Wire.Reached

/-!
# Decoding alone and in place

A value inside a tagged object is buffered, and there a number may stand for a tag. So what decodes
alone decodes in every place, and the other way round where no number stands for a tag.
-/

namespace ScreenDoc

variable {b c : Bool}

/-! ## Tags -/

namespace Json

/-- A number stands for the tag. -/
def NumbersTag (j : Json) : Prop :=
  ∃ n rest, j.tagAndRest? = some (.number n, rest)

/-- A tag that is taken in the one reading is taken in the other. -/
def TagKept (b c : Bool) (j : Json) : Prop :=
  ∀ tags tagged, j.tagged? tags b = some tagged → j.tagged? tags c = some tagged

theorem tagKept_buffered (b : Bool) (j : Json) : j.TagKept b true :=
  fun _ _ => tagged?_buffered

private theorem name?_buffered {α : Type} {named? : String → Option α} {j : Json} {a : α}
    (h : j.name? named? b = some a) : j.name? named? true = some a := by
  unfold name? at h ⊢
  split at h
  · exact h
  · exact h
  · split at h
    · exact h
    · cases h
  · cases h

theorem tagKept_of_not_numbersTag {j : Json} (h : ¬j.NumbersTag) : j.TagKept b c := by
  refine fun tags _ => tagged?_mono fun value rest tag hparts htag => ?_
  cases value with
  | string s => exact htag
  | number n => exact absurd ⟨n, rest, hparts⟩ h
  | _ => cases htag

end Json

/-! ## Readers -/

namespace KeyMap

variable {α : Type} {fields : KeyMap Json} {key : String} {read : Json → Option α} {a : α}

private theorem required_mono (other : Json → Option α) (h : fields.required key read = some a)
    (hread : ∀ value, fields.get? key = some value → read value = some a → other value = some a) :
    fields.required key other = some a := by
  obtain ⟨value, hvalue, hsome⟩ := Option.bind_eq_some_iff.mp h
  rw [required, hvalue]
  exact hread value hvalue hsome

theorem defaulted_mono {absent : α} (other : Json → Option α)
    (h : fields.defaulted key absent read = some a)
    (hread : ∀ value, fields.get? key = some value → read value = some a → other value = some a) :
    fields.defaulted key absent other = some a := by
  unfold defaulted at h ⊢
  split at h
  · exact h
  · rename_i value hvalue
    exact hread value hvalue h

private theorem optional_mono {found : Option α} (other : Json → Option α)
    (h : fields.optional key read = some found)
    (hread : ∀ value a, fields.get? key = some value → read value = some a →
      other value = some a) : fields.optional key other = some found := by
  rw [optional_eq_defaulted] at h ⊢
  refine defaulted_mono _ h fun value hvalue hnullable => ?_
  cases value with
  | null => exact hnullable
  | _ =>
    obtain ⟨a, ha, rfl⟩ := Option.map_eq_some_iff.mp hnullable
    exact Option.map_eq_some_iff.mpr ⟨a, hread _ a hvalue ha, rfl⟩

end KeyMap

theorem Operation.ofJson?_of_tagKept {j : Json} {o : Operation} (hkept : j.TagKept b c)
    (h : ofJson? b j = some o) : ofJson? c j = some o := by
  obtain ⟨tagged, htagged, hcontent⟩ := Option.bind_eq_some_iff.mp h
  rw [ofJson?, hkept _ _ htagged]
  exact hcontent

theorem Modifier.ofJson?_of_tagKept {j : Json} {m : Modifier}
    (hkept : ∀ fields operations, j.record? fieldNames = some fields →
      fields.get? "operations" = some (.array operations) → ∀ o ∈ operations, o.TagKept b c)
    (h : ofJson? b j = some m) : ofJson? c j = some m := by
  obtain ⟨fields, hrecord, h⟩ := Option.bind_eq_some_iff.mp h
  obtain ⟨operations, hoperations, h⟩ := Option.bind_eq_some_iff.mp h
  rw [ofJson?, hrecord]
  simp only [Option.bind_eq_bind, Option.bind_some]
  rw [KeyMap.defaulted_mono (Json.list? (Operation.ofJson? c)) hoperations]
  · exact h
  · intro value hvalue hlist
    cases value with
    | array items =>
      exact mapM_mono hlist fun o ho operation =>
        Operation.ofJson?_of_tagKept (hkept fields items hrecord hvalue o ho)
    | _ => cases hlist

namespace Node

private theorem propertiesOfJson?_of_tagKept {j : Json} {p : Properties Node}
    (hkept : j.TagKept b c)
    (h : propertiesOfJson? b j = some p) : propertiesOfJson? c j = some p := by
  obtain ⟨tagged, htagged, hpayload⟩ := Option.bind_eq_some_iff.mp h
  rw [propertiesOfJson?, hkept _ _ htagged]
  exact hpayload

/-- Whatever is read with a node itself is read alike in two readings. -/
structure TagsKept (b c : Bool) (j : Json) : Prop where
  type : ∀ fields value, j.record? fieldNames = some fields → fields.get? "type" = some value →
    ∀ type, value.name? NodeType.named? b = some type → value.name? NodeType.named? c = some type
  payload : ∀ fields value, j.record? fieldNames = some fields →
    fields.get? "properties" = some value → value.TagKept b c
  operations : ∀ fields value, j.record? fieldNames = some fields →
    fields.get? "composeModifier" = some value →
    ∀ inner operations, value.record? Modifier.fieldNames = some inner →
      inner.get? "operations" = some (.array operations) → ∀ o ∈ operations, o.TagKept b c

theorem ofJson?_of_tagsKept {j : Json} {n : Node} (hkept : TagsKept b c j)
    (h : ofJson? b j = some n) : ofJson? c j = some n := by
  rw [ofJson?_eq] at h ⊢
  obtain ⟨fields, hrecord, h⟩ := Option.bind_eq_some_iff.mp h
  obtain ⟨type, htype, h⟩ := Option.bind_eq_some_iff.mp h
  obtain ⟨modifier, hmodifier, h⟩ := Option.bind_eq_some_iff.mp h
  obtain ⟨properties, hproperties, h⟩ := Option.bind_eq_some_iff.mp h
  have htype' := KeyMap.required_mono (Json.name? NodeType.named? c) htype
    fun value hvalue => hkept.type fields value hrecord hvalue type
  have hmodifier' := KeyMap.defaulted_mono (Modifier.ofJson? c) hmodifier
    fun value hvalue => Modifier.ofJson?_of_tagKept
      (hkept.operations fields value hrecord hvalue)
  have hproperties' := KeyMap.optional_mono (propertiesOfJson? c) hproperties
    fun value p hvalue => propertiesOfJson?_of_tagKept (hkept.payload fields value hrecord hvalue)
  simp only [Option.bind_eq_bind, hrecord, Option.bind_some, htype', hmodifier', hproperties']
  exact h

private theorem tagsKept_buffered (b : Bool) (j : Json) : TagsKept b true j where
  type _ value _ _ _ htype := value.name?_buffered htype
  payload _ value _ _ := value.tagKept_buffered b
  operations _ _ _ _ _ _ _ _ o _ := o.tagKept_buffered b

/-- A node that decodes alone is decoded to the same in every place. -/
theorem ofJson?_buffered {j : Json} {n : Node} (h : ofJson? b j = some n) :
    ofJson? true j = some n :=
  ofJson?_of_tagsKept (tagsKept_buffered b j) h

theorem isSome_ofJson?_buffered {j : Json} (h : (ofJson? b j).isSome) :
    (ofJson? true j).isSome := by
  obtain ⟨n, hn⟩ := Option.isSome_iff_exists.mp h
  exact Option.isSome_iff_exists.mpr ⟨n, ofJson?_buffered hn⟩

/-- A number stands for a tag that is read with the node itself: the one of its payload or of an
operation. -/
def NumbersTags (j : Json) : Prop :=
  (∃ payload, j.field? "properties" = some payload ∧ payload.NumbersTag) ∨
    ∃ modifier fields operations, j.field? "composeModifier" = some modifier ∧
      modifier.record? Modifier.fieldNames = some fields ∧
      fields.get? "operations" = some (.array operations) ∧ ∃ o ∈ operations, o.NumbersTag

theorem field?_of_record? {j : Json} {tag key : String} {fields : KeyMap Json} {value : Json}
    (htype : j.field? "type" = some (.string tag)) (hrecord : j.record? fieldNames = some fields)
    (hvalue : fields.get? key = some value) : j.field? key = some value := by
  cases j with
  | object all => exact Json.get?_of_record?_object hrecord hvalue
  | _ => cases htype

private theorem tagsKept_of_not_numbersTags {j : Json} {tag : String}
    (htype : j.field? "type" = some (.string tag)) (h : ¬NumbersTags j) : TagsKept b c j where
  type fields value hrecord hvalue type hname := by
    have hfield := field?_of_record? htype hrecord hvalue
    obtain rfl : Json.string tag = value := Option.some.inj (htype.symm.trans hfield)
    exact hname
  payload fields value hrecord hvalue := by
    have hfield := field?_of_record? htype hrecord hvalue
    exact Json.tagKept_of_not_numbersTag fun hnumber => h (.inl ⟨value, hfield, hnumber⟩)
  operations fields value hrecord hvalue inner operations hinner hlist o ho := by
    have hfield := field?_of_record? htype hrecord hvalue
    exact Json.tagKept_of_not_numbersTag fun hnumber =>
      h (.inr ⟨value, inner, operations, hfield, hinner, hlist, o, ho, hnumber⟩)

/-- A node whose type is a string decodes alone if it decodes in some place and no number stands for
a tag. -/
theorem ofJson?_unbuffered {j : Json} {n : Node} {tag : String}
    (htype : j.field? "type" = some (.string tag)) (hnumbers : ¬NumbersTags j)
    (h : ofJson? b j = some n) : ofJson? false j = some n :=
  ofJson?_of_tagsKept (tagsKept_of_not_numbersTags htype hnumbers) h

end Node

end ScreenDoc
