import Mathlib.Data.Option.Basic
import ScreenDoc.Proofs.Json.Stable
import ScreenDoc.Proofs.Validate.Trimmed
import ScreenDoc.Proofs.Wire.Action
import ScreenDoc.Proofs.Wire.Node
import ScreenDoc.Proofs.Wire.Properties

/-!
# Decoding what is left

The tables of known fields name what the readers take, so a trimmed value is read as the value
itself. For nodes this needs known tags in the tree: only then is what stands under a child key
the node that the search takes it for.
-/

namespace ScreenDoc

open Json

/-! ## Tables and readers -/

theorem Shape.fieldsOf_of_known {tag : String} {known : List String}
    (h : shapeFields? tag = some known) :
    tag ∈ Shape.tags ∧ known = Shape.fieldsOf tag ∧ "type" ∉ known := by
  unfold shapeFields? at h
  split at h <;> cases h <;> decide

theorem Operation.fieldsOf_of_known {tag : String} {known : List String}
    (h : operationFields? tag = some known) :
    tag ∈ Operation.tags ∧ known = Operation.fieldsOf tag ∧ "type" ∉ known := by
  unfold operationFields? at h
  split at h <;> cases h <;> decide

theorem Action.fieldsOf_of_known {tag : String} {known : List String}
    (h : actionFields? tag = some known) :
    tag ∈ Action.tags ∧ known = Action.fieldsOf tag ∧ "type" ∉ known := by
  unfold actionFields? at h
  split at h <;> cases h <;> decide

private theorem Properties.payloadFields_of_known {tag : String} {known : List String}
    (h : payloadFields? tag = some known) :
    tag ∈ Properties.tags ∧ "type" ∉ known
      ∧ ∃ type, NodeType.ofPayloadTag? tag = some type ∧ known = type.payloadFields := by
  unfold payloadFields? at h
  split at h <;> cases h <;> refine ⟨by decide, by decide, ?_⟩
  · exact ⟨.text, rfl, rfl⟩
  · exact ⟨.image, rfl, rfl⟩
  · exact ⟨.textField, rfl, rfl⟩
  · exact ⟨.switch, rfl, rfl⟩
  · exact ⟨.checkbox, rfl, rfl⟩
  · exact ⟨.column, rfl, rfl⟩
  · exact ⟨.row, rfl, rfl⟩
  · exact ⟨.box, rfl, rfl⟩
  · exact ⟨.button, rfl, rfl⟩
  · exact ⟨.card, rfl, rfl⟩
  · exact ⟨.scaffold, rfl, rfl⟩
  · exact ⟨.topAppBar, rfl, rfl⟩
  · exact ⟨.alertDialog, rfl, rfl⟩
  · exact ⟨.custom, rfl, rfl⟩

/-! ## Records and tagged objects -/

section Fields

variable {places : KeyMap Holding} {fields : KeyMap Json}

private theorem filter_trimFields (keep : String → Bool) :
    (trimFields places fields).filter (fun field => keep field.1)
      = trimFields places (fields.filter fun field => keep field.1) := by
  rw [trimFields, List.filter_map]
  rfl

theorem defaulted_trimFields {α : Type} {key : String} {read : Json → Option α}
    (h : ∀ value, (key, value) ∈ fields →
      read ((places.get? key).elim id Holding.trim value) = read value) (absent : α) :
    (trimFields places fields).defaulted key absent read = fields.defaulted key absent read := by
  unfold KeyMap.defaulted
  rw [get?_trimFields]
  cases hget : fields.get? key with
  | none => rfl
  | some value => exact h value (KeyMap.mem_of_get? hget)

theorem required_trimFields {α : Type} {key : String} {read : Json → Option α}
    (h : ∀ value, (key, value) ∈ fields →
      read ((places.get? key).elim id Holding.trim value) = read value) :
    (trimFields places fields).required key read = fields.required key read := by
  rw [KeyMap.required_eq_defaulted, KeyMap.required_eq_defaulted, defaulted_trimFields]
  exact fun value hvalue => congrArg (Option.map some) (h value hvalue)

end Fields

namespace Role

variable {role : Role} {known : List String} {fields : List (String × Json)}

theorem record?_trim (h : role.known? (.object fields) = some known)
    (hj : (Json.object fields).Distinct) :
    (Json.object fields).record? known = some (Json.known known fields)
      ∧ (role.trim (.object fields)).record? known
        = some (trimFields (role.places known) (Json.known known fields)) := by
  have hkept : Json.known known (trimFields (role.places known)
      (fields.filter fun field => field.1 == "type" || known.contains field.1))
      = trimFields (role.places known) (Json.known known fields) := by
    rw [Json.known, filter_trimFields known.contains, Json.known, List.filter_filter]
    refine congrArg (trimFields _) (List.filter_congr fun field _ => ?_)
    cases known.contains field.1 <;> simp
  refine ⟨record?_of_nodup hj.nodup, ?_⟩
  rw [trim_object h hj.nodup, record?_of_nodup, hkept]
  rw [keys_trimFields]
  exact hj.nodup.sublist (List.filter_sublist.map Prod.fst)

theorem tagged?_trim (h : role.known? (.object fields) = some known)
    (hj : (Json.object fields).Distinct) {tag : String}
    (htag : (Json.object fields).typeName? = some tag) (htype : "type" ∉ known)
    {tags : List String} (hmem : tag ∈ tags) (buffered : Bool) :
    ∃ content rest, (Json.object fields).tagged? tags buffered = some (tag, .object content)
      ∧ (role.trim (.object fields)).tagged? tags buffered = some (tag, .object rest)
      ∧ (Json.object content).record? known = some (Json.known known fields)
      ∧ (Json.object rest).record? known
        = some (trimFields (role.places known) (Json.known known fields)) := by
  have htagged {fields : List (String × Json)} (hkeys : (KeyMap.keys fields).Nodup)
      (htag : (Json.object fields).typeName? = some tag) :
      (Json.object fields).tagged? tags buffered
          = some (tag, .object (fields.filter fun field => field.1 != "type"))
        ∧ (Json.object (fields.filter fun field => field.1 != "type")).record? known
          = (Json.object fields).record? known := by
    obtain ⟨value, hvalue, hstring⟩ := Option.bind_eq_some_iff.mp htag
    -- The tag is no known field, so a record does not miss it.
    have hknown : Json.known known (fields.filter fun field => field.1 != "type")
        = Json.known known fields := by
      rw [Json.known, Json.known, List.filter_filter]
      refine List.filter_congr fun field _ => ?_
      by_cases hfield : field.1 = "type"
      · simp [hfield, htype]
      · simp [hfield]
    cases value with
    | string s =>
      cases hstring
      rw [field?] at hvalue
      rw [tagged?_object_of_nodup hkeys, hvalue, record?_of_nodup hkeys, record?_of_nodup
        (hkeys.sublist (List.filter_sublist.map Prod.fst)), hknown]
      simp [tag?, hmem]
    | _ => cases hstring
  obtain ⟨hleft, hrecord⟩ := htagged hj.nodup htag
  obtain ⟨hknown, htrim⟩ := record?_trim h hj
  have htag' := (role.typeName?_trim hj).trans htag
  have hkeys' : (KeyMap.keys (fields.filter fun field =>
      field.1 == "type" || known.contains field.1)).Nodup :=
    hj.nodup.sublist (List.filter_sublist.map Prod.fst)
  rw [trim_object h hj.nodup] at htag' htrim ⊢
  obtain ⟨hright, hrecord'⟩ := htagged (by rwa [keys_trimFields]) htag'
  exact ⟨_, _, hleft, hright, hrecord.trans hknown, hrecord'.trans htrim⟩

/-- A tagged object is read as before if what stands beside its tag is. -/
theorem bind_tagged?_trim {α : Type} {table : String → Option (List String)}
    {fieldsOf : String → List String} {tags : List String} (content? : String → Json → Option α)
    {j : Json} (hj : j.Distinct) (buffered : Bool)
    (hlooked : role.known? j = j.typeName?.bind table)
    (htable : ∀ {tag known}, table tag = some known →
      tag ∈ tags ∧ known = fieldsOf tag ∧ "type" ∉ known)
    (hcontent : ∀ {fields content rest : List (String × Json)} {tag : String},
      j = .object fields →
      (Json.object content).record? (fieldsOf tag) = some (Json.known (fieldsOf tag) fields) →
      (Json.object rest).record? (fieldsOf tag)
        = some (trimFields (role.places (fieldsOf tag)) (Json.known (fieldsOf tag) fields)) →
      content? tag (.object rest) = content? tag (.object content)) :
    (((role.trim j).tagged? tags buffered).bind fun part => content? part.1 part.2)
      = (j.tagged? tags buffered).bind fun part => content? part.1 part.2 := by
  cases hknown : role.known? j with
  | none => rw [trim_of_none hknown]
  | some known =>
    obtain ⟨fields, rfl⟩ := object_of_known? hknown
    obtain ⟨tag, htag, hnames⟩ := Option.bind_eq_some_iff.mp (hlooked ▸ hknown)
    obtain ⟨hmem, rfl, htype⟩ := htable hnames
    obtain ⟨content, rest, hleft, hright, hrecord, hrest⟩ :=
      tagged?_trim hknown hj htag htype hmem buffered
    rw [hleft, hright]
    exact hcontent rfl hrecord hrest

end Role

theorem Holding.list?_trim {α : Type} {role : Role} {read : Json → Option α} {j : Json}
    (h : ∀ items, j = .array items → ∀ item ∈ items, read (role.trim item) = read item) :
    ((Holding.items role).trim j).list? read = j.list? read := by
  cases j with
  | array items =>
    rw [Holding.trim_items]
    exact mapM_map_congr (h items rfl)
  | _ => rfl

theorem known_distinct {names : List String} {fields : List (String × Json)}
    (hj : (Json.object fields).Distinct) {key : String} {value : Json}
    (h : (key, value) ∈ Json.known names fields) : value.Distinct :=
  hj.fields (key, value) (List.mem_filter.mp h).1

/-! ## Modifiers -/

theorem Shape.ofJson?_trim {j : Json} (hj : j.Distinct) :
    Shape.ofJson? (Role.shape.trim j) = Shape.ofJson? j := by
  have hlooked : Role.shape.known? j = j.typeName?.bind shapeFields? := rfl
  refine Role.bind_tagged?_trim Shape.ofContent? hj true hlooked Shape.fieldsOf_of_known
    fun _ hcontent hrest => ?_
  rw [show trimFields (Role.shape.places _) _ = _ from List.map_id _] at hrest
  unfold Shape.ofContent?
  split
  · rfl
  · rfl
  · rw [CornerRadii.ofContent?, CornerRadii.ofContent?, hcontent, hrest]
  · rfl

namespace Operation

theorem ofFields?_trim {tag : String} {fields : List (String × Json)}
    (hj : (Json.object fields).Distinct) (names : List String) :
    ofFields? tag (trimFields (Role.operation.places names) (Json.known names fields))
      = ofFields? tag (Json.known names fields) := by
  have hplain {α : Type} {key : String} (hkey : key ≠ "shape") (read : Json → Option α) :
      (trimFields (Role.operation.places names) (Json.known names fields)).required key read
        = (Json.known names fields).required key read := by
    refine required_trimFields fun value _ => ?_
    rw [Role.places, KeyMap.get?_cons, if_neg hkey]
    rfl
  have hshape : (trimFields (Role.operation.places names) (Json.known names fields)).required
      "shape" Shape.ofJson? = (Json.known names fields).required "shape" Shape.ofJson? := by
    refine required_trimFields fun value hvalue => ?_
    rw [Role.places, KeyMap.get?_cons, if_pos rfl, Option.elim_some, Holding.trim_whole]
    exact Shape.ofJson?_trim (known_distinct hj hvalue)
  unfold ofFields?
  split <;> simp [hplain, hshape]

theorem ofJson?_trim {j : Json} (hj : j.Distinct) (buffered : Bool) :
    Operation.ofJson? buffered (Role.operation.trim j) = Operation.ofJson? buffered j := by
  have hlooked : Role.operation.known? j = j.typeName?.bind operationFields? := rfl
  refine Role.bind_tagged?_trim ofContent? hj buffered hlooked fieldsOf_of_known
    fun heq hcontent hrest => ?_
  subst heq
  unfold ofContent?
  split
  · rfl
  · rfl
  · rfl
  · simp only [hcontent, hrest, Option.bind_eq_bind, Option.bind_some, ofFields?_trim hj]

end Operation

theorem Modifier.ofJson?_trim {j : Json} (hj : j.Distinct) (buffered : Bool) :
    Modifier.ofJson? buffered (Role.modifier.trim j) = Modifier.ofJson? buffered j := by
  cases j with
  | object fields =>
    have hknown : Role.modifier.known? (.object fields) = some Modifier.fieldNames := rfl
    obtain ⟨hrecord, htrim⟩ := Role.record?_trim hknown hj
    have hoperations : (trimFields (Role.modifier.places fieldNames)
        (Json.known fieldNames fields)).defaulted "operations" []
          (Json.list? (Operation.ofJson? buffered))
        = (Json.known fieldNames fields).defaulted "operations" []
          (Json.list? (Operation.ofJson? buffered)) := by
      refine defaulted_trimFields (fun value hvalue => ?_) []
      rw [Role.places, KeyMap.get?_cons, if_pos rfl, Option.elim_some]
      refine Holding.list?_trim fun items hitems item hitem => ?_
      subst hitems
      exact Operation.ofJson?_trim ((known_distinct hj hvalue).items item hitem) buffered
    simp only [ofJson?, hrecord, htrim, Option.bind_eq_bind, Option.bind_some, hoperations]
  | _ => rw [Role.trim_of_none rfl]

/-! ## Scripts -/

namespace Action

theorem ofFields?_trim {tag : String} {fields : List (String × Json)} (htag : tag ≠ "Sequence") :
    ofFields? tag (trimFields (Role.action.places (fieldsOf tag))
        (Json.known (fieldsOf tag) fields))
      = ofFields? tag (Json.known (fieldsOf tag) fields) := by
  -- Only the fields of a sequence have parts in them.
  have hplain {α : Type} {key : String} (hkey : key ≠ "actions") (names : List String)
      (absent : α) (read : Json → Option α) :
      (trimFields (Role.action.places names) (Json.known names fields)).defaulted key absent read
        = (Json.known names fields).defaulted key absent read := by
    refine defaulted_trimFields (fun value _ => ?_) absent
    rw [Role.places, KeyMap.get?_cons, if_neg hkey]
    rfl
  have hrequired {α : Type} {key : String} (hkey : key ≠ "actions") (names : List String)
      (read : Json → Option α) :
      (trimFields (Role.action.places names) (Json.known names fields)).required key read
        = (Json.known names fields).required key read := by
    rw [KeyMap.required_eq_defaulted, KeyMap.required_eq_defaulted, hplain hkey]
  unfold ofFields?
  split <;> simp [hplain, hrequired]

theorem ofJson?_trim {j : Json} (hj : j.Distinct) (buffered : Bool) :
    Action.ofJson? buffered (Role.action.trim j) = Action.ofJson? buffered j := by
  -- Induction on the size: the actions of a sequence are smaller than what it stands in.
  induction hsize : j.size using Nat.strong_induction_on generalizing j buffered with
  | h size ih =>
    have hlooked : Role.action.known? j = j.typeName?.bind actionFields? := rfl
    refine Role.bind_tagged?_trim ofContent? hj buffered hlooked fieldsOf_of_known
      fun {fields _ _ tag} heq hcontent hrest => ?_
    subst heq
    by_cases hsequence : tag = "Sequence"
    · subst hsequence
      have hactions : (trimFields (Role.action.places (fieldsOf "Sequence"))
          (Json.known (fieldsOf "Sequence") fields)).required "actions"
            (Json.list? (Action.ofJson? true))
          = (Json.known (fieldsOf "Sequence") fields).required "actions"
            (Json.list? (Action.ofJson? true)) := by
        refine required_trimFields fun value hvalue => ?_
        rw [Role.places, KeyMap.get?_cons, if_pos rfl, Option.elim_some]
        refine Holding.list?_trim fun items hitems item hitem => ?_
        subst hitems
        have hmem := (List.mem_filter.mp hvalue).1
        have hlt : item.size < size := hsize ▸
          (size_lt_of_mem_items hitem).trans (size_lt_of_mem_fields hmem)
        exact ih item.size hlt ((known_distinct hj hvalue).items item hitem) true rfl
      rw [ofContent?_sequence, ofContent?_sequence, hcontent, hrest]
      simp only [Option.bind_eq_bind, Option.bind_some, hactions]
    · rw [ofContent?_of_ne hsequence, ofContent?_of_ne hsequence, hcontent, hrest,
        Option.bind_some, Option.bind_some, ofFields?_trim hsequence]

end Action

/-! ## Nodes -/

/-- A tree whose tags are known, as far as the checks go down. -/
def Json.WellTagged (j : Json) : Prop :=
  ∃ path, j.checkTags path = []

theorem Json.WellTagged.child {j : Json} (h : j.WellTagged) {child : ChildPlace × Json}
    (hchild : child ∈ j.childNodes) : child.2.WellTagged := by
  obtain ⟨path, hpath⟩ := h
  rw [checkTags_eq, List.append_eq_nil_iff, List.flatMap_eq_nil_iff] at hpath
  exact ⟨_, hpath.2 child hchild⟩

theorem Json.WellTagged.typeName? {j : Json} (h : j.WellTagged) :
    ∃ tag, j.typeName? = some tag := by
  obtain ⟨path, hpath⟩ := h
  rw [checkTags_eq, List.append_eq_nil_iff] at hpath
  cases j with
  | object fields =>
    have htype := (List.append_eq_nil_iff.mp hpath.1).1
    cases htag : (object fields).typeName? with
    | none => simp [htag] at htype
    | some tag => exact ⟨tag, rfl⟩
  | _ => cases hpath.1

theorem Json.distinct_of_underChildKeys {fields : KeyMap Json} (hj : (object fields).Distinct)
    {child : ChildPlace × Json} (h : child ∈ underChildKeys fields) : child.2.Distinct := by
  rw [underChildKeys_eq] at h
  obtain ⟨key, -, h⟩ := List.mem_flatMap.mp h
  cases hvalue : fields.get? key with
  | none => simp [hvalue] at h
  | some value =>
    rw [hvalue, Option.elim_some] at h
    have hdistinct := hj.fields _ (KeyMap.mem_of_get? hvalue)
    cases value with
    | object inner =>
      rw [List.mem_singleton.mp h]
      exact hdistinct
    | array items =>
      obtain ⟨⟨item, i⟩, hitem, rfl⟩ := List.mem_map.mp h
      exact hdistinct.items item (List.fst_mem_of_mem_zipIdx hitem)
    | _ => cases h

theorem Json.exists_place_of_mem {items : List Json} {item : Json} (h : item ∈ items)
    (key : String) : ∃ place, (place, item) ∈ childrenUnder key (array items) := by
  obtain ⟨i, hi⟩ := List.getElem?_of_mem h
  exact ⟨⟨key, some i⟩, mem_childrenUnder_item hi⟩

private theorem Json.name?_of_typeName? {α : Type} {named? : String → Option α} {buffered : Bool}
    {j : Json} {tag : String} (h : j.typeName? = some tag) : j.name? named? buffered = none := by
  obtain ⟨fields, rfl⟩ := object_of_typeName? h
  unfold name?
  split
  · rename_i heq
    cases heq
  · rename_i key heq
    cases heq
    by_cases hkey : "type" = key <;>
      simp [Json.typeName?, field?, KeyMap.get?_cons, hkey, string?] at h
  · rename_i key heq
    cases heq
    by_cases hkey : "type" = key <;>
      simp [Json.typeName?, field?, KeyMap.get?_cons, hkey, string?] at h
  · rfl

theorem Node.ofJson?_array {items : List Json}
    (h : ∀ item ∈ items, ∃ tag, item.typeName? = some tag) (buffered : Bool) :
    Node.ofJson? buffered (.array items) = none := by
  rw [ofJson?_eq]
  cases items with
  | nil => rfl
  | cons item items =>
    obtain ⟨tag, htag⟩ := h item List.mem_cons_self
    have hname : item.name? NodeType.named? buffered = none := name?_of_typeName? htag
    have hrequired : KeyMap.required (fieldNames.zip (item :: items)) "type"
        (Json.name? NodeType.named? buffered) = none := by
      rw [KeyMap.required, fieldNames, List.zip_cons_cons, KeyMap.get?_cons, if_pos rfl]
      exact hname
    rw [record?]
    split
    · simp [hrequired]
    · rfl

/-- A function that does not look into containers does not see them trimmed. -/
theorem Holding.children_trim_congr {α : Type} {g : Json → α}
    (hobject : ∀ fields rest, g (.object fields) = g (.object rest))
    (harray : ∀ items rest, g (.array items) = g (.array rest)) (j : Json) :
    g (children.trim j) = g j := by
  cases j with
  | object fields =>
    obtain ⟨rest, hrest⟩ := Role.node.exists_trim_object fields
    rw [trim_children_object, hrest, hobject]
  | array items => rw [trim_children_array, harray]
  | _ => rfl

namespace Properties

/-- Fields of a payload and the same fields with their children trimmed. -/
structure Trimmed (fields rest : KeyMap Json) : Prop where
  child : ∀ key ∈ Rules.childKeys, rest.get? key = (fields.get? key).map Holding.children.trim
  plain : ∀ key, key ∉ Rules.childKeys → rest.get? key = fields.get? key
  items : ∀ key ∈ Rules.childKeys, ∀ items, fields.get? key = some (.array items) →
    ∀ item ∈ items, ∃ inner, item = .object inner

section Trimmed

variable {fields rest : KeyMap Json}

theorem Trimmed.optional {α : Type} (h : Trimmed fields rest) (read : Json → Option α)
    (hobject : ∀ fields rest, read (.object fields) = read (.object rest))
    (harray : ∀ items rest, read (.array items) = read (.array rest)) (key : String) :
    rest.optional key read = fields.optional key read := by
  rw [KeyMap.optional_eq_defaulted, KeyMap.optional_eq_defaulted]
  unfold KeyMap.defaulted
  by_cases hkey : key ∈ Rules.childKeys
  · rw [h.child key hkey]
    cases fields.get? key with
    | none => rfl
    | some value =>
      refine Holding.children_trim_congr (g := nullable? read) (fun _ _ => ?_) (fun _ _ => ?_) value
      · exact congrArg (Option.map some) (hobject _ _)
      · exact congrArg (Option.map some) (harray _ _)
  · rw [h.plain key hkey]

theorem Trimmed.childSlot (h : Trimmed fields rest) {key : String} (hkey : key ∈ Rules.childKeys) :
    childSlot rest key = (childSlot fields key).map Holding.children.trim := by
  unfold Properties.childSlot
  rw [h.child key hkey]
  cases fields.get? key with
  | none => rfl
  | some value =>
    cases value with
    | object fields =>
      obtain ⟨rest, hrest⟩ := Role.node.exists_trim_object fields
      simp only [Option.map_some, Holding.trim_children_object, hrest]
    | array items => simp only [Option.map_some, Holding.trim_children_array]
    | _ => rfl

theorem Trimmed.childItems? (h : Trimmed fields rest) {key : String}
    (hkey : key ∈ Rules.childKeys) :
    childItems? rest key = (childItems? fields key).map (List.map Holding.children.trim) := by
  unfold Properties.childItems?
  rw [h.child key hkey]
  cases hvalue : fields.get? key with
  | none => rfl
  | some value =>
    cases value with
    | object fields =>
      obtain ⟨rest, hrest⟩ := Role.node.exists_trim_object fields
      simp only [Option.map_some, Holding.trim_children_object, hrest, Option.map_none]
    | array items =>
      simp only [Option.map_some, Holding.trim_children_array, Option.some.injEq]
      refine List.map_congr_left fun item hitem => ?_
      obtain ⟨inner, rfl⟩ := h.items key hkey items hvalue item hitem
      rw [Holding.trim_children_object]
    | _ => rfl

private theorem ofFields?_trimmed (h : Trimmed fields rest) (type : NodeType) :
    ofFields? type rest = (ofFields? type fields).map fun p => p.map Holding.children.trim := by
  have hstring := h.optional string? (fun _ _ => rfl) fun _ _ => rfl
  have hbool := h.optional bool? (fun _ _ => rfl) fun _ _ => rfl
  have hint := h.optional int32? (fun _ _ => rfl) fun _ _ => rfl
  have huint := h.optional uint32? (fun _ _ => rfl) fun _ _ => rfl
  have htype : rest.required "customType" string? = fields.required "customType" string? := by
    rw [KeyMap.required, h.plain _ (by decide), KeyMap.required]
  have hdata : rest.defaulted "data" ∅ map? = fields.defaulted "data" ∅ map? := by
    rw [KeyMap.defaulted, h.plain _ (by decide), KeyMap.defaulted]
  have hslot {key : String} (hkey : key ∈ Rules.childKeys) := h.childSlot hkey
  have hitems {key : String} (hkey : key ∈ Rules.childKeys) := h.childItems? hkey
  cases type <;>
    simp (disch := decide) [ofFields?, toggle?, hslot, hitems, hstring, hbool, hint, huint, htype,
      hdata, Option.map_bind, Option.bind_map, map, mapIdx, mapIdx_const]

end Trimmed

end Properties

namespace Node

theorem childKeys_of_slotKeys (type : NodeType) :
    ∀ key ∈ Properties.slotKeys type, key ∈ Rules.childKeys := by
  cases type <;> decide

theorem childKeys_of_listKeys (type : NodeType) :
    ∀ key ∈ Properties.listKeys type, key ∈ Rules.childKeys := by
  cases type <;> decide

private theorem trimmed_payload {fields : List (String × Json)} {names : List String}
    (hitems : ∀ key ∈ Rules.childKeys, ∀ items, KeyMap.get? fields key = some (.array items) →
      ∀ item ∈ items, ∃ inner, item = .object inner) :
    Properties.Trimmed (Json.known names fields)
      (trimFields (Role.payload.places names) (Json.known names fields)) := by
  have hplaces (key : String) : (Role.payload.places names).get? key
      = if key ∈ Rules.childKeys.filter names.contains then some .children else none := by
    rw [Role.places]
    induction Rules.childKeys.filter names.contains with
    | nil => rfl
    | cons first keys ih =>
      rw [List.map_cons, KeyMap.get?_cons, ih]
      by_cases hkey : key = first <;> simp [hkey]
  have hmem {key : String} (h : (Json.known names fields).get? key ≠ none) :
      names.contains key = true := by
    rw [Json.known, KeyMap.get?_filter names.contains] at h
    by_contra hnot
    exact h (if_neg hnot)
  refine ⟨fun key hkey => ?_, fun key hkey => ?_, fun key hkey items hget item hitem => ?_⟩
  · rw [get?_trimFields, hplaces]
    cases hget : (Json.known names fields).get? key with
    | none => rfl
    | some value =>
      rw [if_pos (List.mem_filter.mpr ⟨hkey, hmem (by simp [hget])⟩), Option.elim_some]
  · rw [get?_trimFields, hplaces, if_neg fun h => hkey (List.mem_filter.mp h).1, Option.elim_none,
      Option.map_id, id_eq]
  · exact hitems key hkey items (Json.get?_of_get?_known hget) item hitem

private theorem propertiesOfJson?_trim {j : Json} (hj : j.Distinct) (buffered : Bool)
    (htags : ∀ fields, j = .object fields → ∀ child ∈ underChildKeys fields,
      child.2.WellTagged
        ∧ Node.ofJson? true (Role.node.trim child.2) = Node.ofJson? true child.2) :
    propertiesOfJson? buffered (Role.payload.trim j) = propertiesOfJson? buffered j := by
  cases hknown : Role.payload.known? j with
  | none => rw [Role.trim_of_none hknown]
  | some known =>
    obtain ⟨fields, rfl⟩ := Role.object_of_known? hknown
    obtain ⟨tag, htag, htable⟩ := Option.bind_eq_some_iff.mp hknown
    obtain ⟨hmem, htype, type, hpayload, rfl⟩ := Properties.payloadFields_of_known htable
    obtain ⟨content, rest, hleft, hright, hcontent, hrest⟩ :=
      Role.tagged?_trim hknown hj htag htype hmem buffered
    have hchild {key : String} (hkey : key ∈ Rules.childKeys) {value : Json}
        (hvalue : KeyMap.get? fields key = some value) :
        ∀ child ∈ childrenUnder key value, child.2.WellTagged
          ∧ Node.ofJson? true (Role.node.trim child.2) = Node.ofJson? true child.2 :=
      fun child hchild => htags fields rfl child (mem_underChildKeys hkey hvalue hchild)
    have hitem {key : String} (hkey : key ∈ Rules.childKeys) {items : List Json}
        (hvalue : KeyMap.get? fields key = some (.array items)) :
        ∀ item ∈ items, item.WellTagged
          ∧ Node.ofJson? true (Role.node.trim item) = Node.ofJson? true item := by
      intro item hitem
      obtain ⟨place, hplace⟩ := exists_place_of_mem hitem key
      exact hchild hkey hvalue _ hplace
    have htrimmed : Properties.Trimmed (Json.known type.payloadFields fields)
        (trimFields (Role.payload.places type.payloadFields)
          (Json.known type.payloadFields fields)) := by
      refine trimmed_payload fun key hkey items hget item hmem => ?_
      obtain ⟨tag, htag⟩ := (hitem hkey hget item hmem).1.typeName?
      exact object_of_typeName? htag
    simp only [propertiesOfJson?, hleft, hright, Option.bind_some, payload?, Properties.ofContent?,
      hpayload, hcontent, hrest, Option.bind_eq_bind, Properties.ofFields?_trimmed htrimmed type]
    cases hp : Properties.ofFields? type (Json.known type.payloadFields fields) with
    | none => rfl
    | some p =>
      refine Properties.traverse_map_congr
        (Properties.forall_children_of_ofFields? (fun key hkey c hc => ?_)
          (fun key hkey items hlist c hc => ?_) hp)
      · have hkey := childKeys_of_slotKeys type key hkey
        have hvalue := Json.get?_of_get?_known
          (Properties.mem_childSlot (Option.mem_toList.mpr hc))
        cases c with
        | object inner =>
          rw [Holding.trim_children_object]
          exact (hchild hkey hvalue (⟨key, none⟩, .object inner) (List.mem_singleton_self _)).2
        | array items =>
          -- A list in a slot holds nodes, but it would have to be one.
          have htyped : ∀ item ∈ items, ∃ tag, item.typeName? = some tag := fun item hmem =>
            (hitem hkey hvalue item hmem).1.typeName?
          rw [Holding.trim_children_array, ofJson?_array htyped, ofJson?_array]
          intro rest hrest
          obtain ⟨item, hmem, rfl⟩ := List.mem_map.mp hrest
          have hdistinct := (hj.fields _ (KeyMap.mem_of_get? hvalue)).items item hmem
          rw [Role.typeName?_trim _ hdistinct]
          exact htyped item hmem
        | _ => rfl
      · have hkey := childKeys_of_listKeys type key hkey
        have hvalue := Json.get?_of_get?_known (Properties.mem_childItems? hlist hc)
        obtain ⟨htagged, hread⟩ := hitem hkey hvalue c hc
        obtain ⟨tag, htag⟩ := htagged.typeName?
        obtain ⟨inner, rfl⟩ := object_of_typeName? htag
        rw [Holding.trim_children_object]
        exact hread

theorem ofJson?_trim {j : Json} (hj : j.Distinct) (htags : j.WellTagged) (buffered : Bool) :
    Node.ofJson? buffered (Role.node.trim j) = Node.ofJson? buffered j := by
  -- Induction on the tree: what stands under the child keys of a payload are trees with known
  -- tags.
  induction j using childNodes_induction generalizing buffered with
  | node j ih =>
    obtain ⟨tag, htag⟩ := htags.typeName?
    obtain ⟨fields, rfl⟩ := object_of_typeName? htag
    have hknown : Role.node.known? (.object fields) = some fieldNames := rfl
    obtain ⟨hrecord, htrim⟩ := Role.record?_trim hknown hj
    have htype : (trimFields (Role.node.places fieldNames) (Json.known fieldNames fields)).required
          "type" (Json.name? NodeType.named? buffered)
        = (Json.known fieldNames fields).required "type"
          (Json.name? NodeType.named? buffered) :=
      required_trimFields fun value _ => rfl
    have hmodifier : (trimFields (Role.node.places fieldNames)
          (Json.known fieldNames fields)).defaulted "composeModifier" {}
            (Modifier.ofJson? buffered)
        = (Json.known fieldNames fields).defaulted "composeModifier" {}
            (Modifier.ofJson? buffered) := by
      refine defaulted_trimFields (fun value hvalue => ?_) _
      have hplace : (Role.node.places fieldNames).get? "composeModifier"
        = some (.whole .modifier) := rfl
      rw [hplace, Option.elim_some, Holding.trim_whole]
      exact Modifier.ofJson?_trim (known_distinct hj hvalue) buffered
    have hproperties : (trimFields (Role.node.places fieldNames)
          (Json.known fieldNames fields)).optional "properties" (propertiesOfJson? buffered)
        = (Json.known fieldNames fields).optional "properties" (propertiesOfJson? buffered) := by
      rw [KeyMap.optional_eq_defaulted, KeyMap.optional_eq_defaulted]
      refine defaulted_trimFields (fun value hvalue => ?_) _
      have hplace : (Role.node.places fieldNames).get? "properties"
        = some (.whole .payload) := rfl
      rw [hplace, Option.elim_some, Holding.trim_whole]
      have hdistinct := known_distinct hj hvalue
      have hget := KeyMap.get?_of_mem hj.nodup (List.mem_filter.mp hvalue).1
      cases value with
      | object payload =>
        have hchildren : (object fields).childNodes = underChildKeys payload := by
          simp only [childNodes, Json.payload?, field?, hget, Option.bind_some, fields?]
        have hread : propertiesOfJson? buffered (Role.payload.trim (.object payload))
            = propertiesOfJson? buffered (.object payload) := by
          refine propertiesOfJson?_trim hdistinct buffered fun payload' heq child hchild => ?_
          cases heq
          have hdistinct' := distinct_of_underChildKeys hdistinct hchild
          rw [← hchildren] at hchild
          exact ⟨htags.child hchild, ih child hchild hdistinct' (htags.child hchild) true⟩
        obtain ⟨rest, hrest⟩ := Role.payload.exists_trim_object payload
        rw [hrest] at hread ⊢
        exact congrArg (Option.map some) hread
      | _ => rw [Role.trim_of_none rfl]
    rw [ofJson?_eq, ofJson?_eq]
    simp only [hrecord, htrim, Option.bind_eq_bind, Option.bind_some, htype, hmodifier, hproperties]

end Node

/-! ## Documents -/

namespace Document

private theorem actionsOfJson?_trim {j : Json} (hj : j.Distinct) :
    actionsOfJson? (Holding.scripts.trim j) = actionsOfJson? j := by
  cases j with
  | object scripts =>
    rw [Holding.trim_scripts hj.nodup, actionsOfJson?_object, actionsOfJson?_object]
    refine congrArg (Option.map SortedMap.ofList) (mapM_map_congr fun script hscript => ?_)
    refine congrArg (Option.map fun actions => (script.1, actions)) ?_
    refine Holding.list?_trim fun items hitems item hitem => ?_
    have hdistinct := hj.fields script hscript
    rw [hitems] at hdistinct
    exact Action.ofJson?_trim (hdistinct.items item hitem) false
  | _ => rw [Holding.trim_of_nil rfl]

theorem ofJson?_trim {fields : List (String × Json)} (hj : (Json.object fields).Distinct)
    (htags : ∀ root, KeyMap.get? fields "root" = some root → root.WellTagged) :
    Document.ofJson? (Role.document.trim (.object fields)) = Document.ofJson? (.object fields) := by
  have hknown : Role.document.known? (.object fields) = some fieldNames := rfl
  obtain ⟨hrecord, htrim⟩ := Role.record?_trim hknown hj
  have hstate : (trimFields (Role.document.places fieldNames)
        (Json.known fieldNames fields)).defaulted "initialState" ∅ Json.map?
      = (Json.known fieldNames fields).defaulted "initialState" ∅ Json.map? :=
    defaulted_trimFields (fun value _ => rfl) ∅
  have hactions : (trimFields (Role.document.places fieldNames)
        (Json.known fieldNames fields)).defaulted "actions" ∅ actionsOfJson?
      = (Json.known fieldNames fields).defaulted "actions" ∅ actionsOfJson? :=
    defaulted_trimFields (fun value hvalue => actionsOfJson?_trim (known_distinct hj hvalue)) ∅
  have hroot : (trimFields (Role.document.places fieldNames)
        (Json.known fieldNames fields)).required "root" (Node.ofJson? false)
      = (Json.known fieldNames fields).required "root" (Node.ofJson? false) := by
    refine required_trimFields fun value hvalue => ?_
    have hplace : (Role.document.places fieldNames).get? "root" = some (.whole .node) := rfl
    have hget := KeyMap.get?_of_mem hj.nodup (List.mem_filter.mp hvalue).1
    rw [hplace, Option.elim_some, Holding.trim_whole]
    exact Node.ofJson?_trim (known_distinct hj hvalue) (htags value hget) false
  simp only [ofJson?, hrecord, htrim, Option.bind_eq_bind, Option.bind_some, hstate, hactions,
    hroot]

end Document

end ScreenDoc
